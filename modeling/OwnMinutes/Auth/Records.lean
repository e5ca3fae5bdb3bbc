import OwnMinutes.Auth.ProcessingRoute
import OwnMinutes.Lib.Keyed
import OwnMinutes.Lib.Newest

/-! # The records of the auth store

The rows both backends keep: accounts, quota reservations, provider steps, usage events,
entitlement grants, billing orders and Apple subscriptions. A field that the source writes
`name?: type` (or a nullable column) is an `Option`. The local store reads its file through
`normalizeStore`, so the free-trial fields of an account are always present here. -/

namespace OwnMinutes.Auth.Records

open OwnMinutes.Lib.Keyed OwnMinutes.Lib.Newest OwnMinutes.Auth.ProcessingRoute

abbrev UserId := String
abbrev MeetingId := String
abbrev ReservationId := String
abbrev ProviderStepId := String
abbrev UsageEventId := String
abbrev GrantId := String
abbrev BillingOrderId := String
abbrev TransactionId := String
abbrev ClaimToken := String
abbrev TokenHash := String

/-! ### Errors -/

/-- `AuthError`: the text, the HTTP status and the code, if it has one. -/
structure AuthError where
  message : String
  status : ℕ := 400
  code : Option String := none
  deriving DecidableEq, Repr

/-! ### Accounts -/

inductive BillingPlanId
  | free | plus | pro
  deriving DecidableEq, Repr

def getPlanMinutes : BillingPlanId → ℤ
  | .pro => 1800
  | .plus => 600
  | .free => 60

inductive UserProcessingMode
  | officialQuota | byok
  deriving DecidableEq, Repr

def FREE_TRIAL_MINUTES : ℤ := 60
def FREE_TRIAL_SOURCE : String := "free_trial"

structure UserRecord where
  id : UserId
  plan : BillingPlanId := .free
  createdAt : Timestamp := 0
  deletedAt : Option Timestamp := none
  officialMinutesTotal : ℤ := FREE_TRIAL_MINUTES
  officialMinutesUsed : ℤ := 0
  freeTrialGrantedAt : Timestamp := createdAt
  freeTrialMinutesTotal : ℤ := FREE_TRIAL_MINUTES
  freeTrialMinutesUsed : ℤ := 0
  officialMinutesBillingOrderId : Option BillingOrderId := none
  officialMinutesPeriodStartAt : Option Timestamp := none
  officialMinutesPeriodEndAt : Option Timestamp := none
  officialMinutesPeriodSource : Option String := none
  processingMode : UserProcessingMode := .officialQuota
  deriving DecidableEq, Repr

instance : HasKey UserRecord UserId := ⟨UserRecord.id⟩

/-- `!item.deletedAt`. -/
def UserRecord.active (user : UserRecord) : Bool := user.deletedAt.isNone

/-- The part of `SafeUser` that the quota and the plan determine. -/
structure SafeUser where
  id : UserId
  plan : BillingPlanId
  officialMinutesTotal : ℤ
  officialMinutesUsed : ℤ
  processingMode : UserProcessingMode
  deriving DecidableEq, Repr

def toSafeUser (user : UserRecord) : SafeUser where
  id := user.id
  plan := user.plan
  officialMinutesTotal := user.officialMinutesTotal
  officialMinutesUsed := user.officialMinutesUsed
  processingMode := user.processingMode

/-! ### Reservations, provider steps and usage events -/

structure MeetingProcessingReservationRecord where
  id : ReservationId
  userId : UserId
  meetingId : MeetingId
  operationKey : String
  processingRoute : MeetingProcessingRoute
  processedMinutes : ℤ := 0
  officialMinutesReserved : ℤ := 0
  officialMinutesSettled : ℤ := 0
  realtimeDurationMs : ℤ := 0
  realtimeHighestSequence : ℤ := 0
  reservationExpiresAt : Timestamp
  releasedAt : Option Timestamp := none
  status : ReservationStatus := .reserved
  quotaPeriodSource : Option String := none
  quotaPeriodStartAt : Option Timestamp := none
  quotaBillingOrderId : Option BillingOrderId := none
  resultGeneratedAt : Option String := none
  finalizedAt : Option Timestamp := none
  deriving DecidableEq, Repr

instance : HasKey MeetingProcessingReservationRecord ReservationId :=
  ⟨MeetingProcessingReservationRecord.id⟩

structure MeetingProviderStepRecord where
  id : ProviderStepId
  reservationId : ReservationId
  userId : UserId
  stageKey : String
  stageType : StageType
  sequence : Option ℤ := none
  status : MeetingProviderStepStatus := .claimed
  claimTokenHash : TokenHash
  leaseExpiresAt : Timestamp
  officialMinutesSettled : ℤ := 0
  freeTrialMinutesSettled : ℤ := 0
  settlementPeriodIdentity : Option String := none
  startedAt : Option Timestamp := none
  completedAt : Option Timestamp := none
  releasedAt : Option Timestamp := none
  deriving DecidableEq, Repr

instance : HasKey MeetingProviderStepRecord ProviderStepId := ⟨MeetingProviderStepRecord.id⟩

inductive UsageEventType
  | registerBonus | meetingFinalize | manualAdjustment
  deriving DecidableEq, Repr

structure UsageEventRecord where
  id : UsageEventId
  userId : UserId
  type : UsageEventType
  minutes : ℤ
  note : String
  processingReservationId : Option ReservationId := none
  deriving DecidableEq, Repr

/-! ### Entitlement grants and billing orders -/

inductive EntitlementGrantSource
  | adminManual | appleIap | manualOrder
  deriving DecidableEq, Repr

def EntitlementGrantSource.text : EntitlementGrantSource → String
  | .adminManual => "admin_manual"
  | .appleIap => "apple_iap"
  | .manualOrder => "manual_order"

inductive EntitlementGrantStatus
  | active | revoked | refunded
  deriving DecidableEq, Repr

inductive BillingOrderProvider
  | adminManual | appleIap | externalBilling
  deriving DecidableEq, Repr

inductive BillingOrderStatus
  | paid | refunded | voided
  deriving DecidableEq, Repr

structure EntitlementGrantRecord where
  id : GrantId
  userId : UserId
  billingOrderId : Option BillingOrderId := none
  grantedByUserId : Option UserId := none
  source : EntitlementGrantSource
  status : EntitlementGrantStatus := .active
  statusChangedByUserId : Option UserId := none
  statusReason : Option String := none
  statusUpdatedAt : Option Timestamp := none
  previousPlan : BillingPlanId
  plan : BillingPlanId
  officialMinutesTotal : ℤ
  reason : String
  startsAt : Option Timestamp := none
  expiresAt : Option Timestamp := none
  createdAt : Timestamp
  deriving DecidableEq, Repr

instance : HasKey EntitlementGrantRecord GrantId := ⟨EntitlementGrantRecord.id⟩

structure BillingOrderRecord where
  id : BillingOrderId
  userId : UserId
  createdByUserId : Option UserId := none
  provider : BillingOrderProvider
  status : BillingOrderStatus := .paid
  plan : BillingPlanId
  environment : Option String := none
  productId : Option String := none
  appAccountToken : Option String := none
  signedDate : Option Timestamp := none
  statusSignedDate : Option Timestamp := none
  externalTransactionId : Option TransactionId := none
  originalTransactionId : Option TransactionId := none
  idempotencyKey : String
  periodStartAt : Option Timestamp := none
  periodEndAt : Option Timestamp := none
  entitlementGrantId : Option GrantId := none
  note : String
  statusReason : Option String := none
  statusUpdatedAt : Option Timestamp := none
  createdAt : Timestamp
  deriving DecidableEq, Repr

instance : HasKey BillingOrderRecord BillingOrderId := ⟨BillingOrderRecord.id⟩

/-! ### Apple accounts, subscriptions and notifications -/

structure AppleIapAccountBindingRecord where
  appAccountToken : String
  userId : UserId
  deriving DecidableEq, Repr

instance : HasKey AppleIapAccountBindingRecord String :=
  ⟨AppleIapAccountBindingRecord.appAccountToken⟩

inductive AppleSubscriptionStatus
  | active | grace | billingRetry | expired | revoked
  deriving DecidableEq, Repr

structure AppleSubscriptionRecord where
  originalTransactionId : TransactionId
  userId : UserId
  currentTransactionId : TransactionId
  productId : String
  environment : String
  status : AppleSubscriptionStatus := .active
  expiresAt : Option Timestamp := none
  graceExpiresAt : Option Timestamp := none
  autoRenewStatus : Option Bool := none
  isUpgraded : Bool := false
  lastSignedDate : Option Timestamp := none
  lastNotificationUUID : Option String := none
  deriving DecidableEq, Repr

instance : HasKey AppleSubscriptionRecord TransactionId :=
  ⟨AppleSubscriptionRecord.originalTransactionId⟩

inductive AppleNotificationProcessingStatus
  | received | processed | ignored | failed
  deriving DecidableEq, Repr

inductive AppleIapNotificationAction
  | billingRetry | expired | extended | grace | ignored | purchased | refunded | renewalStatus
  | renewed | restored | revoked
  deriving DecidableEq, Repr

structure AppleNotificationEventRecord where
  notificationUUID : String
  payloadSha256 : String
  processingStatus : AppleNotificationProcessingStatus := .received
  resultAction : Option AppleIapNotificationAction := none
  errorCode : Option String := none
  deriving DecidableEq, Repr

instance : HasKey AppleNotificationEventRecord String :=
  ⟨AppleNotificationEventRecord.notificationUUID⟩

/-! ### Settlement periods and free-trial fields -/

/-- The identity of the quota period an account is charged in, as both backends spell it. -/
def settlementPeriodIdentity (user : UserRecord) : String :=
  "source=" ++ user.officialMinutesPeriodSource.getD "" ++
    ";start=" ++ (user.officialMinutesPeriodStartAt.map isoText).getD "" ++
    ";billing=" ++ user.officialMinutesBillingOrderId.getD ""

/-- `Array.prototype.sort` by `createdAt`, newest first, and `[0]`; the same as
`order by created_at desc limit 1` with ties taken in table order. -/
def newestGrant (grants : List EntitlementGrantRecord) : Option EntitlementGrantRecord :=
  newest (·.createdAt) grants

end OwnMinutes.Auth.Records
