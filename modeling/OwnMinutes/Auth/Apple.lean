import OwnMinutes.Auth.QuotaTypes

/-! # Plan changes and Apple purchases

What the admin routes and the Apple routes pass to either backend, what they get back, and the
functions on Apple's dates and notification types that both backends have. A result carries the rows
that the source summarizes. -/

namespace OwnMinutes.Auth.Apple

open OwnMinutes.Lib.Keyed OwnMinutes.Lib.Newest OwnMinutes.Auth.ProcessingRoute OwnMinutes.Auth.Records
open OwnMinutes.Auth.Errors OwnMinutes.Auth.QuotaTypes

/-! ### Plan changes -/

/-- The identifiers a plan change draws. -/
structure PlanChangeIds where
  usage : UsageEventId
  order : BillingOrderId
  grant : GrantId
  deriving DecidableEq, Repr

/-! ### Apple purchases -/

structure AppleIapPurchaseInput where
  appAccountToken : Option String := none
  environment : String
  externalTransactionId : TransactionId
  idempotencyKey : String
  originalTransactionId : Option TransactionId := none
  periodEndAt : Option Timestamp := none
  periodStartAt : Option Timestamp := none
  plan : BillingPlanId
  productId : String
  signedDate : Option Timestamp := none
  userId : UserId
  deriving DecidableEq, Repr

structure AppleIapPurchaseResult where
  duplicate : Bool
  order : BillingOrderRecord
  user : SafeUser
  deriving DecidableEq, Repr

/-- The parts that are not empty, joined. -/
def joinNote (parts : List String) : String :=
  String.intercalate "; " (parts.filter (· ≠ ""))

def purchaseNote (input : AppleIapPurchaseInput) : String :=
  joinNote ["Apple IAP " ++ input.productId, "environment=" ++ input.environment,
    (input.originalTransactionId.map ("originalTransactionId=" ++ ·)).getD ""]

/-- The order and the grant of a purchase. -/
def purchasedOrder (now : Timestamp) (ids : PlanChangeIds) (input : AppleIapPurchaseInput) :
    BillingOrderRecord where
  id := ids.order
  userId := input.userId
  provider := .appleIap
  plan := input.plan
  environment := some input.environment
  productId := some input.productId
  appAccountToken := input.appAccountToken
  signedDate := input.signedDate
  statusSignedDate := input.signedDate
  externalTransactionId := some input.externalTransactionId
  originalTransactionId := input.originalTransactionId
  idempotencyKey := input.idempotencyKey
  periodStartAt := input.periodStartAt
  periodEndAt := input.periodEndAt
  entitlementGrantId := some ids.grant
  note := purchaseNote input
  createdAt := now

def purchasedGrant (now : Timestamp) (ids : PlanChangeIds) (input : AppleIapPurchaseInput)
    (previousPlan : BillingPlanId) : EntitlementGrantRecord where
  id := ids.grant
  userId := input.userId
  billingOrderId := some ids.order
  source := .appleIap
  previousPlan
  plan := input.plan
  officialMinutesTotal := getPlanMinutes input.plan
  reason := purchaseNote input
  startsAt := some (input.periodStartAt.getD now)
  expiresAt := input.periodEndAt
  createdAt := now

/-! ### Apple notifications -/

structure AppleIapNotificationInput where
  appAccountToken : Option String := none
  autoRenewStatus : Option Bool := none
  environment : Option String := none
  expiresDate : Option Timestamp := none
  graceExpiresDate : Option Timestamp := none
  idempotencyKey : Option String := none
  isUpgraded : Option Bool := none
  notificationUUID : Option String := none
  notificationType : Option String := none
  originalTransactionId : Option TransactionId := none
  payloadSha256 : Option String := none
  productId : Option String := none
  purchaseDate : Option Timestamp := none
  reason : String
  signedDate : Option Timestamp := none
  status : Option ℕ := none
  subtype : Option String := none
  transactionId : Option TransactionId := none
  plan : Option BillingPlanId := none
  deriving DecidableEq, Repr

structure AppleIapNotificationResult where
  action : AppleIapNotificationAction
  duplicate : Bool
  grant : Option EntitlementGrantRecord := none
  order : Option BillingOrderRecord := none
  user : Option SafeUser := none
  deriving DecidableEq, Repr

def getAppleIapNotificationAction (notificationType subtype : Option String) (status : Option ℕ) :
    AppleIapNotificationAction :=
  if notificationType = some "SUBSCRIBED" then .purchased
  else if notificationType = some "OFFER_REDEEMED" then
    if subtype = some "DOWNGRADE" then .renewalStatus else .purchased
  else if notificationType = some "DID_RENEW" ∨ notificationType = some "DID_RECOVER" then .renewed
  else if notificationType = some "DID_FAIL_TO_RENEW" then
    if subtype = some "GRACE_PERIOD" then .grace else .billingRetry
  else if notificationType = some "RENEWAL_EXTENDED" then .extended
  else if notificationType = some "DID_CHANGE_RENEWAL_PREF" ∧ subtype = some "UPGRADE" then .purchased
  else if notificationType = some "DID_CHANGE_RENEWAL_STATUS" ∨
      notificationType = some "DID_CHANGE_RENEWAL_PREF" ∨
      notificationType = some "PRICE_INCREASE" then .renewalStatus
  else if notificationType = some "REFUND" then .refunded
  else if notificationType = some "REFUND_REVERSED" then .restored
  else if notificationType = some "EXPIRED" ∨ notificationType = some "GRACE_PERIOD_EXPIRED" then
    .expired
  else if notificationType = some "REVOKE" then .revoked
  else if status = some 4 then .grace
  else if status = some 3 then .billingRetry
  else if status = some 5 then .revoked
  else if status = some 2 then .expired
  else .ignored

def AppleIapNotificationInput.action (input : AppleIapNotificationInput) :
    AppleIapNotificationAction :=
  getAppleIapNotificationAction input.notificationType input.subtype input.status

def getAppleBillingOrderStatus (action : AppleIapNotificationAction) (current : BillingOrderStatus) :
    BillingOrderStatus :=
  match action with
  | .refunded => .refunded
  | .restored => .paid
  | _ => current

/-- `sha256` is the digest, in hexadecimal. -/
def makeLegacyAppleNotificationId (sha256 : String → String) (input : AppleIapNotificationInput) :
    String :=
  "legacy_" ++ sha256 (String.intercalate ":"
    [input.notificationType.getD "UNKNOWN", input.subtype.getD "", input.transactionId.getD "",
      (input.signedDate.map isoText).getD input.reason])

/-- What a lifecycle notification sets the status of the subscription to. -/
def lifecycleStatus : AppleIapNotificationAction → Option AppleSubscriptionStatus
  | .renewalStatus => none
  | .grace => some .grace
  | .billingRetry => some .billingRetry
  | _ => some .active

/-- Until when a lifecycle notification brings back a grant that a refresh expired. -/
def recoveryUntil (input : AppleIapNotificationInput) : Option Timestamp :=
  match input.action with
  | .grace => input.graceExpiresDate
  | .extended => input.expiresDate
  | _ => none

def restoredReason (input : AppleIapNotificationInput) : String :=
  input.reason ++ "; restored after delayed Apple lifecycle notification"

def historicalReason (input : AppleIapNotificationInput) : String :=
  input.reason ++ "; historical period restored without replacing current entitlement"

def supersededReason (nextTransactionId : TransactionId) : String :=
  "Superseded by Apple renewal " ++ nextTransactionId

/-! ### Stale updates -/

/-- The dates an update is ordered by. -/
structure LifecycleDates where
  expiresDate : Option Timestamp := none
  periodStartDate : Option Timestamp := none
  signedDate : Option Timestamp := none
  deriving DecidableEq, Repr

/-- Two dates that differ decide whether the incoming one is older. -/
def olderDate (current incoming : Option Timestamp) : Option Bool :=
  match current, incoming with
  | some c, some i => if c ≠ i then some (decide (i < c)) else none
  | _, _ => none

/-- The period decides, then the expiry, then the signature. -/
def isAppleLifecycleUpdateStale (current incoming : LifecycleDates) : Bool :=
  (olderDate current.periodStartDate incoming.periodStartDate <|>
    olderDate current.expiresDate incoming.expiresDate <|>
    olderDate current.signedDate incoming.signedDate).getD false

def isAppleStatusUpdateStale (incomingSignedDate currentSignedDate : Option Timestamp) : Bool :=
  (olderDate currentSignedDate incomingSignedDate).getD false

/-- `Array.prototype.sort` by `createdAt`, newest first, and `[0]`. -/
def newestOrder (orders : List BillingOrderRecord) : Option BillingOrderRecord :=
  newest (·.createdAt) orders

/-- An order of the Apple subscription `originalTransactionId`. -/
def inFamily (originalTransactionId : TransactionId) (order : BillingOrderRecord) : Bool :=
  order.provider == .appleIap && order.originalTransactionId == some originalTransactionId

/-- The Apple order of a transaction. -/
def ofTransaction (transactionId : TransactionId) (order : BillingOrderRecord) : Bool :=
  order.provider == .appleIap && order.externalTransactionId == some transactionId

end OwnMinutes.Auth.Apple
