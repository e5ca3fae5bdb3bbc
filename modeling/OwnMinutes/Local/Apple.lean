import OwnMinutes.Auth.Apple
import OwnMinutes.Lib.Outcome
import OwnMinutes.Local.Store

/-! # Apple purchases and notifications in the local store

`recordAppleIapPurchase` and `recordAppleIapNotification` of `auth-store.ts`. A notification is
logged before it is acted on, so one that throws may leave its event behind. -/

namespace OwnMinutes.Local.Apple

open OwnMinutes.Lib.Keyed OwnMinutes.Lib.Outcome OwnMinutes.Auth.ProcessingRoute
open OwnMinutes.Auth.Records OwnMinutes.Auth.Errors OwnMinutes.Auth.QuotaTypes OwnMinutes.Auth.Apple
open OwnMinutes.Local.Store

/-! ### Changes of an account -/

/-- Append an adjustment of zero minutes to the usage events. -/
def pushAdjustment (store : AuthStore) (id : UsageEventId) (userId : UserId) (note : String) :
    AuthStore :=
  { store with usageEvents := store.usageEvents ++
      [{ id, userId, type := .manualAdjustment, minutes := 0, note }] }

/-- The account back on a plan it had, without capturing the trial. -/
def fallenBackUser (user : UserRecord) (plan : BillingPlanId) : UserRecord :=
  if plan = .free then restoreLocalFreeTrial user
  else { user with
    plan
    officialMinutesTotal := getPlanMinutes plan
    officialMinutesUsed := min user.officialMinutesUsed (getPlanMinutes plan) }

/-! ### The family of a subscription -/

/-- `store.billingOrders.find` of the Apple order of a transaction. -/
def findAppleOrder (store : AuthStore) (transactionId : TransactionId) :
    Option BillingOrderRecord := store.billingOrders.find? (ofTransaction transactionId)

def grantOfOrder (store : AuthStore) (order : BillingOrderRecord) : Option EntitlementGrantRecord :=
  order.entitlementGrantId.bind store.entitlementGrants.get?

/-- The plan of the newest active grant that no order of the family granted. -/
def getPlanOutsideAppleSubscriptionFamily (store : AuthStore) (userId : UserId)
    (originalTransactionId : Option TransactionId) (fallback : BillingPlanId) : BillingPlanId :=
  match originalTransactionId with
  | none => fallback
  | some f =>
    let familyGrantIds :=
      (store.billingOrders.rows.filter (inFamily f)).filterMap (·.entitlementGrantId)
    ((newestGrant (store.entitlementGrants.rows.filter fun grant =>
      grant.userId == userId && grant.status == .active && !familyGrantIds.contains grant.id)).map
        (·.plan)).getD .free

/-- The grant of an order in the family, except that of the next transaction. -/
def superseded (orders : Table BillingOrderRecord) (f nextTransactionId : TransactionId)
    (grant : EntitlementGrantRecord) : Bool :=
  grant.status == .active && orders.rows.any fun order =>
    inFamily f order && order.externalTransactionId != some nextTransactionId &&
      order.entitlementGrantId == some grant.id

theorem revokedGrant_key (now : Timestamp) (reason : String) (grant : EntitlementGrantRecord) :
    HasKey.key { grant with
      status := .revoked
      statusReason := some reason
      statusUpdatedAt := some now } = HasKey.key grant := rfl

def supersedeAppleSubscriptionFamily (store : AuthStore) (f nextTransactionId : TransactionId)
    (now : Timestamp) : AuthStore :=
  { store with
    entitlementGrants := store.entitlementGrants.updateWhere
      (superseded store.billingOrders f nextTransactionId)
      (fun grant => { grant with
        status := .revoked
        statusReason := some (supersededReason nextTransactionId)
        statusUpdatedAt := some now }) (revokedGrant_key now _) }

def supersedeFamilyOf (store : AuthStore) (originalTransactionId : Option TransactionId)
    (nextTransactionId : TransactionId) (now : Timestamp) : AuthStore :=
  match originalTransactionId with
  | none => store
  | some f => supersedeAppleSubscriptionFamily store f nextTransactionId now

/-! ### Purchases -/

/-- The subscription after a purchase; what the purchase does not say is kept. -/
def purchasedSubscription (existing : Option AppleSubscriptionRecord) (input : AppleIapPurchaseInput)
    (f : TransactionId) : AppleSubscriptionRecord where
  originalTransactionId := f
  userId := input.userId
  currentTransactionId := input.externalTransactionId
  productId := input.productId
  environment := input.environment
  status := .active
  expiresAt := input.periodEndAt
  graceExpiresAt := none
  autoRenewStatus := existing.bind (·.autoRenewStatus)
  isUpgraded := (existing.map (·.isUpgraded)).getD false
  lastSignedDate := input.signedDate
  lastNotificationUUID := existing.bind (·.lastNotificationUUID)

def saveSubscription (store : AuthStore) (s : AppleSubscriptionRecord) : AuthStore :=
  { store with
    appleSubscriptions :=
      if (store.appleSubscriptions.get? s.originalTransactionId).isSome then
        store.appleSubscriptions.replace s
      else store.appleSubscriptions.insert s }

/-- The account moved to the plan of a purchase, its trial usage captured first. -/
def purchasedUser (now : Timestamp) (orderId : BillingOrderId) (input : AppleIapPurchaseInput)
    (user : UserRecord) : UserRecord :=
  { captureLocalFreeTrialUsage user with
    plan := input.plan
    officialMinutesTotal := getPlanMinutes input.plan
    officialMinutesUsed := 0
    officialMinutesPeriodStartAt := some (input.periodStartAt.getD now)
    officialMinutesPeriodEndAt := input.periodEndAt
    officialMinutesPeriodSource := some EntitlementGrantSource.appleIap.text
    officialMinutesBillingOrderId := some orderId }

/-- The purchase taken: the rest of the family is superseded, the account moves to the plan. -/
def takePurchase (now : Timestamp) (ids : PlanChangeIds) (input : AppleIapPurchaseInput)
    (store : AuthStore) (user : UserRecord) : AuthStore :=
  let previousPlan := getPlanOutsideAppleSubscriptionFamily store user.id
    input.originalTransactionId user.plan
  let existingSubscription := input.originalTransactionId.bind store.appleSubscriptions.get?
  let store := supersedeFamilyOf store input.originalTransactionId input.externalTransactionId now
  let store := store.putUser (purchasedUser now ids.order input user)
  let store := { store with
    billingOrders := store.billingOrders.insert (purchasedOrder now ids input) }
  let store := match input.originalTransactionId with
    | none => store
    | some f => saveSubscription store (purchasedSubscription existingSubscription input f)
  let store := { store with
    entitlementGrants := store.entitlementGrants.insert (purchasedGrant now ids input previousPlan) }
  pushAdjustment store ids.usage input.userId ("Apple IAP entitlement granted: " ++ input.productId)

/-- The order the purchase is a duplicate of. -/
def findExistingOrder (store : AuthStore) (input : AppleIapPurchaseInput) :
    Option BillingOrderRecord :=
  store.billingOrders.find? fun order =>
    order.idempotencyKey == input.idempotencyKey || ofTransaction input.externalTransactionId order

/-- An order for a period before that of the subscription's current order. -/
def purchaseStale (store : AuthStore) (input : AppleIapPurchaseInput)
    (subscription : AppleSubscriptionRecord) : Bool :=
  subscription.currentTransactionId != input.externalTransactionId &&
    isAppleLifecycleUpdateStale
      { expiresDate := subscription.expiresAt
        periodStartDate :=
          (findAppleOrder store subscription.currentTransactionId).bind (·.periodStartAt)
        signedDate := subscription.lastSignedDate }
      { expiresDate := input.periodEndAt
        periodStartDate := input.periodStartAt
        signedDate := input.signedDate }

def recordAppleIapPurchase (now : Timestamp) (ids : PlanChangeIds) (input : AppleIapPurchaseInput)
    (stored : AuthStore) : Except AuthError (AppleIapPurchaseResult × AuthStore) :=
  let store := normalizeStore stored
  match findActiveUser store input.userId with
  | none => .error accountMissing
  | some user =>
    match findExistingOrder store input with
    | some existingOrder =>
      if existingOrder.userId ≠ input.userId then .error appleTransactionBound
      else .ok ({ duplicate := true, order := existingOrder, user := toSafeUser user }, stored)
    | none =>
      let existingSubscription := input.originalTransactionId.bind store.appleSubscriptions.get?
      if existingSubscription.any (·.userId != input.userId) then .error appleSubscriptionOwnerConflict
      else match existingSubscription.filter (purchaseStale store input) with
        | some subscription =>
          match findAppleOrder store subscription.currentTransactionId with
          | none => .error appleStaleTransaction
          | some order => .ok ({ duplicate := true, order, user := toSafeUser user }, stored)
        | none =>
          let next := takePurchase now ids input store user
          .ok ({ duplicate := false
                 order := purchasedOrder now ids input
                 user := toSafeUser ((next.users.get? user.id).getD user) }, next)

/-! ### Notification events -/

def putEvent (store : AuthStore) (event : AppleNotificationEventRecord) : AuthStore :=
  { store with
    appleNotificationEvents :=
      if (store.appleNotificationEvents.get? event.notificationUUID).isSome then
        store.appleNotificationEvents.replace event
      else store.appleNotificationEvents.insert event }

/-- `markEvent`. -/
def markEvent (store : AuthStore) (event : AppleNotificationEventRecord)
    (status : AppleNotificationProcessingStatus) (action : AppleIapNotificationAction) : AuthStore :=
  putEvent store { event with processingStatus := status, resultAction := some action }

def completeLocalAppleNotificationEvent (notificationUUID : String)
    (action : AppleIapNotificationAction) (stored : AuthStore) : AuthStore :=
  let store := normalizeStore stored
  match store.appleNotificationEvents.get? notificationUUID with
  | none => stored
  | some event => putEvent store { event with
      processingStatus := if action = .ignored then .ignored else .processed
      resultAction := some action
      errorCode := none }

/-! ### Renewals -/

def renewalPurchase (input : AppleIapNotificationInput) (transactionId : TransactionId)
    (userId : UserId) (plan : BillingPlanId) (productId idempotencyKey : String) :
    AppleIapPurchaseInput where
  appAccountToken := input.appAccountToken
  environment := input.environment.getD "unknown"
  externalTransactionId := transactionId
  idempotencyKey
  originalTransactionId := input.originalTransactionId
  periodStartAt := input.purchaseDate
  periodEndAt := input.expiresDate
  plan
  productId
  signedDate := input.signedDate
  userId

/-- The branch of `renewed` and `purchased`. -/
def applyRenewal (now : Timestamp) (ids : PlanChangeIds) (notificationUUID : String)
    (input : AppleIapNotificationInput) (transactionId : TransactionId) (store : AuthStore) :
    Except AuthError (AppleIapNotificationResult × AuthStore) :=
  match findAppleOrder store transactionId with
  | some existingOrder =>
    .ok ({ action := input.action
           duplicate := true
           order := some existingOrder
           user := (findActiveUser store existingOrder.userId).map toSafeUser },
      completeLocalAppleNotificationEvent notificationUUID input.action store)
  | none =>
    let previousOrder := input.originalTransactionId.bind fun f =>
      store.billingOrders.find? (inFamily f)
    let binding :=
      if previousOrder.isSome then none
      else input.appAccountToken.bind fun token => store.appleIapAccountBindings.get? token.toLower
    match previousOrder.map (·.userId) <|> binding.map (·.userId) with
    | none => .error appleOwnerUnknown
    | some userId =>
      match input.plan <|> previousOrder.map (·.plan), input.productId, input.idempotencyKey with
      | some plan, some productId, some idempotencyKey => do
        let (purchase, store) ← recordAppleIapPurchase now ids
          (renewalPurchase input transactionId userId plan productId idempotencyKey) store
        .ok ({ action := input.action
               duplicate := purchase.duplicate
               order := some purchase.order
               user := some purchase.user },
          completeLocalAppleNotificationEvent notificationUUID input.action store)
      | _, _, _ => .error appleEntitlementUnmapped

/-! ### Lifecycle notifications -/

def findLifecycleSubscription (store : AuthStore) (input : AppleIapNotificationInput)
    (transactionId : TransactionId) : Option AppleSubscriptionRecord :=
  match input.originalTransactionId with
  | some f => store.appleSubscriptions.get? f
  | none => store.appleSubscriptions.find? fun s => s.currentTransactionId == transactionId

def lifecycleSubscription (input : AppleIapNotificationInput) (notificationUUID : String)
    (s : AppleSubscriptionRecord) : AppleSubscriptionRecord :=
  { s with
    status := (lifecycleStatus input.action).getD s.status
    expiresAt := input.expiresDate <|> s.expiresAt
    graceExpiresAt :=
      if input.graceExpiresDate.isSome then input.graceExpiresDate
      else if input.action = .billingRetry then none
      else s.graceExpiresAt
    autoRenewStatus := input.autoRenewStatus <|> s.autoRenewStatus
    lastSignedDate := input.signedDate <|> s.lastSignedDate
    lastNotificationUUID := some notificationUUID }

/-- The order of the current transaction, or else the newest of the family. -/
def lifecycleOrder (store : AuthStore) (s : AppleSubscriptionRecord) : Option BillingOrderRecord :=
  findAppleOrder store s.currentTransactionId <|>
    newestOrder (store.billingOrders.rows.filter (inFamily s.originalTransactionId))

/-- The new end of the period, for a notification that extends it. -/
def extension? (input : AppleIapNotificationInput) : Option Timestamp :=
  if input.action = .extended then input.expiresDate else none

def extendedOrder (input : AppleIapNotificationInput) (order : BillingOrderRecord) :
    BillingOrderRecord :=
  match extension? input with
  | none => order
  | some expiresDate => { order with periodEndAt := some expiresDate }

def extendedUser (input : AppleIapNotificationInput) (order : BillingOrderRecord)
    (user : UserRecord) : UserRecord :=
  match extension? input with
  | none => user
  | some expiresDate =>
    if user.officialMinutesBillingOrderId = some order.id then
      { user with officialMinutesPeriodEndAt := some expiresDate }
    else user

/-- The grant keeps its own `expiresAt`. -/
def extendedGrant (input : AppleIapNotificationInput) (grant : EntitlementGrantRecord) :
    EntitlementGrantRecord :=
  match extension? input with
  | none => grant
  | some _ => { grant with statusReason := some input.reason }

/-- The grant was expired by a refresh, and the notification says that access goes on. -/
def recovers (now : Timestamp) (input : AppleIapNotificationInput) (user : UserRecord)
    (grant : EntitlementGrantRecord) : Bool :=
  user.deletedAt.isNone && grant.status == .revoked &&
    grant.statusReason == some APPLE_EXPIRY_RECONCILIATION_REASON &&
    (recoveryUntil input).any (now < ·)

def recoveredGrant (now : Timestamp) (input : AppleIapNotificationInput)
    (grant : EntitlementGrantRecord) : EntitlementGrantRecord :=
  { grant with
    status := .active
    statusReason := some (restoredReason input)
    statusUpdatedAt := some now
    expiresAt := extension? input <|> grant.expiresAt }

def recoveredUser (input : AppleIapNotificationInput) (order : BillingOrderRecord)
    (grant : EntitlementGrantRecord) (user : UserRecord) : UserRecord :=
  { user with
    plan := grant.plan
    officialMinutesTotal := grant.officialMinutesTotal
    officialMinutesUsed := min user.officialMinutesUsed grant.officialMinutesTotal
    officialMinutesPeriodStartAt := grant.startsAt <|> order.periodStartAt
    officialMinutesPeriodEndAt :=
      if input.action = .grace then input.graceExpiresDate else input.expiresDate
    officialMinutesPeriodSource := some EntitlementGrantSource.appleIap.text
    officialMinutesBillingOrderId := some order.id }

/-- The order's grant and the account after a lifecycle notification. -/
def lifecycleGrant (now : Timestamp) (input : AppleIapNotificationInput)
    (order : BillingOrderRecord) (user : UserRecord) (store : AuthStore) : AuthStore × UserRecord :=
  match grantOfOrder store order with
  | none => (store.putUser user, user)
  | some grant =>
    let grant := extendedGrant input grant
    if recovers now input user grant then
      let user := recoveredUser input order grant user
      ((store.putGrant (recoveredGrant now input grant)).putUser user, user)
    else ((store.putGrant grant).putUser user, user)

/-- The branch of `grace`, `billing_retry`, `extended` and `renewal_status`. -/
def applyLifecycle (now : Timestamp) (event : AppleNotificationEventRecord)
    (input : AppleIapNotificationInput) (transactionId : TransactionId) (store : AuthStore) :
    Except AuthError (AppleIapNotificationResult × AuthStore) :=
  match findLifecycleSubscription store input transactionId with
  | none => .error appleLifecycleOrderMissing
  | some subscription =>
    if isAppleStatusUpdateStale input.signedDate subscription.lastSignedDate then
      .ok ({ action := input.action, duplicate := true },
        markEvent store event .ignored input.action)
    else
      let store := store.putSubscription
        (lifecycleSubscription input event.notificationUUID subscription)
      match lifecycleOrder store subscription with
      | none => .error appleLifecycleOrderMissing
      | some order =>
        match store.users.get? order.userId with
        | none => .error appleOrderUserMissing
        | some user =>
          let user := extendedUser input order user
          let order := extendedOrder input order
          let (store, user) := lifecycleGrant now input order user (store.putOrder order)
          .ok ({ action := input.action
                 duplicate := false
                 order := some order
                 user := some (toSafeUser user) }, markEvent store event .processed input.action)

/-! ### Refunds, revocations and reversals -/

/-- The subscription, if the order is that of its current transaction. -/
def targetSubscription (store : AuthStore) (order : BillingOrderRecord) :
    Option AppleSubscriptionRecord :=
  (order.originalTransactionId.bind store.appleSubscriptions.get?).filter fun s =>
    order.externalTransactionId == some s.currentTransactionId

def statusChangeStale (store : AuthStore) (input : AppleIapNotificationInput)
    (order : BillingOrderRecord) : Bool :=
  isAppleStatusUpdateStale input.signedDate order.statusSignedDate ||
    (targetSubscription store order).any fun s => isAppleLifecycleUpdateStale
      { expiresDate := s.expiresAt, signedDate := s.lastSignedDate }
      { expiresDate := input.expiresDate, signedDate := input.signedDate }

/-- The target subscription with a new status. -/
def setTargetStatus (store : AuthStore) (event : AppleNotificationEventRecord)
    (input : AppleIapNotificationInput) (order : BillingOrderRecord)
    (status : AppleSubscriptionStatus) : AuthStore :=
  match targetSubscription store order with
  | none => store
  | some s => store.putSubscription { s with
      status
      lastSignedDate := input.signedDate <|> s.lastSignedDate
      lastNotificationUUID := some event.notificationUUID }

/-- The order with a new status. -/
def changedOrder (now : Timestamp) (input : AppleIapNotificationInput) (order : BillingOrderRecord)
    (status : BillingOrderStatus) : BillingOrderRecord :=
  { order with
    status
    statusReason := some input.reason
    statusUpdatedAt := some now
    statusSignedDate := input.signedDate <|> order.statusSignedDate }

def hasActiveFamilyGrant (store : AuthStore) (order : BillingOrderRecord) : Bool :=
  match order.originalTransactionId with
  | none => false
  | some f => store.billingOrders.rows.any fun other =>
      inFamily f other && other.id != order.id &&
        (grantOfOrder store other).any (·.status == .active)

def notificationNote (input : AppleIapNotificationInput) : String :=
  "Apple IAP notification " ++ input.notificationType.getD "undefined" ++ ": " ++ input.reason

def historicalNote (input : AppleIapNotificationInput) : String :=
  "Apple IAP historical notification " ++ input.notificationType.getD "undefined" ++ ": " ++
    input.reason

/-- The account on the plan of a grant that Apple gave back. -/
def restoredUser (order : BillingOrderRecord) (grant : EntitlementGrantRecord) (user : UserRecord) :
    UserRecord :=
  { user with
    plan := grant.plan
    officialMinutesTotal := grant.officialMinutesTotal
    officialMinutesUsed := min user.officialMinutesUsed grant.officialMinutesTotal
    officialMinutesPeriodStartAt := grant.startsAt <|> order.periodStartAt
    officialMinutesPeriodEndAt := grant.expiresAt <|> order.periodEndAt
    officialMinutesPeriodSource := some EntitlementGrantSource.appleIap.text
    officialMinutesBillingOrderId := some order.id }

/-- A grant that Apple gave back. -/
def reactivatedGrant (now : Timestamp) (input : AppleIapNotificationInput)
    (previousPlan : BillingPlanId) (grant : EntitlementGrantRecord) : EntitlementGrantRecord :=
  { grant with
    status := .active
    previousPlan
    statusReason := some input.reason
    statusUpdatedAt := some now }

/-- The branch of `restored`. -/
def applyRestored (now : Timestamp) (usageId : UsageEventId) (event : AppleNotificationEventRecord)
    (input : AppleIapNotificationInput) (transactionId : TransactionId) (order : BillingOrderRecord)
    (grant : EntitlementGrantRecord) (user : UserRecord) (store : AuthStore) :
    AppleIapNotificationResult × AuthStore :=
  if grant.status = .active ∧ order.status = .paid then
    let order := { order with statusSignedDate := input.signedDate <|> order.statusSignedDate }
    ({ action := input.action
       duplicate := true
       grant := some grant
       order := some order
       user := some (toSafeUser user) },
      markEvent ((setTargetStatus store event input order .active).putOrder order) event .processed
        input.action)
  else if hasActiveFamilyGrant store order then
    let order := changedOrder now input order .paid
    let grant := { grant with
      status := if grant.status = .refunded then .revoked else grant.status
      statusReason := some (historicalReason input)
      statusUpdatedAt := some now }
    ({ action := input.action
       duplicate := false
       grant := some grant
       order := some order
       user := some (toSafeUser user) },
      markEvent ((store.putOrder order).putGrant grant) event .processed input.action)
  else
    let previousPlan := getPlanOutsideAppleSubscriptionFamily store user.id
      order.originalTransactionId user.plan
    let store := supersedeFamilyOf store order.originalTransactionId
      (order.externalTransactionId.getD transactionId) now
    let store := setTargetStatus store event input order .active
    let grant := reactivatedGrant now input previousPlan grant
    let order := changedOrder now input order .paid
    let user := restoredUser order grant user
    let store := ((store.putGrant grant).putOrder order).putUser user
    ({ action := input.action
       duplicate := false
       grant := some grant
       order := some order
       user := some (toSafeUser user) },
      markEvent (pushAdjustment store usageId user.id (notificationNote input)) event .processed
        input.action)

/-- The orders a refund or a revocation takes the grants of. -/
def revokedOrders (store : AuthStore) (order : BillingOrderRecord) : List BillingOrderRecord :=
  match order.originalTransactionId with
  | none => [order]
  | some f => store.billingOrders.rows.filter (inFamily f)

theorem familyRevoked_key (now : Timestamp) (reason : String)
    (status : EntitlementGrantRecord → EntitlementGrantStatus) (grant : EntitlementGrantRecord) :
    HasKey.key { grant with
      status := status grant
      statusReason := some reason
      statusUpdatedAt := some now } = HasKey.key grant := rfl

/-- The active grants of the family revoked; that of the order gets the status of the action. -/
def revokeFamily (now : Timestamp) (input : AppleIapNotificationInput) (order : BillingOrderRecord)
    (store : AuthStore) : AuthStore :=
  let owner (grant : EntitlementGrantRecord) :=
    (revokedOrders store order).find? (·.entitlementGrantId == some grant.id)
  let status (grant : EntitlementGrantRecord) : EntitlementGrantStatus :=
    if (owner grant).any (·.id == order.id) ∧ input.action = .refunded then .refunded else .revoked
  { store with
    entitlementGrants := store.entitlementGrants.updateWhere
      (fun grant => grant.status == .active && (owner grant).isSome)
      (fun grant => { grant with
        status := status grant
        statusReason := some input.reason
        statusUpdatedAt := some now }) (familyRevoked_key now _ status) }

/-- The plan of the newest active grant of the account. -/
def fallbackPlan (store : AuthStore) (userId : UserId) : BillingPlanId :=
  ((newestGrant (store.entitlementGrants.rows.filter fun grant =>
    grant.userId == userId && grant.status == .active)).map (·.plan)).getD .free

/-- The branch of `refunded`, `revoked` and `expired`. -/
def applyRevoked (now : Timestamp) (usageId : UsageEventId) (event : AppleNotificationEventRecord)
    (input : AppleIapNotificationInput) (order : BillingOrderRecord)
    (grant : EntitlementGrantRecord) (user : UserRecord) (store : AuthStore) :
    AppleIapNotificationResult × AuthStore :=
  let orderStatus := getAppleBillingOrderStatus input.action order.status
  if grant.status ≠ .active then
    if order.status ≠ orderStatus then
      let order := changedOrder now input order orderStatus
      ({ action := input.action
         duplicate := false
         grant := some grant
         order := some order
         user := some (toSafeUser user) },
        markEvent (pushAdjustment (store.putOrder order) usageId user.id (historicalNote input)) event
          .processed input.action)
    else
      let order := { order with statusSignedDate := input.signedDate <|> order.statusSignedDate }
      ({ action := input.action
         duplicate := true
         grant := some grant
         order := some order
         user := some (toSafeUser user) },
        markEvent (store.putOrder order) event .processed input.action)
  else
    let store := revokeFamily now input order store
    let store := setTargetStatus store event input order
      (if input.action = .expired then .expired else .revoked)
    let order := changedOrder now input order orderStatus
    let user := fallenBackUser user (fallbackPlan store user.id)
    let store := (store.putOrder order).putUser user
    ({ action := input.action
       duplicate := false
       grant := store.entitlementGrants.get? grant.id
       order := some order
       user := some (toSafeUser user) },
      markEvent (pushAdjustment store usageId user.id (notificationNote input)) event .processed
        input.action)

/-- The branches that change the status of an order. -/
def applyStatusChange (now : Timestamp) (usageId : UsageEventId)
    (event : AppleNotificationEventRecord) (input : AppleIapNotificationInput)
    (transactionId : TransactionId) (store : AuthStore) :
    Except AuthError (AppleIapNotificationResult × AuthStore) :=
  match findAppleOrder store transactionId with
  | none => .error appleOrderMissing
  | some order =>
    match grantOfOrder store order with
    | none => .error appleGrantMissing
    | some grant =>
      if statusChangeStale store input order then
        .ok ({ action := input.action
               duplicate := true
               grant := some grant
               order := some order
               user := (findActiveUser store order.userId).map toSafeUser },
          markEvent store event .ignored input.action)
      else match findActiveUser store order.userId with
        | none => .error accountMissing
        | some user =>
          if input.action = .restored then
            .ok (applyRestored now usageId event input transactionId order grant user store)
          else .ok (applyRevoked now usageId event input order grant user store)

/-! ### Notifications -/

/-- The action of a notification that was logged as `event`. -/
def applyNotification (now : Timestamp) (ids : PlanChangeIds) (event : AppleNotificationEventRecord)
    (input : AppleIapNotificationInput) (transactionId : TransactionId) (store : AuthStore) :
    Except AuthError (AppleIapNotificationResult × AuthStore) :=
  match input.action with
  | .renewed | .purchased =>
    applyRenewal now ids event.notificationUUID input transactionId store
  | .grace | .billingRetry | .extended | .renewalStatus =>
    applyLifecycle now event input transactionId store
  | _ => applyStatusChange now ids.usage event input transactionId store

/-- The event a notification is logged as. -/
def receivedEvent (sha256 : String → String) (input : AppleIapNotificationInput)
    (existingEvent : Option AppleNotificationEventRecord) : AppleNotificationEventRecord :=
  { existingEvent.getD
      { notificationUUID :=
          input.notificationUUID.getD (makeLegacyAppleNotificationId sha256 input)
        payloadSha256 := input.payloadSha256.getD (sha256 input.reason) } with
    processingStatus := .received
    errorCode := none }

/-- The answer, and the store also where the source throws. -/
def recordAppleIapNotification (sha256 : String → String) (now : Timestamp) (ids : PlanChangeIds)
    (input : AppleIapNotificationInput) (stored : AuthStore) :
    Except AuthError AppleIapNotificationResult × AuthStore :=
  let store := normalizeStore stored
  let notificationUUID := input.notificationUUID.getD (makeLegacyAppleNotificationId sha256 input)
  let existingEvent := store.appleNotificationEvents.get? notificationUUID
  let payloadSha256 := input.payloadSha256.getD (sha256 input.reason)
  if existingEvent.any (·.payloadSha256 != payloadSha256) then (.error applePayloadMismatch, stored)
  else if existingEvent.any fun event =>
      event.processingStatus == .processed || event.processingStatus == .ignored then
    (.ok { action := input.action, duplicate := true }, stored)
  else
    let event := receivedEvent sha256 input existingEvent
    let store := putEvent store event
    if input.action = .ignored then
      (.ok { action := input.action, duplicate := false },
        markEvent store event .ignored input.action)
    else match input.transactionId with
      | none =>
        (.error appleTransactionIdMissing, putEvent store { event with
          processingStatus := .failed
          errorCode := some "missing_transaction_id" })
      | some transactionId =>
        commit store (applyNotification now ids event input transactionId store)

end OwnMinutes.Local.Apple
