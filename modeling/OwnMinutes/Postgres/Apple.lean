import OwnMinutes.Auth.Apple
import OwnMinutes.Lib.Outcome
import OwnMinutes.Postgres.Store

/-! # Apple purchases and notifications in PostgreSQL

`postgresRecordAppleIapPurchase` and `postgresRecordAppleIapNotification` of `auth-repository.ts`. A
purchase is one transaction. A notification logs its event, acts on it in a transaction of its own,
and then marks the event as processed or failed. -/

namespace OwnMinutes.Postgres.Apple

open OwnMinutes.Lib.Keyed OwnMinutes.Lib.Outcome OwnMinutes.Auth.ProcessingRoute
open OwnMinutes.Auth.Records OwnMinutes.Auth.Errors OwnMinutes.Auth.QuotaTypes OwnMinutes.Auth.Apple
open OwnMinutes.Postgres.Store

/-! ### Updates of one row -/

/-- `update billing_orders set … where id = $1`. -/
def updateOrder (t : Tables) (id : BillingOrderId) (f : BillingOrderRecord → BillingOrderRecord) :
    Tables :=
  match t.billingOrders.get? id with
  | none => t
  | some order => { t with billingOrders := t.billingOrders.replace (f order) }

/-- `update entitlement_grants set … where id = $1 and p`. -/
def updateGrant (t : Tables) (id : GrantId) (f : EntitlementGrantRecord → EntitlementGrantRecord)
    (p : EntitlementGrantRecord → Bool := fun _ => true) : Tables :=
  match t.entitlementGrants.get? id with
  | none => t
  | some grant =>
    if p grant then { t with entitlementGrants := t.entitlementGrants.replace (f grant) } else t

/-- `update apple_subscriptions set … where original_transaction_id = $1 and p`. -/
def updateSubscription (t : Tables) (f : TransactionId)
    (g : AppleSubscriptionRecord → AppleSubscriptionRecord)
    (p : AppleSubscriptionRecord → Bool := fun _ => true) : Tables :=
  match t.appleSubscriptions.get? f with
  | none => t
  | some s => if p s then { t with appleSubscriptions := t.appleSubscriptions.replace (g s) } else t

/-- `insert into usage_events` of an adjustment of zero minutes. -/
def insertAdjustment (t : Tables) (id : UsageEventId) (userId : UserId) (note : String) : Tables :=
  { t with usageEvents := t.usageEvents ++
      [{ id, userId, type := .manualAdjustment, minutes := 0, note }] }

/-- The account back on its free trial. -/
def freeTrialUser (user : UserRecord) : UserRecord :=
  { user with
    plan := .free
    officialMinutesTotal := user.freeTrialMinutesTotal
    officialMinutesUsed := user.freeTrialMinutesUsed
    officialMinutesPeriodStartAt := some user.freeTrialGrantedAt
    officialMinutesPeriodEndAt := none
    officialMinutesPeriodSource := some FREE_TRIAL_SOURCE
    officialMinutesBillingOrderId := none }

/-- The account back on a plan it had. -/
def fallenBackUser (plan : BillingPlanId) (user : UserRecord) : UserRecord :=
  if plan = .free then freeTrialUser user
  else { user with
    plan
    officialMinutesTotal := getPlanMinutes plan
    officialMinutesUsed := min user.officialMinutesUsed (getPlanMinutes plan) }

/-! ### The family of a subscription -/

/-- `provider = 'apple_iap' and external_transaction_id = $1`. -/
def findAppleOrder (t : Tables) (transactionId : TransactionId) : Option BillingOrderRecord :=
  t.billingOrders.find? (ofTransaction transactionId)

/-- `not (provider = 'apple_iap' and original_transaction_id = $2)` for a grant's order, which is
null for a grant without an order and for an Apple order without a family. -/
def outsideFamily (f : TransactionId) : Option BillingOrderRecord → Bool
  | none => false
  | some order => order.provider != .appleIap || order.originalTransactionId.any (· != f)

/-- An order of the family for another transaction. -/
def replacedOrder (f nextTransactionId : TransactionId) (order : BillingOrderRecord) : Bool :=
  inFamily f order && order.externalTransactionId.any (· != nextTransactionId)

/-- The active grant of an order `p`. -/
def activeGrantOf (t : Tables) (p : BillingOrderRecord → Bool) (grant : EntitlementGrantRecord) :
    Bool :=
  grant.status == .active && (orderOfGrant t grant).any p

theorem revokedGrant_key (now : Timestamp) (reason : String) (grant : EntitlementGrantRecord) :
    HasKey.key { grant with
      status := .revoked
      statusReason := some reason
      statusUpdatedAt := some now } = HasKey.key grant := rfl

theorem supersededGrant_key (now : Timestamp) (nextTransactionId : TransactionId) (grant : EntitlementGrantRecord) :
    HasKey.key { grant with
      status := .revoked
      statusReason := some (supersededReason nextTransactionId)
      statusUpdatedAt := some now } = HasKey.key grant := rfl

/-- The plan outside the family, and the family's other grants revoked. -/
def postgresSupersedeAppleSubscriptionFamily (t : Tables) (userId : UserId)
    (f nextTransactionId : TransactionId) (now : Timestamp) : BillingPlanId × Tables :=
  let fallbackPlan := newestGrant (t.entitlementGrants.rows.filter fun grant =>
    grant.userId == userId && grant.status == .active && outsideFamily f (orderOfGrant t grant))
  ((fallbackPlan.map (·.plan)).getD .free,
    { t with
      entitlementGrants := t.entitlementGrants.updateWhere
        (activeGrantOf t (replacedOrder f nextTransactionId))
        (fun grant => { grant with
          status := .revoked
          statusReason := some (supersededReason nextTransactionId)
          statusUpdatedAt := some now }) (supersededGrant_key now nextTransactionId) })

/-- The same for a transaction that may have no family; the account's plan stands in for the
fallback. -/
def supersedeFamilyOf (t : Tables) (userId : UserId) (plan : BillingPlanId)
    (originalTransactionId : Option TransactionId) (next : TransactionId) (now : Timestamp) :
    BillingPlanId × Tables :=
  match originalTransactionId with
  | none => (plan, t)
  | some f => postgresSupersedeAppleSubscriptionFamily t userId f next now

def postgresResolveActivePlan (now : Timestamp) (userId : UserId) (t : Tables) : BillingPlanId :=
  ((activeGrant now userId t).map (·.plan)).getD .free

/-- `last_signed_date is null or $1 is null or last_signed_date <= $1`. -/
def signedInOrder (lastSignedDate signedDate : Option Timestamp) : Bool :=
  match lastSignedDate, signedDate with
  | some last, some signed => last ≤ signed
  | _, _ => true

/-! ### Repairing the subscription of an order -/

structure EnsureInput where
  environment : Option String
  expiresDate : Option Timestamp
  notificationUUID : Option String
  productId : Option String
  signedDate : Option Timestamp
  status : Option AppleSubscriptionStatus

/-- The order with what it lacks filled in. -/
def ensuredOrder (input : EnsureInput) (productId environment : String) (order : BillingOrderRecord) :
    BillingOrderRecord :=
  { order with
    productId := order.productId <|> some productId
    environment := order.environment <|> some environment
    periodEndAt := order.periodEndAt <|> input.expiresDate
    signedDate := order.signedDate <|> input.signedDate }

def ensuredGrant (periodStartAt expiresDate : Option Timestamp) (grant : EntitlementGrantRecord) :
    EntitlementGrantRecord :=
  { grant with
    startsAt := grant.startsAt <|> periodStartAt
    expiresAt := grant.expiresAt <|> expiresDate }

/-- The order and its grant get what they lack, and the family a subscription if it has none. -/
def postgresEnsureAppleSubscriptionForOrder (now : Timestamp) (order : BillingOrderRecord)
    (input : EnsureInput) (t : Tables) : Except AuthError Tables :=
  match order.originalTransactionId, order.externalTransactionId with
  | some f, some transactionId =>
    match input.productId <|> order.productId, input.environment <|> order.environment with
    | some productId, some environment =>
      let expiresDate := input.expiresDate <|> order.periodEndAt
      let status := input.status.getD
        (if expiresDate.any (· ≤ now) then .expired
        else if order.status = .refunded then .revoked
        else .active)
      let t := updateOrder t order.id
        (ensuredOrder { input with expiresDate } productId environment)
      let t := match order.entitlementGrantId with
        | none => t
        | some grantId => updateGrant t grantId (ensuredGrant order.periodStartAt expiresDate)
      .ok { t with
        appleSubscriptions := t.appleSubscriptions.insert
          { originalTransactionId := f
            userId := order.userId
            currentTransactionId := transactionId
            productId
            environment
            status
            expiresAt := expiresDate
            lastSignedDate := input.signedDate <|> order.signedDate
            lastNotificationUUID := input.notificationUUID } }
    | _, _ => .error appleReconciliationRequired
  | _, _ => .ok t

/-! ### Purchases -/

/-- An order for a period before that of the subscription's current order. -/
def purchaseStale (t : Tables) (subscription : AppleSubscriptionRecord) (transactionId : TransactionId)
    (incoming : LifecycleDates) : Bool :=
  subscription.currentTransactionId != transactionId &&
    isAppleLifecycleUpdateStale
      { expiresDate := subscription.expiresAt
        periodStartDate :=
          (findAppleOrder t subscription.currentTransactionId).bind (·.periodStartAt)
        signedDate := subscription.lastSignedDate } incoming

/-- The account moved to a plan Apple sold. -/
def purchasedUser (now : Timestamp) (orderId : BillingOrderId) (plan : BillingPlanId)
    (periodStartAt periodEndAt : Option Timestamp) (user : UserRecord) : UserRecord :=
  { user with
    freeTrialMinutesUsed :=
      if user.plan = .free then min user.freeTrialMinutesTotal user.officialMinutesUsed
      else user.freeTrialMinutesUsed
    plan
    officialMinutesTotal := getPlanMinutes plan
    officialMinutesUsed := 0
    officialMinutesPeriodStartAt := some (periodStartAt.getD now)
    officialMinutesPeriodEndAt := periodEndAt
    officialMinutesPeriodSource := some EntitlementGrantSource.appleIap.text
    officialMinutesBillingOrderId := some orderId }

/-- `insert into apple_subscriptions … on conflict (original_transaction_id) do update … where p`. -/
def upsertSubscription (t : Tables) (row : AppleSubscriptionRecord)
    (onConflict : AppleSubscriptionRecord → AppleSubscriptionRecord)
    (p : AppleSubscriptionRecord → Bool) : Tables :=
  match t.appleSubscriptions.get? row.originalTransactionId with
  | none => { t with appleSubscriptions := t.appleSubscriptions.insert row }
  | some existing =>
    if p existing then
      { t with appleSubscriptions := t.appleSubscriptions.replace (onConflict existing) }
    else t

/-- The condition of the upsert: the same owner, and not signed earlier. -/
def upsertAllowed (userId : UserId) (signedDate : Option Timestamp)
    (existing : AppleSubscriptionRecord) : Bool :=
  existing.userId == userId && signedInOrder existing.lastSignedDate signedDate

/-- The row a purchase inserts. -/
def purchasedSubscription (input : AppleIapPurchaseInput) (f : TransactionId) :
    AppleSubscriptionRecord where
  originalTransactionId := f
  userId := input.userId
  currentTransactionId := input.externalTransactionId
  productId := input.productId
  environment := input.environment
  expiresAt := input.periodEndAt
  lastSignedDate := input.signedDate

/-- The update of a subscription row by a purchase. -/
def repurchasedSubscription (input : AppleIapPurchaseInput) (existing : AppleSubscriptionRecord) :
    AppleSubscriptionRecord :=
  { existing with
    userId := input.userId
    currentTransactionId := input.externalTransactionId
    productId := input.productId
    environment := input.environment
    status := .active
    expiresAt := input.periodEndAt
    graceExpiresAt := none
    lastSignedDate := input.signedDate }

/-- The order a purchase inserts. -/
def insertedOrder (now : Timestamp) (ids : PlanChangeIds) (input : AppleIapPurchaseInput) :
    BillingOrderRecord :=
  { purchasedOrder now ids input with appAccountToken := input.appAccountToken.map (·.toLower) }

/-- The subscription of a purchase, inserted or updated. -/
def savePurchase (input : AppleIapPurchaseInput) (t : Tables) : Tables :=
  match input.originalTransactionId with
  | none => t
  | some f => upsertSubscription t (purchasedSubscription input f) (repurchasedSubscription input)
      (upsertAllowed input.userId input.signedDate)

/-- The purchase taken: the rest of the family is superseded, the account moves to the plan. -/
def takePurchase (now : Timestamp) (ids : PlanChangeIds) (input : AppleIapPurchaseInput)
    (user : UserRecord) (t : Tables) : Tables :=
  let (previousPlan, t) := supersedeFamilyOf t input.userId user.plan input.originalTransactionId
    input.externalTransactionId now
  let t := t.updateUser input.userId
    (purchasedUser now ids.order input.plan input.periodStartAt input.periodEndAt) (·.active)
  let t := { t with
    billingOrders := t.billingOrders.insert (insertedOrder now ids input)
    entitlementGrants := t.entitlementGrants.insert (purchasedGrant now ids input previousPlan) }
  insertAdjustment (savePurchase input t) ids.usage input.userId
    ("Apple IAP entitlement granted: " ++ input.productId)

/-- The oldest order with the idempotency key or of the transaction. -/
def findExistingOrder (t : Tables) (input : AppleIapPurchaseInput) : Option BillingOrderRecord :=
  (t.billingOrders.rows.filter fun order =>
    order.idempotencyKey == input.idempotencyKey ||
      ofTransaction input.externalTransactionId order).foldl
    (fun best order => match best with
      | none => some order
      | some b => if order.createdAt < b.createdAt then some order else some b) none

/-- The token of the purchase is bound to the account. -/
def tokenMatches (t : Tables) (token : Option String) (userId : UserId) : Bool :=
  token.all fun token =>
    (t.appleIapAccountBindings.get? token.toLower).any (·.userId == userId)

def purchaseTransaction (now : Timestamp) (ids : PlanChangeIds) (input : AppleIapPurchaseInput)
    (t : Tables) : Except AuthError (AppleIapPurchaseResult × Tables) :=
  match t.users.find? fun user => user.id == input.userId && user.active with
  | none => .error accountMissing
  | some user =>
    if !tokenMatches t input.appAccountToken input.userId then .error appleTokenMismatch
    else match findExistingOrder t input with
      | some existingOrder =>
        if existingOrder.userId ≠ input.userId then .error appleTransactionBound
        else do
          let t ← postgresEnsureAppleSubscriptionForOrder now existingOrder
            { environment := some input.environment
              expiresDate := input.periodEndAt
              notificationUUID := none
              productId := some input.productId
              signedDate := input.signedDate
              status := some .active } t
          .ok ({ duplicate := true, order := existingOrder, user := toSafeUser user }, t)
      | none =>
        let existingSubscription := input.originalTransactionId.bind t.appleSubscriptions.get?
        if existingSubscription.any (·.userId != input.userId) then
          .error appleSubscriptionOwnerConflict
        else match existingSubscription.filter fun s => purchaseStale t s input.externalTransactionId
            { expiresDate := input.periodEndAt
              periodStartDate := input.periodStartAt
              signedDate := input.signedDate } with
          | some subscription =>
            match findAppleOrder t subscription.currentTransactionId with
            | none => .error appleStaleTransaction
            | some order => .ok ({ duplicate := true, order, user := toSafeUser user }, t)
          | none =>
            .ok ({ duplicate := false
                   order := insertedOrder now ids input
                   user := toSafeUser
                     (purchasedUser now ids.order input.plan input.periodStartAt input.periodEndAt
                       user) }, takePurchase now ids input user t)

def postgresRecordAppleIapPurchase (now : Timestamp) (ids : PlanChangeIds)
    (input : AppleIapPurchaseInput) :
    Database → Except AuthError (AppleIapPurchaseResult × Database) :=
  postgresTransaction (purchaseTransaction now ids input)

/-! ### Renewals -/

/-- The answer of the transaction of a notification; the event is marked outside it. -/
structure NotificationOutcome where
  duplicate : Bool
  grant : Option EntitlementGrantRecord := none
  order : BillingOrderRecord
  user : UserRecord

/-- The update of the subscription by a renewal whose order exists already. -/
def renewedSubscription (input : AppleIapNotificationInput) (notificationUUID : String)
    (s : AppleSubscriptionRecord) : AppleSubscriptionRecord :=
  { s with
    status := .active
    expiresAt := input.expiresDate <|> s.expiresAt
    autoRenewStatus := input.autoRenewStatus <|> s.autoRenewStatus
    lastSignedDate := input.signedDate <|> s.lastSignedDate
    lastNotificationUUID := some notificationUUID }

def renewalInOrder (input : AppleIapNotificationInput) (s : AppleSubscriptionRecord) : Bool :=
  !isAppleLifecycleUpdateStale { expiresDate := s.expiresAt, signedDate := s.lastSignedDate }
    { expiresDate := input.expiresDate, signedDate := input.signedDate }

/-- A renewal whose order exists already. -/
def renewExisting (now : Timestamp) (notificationUUID : String) (input : AppleIapNotificationInput)
    (existingOrder : BillingOrderRecord) (t : Tables) :
    Except AuthError (NotificationOutcome × Tables) :=
  match t.users.get? existingOrder.userId with
  | none => .error appleOrderUserMissing
  | some user => do
    let t ← postgresEnsureAppleSubscriptionForOrder now existingOrder
      { environment := input.environment
        expiresDate := input.expiresDate
        notificationUUID := some notificationUUID
        productId := input.productId
        signedDate := input.signedDate
        status := some .active } t
    let t := match input.originalTransactionId <|> existingOrder.originalTransactionId with
      | none => t
      | some f =>
        updateSubscription t f (renewedSubscription input notificationUUID) (renewalInOrder input)
    .ok ({ duplicate := true, order := existingOrder, user }, t)

def renewalNote (input : AppleIapNotificationInput) (productId : String) (f : TransactionId) :
    String :=
  joinNote ["Apple IAP renewal " ++ productId, (input.environment.map ("environment=" ++ ·)).getD "",
    "originalTransactionId=" ++ f]

/-- What a renewal is taken for. -/
structure Renewal where
  transactionId : TransactionId
  family : TransactionId
  plan : BillingPlanId
  productId : String
  idempotencyKey : String

/-- The order a renewal inserts; without a grant for a deleted account. -/
def renewalOrder (now : Timestamp) (ids : PlanChangeIds) (input : AppleIapNotificationInput)
    (r : Renewal) (user : UserRecord) : BillingOrderRecord where
  id := ids.order
  userId := user.id
  provider := .appleIap
  plan := r.plan
  environment := some (input.environment.getD "Sandbox")
  productId := some r.productId
  appAccountToken := input.appAccountToken.map (·.toLower)
  signedDate := input.signedDate
  statusSignedDate := input.signedDate
  externalTransactionId := some r.transactionId
  originalTransactionId := some r.family
  idempotencyKey := r.idempotencyKey
  periodStartAt := input.purchaseDate
  periodEndAt := input.expiresDate
  entitlementGrantId := if user.active then some ids.grant else none
  note :=
    if user.active then renewalNote input r.productId r.family
    else "Apple IAP renewal retained for deleted account; no entitlement granted"
  createdAt := now

def renewalGrant (now : Timestamp) (ids : PlanChangeIds) (input : AppleIapNotificationInput)
    (r : Renewal) (user : UserRecord) (previousPlan : BillingPlanId) : EntitlementGrantRecord where
  id := ids.grant
  userId := user.id
  billingOrderId := some ids.order
  source := .appleIap
  previousPlan
  plan := r.plan
  officialMinutesTotal := getPlanMinutes r.plan
  reason := renewalNote input r.productId r.family
  startsAt := some (input.purchaseDate.getD now)
  expiresAt := input.expiresDate
  createdAt := now

def renewalSubscription (notificationUUID : String) (input : AppleIapNotificationInput) (r : Renewal)
    (user : UserRecord) : AppleSubscriptionRecord where
  originalTransactionId := r.family
  userId := user.id
  currentTransactionId := r.transactionId
  productId := r.productId
  environment := input.environment.getD "Sandbox"
  expiresAt := input.expiresDate
  autoRenewStatus := input.autoRenewStatus
  isUpgraded := input.isUpgraded == some true
  lastSignedDate := input.signedDate
  lastNotificationUUID := some notificationUUID

/-- The subscription row moved on by a renewal. -/
def movedSubscription (row existing : AppleSubscriptionRecord) : AppleSubscriptionRecord :=
  { existing with
    currentTransactionId := row.currentTransactionId
    productId := row.productId
    environment := row.environment
    status := .active
    expiresAt := row.expiresAt
    graceExpiresAt := none
    autoRenewStatus := row.autoRenewStatus <|> existing.autoRenewStatus
    lastSignedDate := row.lastSignedDate
    lastNotificationUUID := row.lastNotificationUUID }

/-- A renewal of a deleted account is kept on record only. -/
def retainRenewal (now : Timestamp) (ids : PlanChangeIds) (notificationUUID : String)
    (input : AppleIapNotificationInput) (r : Renewal) (user : UserRecord) (t : Tables) : Tables :=
  let t := { t with billingOrders := t.billingOrders.insert (renewalOrder now ids input r user) }
  let row := renewalSubscription notificationUUID input r user
  upsertSubscription t row (movedSubscription row) fun _ => true

/-- The renewal taken: the rest of the family is superseded, the account moves to the plan. -/
def takeRenewal (now : Timestamp) (ids : PlanChangeIds) (notificationUUID : String)
    (input : AppleIapNotificationInput) (r : Renewal) (user : UserRecord) (t : Tables) : Tables :=
  let (previousPlan, t) :=
    postgresSupersedeAppleSubscriptionFamily t user.id r.family r.transactionId now
  let t := t.updateUser user.id
    (purchasedUser now ids.order r.plan input.purchaseDate input.expiresDate) (·.active)
  let t := { t with
    billingOrders := t.billingOrders.insert (renewalOrder now ids input r user)
    entitlementGrants :=
      t.entitlementGrants.insert (renewalGrant now ids input r user previousPlan) }
  let row := renewalSubscription notificationUUID input r user
  let t := upsertSubscription t row
    (fun existing => { movedSubscription row existing with isUpgraded := row.isUpgraded })
    (upsertAllowed user.id input.signedDate)
  insertAdjustment t ids.usage user.id ("Apple IAP renewal granted: " ++ r.productId)

/-- A renewal without an order. -/
def renewNew (now : Timestamp) (ids : PlanChangeIds) (notificationUUID : String)
    (input : AppleIapNotificationInput) (transactionId f : TransactionId) (t : Tables) :
    Except AuthError (NotificationOutcome × Tables) :=
  let existingSubscription := t.appleSubscriptions.get? f
  let currentOrder := existingSubscription.bind fun s => findAppleOrder t s.currentTransactionId
  if existingSubscription.any fun s => purchaseStale t s transactionId
      { expiresDate := input.expiresDate
        periodStartDate := input.purchaseDate
        signedDate := input.signedDate } then
    match currentOrder, currentOrder.bind fun order => t.users.get? order.userId with
    | some order, some user => .ok ({ duplicate := true, order, user }, t)
    | _, _ => .error appleStaleNotification
  else
    let previousOrder := newestOrder (t.billingOrders.rows.filter (inFamily f))
    match input.plan <|> previousOrder.map (·.plan) <|> currentOrder.map (·.plan),
        input.productId, input.idempotencyKey with
    | some plan, some productId, some idempotencyKey =>
      let binding :=
        if previousOrder.isSome then none
        else input.appAccountToken.bind fun token => t.appleIapAccountBindings.get? token.toLower
      match previousOrder.map (·.userId) <|> binding.map (·.userId) with
      | none => .error appleOwnerUnknown
      | some ownerUserId =>
        if existingSubscription.any (·.userId != ownerUserId) then
          .error appleSubscriptionOwnerConflict
        else match t.users.get? ownerUserId with
          | none => .error appleOrderUserMissing
          | some user =>
            let r : Renewal := { transactionId, family := f, plan, productId, idempotencyKey }
            let order := renewalOrder now ids input r user
            if user.deletedAt.isSome then
              .ok ({ duplicate := false, order, user },
                retainRenewal now ids notificationUUID input r user t)
            else match t.billingOrders.find? (·.idempotencyKey == idempotencyKey) with
              | some existing => .ok ({ duplicate := true, order := existing, user }, t)
              | none =>
                .ok ({ duplicate := false
                       order
                       user := purchasedUser now ids.order plan input.purchaseDate input.expiresDate
                         user }, takeRenewal now ids notificationUUID input r user t)
    | _, _, _ => .error appleEntitlementUnmapped

/-- The branch of `renewed` and `purchased`. -/
def applyRenewal (now : Timestamp) (ids : PlanChangeIds) (notificationUUID : String)
    (input : AppleIapNotificationInput) (transactionId : TransactionId) (t : Tables) :
    Except AuthError (NotificationOutcome × Tables) :=
  match findAppleOrder t transactionId with
  | some existingOrder => renewExisting now notificationUUID input existingOrder t
  | none =>
    match input.originalTransactionId with
    | none => .error appleOriginalTransactionIdMissing
    | some f => renewNew now ids notificationUUID input transactionId f t

/-! ### Lifecycle notifications -/

/-- The first by `(external_transaction_id = current_transaction_id) desc, created_at desc`, where
nulls come first: the order of the current transaction, or else the newest of the family. A
notification without a family names its order. -/
def lifecycleOrder (t : Tables) (input : AppleIapNotificationInput) (transactionId : TransactionId) :
    Option BillingOrderRecord :=
  match input.originalTransactionId with
  | none => findAppleOrder t transactionId
  | some f =>
    let family := t.billingOrders.rows.filter (inFamily f)
    match t.appleSubscriptions.get? f with
    | none => newestOrder family
    | some s =>
      newestOrder (family.filter (·.externalTransactionId.isNone)) <|>
        newestOrder (family.filter fun order =>
          order.externalTransactionId == some s.currentTransactionId) <|>
        newestOrder family

def lifecycleSubscription (input : AppleIapNotificationInput) (notificationUUID : String)
    (s : AppleSubscriptionRecord) : AppleSubscriptionRecord :=
  { s with
    status := (lifecycleStatus input.action).getD s.status
    expiresAt := input.expiresDate <|> s.expiresAt
    graceExpiresAt :=
      if input.action = .billingRetry then none else input.graceExpiresDate <|> s.graceExpiresAt
    autoRenewStatus := input.autoRenewStatus <|> s.autoRenewStatus
    lastSignedDate := input.signedDate <|> s.lastSignedDate
    lastNotificationUUID := some notificationUUID }

/-- The order, its grant and the account where the notification extends the period. -/
def extendPeriod (now : Timestamp) (input : AppleIapNotificationInput) (order : BillingOrderRecord)
    (user : UserRecord) (t : Tables) : Tables :=
  if input.action ≠ .extended then t
  else match input.expiresDate with
    | none => t
    | some expiresDate =>
      let t := updateOrder t order.id fun row => { row with
        periodEndAt := some expiresDate
        statusReason := some input.reason
        statusUpdatedAt := some now }
      let t := match order.entitlementGrantId with
        | none => t
        | some grantId => updateGrant t grantId fun grant => { grant with
            expiresAt := some expiresDate
            statusReason := some input.reason
            statusUpdatedAt := some now }
      if user.active ∧ user.officialMinutesBillingOrderId = some order.id then
        t.updateUser user.id fun row => { row with officialMinutesPeriodEndAt := some expiresDate }
      else t

/-- `status = 'revoked' and status_reason = $6`. -/
def expiredByRefresh (grant : EntitlementGrantRecord) : Bool :=
  grant.status == .revoked && grant.statusReason == some APPLE_EXPIRY_RECONCILIATION_REASON

def recoveredGrant (now : Timestamp) (input : AppleIapNotificationInput)
    (grant : EntitlementGrantRecord) : EntitlementGrantRecord :=
  { grant with
    status := .active
    statusReason := some (restoredReason input)
    statusUpdatedAt := some now
    expiresAt := if input.action = .extended then input.expiresDate else grant.expiresAt }

def recoveredUser (until_ : Timestamp) (order : BillingOrderRecord) (grant : EntitlementGrantRecord)
    (user : UserRecord) : UserRecord :=
  { user with
    plan := grant.plan
    officialMinutesTotal := grant.officialMinutesTotal
    officialMinutesUsed := min user.officialMinutesUsed grant.officialMinutesTotal
    officialMinutesPeriodStartAt :=
      grant.startsAt <|> order.periodStartAt <|> user.officialMinutesPeriodStartAt
    officialMinutesPeriodEndAt := some until_
    officialMinutesPeriodSource := some EntitlementGrantSource.appleIap.text
    officialMinutesBillingOrderId := some order.id }

/-- The grant that a refresh expired, brought back where the notification says that access goes
on. -/
def recover (now : Timestamp) (input : AppleIapNotificationInput) (order : BillingOrderRecord)
    (user : UserRecord) (t : Tables) : Tables :=
  if !user.active then t
  else match order.entitlementGrantId.bind t.entitlementGrants.get?, recoveryUntil input with
    | some grant, some until_ =>
      if now < until_ ∧ expiredByRefresh grant then
        let t := updateGrant t grant.id (recoveredGrant now input)
        t.updateUser user.id (recoveredUser until_ order grant) (·.active)
      else t
    | _, _ => t

/-- The branch of `grace`, `billing_retry`, `extended` and `renewal_status`. -/
def applyLifecycle (now : Timestamp) (notificationUUID : String) (input : AppleIapNotificationInput)
    (transactionId : TransactionId) (t : Tables) : Except AuthError (NotificationOutcome × Tables) :=
  match lifecycleOrder t input transactionId with
  | none => .error appleLifecycleOrderMissing
  | some familyOrder =>
    match t.users.get? familyOrder.userId with
    | none => .error appleOrderUserMissing
    | some user => do
      let t ← postgresEnsureAppleSubscriptionForOrder now familyOrder
        { environment := input.environment
          expiresDate := input.expiresDate
          notificationUUID := some notificationUUID
          productId := input.productId
          signedDate := input.signedDate
          status := lifecycleStatus input.action } t
      let subscription := (input.originalTransactionId <|> familyOrder.originalTransactionId).bind
        t.appleSubscriptions.get?
      match subscription.filter fun s => signedInOrder s.lastSignedDate input.signedDate with
      | none => .ok ({ duplicate := true, order := familyOrder, user }, t)
      | some s =>
        let t := { t with
          appleSubscriptions :=
            t.appleSubscriptions.replace (lifecycleSubscription input notificationUUID s) }
        let t := recover now input familyOrder user (extendPeriod now input familyOrder user t)
        .ok ({ duplicate := false
               grant := familyOrder.entitlementGrantId.bind t.entitlementGrants.get?
               order := (t.billingOrders.get? familyOrder.id).getD familyOrder
               user := (t.users.get? user.id).getD user }, t)

/-! ### Refunds, revocations and reversals -/

/-- The subscription, if the order is that of its current transaction. -/
def targetSubscription (t : Tables) (order : BillingOrderRecord) : Option AppleSubscriptionRecord :=
  (order.originalTransactionId.bind t.appleSubscriptions.get?).filter fun s =>
    order.externalTransactionId == some s.currentTransactionId

def statusChangeStale (t : Tables) (input : AppleIapNotificationInput) (order : BillingOrderRecord) :
    Bool :=
  isAppleStatusUpdateStale input.signedDate order.statusSignedDate ||
    (targetSubscription t order).any fun s => isAppleLifecycleUpdateStale
      { expiresDate := s.expiresAt, signedDate := s.lastSignedDate }
      { expiresDate := input.expiresDate, signedDate := input.signedDate }

/-- The status a subscription gets from a change of its order. -/
def changedStatus : AppleIapNotificationAction → AppleSubscriptionStatus
  | .restored => .active
  | .expired => .expired
  | _ => .revoked

/-- A subscription with the status, the signature and the notification of a change. -/
def changedSubscription (notificationUUID : String) (input : AppleIapNotificationInput)
    (s : AppleSubscriptionRecord) : AppleSubscriptionRecord :=
  { s with
    status := changedStatus input.action
    lastSignedDate := input.signedDate <|> s.lastSignedDate
    lastNotificationUUID := some notificationUUID }

/-- `update billing_orders set status = $1, status_reason = $2, status_updated_at = $3`. -/
def setOrderStatus (now : Timestamp) (status : BillingOrderStatus) (reason : String)
    (order : BillingOrderRecord) : BillingOrderRecord :=
  { order with status, statusReason := some reason, statusUpdatedAt := some now }

def setGrantStatus (now : Timestamp) (status : EntitlementGrantStatus) (reason : String)
    (grant : EntitlementGrantRecord) : EntitlementGrantRecord :=
  { grant with status, statusReason := some reason, statusUpdatedAt := some now }

/-- The signature and the notification are noted whatever the change does. -/
def noteSignature (notificationUUID : String) (input : AppleIapNotificationInput)
    (order : BillingOrderRecord) (t : Tables) : Tables :=
  let target := targetSubscription t order
  let t := updateOrder t order.id fun row => { row with
    statusSignedDate := input.signedDate <|> row.statusSignedDate }
  match target with
  | none => t
  | some s => updateSubscription t s.originalTransactionId fun row => { row with
      lastSignedDate := input.signedDate <|> row.lastSignedDate
      lastNotificationUUID := some notificationUUID }

/-- `update apple_subscriptions` of the order's family, where `p`. -/
def updateFamily (t : Tables) (order : BillingOrderRecord)
    (g : AppleSubscriptionRecord → AppleSubscriptionRecord)
    (p : AppleSubscriptionRecord → Bool := fun _ => true) : Tables :=
  match order.originalTransactionId with
  | none => t
  | some f => updateSubscription t f g p

/-- The order is that of the current transaction, and the change is not signed earlier. -/
def currentInOrder (input : AppleIapNotificationInput) (order : BillingOrderRecord)
    (s : AppleSubscriptionRecord) : Bool :=
  order.externalTransactionId == some s.currentTransactionId &&
    signedInOrder s.lastSignedDate input.signedDate

/-- What a deleted account's order is changed to. -/
def applyToDeleted (now : Timestamp) (notificationUUID : String) (input : AppleIapNotificationInput)
    (order : BillingOrderRecord) (grant : Option EntitlementGrantRecord) (t : Tables) : Tables :=
  let status := getAppleBillingOrderStatus input.action order.status
  match grant with
  | none =>
    let t := updateOrder t order.id
      (setOrderStatus now status (input.reason ++ "; deleted account ledger only"))
    updateFamily t order (changedSubscription notificationUUID input)
  | some grant =>
    let reason := input.reason ++ "; account already deleted"
    let grantStatus : EntitlementGrantStatus :=
      if input.action = .refunded then .refunded else .revoked
    let t := updateGrant t grant.id (setGrantStatus now grantStatus reason)
    let t := updateOrder t order.id (setOrderStatus now status reason)
    updateFamily t order (changedSubscription notificationUUID input)
      fun s => signedInOrder s.lastSignedDate input.signedDate

def notificationNote (input : AppleIapNotificationInput) : String :=
  "Apple IAP notification " ++ input.notificationType.getD "undefined" ++ ": " ++ input.reason

def historicalNote (input : AppleIapNotificationInput) : String :=
  "Apple IAP historical notification " ++ input.notificationType.getD "undefined" ++ ": " ++
    input.reason

/-- The account on the plan of a grant that Apple gave back. -/
def restoredUser (order : BillingOrderRecord) (grant : EntitlementGrantRecord) (user : UserRecord) :
    UserRecord :=
  { user with
    plan := grant.plan
    officialMinutesTotal := grant.officialMinutesTotal
    officialMinutesUsed := min user.officialMinutesUsed grant.officialMinutesTotal
    officialMinutesPeriodStartAt := order.periodStartAt <|> user.officialMinutesPeriodStartAt
    officialMinutesPeriodEndAt := order.periodEndAt
    officialMinutesPeriodSource := some EntitlementGrantSource.appleIap.text
    officialMinutesBillingOrderId := some order.id }

/-- The family has an active grant of another order. -/
def hasActiveFamilyGrant (t : Tables) (order : BillingOrderRecord) : Bool :=
  match order.originalTransactionId with
  | none => false
  | some f => t.entitlementGrants.rows.any
      (activeGrantOf t fun other => inFamily f other && other.id != order.id)

/-- The update of the grant of a reversed refund. -/
def reactivatedGrant (now : Timestamp) (input : AppleIapNotificationInput)
    (previousPlan : BillingPlanId) (grant : EntitlementGrantRecord) : EntitlementGrantRecord :=
  { setGrantStatus now .active input.reason grant with previousPlan }

/-- The grant of a reversed refund active again. -/
def reactivate (now : Timestamp) (usageId : UsageEventId) (notificationUUID : String)
    (input : AppleIapNotificationInput) (transactionId : TransactionId) (order : BillingOrderRecord)
    (grant : EntitlementGrantRecord) (user : UserRecord) (t : Tables) : Tables :=
  let (previousPlan, t) := supersedeFamilyOf t user.id user.plan order.originalTransactionId
    (order.externalTransactionId.getD transactionId) now
  let t := updateGrant t grant.id (reactivatedGrant now input previousPlan)
  let t := updateOrder t order.id (setOrderStatus now .paid input.reason)
  let t := updateFamily t order (changedSubscription notificationUUID input)
    (currentInOrder input order)
  let t := t.updateUser user.id (restoredUser order grant) (·.active)
  insertAdjustment t usageId user.id (notificationNote input)

/-- The branch of `restored`. -/
def applyRestored (now : Timestamp) (usageId : UsageEventId) (notificationUUID : String)
    (input : AppleIapNotificationInput) (transactionId : TransactionId) (order : BillingOrderRecord)
    (grant : EntitlementGrantRecord) (user : UserRecord) (t : Tables) : Bool × Tables :=
  if grant.status = .active ∧ order.status = .paid then
    (true, match targetSubscription t order with
      | none => t
      | some s => updateSubscription t s.originalTransactionId fun row => { row with
          status := .active })
  else if hasActiveFamilyGrant t order then
    let t := updateGrant t grant.id fun row =>
      setGrantStatus now (if row.status = .refunded then .revoked else row.status)
        (historicalReason input) row
    (false, updateOrder t order.id (setOrderStatus now .paid input.reason))
  else (false, reactivate now usageId notificationUUID input transactionId order grant user t)

/-- `billing_order_id in (select id from billing_orders where familyOrderCondition)`. -/
def revokedOrder (order other : BillingOrderRecord) : Bool :=
  match order.originalTransactionId with
  | none => other.id == order.id
  | some f => inFamily f other

theorem familyRevoked_key (now : Timestamp) (reason : String)
    (status : EntitlementGrantRecord → EntitlementGrantStatus) (grant : EntitlementGrantRecord) :
    HasKey.key (setGrantStatus now (status grant) reason grant) = HasKey.key grant := rfl

def revokeFamily (now : Timestamp) (input : AppleIapNotificationInput) (order : BillingOrderRecord)
    (grant : EntitlementGrantRecord) (t : Tables) : Tables :=
  let status (row : EntitlementGrantRecord) : EntitlementGrantStatus :=
    if row.id = grant.id ∧ input.action = .refunded then .refunded else .revoked
  { t with
    entitlementGrants := t.entitlementGrants.updateWhere (activeGrantOf t (revokedOrder order))
      (fun row => setGrantStatus now (status row) input.reason row) (familyRevoked_key now _ status) }

/-- The branch of `refunded`, `revoked` and `expired`. -/
def applyRevoked (now : Timestamp) (usageId : UsageEventId) (notificationUUID : String)
    (input : AppleIapNotificationInput) (order : BillingOrderRecord) (grant : EntitlementGrantRecord)
    (user : UserRecord) (t : Tables) : Bool × Tables :=
  let orderStatus := getAppleBillingOrderStatus input.action order.status
  if grant.status ≠ .active then
    if order.status ≠ orderStatus then
      let t := updateOrder t order.id (setOrderStatus now orderStatus input.reason)
      (false, insertAdjustment t usageId user.id (historicalNote input))
    else (true, t)
  else
    let t := revokeFamily now input order grant t
    let t := updateOrder t order.id (setOrderStatus now orderStatus input.reason)
    let t := updateFamily t order (changedSubscription notificationUUID input)
      (currentInOrder input order)
    let t := t.updateUser user.id (fallenBackUser (postgresResolveActivePlan now user.id t))
      (·.active)
    (false, insertAdjustment t usageId user.id (notificationNote input))

/-- The branches that change the status of an order. -/
def applyStatusChange (now : Timestamp) (usageId : UsageEventId) (notificationUUID : String)
    (input : AppleIapNotificationInput) (transactionId : TransactionId) (t : Tables) :
    Except AuthError (NotificationOutcome × Tables) :=
  match findAppleOrder t transactionId with
  | none => .error appleOrderMissing
  | some order =>
    match t.users.get? order.userId with
    | none => .error appleOrderUserMissing
    | some user =>
      let grant := order.entitlementGrantId.bind t.entitlementGrants.get?
      if statusChangeStale t input order then
        .ok ({ duplicate := true, grant, order, user }, t)
      else
        let t := noteSignature notificationUUID input order t
        let answer (duplicate : Bool) (t : Tables) : NotificationOutcome × Tables :=
          ({ duplicate
             grant := order.entitlementGrantId.bind t.entitlementGrants.get?
             order := (t.billingOrders.get? order.id).getD order
             user := (t.users.get? user.id).getD user }, t)
        match grant with
        | none =>
          if user.deletedAt.isSome then
            .ok (answer false (applyToDeleted now notificationUUID input order none t))
          else .error appleGrantMissing
        | some grant =>
          if user.deletedAt.isSome then
            .ok (answer false (applyToDeleted now notificationUUID input order (some grant) t))
          else
            let (duplicate, t) :=
              if input.action = .restored then
                applyRestored now usageId notificationUUID input transactionId order grant user t
              else applyRevoked now usageId notificationUUID input order grant user t
            .ok (answer duplicate t)

/-! ### Notifications -/

/-- The transaction of a notification. -/
def applyNotification (now : Timestamp) (ids : PlanChangeIds) (notificationUUID : String)
    (input : AppleIapNotificationInput) (transactionId : TransactionId) (t : Tables) :
    Except AuthError (NotificationOutcome × Tables) :=
  match input.action with
  | .renewed | .purchased => applyRenewal now ids notificationUUID input transactionId t
  | .grace | .billingRetry | .extended | .renewalStatus =>
    applyLifecycle now notificationUUID input transactionId t
  | _ => applyStatusChange now ids.usage notificationUUID input transactionId t

theorem Constraints.withEvents {t : Tables} (h : Constraints t)
    (events : Table AppleNotificationEventRecord) :
    Constraints { t with appleNotificationEvents := events } :=
  ⟨h.users, h.reservations, h.steps, h.grants, h.operationKeys, h.stageKeys, h.usageReservations,
    h.idempotencyKeys, h.appleTransactions⟩

/-- A statement on the events alone; no constraint is on them. -/
def setEvents (db : Database)
    (events : Table AppleNotificationEventRecord → Table AppleNotificationEventRecord) : Database :=
  ⟨{ db.toTables with appleNotificationEvents := events db.appleNotificationEvents },
    Constraints.withEvents db.valid _⟩

/-- `update apple_notification_events … where notification_uuid = $3`. -/
def updateEvent (notificationUUID : String)
    (f : AppleNotificationEventRecord → AppleNotificationEventRecord) (db : Database) : Database :=
  setEvents db fun events => match events.get? notificationUUID with
    | none => events
    | some event => events.replace (f event)

def postgresCompleteAppleNotificationEvent (notificationUUID : String)
    (status : AppleNotificationProcessingStatus) (action : AppleIapNotificationAction) :
    Database → Database :=
  updateEvent notificationUUID fun event => { event with
    processingStatus := status
    resultAction := some action
    errorCode := none }

def postgresFailAppleNotificationEvent (notificationUUID errorCode : String) : Database → Database :=
  updateEvent notificationUUID fun event => { event with
    processingStatus := .failed
    errorCode := some errorCode }

/-- `error.code || http_${error.status}`; what the database reports is no `AuthError`. -/
def failureCode (e : AuthError) : String :=
  if e = constraintViolation then "processing_failed"
  else e.code.getD ("http_" ++ toString e.status)

/-- The insert of the event, or the update of one that was not finished; `none` where no row is
returned. -/
def logEvent (notificationUUID payloadSha256 : String) (db : Database) : Option Database :=
  match db.appleNotificationEvents.get? notificationUUID with
  | none => some (setEvents db (·.insert { notificationUUID, payloadSha256 }))
  | some event =>
    if (event.processingStatus = .failed ∨ event.processingStatus = .received) ∧
        event.payloadSha256 = payloadSha256 then
      some (setEvents db (·.replace { event with processingStatus := .received, errorCode := none }))
    else none

def postgresRecordAppleIapNotification (sha256 : String → String) (now : Timestamp)
    (ids : PlanChangeIds) (input : AppleIapNotificationInput) (db : Database) :
    Except AuthError AppleIapNotificationResult × Database :=
  let action := input.action
  let notificationUUID := input.notificationUUID.getD (makeLegacyAppleNotificationId sha256 input)
  let payloadSha256 := input.payloadSha256.getD (sha256 input.reason)
  match logEvent notificationUUID payloadSha256 db with
  | none =>
    if (db.appleNotificationEvents.get? notificationUUID).any (·.payloadSha256 != payloadSha256) then
      (.error applePayloadMismatch, db)
    else (.ok { action, duplicate := true }, db)
  | some db =>
    if action = .ignored then
      (.ok { action, duplicate := false },
        postgresCompleteAppleNotificationEvent notificationUUID .ignored action db)
    else match input.transactionId with
      | none =>
        (.error appleTransactionIdMissing,
          postgresFailAppleNotificationEvent notificationUUID "missing_transaction_id" db)
      | some transactionId =>
        match postgresTransaction (applyNotification now ids notificationUUID input transactionId)
            db with
        | .error e => (.error e, postgresFailAppleNotificationEvent notificationUUID (failureCode e) db)
        | .ok (outcome, db) =>
          (.ok { action
                 duplicate := outcome.duplicate
                 grant := outcome.grant
                 order := some outcome.order
                 user := some (toSafeUser outcome.user) },
            postgresCompleteAppleNotificationEvent notificationUUID .processed action db)

end OwnMinutes.Postgres.Apple
