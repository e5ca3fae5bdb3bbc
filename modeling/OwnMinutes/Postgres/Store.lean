import OwnMinutes.Auth.QuotaTypes
import OwnMinutes.Lib.Outcome

/-! # The PostgreSQL database

The tables behind `auth-repository.ts`, the constraints the migrations put on them, and
transactions: a transaction works on the tables and commits if the constraints hold, so a
`Database` always satisfies them. Rows are the records the local store keeps as well.

`now` is the time of a transaction; the clock of the server and `now()` in SQL are the same. -/

namespace OwnMinutes.Postgres.Store

open OwnMinutes.Lib.Keyed OwnMinutes.Auth.ProcessingRoute OwnMinutes.Auth.Records
open OwnMinutes.Auth.Errors OwnMinutes.Auth.QuotaTypes

structure Tables where
  users : Table UserRecord := .empty
  meetingProcessingReservations : Table MeetingProcessingReservationRecord := .empty
  meetingProcessingProviderSteps : Table MeetingProviderStepRecord := .empty
  usageEvents : List UsageEventRecord := []
  entitlementGrants : Table EntitlementGrantRecord := .empty
  billingOrders : Table BillingOrderRecord := .empty
  appleIapAccountBindings : Table AppleIapAccountBindingRecord := .empty
  appleSubscriptions : Table AppleSubscriptionRecord := .empty
  appleNotificationEvents : Table AppleNotificationEventRecord := .empty
  deriving DecidableEq

/-! ### Constraints -/

/-- `users_minutes_within_total` and `users_free_trial_minutes_valid`. -/
def UserChecks (user : UserRecord) : Prop :=
  0 ≤ user.officialMinutesUsed ∧ user.officialMinutesUsed ≤ user.officialMinutesTotal ∧
    0 ≤ user.freeTrialMinutesUsed ∧ user.freeTrialMinutesUsed ≤ user.freeTrialMinutesTotal

/-- `meeting_processing_reservations_settlement_check` and the checks on single columns. -/
def ReservationChecks (r : MeetingProcessingReservationRecord) : Prop :=
  0 ≤ r.processedMinutes ∧ 0 ≤ r.officialMinutesSettled ∧
    r.officialMinutesSettled ≤ r.officialMinutesReserved ∧ 0 ≤ r.realtimeDurationMs ∧
    0 ≤ r.realtimeHighestSequence

def StepChecks (step : MeetingProviderStepRecord) : Prop :=
  0 ≤ step.officialMinutesSettled ∧ 0 ≤ step.freeTrialMinutesSettled

def GrantChecks (grant : EntitlementGrantRecord) : Prop := 0 ≤ grant.officialMinutesTotal

/-- The column of `billing_orders_apple_transaction_unique_idx`. -/
def appleTransaction (order : BillingOrderRecord) : Option TransactionId :=
  if order.provider = .appleIap then order.externalTransactionId else none

/-- The constraints of the migrations on the modelled columns. -/
structure Constraints (t : Tables) : Prop where
  users : ∀ user ∈ t.users.rows, UserChecks user
  reservations : ∀ r ∈ t.meetingProcessingReservations.rows, ReservationChecks r
  steps : ∀ step ∈ t.meetingProcessingProviderSteps.rows, StepChecks step
  grants : ∀ grant ∈ t.entitlementGrants.rows, GrantChecks grant
  operationKeys :
    (t.meetingProcessingReservations.rows.map fun r => (r.userId, r.operationKey)).Nodup
  stageKeys :
    (t.meetingProcessingProviderSteps.rows.map fun step => (step.reservationId, step.stageKey)).Nodup
  usageReservations : (t.usageEvents.filterMap (·.processingReservationId)).Nodup
  idempotencyKeys : (t.billingOrders.rows.map (·.idempotencyKey)).Nodup
  appleTransactions : (t.billingOrders.rows.filterMap appleTransaction).Nodup

instance (user : UserRecord) : Decidable (UserChecks user) :=
  inferInstanceAs (Decidable (_ ∧ _ ∧ _ ∧ _))

instance (r : MeetingProcessingReservationRecord) : Decidable (ReservationChecks r) :=
  inferInstanceAs (Decidable (_ ∧ _ ∧ _ ∧ _ ∧ _))

instance (step : MeetingProviderStepRecord) : Decidable (StepChecks step) :=
  inferInstanceAs (Decidable (_ ∧ _))

instance (grant : EntitlementGrantRecord) : Decidable (GrantChecks grant) :=
  inferInstanceAs (Decidable (_ ≤ _))

instance (t : Tables) : Decidable (Constraints t) :=
  decidable_of_iff
    ((∀ user ∈ t.users.rows, UserChecks user) ∧
      (∀ r ∈ t.meetingProcessingReservations.rows, ReservationChecks r) ∧
      (∀ step ∈ t.meetingProcessingProviderSteps.rows, StepChecks step) ∧
      (∀ grant ∈ t.entitlementGrants.rows, GrantChecks grant) ∧
      (t.meetingProcessingReservations.rows.map fun r => (r.userId, r.operationKey)).Nodup ∧
      (t.meetingProcessingProviderSteps.rows.map fun step =>
        (step.reservationId, step.stageKey)).Nodup ∧
      (t.usageEvents.filterMap (·.processingReservationId)).Nodup ∧
      (t.billingOrders.rows.map (·.idempotencyKey)).Nodup ∧
      (t.billingOrders.rows.filterMap appleTransaction).Nodup)
    ⟨fun ⟨a, b, c, d, e, f, g, h, i⟩ => ⟨a, b, c, d, e, f, g, h, i⟩,
      fun ⟨a, b, c, d, e, f, g, h, i⟩ => ⟨a, b, c, d, e, f, g, h, i⟩⟩

/-- Tables that satisfy the constraints. -/
structure Database extends Tables where
  valid : Constraints toTables

/-- What PostgreSQL reports when a constraint is violated: an error without a code of the routes. -/
def constraintViolation : AuthError := { message := "constraint violation", status := 500 }

/-- Commit the tables if they satisfy the constraints. -/
def commitTables {α : Type} (result : α) (t : Tables) : Except AuthError (α × Database) :=
  if valid : Constraints t then .ok (result, ⟨t, valid⟩) else .error constraintViolation

/-- Run the body on the tables and commit; an error rolls back. -/
def postgresTransaction {α : Type} (body : Tables → Except AuthError (α × Tables))
    (db : Database) : Except AuthError (α × Database) := do
  let (result, t) ← body db.toTables
  commitTables result t

/-! ### Updates of one row -/

/-- `update users set … where id = $1 and p`. -/
def Tables.updateUser (t : Tables) (id : UserId) (f : UserRecord → UserRecord)
    (p : UserRecord → Bool := fun _ => true) : Tables :=
  match t.users.get? id with
  | none => t
  | some user => if p user then { t with users := t.users.replace (f user) } else t

/-- `update meeting_processing_reservations set … where id = $1`. -/
def Tables.updateReservation (t : Tables) (id : ReservationId)
    (f : MeetingProcessingReservationRecord → MeetingProcessingReservationRecord) : Tables :=
  match t.meetingProcessingReservations.get? id with
  | none => t
  | some r =>
    { t with meetingProcessingReservations := t.meetingProcessingReservations.replace (f r) }

/-- `update meeting_processing_provider_steps … where id = $1 returning *`. -/
def Tables.putStep (t : Tables) (step : MeetingProviderStepRecord) : Tables :=
  { t with meetingProcessingProviderSteps := t.meetingProcessingProviderSteps.replace step }

/-! ### Locking an account -/

def lockPostgresQuotaUser (t : Tables) (userId : UserId) : Except AuthError UserRecord :=
  match t.users.find? fun user => user.id == userId && user.active with
  | none => .error accountMissing
  | some user => .ok user

def lockPostgresQuotaUserIncludingDeleted (t : Tables) (userId : UserId) :
    Except AuthError UserRecord :=
  match t.users.get? userId with
  | none => .error accountUnknown
  | some user => .ok user

def postgresSettlementPeriodIdentity (user : UserRecord) : String := settlementPeriodIdentity user

/-! ### The entitlements of an account -/

def APPLE_EXPIRY_RECONCILIATION_REASON : String :=
  "Apple subscription period expired; reconciled from signed expiry"

/-- `left join billing_orders on billing_orders.id = entitlement_grants.billing_order_id`. -/
def orderOfGrant (t : Tables) (grant : EntitlementGrantRecord) : Option BillingOrderRecord :=
  grant.billingOrderId.bind t.billingOrders.get?

/-- `left join apple_subscriptions on … original_transaction_id`. -/
def subscriptionOfOrder (t : Tables) (order : Option BillingOrderRecord) :
    Option AppleSubscriptionRecord :=
  (order.bind (·.originalTransactionId)).bind t.appleSubscriptions.get?

/-- `status = 'grace' and grace_expires_at > $2`. -/
def graceActive (now : Timestamp) (subscription : Option AppleSubscriptionRecord) : Bool :=
  match subscription with
  | none => false
  | some s => s.status == .grace && s.graceExpiresAt.any (now < ·)

/-- The active Apple grants whose order's period is over, grace included. -/
def grantExpired (now : Timestamp) (userId : UserId) (t : Tables) (grant : EntitlementGrantRecord) :
    Bool :=
  grant.userId == userId && grant.source == .appleIap && grant.status == .active &&
    match orderOfGrant t grant with
    | none => false
    | some order =>
      order.userId == userId && order.provider == .appleIap &&
        order.periodEndAt.any (· ≤ now) && !graceActive now (subscriptionOfOrder t (some order))

theorem expiredGrant_key (now : Timestamp) (grant : EntitlementGrantRecord) :
    HasKey.key { grant with
      status := .revoked
      statusReason := some APPLE_EXPIRY_RECONCILIATION_REASON
      statusUpdatedAt := some now } = HasKey.key grant := rfl

theorem expiredSubscription_key (s : AppleSubscriptionRecord) :
    HasKey.key { s with status := .expired } = HasKey.key s := rfl

/-- The first two statements of the refresh. -/
def expireGrants (now : Timestamp) (userId : UserId) (t : Tables) : Tables :=
  { t with
    entitlementGrants := t.entitlementGrants.updateWhere (grantExpired now userId t)
      (fun grant => { grant with
        status := .revoked
        statusReason := some APPLE_EXPIRY_RECONCILIATION_REASON
        statusUpdatedAt := some now }) (expiredGrant_key now)
    appleSubscriptions := t.appleSubscriptions.updateWhere
      (fun s => s.userId == userId && (s.status == .active || s.status == .billingRetry ||
        s.status == .grace) && (s.graceExpiresAt <|> s.expiresAt).any (· ≤ now))
      (fun s => { s with status := .expired }) expiredSubscription_key }

/-- The newest grant in force. -/
def activeGrant (now : Timestamp) (userId : UserId) (t : Tables) : Option EntitlementGrantRecord :=
  newestGrant (t.entitlementGrants.rows.filter fun grant =>
    grant.userId == userId && grant.status == .active &&
      (grant.source != .appleIap ||
        match (orderOfGrant t grant).bind (·.periodEndAt) with
        | none => true
        | some periodEndAt =>
          now < periodEndAt || graceActive now (subscriptionOfOrder t (orderOfGrant t grant))))

/-- The account under the grant, or back on its free trial. -/
def projectGrant (user : UserRecord) : Option EntitlementGrantRecord → UserRecord
  | some grant =>
    if user.plan ≠ grant.plan ∨ user.officialMinutesBillingOrderId ≠ grant.billingOrderId then
      { user with
        plan := grant.plan
        officialMinutesTotal := grant.officialMinutesTotal
        officialMinutesUsed := min user.officialMinutesUsed grant.officialMinutesTotal
        officialMinutesPeriodStartAt := grant.startsAt <|> user.officialMinutesPeriodStartAt
        officialMinutesPeriodEndAt := grant.expiresAt
        officialMinutesPeriodSource := some grant.source.text
        officialMinutesBillingOrderId := grant.billingOrderId }
    else user
  | none =>
    let freeTrialNeedsRestore : Bool :=
      user.plan != .free || user.officialMinutesTotal != user.freeTrialMinutesTotal ||
      user.officialMinutesUsed != user.freeTrialMinutesUsed ||
      user.officialMinutesPeriodSource != some FREE_TRIAL_SOURCE ||
      user.officialMinutesPeriodEndAt.isSome || user.officialMinutesBillingOrderId.isSome
    if freeTrialNeedsRestore then
      { user with
        plan := .free
        officialMinutesTotal := user.freeTrialMinutesTotal
        officialMinutesUsed := user.freeTrialMinutesUsed
        officialMinutesPeriodStartAt := some user.freeTrialGrantedAt
        officialMinutesPeriodEndAt := none
        officialMinutesPeriodSource := some FREE_TRIAL_SOURCE
        officialMinutesBillingOrderId := none }
    else user

/-- The body of `postgresRefreshUserEntitlements`. -/
def refreshTables (now : Timestamp) (userId : UserId) (t : Tables) : Tables :=
  match t.users.find? fun user => user.id == userId && user.active with
  | none => t
  | some user =>
    let t := expireGrants now userId t
    { t with users := t.users.replace (projectGrant user (activeGrant now userId t)) }

def postgresRefreshUserEntitlements (now : Timestamp) (userId : UserId) (db : Database) :
    Except AuthError (Unit × Database) :=
  postgresTransaction (fun t => .ok ((), refreshTables now userId t)) db

/-- The account, refreshed first; `none` stands for `null`. -/
def postgresFindActiveUserById (now : Timestamp) (userId : UserId) (db : Database) :
    Except AuthError (Option UserRecord × Database) := do
  let ((), db) ← postgresRefreshUserEntitlements now userId db
  .ok (db.users.find? fun user => user.id == userId && user.active, db)

def postgresGetUserUsage (now : Timestamp) (userId : UserId) (db : Database) :
    Except AuthError (UserUsageSummary × Database) := do
  let (user, db) ← postgresFindActiveUserById now userId db
  match user with
  | none => .error accountMissing
  | some user => .ok (userUsageSummary user, db)

end OwnMinutes.Postgres.Store
