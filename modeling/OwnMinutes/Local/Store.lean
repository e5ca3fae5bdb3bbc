import OwnMinutes.Auth.QuotaTypes

/-! # The local auth store

`auth-store.ts` keeps all records in one file. An operation reads the whole store, changes the
records it found and writes the whole store back; an error leaves the file as it was. A record the
source changes in place is put back by `Table.replace`.

This module holds the store, what reading it normalizes, and the functions on the free-trial fields
and on the entitlements of one account. -/

namespace OwnMinutes.Local.Store

open OwnMinutes.Lib.Keyed OwnMinutes.Auth.ProcessingRoute OwnMinutes.Auth.Records
open OwnMinutes.Auth.Errors OwnMinutes.Auth.QuotaTypes

structure AuthStore where
  users : Table UserRecord := .empty
  meetingProcessingReservations : Table MeetingProcessingReservationRecord := .empty
  meetingProviderSteps : Table MeetingProviderStepRecord := .empty
  usageEvents : List UsageEventRecord := []
  entitlementGrants : Table EntitlementGrantRecord := .empty
  billingOrders : Table BillingOrderRecord := .empty
  appleIapAccountBindings : Table AppleIapAccountBindingRecord := .empty
  appleSubscriptions : Table AppleSubscriptionRecord := .empty
  appleNotificationEvents : Table AppleNotificationEventRecord := .empty
  deriving DecidableEq

/-- Put changed records back. -/
def AuthStore.putUser (s : AuthStore) (user : UserRecord) : AuthStore :=
  { s with users := s.users.replace user }

def AuthStore.putReservation (s : AuthStore) (r : MeetingProcessingReservationRecord) : AuthStore :=
  { s with meetingProcessingReservations := s.meetingProcessingReservations.replace r }

def AuthStore.putStep (s : AuthStore) (step : MeetingProviderStepRecord) : AuthStore :=
  { s with meetingProviderSteps := s.meetingProviderSteps.replace step }

def AuthStore.putGrant (s : AuthStore) (grant : EntitlementGrantRecord) : AuthStore :=
  { s with entitlementGrants := s.entitlementGrants.replace grant }

def AuthStore.putOrder (s : AuthStore) (order : BillingOrderRecord) : AuthStore :=
  { s with billingOrders := s.billingOrders.replace order }

def AuthStore.putSubscription (s : AuthStore) (subscription : AppleSubscriptionRecord) :
    AuthStore :=
  { s with appleSubscriptions := s.appleSubscriptions.replace subscription }

section Fields

variable (s : AuthStore) (user : UserRecord) (r : MeetingProcessingReservationRecord)
  (step : MeetingProviderStepRecord)

@[simp] theorem AuthStore.putUser_users : (s.putUser user).users = s.users.replace user := rfl

@[simp] theorem AuthStore.putUser_steps :
    (s.putUser user).meetingProviderSteps = s.meetingProviderSteps := rfl

@[simp] theorem AuthStore.putReservation_steps :
    (s.putReservation r).meetingProviderSteps = s.meetingProviderSteps := rfl

@[simp] theorem AuthStore.putStep_steps :
    (s.putStep step).meetingProviderSteps = s.meetingProviderSteps.replace step := rfl

end Fields

/-! ### The free trial -/

def normalizeLocalFreeTrialFields (user : UserRecord) : UserRecord :=
  let total :=
    if 0 ≤ user.freeTrialMinutesTotal then min FREE_TRIAL_MINUTES user.freeTrialMinutesTotal
    else FREE_TRIAL_MINUTES
  let used :=
    if user.freeTrialMinutesUsed < 0 then
      if user.plan = .free then
        total - min total (max 0 (user.officialMinutesTotal - user.officialMinutesUsed))
      else total
    else user.freeTrialMinutesUsed
  { user with
    freeTrialMinutesTotal := total
    freeTrialMinutesUsed := min total (max 0 used) }

def captureLocalFreeTrialUsage (user : UserRecord) : UserRecord :=
  let user := normalizeLocalFreeTrialFields user
  if user.plan ≠ .free then user
  else { user with
    freeTrialMinutesUsed := min user.freeTrialMinutesTotal (max 0 user.officialMinutesUsed) }

def restoreLocalFreeTrial (user : UserRecord) : UserRecord :=
  let user := normalizeLocalFreeTrialFields user
  { user with
    plan := .free
    officialMinutesTotal := user.freeTrialMinutesTotal
    officialMinutesUsed := user.freeTrialMinutesUsed
    officialMinutesPeriodStartAt := some user.freeTrialGrantedAt
    officialMinutesPeriodEndAt := none
    officialMinutesPeriodSource := some FREE_TRIAL_SOURCE
    officialMinutesBillingOrderId := none }

def localSettlementPeriodIdentity (user : UserRecord) : String := settlementPeriodIdentity user

/-! ### Reading the store -/

def normalizeLocalProcessingReservation (reservation : MeetingProcessingReservationRecord) :
    MeetingProcessingReservationRecord :=
  let officialMinutesReserved := max 0 reservation.officialMinutesReserved
  { reservation with
    officialMinutesReserved
    officialMinutesSettled := max 0 (min officialMinutesReserved reservation.officialMinutesSettled) }

theorem normalizeLocalFreeTrialFields_key (user : UserRecord) :
    HasKey.key (normalizeLocalFreeTrialFields user) = HasKey.key user := rfl

theorem normalizeLocalProcessingReservation_key (r : MeetingProcessingReservationRecord) :
    HasKey.key (normalizeLocalProcessingReservation r) = HasKey.key r := rfl

def normalizeStore (store : AuthStore) : AuthStore :=
  { store with
    users := store.users.mapRows normalizeLocalFreeTrialFields normalizeLocalFreeTrialFields_key
    meetingProcessingReservations := store.meetingProcessingReservations.mapRows
      normalizeLocalProcessingReservation normalizeLocalProcessingReservation_key }

@[simp] theorem normalizeStore_users_get? (s : AuthStore) (userId : UserId) :
    (normalizeStore s).users.get? userId =
      (s.users.get? userId).map normalizeLocalFreeTrialFields :=
  Table.get?_mapRows normalizeLocalFreeTrialFields_key userId

theorem mem_normalizeStore_reservations {s : AuthStore} {x : MeetingProcessingReservationRecord} :
    x ∈ (normalizeStore s).meetingProcessingReservations ↔
      ∃ r ∈ s.meetingProcessingReservations, normalizeLocalProcessingReservation r = x :=
  Table.mem_mapRows normalizeLocalProcessingReservation_key

theorem normalizeStore_reservations_sum {s : AuthStore}
    {g : MeetingProcessingReservationRecord → ℤ}
    (h : ∀ r ∈ s.meetingProcessingReservations, g (normalizeLocalProcessingReservation r) = g r) :
    (normalizeStore s).meetingProcessingReservations.sum g =
      s.meetingProcessingReservations.sum g :=
  Table.sum_mapRows_of_eq g normalizeLocalProcessingReservation_key h

/-- `store.users.find((item) => !item.deletedAt && item.id === userId)`. -/
def findActiveUser (store : AuthStore) (userId : UserId) : Option UserRecord :=
  store.users.find? fun user => user.active && user.id == userId

/-! ### The entitlements of an account -/

def APPLE_EXPIRY_RECONCILIATION_REASON : String :=
  "Apple subscription period expired; reconciled from signed expiry"

/-- `subscription?.status === "grace" && graceExpiresAt > now`. -/
def graceActive (now : Timestamp) (subscription : Option AppleSubscriptionRecord) : Bool :=
  match subscription with
  | none => false
  | some s => s.status == .grace && s.graceExpiresAt.any (now < ·)

def orderOfGrant (store : AuthStore) (grant : EntitlementGrantRecord) : Option BillingOrderRecord :=
  grant.billingOrderId.bind store.billingOrders.get?

def subscriptionOfOrder (store : AuthStore) (order : Option BillingOrderRecord) :
    Option AppleSubscriptionRecord :=
  (order.bind (·.originalTransactionId)).bind store.appleSubscriptions.get?

/-- A grant whose period is over. -/
def expiredGrant (now : Timestamp) (grant : EntitlementGrantRecord) : EntitlementGrantRecord :=
  { grant with
    status := .revoked
    statusReason := some APPLE_EXPIRY_RECONCILIATION_REASON
    statusUpdatedAt := some now }

/-- Its subscription; one that was revoked stays so. -/
def expiredSubscription (s : AppleSubscriptionRecord) : AppleSubscriptionRecord :=
  { s with status := if s.status = .revoked then s.status else .expired }

/-- The loop body of `refreshLocalUserEntitlements`: an Apple grant whose period is over, grace
included, is revoked and its subscription expired. -/
def expireLocalGrant (now : Timestamp) (userId : UserId) (store : AuthStore)
    (grant : EntitlementGrantRecord) : AuthStore :=
  if grant.userId ≠ userId ∨ grant.source ≠ .appleIap ∨ grant.status ≠ .active then store
  else
    let order := orderOfGrant store grant
    match grant.expiresAt <|> order.bind (·.periodEndAt) with
    | none => store
    | some expiresAt =>
      if now < expiresAt then store
      else
        let subscription := subscriptionOfOrder store order
        if graceActive now subscription then store
        else
          let store := store.putGrant (expiredGrant now grant)
          match subscription with
          | none => store
          | some s => store.putSubscription (expiredSubscription s)

/-- An Apple grant counts while its order's period or its subscription's grace lasts. -/
def grantCounts (now : Timestamp) (store : AuthStore) (grant : EntitlementGrantRecord) : Bool :=
  if grant.source ≠ .appleIap then true
  else
    let order := orderOfGrant store grant
    match order.bind (·.periodEndAt) with
    | none => true
    | some periodEndAt => now < periodEndAt || graceActive now (subscriptionOfOrder store order)

def activeLocalGrant (now : Timestamp) (store : AuthStore) (userId : UserId) :
    Option EntitlementGrantRecord :=
  newestGrant (store.entitlementGrants.rows.filter fun grant =>
    grant.userId == userId && grant.status == .active && grantCounts now store grant)

/-- The account under the newest grant, or back on its free trial. -/
def projectLocalGrant (user : UserRecord) : Option EntitlementGrantRecord → UserRecord
  | none => restoreLocalFreeTrial user
  | some grant =>
    if user.plan ≠ grant.plan ∨ user.officialMinutesBillingOrderId ≠ grant.billingOrderId then
      let user := captureLocalFreeTrialUsage user
      { user with
        plan := grant.plan
        officialMinutesTotal := grant.officialMinutesTotal
        officialMinutesUsed := min user.officialMinutesUsed grant.officialMinutesTotal
        officialMinutesPeriodStartAt := grant.startsAt <|> user.officialMinutesPeriodStartAt
        officialMinutesPeriodEndAt := grant.expiresAt
        officialMinutesPeriodSource := some grant.source.text
        officialMinutesBillingOrderId := grant.billingOrderId }
    else user

/-- `refreshLocalUserEntitlements`, with the refreshed account. -/
def refreshLocalUserEntitlements (now : Timestamp) (store : AuthStore) (user : UserRecord) :
    AuthStore × UserRecord :=
  let store := store.entitlementGrants.rows.foldl (expireLocalGrant now user.id) store
  let user := projectLocalGrant user (activeLocalGrant now store user.id)
  ({ store with users := store.users.replace user }, user)

/-- The rows of the quota operations are the same. -/
structure SameRows (s t : AuthStore) : Prop where
  users : t.users = s.users
  reservations : t.meetingProcessingReservations = s.meetingProcessingReservations
  steps : t.meetingProviderSteps = s.meetingProviderSteps
  usageEvents : t.usageEvents = s.usageEvents

theorem SameRows.refl (s : AuthStore) : SameRows s s := ⟨rfl, rfl, rfl, rfl⟩

theorem sameRows_expireLocalGrant (now : Timestamp) (userId : UserId) (s : AuthStore)
    (grant : EntitlementGrantRecord) : SameRows s (expireLocalGrant now userId s grant) := by
  unfold expireLocalGrant
  split
  · exact SameRows.refl s
  · dsimp only
    split
    · exact SameRows.refl s
    · split
      · exact SameRows.refl s
      · split
        · exact SameRows.refl s
        · split
          · exact ⟨rfl, rfl, rfl, rfl⟩
          · exact ⟨rfl, rfl, rfl, rfl⟩

theorem sameRows_expireGrants (now : Timestamp) (userId : UserId)
    (grants : List EntitlementGrantRecord) : ∀ s : AuthStore,
    SameRows s (grants.foldl (expireLocalGrant now userId) s) := by
  induction grants with
  | nil => exact SameRows.refl
  | cons grant grants ih =>
    intro s
    have h := sameRows_expireLocalGrant now userId s grant
    have h' := ih (expireLocalGrant now userId s grant)
    exact ⟨h'.users.trans h.users, h'.reservations.trans h.reservations, h'.steps.trans h.steps,
      h'.usageEvents.trans h.usageEvents⟩

theorem refresh_rows (now : Timestamp) (s : AuthStore) (user : UserRecord) :
    SameRows (s.putUser (refreshLocalUserEntitlements now s user).2)
      (refreshLocalUserEntitlements now s user).1 := by
  have h := sameRows_expireGrants now user.id s.entitlementGrants.rows s
  unfold refreshLocalUserEntitlements
  dsimp only
  refine ⟨?_, h.reservations, h.steps, h.usageEvents⟩
  rw [AuthStore.putUser_users, h.users]

/-- `getUserUsage`: the entitlements are refreshed first. The store is written only if the refresh
changed it, which comes to the same as writing it. -/
def getUserUsage (now : Timestamp) (userId : UserId) (store : AuthStore) :
    Except AuthError (UserUsageSummary × AuthStore) :=
  let store := normalizeStore store
  match findActiveUser store userId with
  | none => .error accountMissing
  | some user =>
    let (store, user) := refreshLocalUserEntitlements now store user
    .ok (userUsageSummary user, store)

end OwnMinutes.Local.Store
