import OwnMinutes.Local.Calls
import OwnMinutes.Postgres.Calls

/-! # The same rows on both backends

A local store and tables of PostgreSQL with the same rows (`Agrees`). The lookups, the checks and the capacities of the
quota operations are the same on both, where the rows are ones that both keep as they are (`UserFits`). -/

namespace OwnMinutes.Backends.SameRows

open OwnMinutes.Lib.Keyed OwnMinutes.Lib.Outcome OwnMinutes.Auth.ProcessingRoute OwnMinutes.Auth.Records
open OwnMinutes.Auth.Errors OwnMinutes.Auth.QuotaTypes
open OwnMinutes.Local.Store (AuthStore findActiveUser normalizeStore normalizeLocalFreeTrialFields
  captureLocalFreeTrialUsage normalizeLocalProcessingReservation localSettlementPeriodIdentity)
open OwnMinutes.Local.Quota (findLocalQuotaUser findReservationByKey findReservationById findStepByStage
  findLocalProviderStep assertLocalReservationActive assertLocalProviderStepClaim localPendingCapacity
  reserveLocalOfficialCapacity settleLocalReservationCapacity settleLocalLegacyUsage pendingMinutes
  isLocalReservationCapacityActive tokensMatch createLocalProcessingReservation)
open OwnMinutes.Local.Calls (chargedUser settledReservation)
open OwnMinutes.Postgres.Store OwnMinutes.Postgres.Quota

/-- The store has the rows of the tables. -/
structure Agrees (t : Tables) (s : AuthStore) : Prop where
  users : s.users = t.users
  reservations : s.meetingProcessingReservations = t.meetingProcessingReservations
  steps : s.meetingProviderSteps = t.meetingProcessingProviderSteps
  usageEvents : s.usageEvents = t.usageEvents
  grants : s.entitlementGrants = t.entitlementGrants
  orders : s.billingOrders = t.billingOrders

section Writes

variable {t : Tables} {s : AuthStore}

theorem Agrees.insertReservation (h : Agrees t s) (r : MeetingProcessingReservationRecord) :
    Agrees { t with meetingProcessingReservations := t.meetingProcessingReservations.insert r }
      { s with meetingProcessingReservations := s.meetingProcessingReservations.insert r } :=
  { h with reservations := congrArg (Table.insert · r) h.reservations }

theorem Agrees.replaceReservation (h : Agrees t s) (r : MeetingProcessingReservationRecord) :
    Agrees { t with meetingProcessingReservations := t.meetingProcessingReservations.replace r }
      { s with meetingProcessingReservations := s.meetingProcessingReservations.replace r } :=
  { h with reservations := congrArg (Table.replace · r) h.reservations }

theorem Agrees.insertStep (h : Agrees t s) (step : MeetingProviderStepRecord) :
    Agrees { t with meetingProcessingProviderSteps := t.meetingProcessingProviderSteps.insert step }
      { s with meetingProviderSteps := s.meetingProviderSteps.insert step } :=
  { h with steps := congrArg (Table.insert · step) h.steps }

theorem Agrees.replaceStep (h : Agrees t s) (step : MeetingProviderStepRecord) :
    Agrees { t with meetingProcessingProviderSteps := t.meetingProcessingProviderSteps.replace step }
      { s with meetingProviderSteps := s.meetingProviderSteps.replace step } :=
  { h with steps := congrArg (Table.replace · step) h.steps }

theorem Agrees.replaceUser (h : Agrees t s) (user : UserRecord) :
    Agrees { t with users := t.users.replace user } { s with users := s.users.replace user } :=
  { h with users := congrArg (Table.replace · user) h.users }

theorem Agrees.appendEvent (h : Agrees t s) (event : UsageEventRecord) :
    Agrees { t with usageEvents := t.usageEvents ++ [event] } { s with usageEvents := s.usageEvents ++ [event] } :=
  { h with usageEvents := congrArg (· ++ [event]) h.usageEvents }

end Writes

/-- Both operations fail with the same error, or return the same and leave the same rows. -/
inductive SameOutcome {α : Type} (P : Tables → Prop) :
    Except AuthError (α × AuthStore) → Except AuthError (α × Tables) → Prop
  | error (e : AuthError) : SameOutcome P (.error e) (.error e)
  | ok (a : α) {s : AuthStore} {t : Tables} (hrows : Agrees t s) (ht : P t) : SameOutcome P (.ok (a, s)) (.ok (a, t))

/-- A check that both make. -/
theorem same_bind {α β : Type} {P : Tables → Prop} {x : Except AuthError β}
    {f : β → Except AuthError (α × AuthStore)} {g : β → Except AuthError (α × Tables)}
    (h : ∀ b, x = .ok b → SameOutcome P (f b) (g b)) : SameOutcome P (x >>= f) (x >>= g) := by
  cases x with
  | error e => exact .error e
  | ok b => exact h b rfl

theorem same_ite {α : Type} {P : Tables → Prop} {c : Prop} [Decidable c] {a a' : Except AuthError (α × AuthStore)}
    {b b' : Except AuthError (α × Tables)} (hpos : c → SameOutcome P a b) (hneg : ¬ c → SameOutcome P a' b') :
    SameOutcome P (if c then a else a') (if c then b else b') := by
  by_cases hc : c
  · rw [if_pos hc, if_pos hc]
    exact hpos hc
  · rw [if_neg hc, if_neg hc]
    exact hneg hc

/-! ### Lookups -/

section Lookups

variable {t : Tables} {s : AuthStore}

theorem find_activeUser (h : Agrees t s) (userId : UserId) :
    findActiveUser s userId = t.users.find? fun user => user.id == userId && user.active := by
  unfold findActiveUser
  rw [h.users]
  exact Table.find?_congr fun user _ => Bool.and_comm _ _

theorem find_quotaUser (h : Agrees t s) (userId : UserId) :
    findLocalQuotaUser s userId = lockPostgresQuotaUser t userId := by
  unfold findLocalQuotaUser
  rw [find_activeUser h]
  rfl

theorem find_byKey (h : Agrees t s) (userId : UserId) (operationKey : String) :
    findReservationByKey s userId operationKey = findPostgresProcessingReservation t userId operationKey := by
  unfold findReservationByKey findPostgresProcessingReservation
  rw [h.reservations]

theorem find_byId (h : Agrees t s) (userId : UserId) (reservationId : ReservationId) :
    findReservationById s userId reservationId = selectReservationById t userId reservationId := by
  unfold findReservationById selectReservationById
  rw [h.reservations]

theorem find_byStage (h : Agrees t s) (reservationId : ReservationId) (stageKey : String) :
    findStepByStage s reservationId stageKey = selectStepByStage t reservationId stageKey := by
  unfold findStepByStage selectStepByStage
  rw [h.steps]

theorem find_step (h : Agrees t s) (userId : UserId) (stepId : ProviderStepId) :
    findLocalProviderStep s userId stepId = findPostgresProviderStep t userId stepId := by
  unfold findLocalProviderStep
  rw [h.steps]
  rfl

/-! ### Checks -/

theorem assert_active (r : MeetingProcessingReservationRecord) (now : Timestamp) :
    assertLocalReservationActive r now = assertPostgresReservationActive r now := by
  unfold assertLocalReservationActive assertPostgresReservationActive isLocalReservationCapacityActive
  by_cases hstatus : r.status = .finalized
  · rw [if_pos hstatus, if_pos hstatus]
  · rw [if_neg hstatus, if_neg hstatus, ReservationStatus.eq_reserved hstatus]
    cases r.releasedAt with
    | some releasedAt => simp
    | none => by_cases hexpired : now < r.reservationExpiresAt <;> simp [hexpired, not_le.mpr, not_lt.mp]

theorem assert_claim (hashToken : ClaimToken → TokenHash) (step : MeetingProviderStepRecord) (token : ClaimToken)
    (now : Timestamp) :
    assertLocalProviderStepClaim hashToken step token now = assertPostgresProviderClaim hashToken step token now := by
  unfold assertLocalProviderStepClaim assertPostgresProviderClaim tokensMatch
  by_cases htoken : hashToken token = step.claimTokenHash <;> simp [htoken]

/-! ### Capacities -/

theorem pending_capacity (h : Agrees t s) (userId : UserId) (now : Timestamp) (exclude : Option ReservationId) :
    localPendingCapacity s userId now exclude = postgresPendingCapacity t userId now exclude := by
  unfold localPendingCapacity postgresPendingCapacity
  rw [h.reservations]
  refine Table.sum_congr fun r _ => ?_
  unfold pendingMinutes isLocalReservationCapacityActive
  by_cases huser : r.userId = userId
  · by_cases hexclude : some r.id = exclude
    · simp [hexclude]
    · simp [huser, hexclude, max_comm, and_assoc]
  · simp [huser]

theorem pending_fresh (h : Agrees t s) (userId : UserId) (now : Timestamp) {newId : ReservationId}
    (hfresh : t.meetingProcessingReservations.Fresh newId) :
    localPendingCapacity s userId now (some newId) = postgresPendingCapacity t userId now none := by
  rw [pending_capacity h]
  unfold postgresPendingCapacity
  refine Table.sum_congr fun r hr => ?_
  have hid : some r.id ≠ some newId := fun heq => hfresh r hr (Option.some.inj heq)
  simp [hid]

/-- The reservation is one that is there, or one with a new identifier. -/
theorem reserve_capacity (h : Agrees t s) (user : UserRecord) {existing : Option MeetingProcessingReservationRecord}
    {r : MeetingProcessingReservationRecord} (targetMinutes : ℤ) (now : Timestamp)
    (hr : existing = some r ∨ existing = none ∧ t.meetingProcessingReservations.Fresh r.id ∧
      r.officialMinutesReserved = 0 ∧ r.officialMinutesSettled = 0) :
    reserveLocalOfficialCapacity s user r targetMinutes now =
      reservePostgresOfficialCapacity t user existing targetMinutes now := by
  unfold reserveLocalOfficialCapacity reservePostgresOfficialCapacity
  rcases hr with rfl | ⟨rfl, hfresh, hreserved, hsettled⟩
  · rw [pending_capacity h]
    rfl
  · rw [pending_fresh h _ _ hfresh, hreserved, hsettled]
    rfl

end Lookups

/-! ### Accounts -/

/-- An account that both backends keep as it is: within its bounds, and with one count of used minutes on the free
plan. -/
structure UserFits (user : UserRecord) : Prop where
  checks : UserChecks user
  trialTotal : user.freeTrialMinutesTotal ≤ FREE_TRIAL_MINUTES
  trial : user.plan = .free →
    user.freeTrialMinutesUsed = user.officialMinutesUsed ∧ user.officialMinutesTotal = user.freeTrialMinutesTotal

section Accounts

variable {user : UserRecord}

theorem normalize_trial (hchecks : 0 ≤ user.freeTrialMinutesUsed ∧ user.freeTrialMinutesUsed ≤ user.freeTrialMinutesTotal)
    (htotal : user.freeTrialMinutesTotal ≤ FREE_TRIAL_MINUTES) : normalizeLocalFreeTrialFields user = user := by
  obtain ⟨hnonneg, hle⟩ := hchecks
  unfold normalizeLocalFreeTrialFields
  have hpos : 0 ≤ user.freeTrialMinutesTotal := by omega
  simp only [if_pos hpos, min_eq_right htotal, if_neg (not_lt.mpr hnonneg), max_eq_right hnonneg, min_eq_right hle]

theorem UserFits.normalize (h : UserFits user) : normalizeLocalFreeTrialFields user = user :=
  normalize_trial h.checks.2.2 h.trialTotal

/-- What the database does to the row of an account that is charged. -/
def incremented (user : UserRecord) (minutes : ℤ) : UserRecord :=
  { user with
    officialMinutesUsed := user.officialMinutesUsed + minutes
    freeTrialMinutesUsed :=
      if user.plan = .free then min user.freeTrialMinutesTotal (user.freeTrialMinutesUsed + minutes)
      else user.freeTrialMinutesUsed }

/-- Capturing the trial is counting it on. -/
theorem charged_eq (h : UserFits user) {minutes : ℤ} (hminutes : 0 ≤ minutes) :
    chargedUser user minutes = incremented user minutes := by
  unfold chargedUser captureLocalFreeTrialUsage incremented
  obtain ⟨hused, -, htrial⟩ := h.checks
  have hnormal : normalizeLocalFreeTrialFields { user with officialMinutesUsed := user.officialMinutesUsed + minutes } =
      { user with officialMinutesUsed := user.officialMinutesUsed + minutes } := normalize_trial htrial h.trialTotal
  rw [hnormal]
  by_cases hplan : user.plan = .free
  · have hsame := (h.trial hplan).1
    have hmax : max 0 (user.officialMinutesUsed + minutes) = user.freeTrialMinutesUsed + minutes := by omega
    simp [hplan, hmax]
  · simp [hplan]

theorem incremented_zero (h : UserFits user) : incremented user 0 = user := by
  unfold incremented
  have hle : user.freeTrialMinutesUsed ≤ user.freeTrialMinutesTotal := h.checks.2.2.2
  simp [min_eq_right hle]

theorem captured_eq (h : UserFits user) : captureLocalFreeTrialUsage user = user := by
  have hcharged := (charged_eq h (le_refl 0)).trans (incremented_zero h)
  unfold chargedUser at hcharged
  rw [add_zero] at hcharged
  exact hcharged

/-- An account that is charged within its total still fits. -/
theorem UserFits.charged (h : UserFits user) {minutes : ℤ} (hminutes : 0 ≤ minutes)
    (hwithin : user.officialMinutesUsed + minutes ≤ user.officialMinutesTotal) : UserFits (incremented user minutes) := by
  obtain ⟨hused, htotal, hnonneg, hle⟩ := h.checks
  unfold incremented
  refine ⟨?_, h.trialTotal, fun hplan => ?_⟩
  · unfold UserChecks
    dsimp only
    split_ifs <;> omega
  · have hsame := h.trial hplan
    dsimp only at hplan ⊢
    rw [if_pos hplan]
    omega

end Accounts

/-! ### Charging -/

section Charging

variable {t : Tables} {s : AuthStore} {user : UserRecord} {r : MeetingProcessingReservationRecord}

/-- The tables with the account and the reservation charged. -/
def settled (t : Tables) (user : UserRecord) (r : MeetingProcessingReservationRecord) (minutes : ℤ) : Tables :=
  { t with
    users := t.users.replace (incremented user minutes)
    meetingProcessingReservations := t.meetingProcessingReservations.replace (settledReservation r minutes) }

theorem increment_minutes (huser : user ∈ t.users) (hactive : user.active = true) (hfits : UserFits user) {minutes : ℤ}
    (hminutes : 0 ≤ minutes) : incrementPostgresOfficialMinutes t user minutes =
      ({ t with users := t.users.replace (incremented user minutes) }, incremented user minutes) := by
  unfold incrementPostgresOfficialMinutes
  by_cases hzero : minutes ≤ 0
  · obtain rfl : minutes = 0 := le_antisymm hzero hminutes
    rw [if_pos le_rfl, incremented_zero hfits, Table.replace_self huser]
  · rw [if_neg hzero]
    have hrow : t.users.get? user.id = some user := Table.get?_key huser
    unfold Tables.updateUser
    rw [hrow]
    dsimp only
    rw [if_pos hactive]
    rfl

theorem update_reservation (hr : r ∈ t.meetingProcessingReservations)
    (f : MeetingProcessingReservationRecord → MeetingProcessingReservationRecord) : t.updateReservation r.id f =
      { t with meetingProcessingReservations := t.meetingProcessingReservations.replace (f r) } := by
  have hrow : t.meetingProcessingReservations.get? r.id = some r := Table.get?_key hr
  unfold Tables.updateReservation
  rw [hrow]

theorem settle_capacity (h : Agrees t s) (huser : user ∈ t.users) (hactive : user.active = true)
    (hfits : UserFits user) (hr : r ∈ t.meetingProcessingReservations) (now : Timestamp) :
    settlePostgresReservationCapacity t user r now =
      (settleLocalReservationCapacity s user r now).map fun minutes =>
        (minutes, incremented user minutes, settled t user r minutes) := by
  unfold settlePostgresReservationCapacity settleLocalReservationCapacity
  rw [pending_capacity h]
  dsimp only
  have hnonneg : 0 ≤ max 0 (r.officialMinutesReserved - r.officialMinutesSettled) := le_max_left _ _
  generalize max 0 (r.officialMinutesReserved - r.officialMinutesSettled) = minutes at hnonneg ⊢
  split_ifs with hover hpos
  · rfl
  · rw [increment_minutes huser hactive hfits hnonneg]
    dsimp only
    rw [update_reservation (t := { t with users := t.users.replace (incremented user minutes) }) hr]
    rfl
  · obtain rfl : minutes = 0 := le_antisymm (not_lt.mp hpos) hnonneg
    have hsame : settledReservation r 0 = r := by
      unfold settledReservation
      rw [add_zero]
    have hsettled : settled t user r 0 = t := by
      unfold settled
      rw [incremented_zero hfits, hsame, Table.replace_self huser, Table.replace_self hr]
    change Except.ok (0, user, t) = Except.ok (0, incremented user 0, settled t user r 0)
    rw [incremented_zero hfits, hsettled]

theorem settle_legacy (h : Agrees t s) (huser : user ∈ t.users) (hactive : user.active = true) (hfits : UserFits user)
    (targetMinutes : ℤ) (now : Timestamp) : settlePostgresLegacyUsage t user targetMinutes now =
      (settleLocalLegacyUsage s user targetMinutes now).map fun minutes =>
        (minutes, { t with users := t.users.replace (incremented user minutes) }) := by
  unfold settlePostgresLegacyUsage settleLocalLegacyUsage
  rw [pending_capacity h]
  dsimp only
  split_ifs with hover
  · rfl
  · rw [increment_minutes huser hactive hfits (le_max_left _ _)]
    rfl

end Charging

end OwnMinutes.Backends.SameRows
