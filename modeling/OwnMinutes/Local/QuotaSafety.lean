import OwnMinutes.Local.LedgerSteps

/-! # Quota safety and conservation

Over any run of the quota calls on the local store, the minutes an account has used and the minutes
its open reservations hold stay within its quota (`quota_never_overbooked`), and every minute used
is accounted for by a reservation, its provider steps or a usage event (`quota_conserved`). Both
hold as long as no refresh of the account's entitlements, which `recordMeetingFinalizeUsage` ends
with, moves the account to another quota period. -/

namespace OwnMinutes.Local.QuotaSafety

open OwnMinutes.Lib.Keyed OwnMinutes.Lib.Outcome OwnMinutes.Lib.Runs
open OwnMinutes.Auth.ProcessingRoute OwnMinutes.Auth.Records OwnMinutes.Auth.QuotaTypes
open OwnMinutes.Local.Store OwnMinutes.Local.Quota OwnMinutes.Quota.Calls OwnMinutes.Local.Calls
open OwnMinutes.Local.Ledger OwnMinutes.Local.LedgerSteps

variable (hashToken : ClaimToken → TokenHash)

/-- A call after which the account is in the same quota period as before its refresh. -/
def SteadyStep (userId : UserId) (s : Clocked AuthStore) (e : QuotaEvent) (t : Clocked AuthStore) :
    Prop :=
  QuotaStep hashToken s e t ∧ KeepsPeriod userId e.now e.call (normalizeStore s.store)

/-! ### One call -/

theorem freshIds_normalize {s : AuthStore} {call : QuotaCall} (h : freshIn s call) :
    freshIn (normalizeStore s) call := by
  refine ⟨fun newId hid => ?_, h.2⟩
  obtain ⟨hfresh, hsteps⟩ := h.1 newId hid
  refine ⟨fun x hx => ?_, hsteps⟩
  obtain ⟨r, hr, rfl⟩ := mem_normalizeStore_reservations.mp hx
  exact hfresh r hr

variable {hashToken} {userId : UserId}

/-- A call advances the ledger of the account, whether it succeeds or fails. -/
theorem steady_advances {s t : Clocked AuthStore} {e : QuotaEvent} {user : UserRecord}
    (hI : LedgerInv userId s.store user) (h : SteadyStep hashToken userId s e t) :
    ∃ user', Advances userId e.now s.store user t.store user' := by
  obtain ⟨⟨-, hfresh, hexec, -⟩, hkeeps⟩ := h
  cases hres : e.result with
  | error err =>
    rw [hres] at hexec
    have hsame := execute_error hashToken hexec
    refine ⟨user, ?_⟩
    rw [hsame]
    exact ⟨hI, SamePeriod.refl user, rfl, fun h => h⟩
  | ok res =>
    rw [hres] at hexec
    have hread : Advances userId e.now s.store user (normalizeStore s.store)
      (normalizeLocalFreeTrialFields user) := advances_normalize hI
    obtain ⟨user', h⟩ := effect_advances hashToken (effect_of_execute hashToken hexec)
      (freshIds_normalize hfresh) hread.inv hkeeps
    exact ⟨user', hread.trans h⟩

theorem steady_clock {s t : Clocked AuthStore} {e : QuotaEvent}
    (h : SteadyStep hashToken userId s e t) : s.clock ≤ e.now ∧ t.clock = e.now :=
  ⟨h.1.1, h.1.2.2.2⟩

/-- The ledger of an account without reservations is in order. -/
theorem ledgerInv_start {s : AuthStore} {user : UserRecord}
    (hfound : s.users.get? userId = some user) (hactive : user.deletedAt = none)
    (hempty : s.meetingProcessingReservations = .empty) : LedgerInv userId s user :=
  ⟨hfound, hactive, fun r hr => by rw [hempty] at hr; exact absurd hr (Table.not_mem_empty r)⟩

/-! ### Whole runs -/

/-- What a run keeps of the account it started with. -/
structure Kept (userId : UserId) (s0 : Clocked AuthStore) (user0 : UserRecord)
    (s : Clocked AuthStore) (user : UserRecord) : Prop where
  inv : LedgerInv userId s.store user
  period : SamePeriod user0 user
  opening : opening userId s.store user = opening userId s0.store user0
  safe : Safe userId s0.clock s0.store user0 → Safe userId s.clock s.store user

theorem safe_later {now later : Timestamp} {s : AuthStore} {user : UserRecord} (h : now ≤ later)
    (hsafe : Safe userId now s user) : Safe userId later s user :=
  ⟨hsafe.1, le_trans (Int.add_le_add_left (pendingTotal_anti h) _) hsafe.2⟩

theorem kept_of_run {s0 s : Clocked AuthStore} {es : List QuotaEvent} {user0 : UserRecord}
    (hI : LedgerInv userId s0.store user0) (h : Run (SteadyStep hashToken userId) s0 es s) :
    ∃ user, Kept userId s0 user0 s user := by
  refine Run.invariant (I := fun s => ∃ user, Kept userId s0 user0 s user) ?_ h
    ⟨user0, hI, SamePeriod.refl user0, rfl, fun hs => hs⟩
  rintro s e t ⟨user, hk⟩ hstep
  obtain ⟨user', ha⟩ := steady_advances hk.inv hstep
  obtain ⟨hle, hclock⟩ := steady_clock hstep
  exact ⟨user', ha.inv, hk.period.trans ha.period, ha.opening.trans hk.opening,
    fun hs => hclock ▸ ha.safe (safe_later hle (hk.safe hs))⟩

/-- **Quota safety.** Starting without reservations and within its quota, an account stays within
its quota: the minutes used and the minutes its open reservations hold, now or at any later time,
add up to at most its total. -/
theorem quota_never_overbooked {s0 s : Clocked AuthStore} {es : List QuotaEvent}
    {user0 : UserRecord} (hfound : s0.store.users.get? userId = some user0)
    (hactive : user0.deletedAt = none)
    (hempty : s0.store.meetingProcessingReservations = .empty)
    (hpos : 0 ≤ user0.officialMinutesUsed)
    (hle : user0.officialMinutesUsed ≤ user0.officialMinutesTotal)
    (hrun : Run (SteadyStep hashToken userId) s0 es s) :
    ∃ user, s.store.users.get? userId = some user ∧ ∀ later ≥ s.clock,
      user.officialMinutesUsed + localPendingCapacity s.store userId later ≤
        user.officialMinutesTotal := by
  obtain ⟨user, hk⟩ := kept_of_run (ledgerInv_start hfound hactive hempty) hrun
  have hsafe : Safe userId s0.clock s0.store user0 := by
    refine ⟨hpos, ?_⟩
    rw [pendingTotal_eq, hempty, Table.sum_empty]
    omega
  exact ⟨user, hk.inv.found, fun later hlater => (safe_later hlater (hk.safe hsafe)).2⟩

/-! ### Rejecting and claiming -/

section Calls

variable {now : Timestamp} {s s' : AuthStore} {user : UserRecord} {res : QuotaResult}

/-- A reject changes the account only when the step was started; then it refunds the step once. -/
theorem effect_reject_account {input : ProviderStepInput} {step : MeetingProviderStepRecord}
    (h : Effect hashToken now (.reject userId input) s res s') (hI : LedgerInv userId s user)
    (hstep : step ∈ s.meetingProviderSteps) (hid : step.id = input.stepId) :
    (step.status ≠ .started → s'.users.get? userId = some user) ∧
    (step.status = .started → s'.users.get? userId = some (refundedUser user step) ∧
      StepInv user step ∧ ∃ step' ∈ s'.meetingProviderSteps, step'.id = step.id ∧
        step'.status = .released ∧ step'.officialMinutesSettled = 0) := by
  have hsame : ∀ other ∈ s.meetingProviderSteps, other.id = input.stepId → other = step :=
    fun other hother hoid => Table.eq_of_key hother hstep (hoid.trans hid.symm)
  cases h with
  | unchanged _ hreject =>
    exact ⟨fun _ => hI.found, fun hs => absurd hs (hreject input rfl step hstep hid)⟩
  | reserveNew _ _ hnew => cases hnew
  | reserveAgain _ _ hcall => exact absurd rfl hcall
  | claimNew _ _ _ _ hnew => cases hnew
  | claimAgain _ _ _ _ htoken => cases htoken
  | start hcall => cases hcall
  | complete _ hcall => rcases hcall with ⟨_, hcall, -⟩ | ⟨_, hcall⟩ <;> cases hcall
  | @releaseStep _ other input' _ hcall hother hoid hstatus =>
    have hinput : input' = input := by
      rcases hcall with hcall | hcall <;> cases hcall
      rfl
    have hother := hsame other hother (hinput ▸ hoid)
    subst hother
    exact ⟨fun _ => hI.found, fun hs => by rw [hs] at hstatus; cases hstatus⟩
  | @refund caller r other input' hcall hcaller _ hr howner _ hother hoid _ hres hstatus =>
    cases hcall
    have hother := hsame other hother hoid
    subst hother
    have hfound : s.users.get? caller.id = some caller := Table.get?_key hcaller
    rw [hI.found] at hfound
    cases hfound
    refine ⟨fun hs => absurd hstatus hs, fun _ => ⟨hI.found_replace (samePeriod_refunded user other),
      (hI.rows r hr howner).steps other hstep hres, _, Table.mem_replace_self hstep rfl, rfl, rfl, rfl⟩⟩
  | @rejectDeleted caller other step' s' input' hcall hcaller hdeleted =>
    cases hcall
    have hfound : s.users.get? caller.id = some caller := Table.get?_key hcaller
    rw [hI.found] at hfound
    cases hfound
    exact absurd hI.active hdeleted
  | releaseReservation _ hcall | record hcall => cases hcall

/-- A claim charges nothing and keeps what was charged before. -/
theorem effect_claim_account {input : ClaimMeetingProviderStepInput} {newId : ProviderStepId}
    {token : ClaimToken} (h : Effect hashToken now (.claim userId input newId token) s res s') :
    s'.users = s.users ∧ settledTotal s' userId = settledTotal s userId := by
  have hlease : ∀ r ∈ s.meetingProcessingReservations, ∀ lease,
      settledTotal (s.putReservation (extendedLease r lease)) userId = settledTotal s userId := by
    intro r hr lease
    have h := Table.sum_replace (fun r : MeetingProcessingReservationRecord =>
      if r.userId = userId then r.officialMinutesSettled else 0) (x := extendedLease r lease) hr rfl
    exact h.trans (sub_add_cancel _ _)
  cases h with
  | unchanged => exact ⟨rfl, rfl⟩
  | reserveNew _ _ hnew => cases hnew
  | reserveAgain _ _ hcall => exact absurd rfl hcall
  | claimNew _ hr | claimAgain _ hr => exact ⟨rfl, hlease _ hr _⟩
  | start hcall => cases hcall
  | complete _ hcall => rcases hcall with ⟨_, hcall, -⟩ | ⟨_, hcall⟩ <;> cases hcall
  | releaseStep _ hcall => rcases hcall with hcall | hcall <;> cases hcall
  | refund hcall | rejectDeleted hcall | releaseReservation _ hcall | record hcall => cases hcall

end Calls

/-- The minutes an account has used after a call. -/
def usedAfter (userId : UserId) (t : Clocked AuthStore) : Option ℤ :=
  (t.store.users.get? userId).map (·.officialMinutesUsed)

theorem reject_refunds_once {s t : Clocked AuthStore} {e : QuotaEvent} {user : UserRecord}
    {input : ProviderStepInput} {step : MeetingProviderStepRecord}
    (hI : LedgerInv userId s.store user) (h : QuotaStep hashToken s e t)
    (hcall : e.call = .reject userId input) (hstep : step ∈ s.store.meetingProviderSteps)
    (hid : step.id = input.stepId) :
    (step.status ≠ .started → usedAfter userId t = some user.officialMinutesUsed) ∧
    (step.status = .started → (∃ res, e.result = .ok res) →
      usedAfter userId t = some (user.officialMinutesUsed - step.officialMinutesSettled) ∧
      ∃ step' ∈ t.store.meetingProviderSteps, step'.id = step.id ∧ step'.status = .released ∧
        step'.officialMinutesSettled = 0) := by
  obtain ⟨-, -, hexec, -⟩ := h
  cases hres : e.result with
  | error err =>
    rw [hres] at hexec
    have hsame := execute_error hashToken hexec
    refine ⟨fun _ => ?_, fun _ ⟨res, h⟩ => by cases h⟩
    unfold usedAfter
    rw [hsame, hI.found]
    rfl
  | ok res =>
    rw [hres, hcall] at hexec
    have hread : Advances userId e.now s.store user (normalizeStore s.store)
      (normalizeLocalFreeTrialFields user) := advances_normalize hI
    obtain ⟨hidle, hrefund⟩ :=
      effect_reject_account (effect_of_execute hashToken hexec) hread.inv hstep hid
    unfold usedAfter
    refine ⟨fun hs => by rw [hidle hs]; rfl, fun hs _ => ?_⟩
    obtain ⟨hfound, hinv, hreleased⟩ := hrefund hs
    refine ⟨?_, hreleased⟩
    rw [hfound, Option.map_some, refunded_used (hinv.period hs), max_eq_right hinv.nonneg]
    rfl

theorem claim_charges_nothing {s t : Clocked AuthStore} {e : QuotaEvent} {user : UserRecord}
    {input : ClaimMeetingProviderStepInput} {newId : ProviderStepId} {token : ClaimToken}
    (hI : LedgerInv userId s.store user) (h : QuotaStep hashToken s e t)
    (hcall : e.call = .claim userId input newId token) :
    usedAfter userId t = some user.officialMinutesUsed ∧
      settledTotal t.store userId = settledTotal s.store userId := by
  obtain ⟨-, -, hexec, -⟩ := h
  unfold usedAfter
  cases hres : e.result with
  | error err =>
    rw [hres] at hexec
    rw [execute_error hashToken hexec, hI.found]
    exact ⟨rfl, rfl⟩
  | ok res =>
    rw [hres, hcall] at hexec
    have hread : Advances userId e.now s.store user (normalizeStore s.store)
      (normalizeLocalFreeTrialFields user) := advances_normalize hI
    obtain ⟨husers, hsettled⟩ := effect_claim_account (effect_of_execute hashToken hexec)
    rw [husers, hsettled, hread.inv.found]
    refine ⟨rfl, ?_⟩
    have h1 := hread.opening
    unfold opening at h1
    have h2 : chargedTotal (normalizeStore s.store) userId = chargedTotal s.store userId := rfl
    rw [h2, normalize_used] at h1
    omega

/-- **Quota conservation.** Starting without reservations, in every state a run reaches each
reservation of the account has settled what its provider steps have, within what it reserved; the
account has used what it had used before, what its reservations have settled and what finalized
meetings without a reservation were charged; a reject refunds a started step once and changes
nothing otherwise; and a claim charges nothing and forgets nothing. -/
theorem quota_conserved {s0 s : Clocked AuthStore} {es : List QuotaEvent} {user0 : UserRecord}
    (hfound : s0.store.users.get? userId = some user0) (hactive : user0.deletedAt = none)
    (hempty : s0.store.meetingProcessingReservations = .empty)
    (hrun : Run (SteadyStep hashToken userId) s0 es s) :
    (∀ r ∈ s.store.meetingProcessingReservations, r.userId = userId →
      r.officialMinutesSettled = settledOn s.store.meetingProviderSteps r.id ∧
      r.officialMinutesSettled ≤ r.officialMinutesReserved) ∧
    ∃ user, s.store.users.get? userId = some user ∧
      user.officialMinutesUsed = user0.officialMinutesUsed + settledTotal s.store userId +
        (chargedTotal s.store userId - chargedTotal s0.store userId) ∧
      ∀ e t, QuotaStep hashToken s e t →
        (∀ input, e.call = .reject userId input → ∀ step ∈ s.store.meetingProviderSteps,
          step.id = input.stepId →
          (step.status ≠ .started → usedAfter userId t = some user.officialMinutesUsed) ∧
          (step.status = .started → (∃ res, e.result = .ok res) →
            usedAfter userId t = some (user.officialMinutesUsed - step.officialMinutesSettled) ∧
            ∃ step' ∈ t.store.meetingProviderSteps, step'.id = step.id ∧
              step'.status = .released ∧ step'.officialMinutesSettled = 0)) ∧
        (∀ input newId token, e.call = .claim userId input newId token →
          usedAfter userId t = some user.officialMinutesUsed ∧
          settledTotal t.store userId = settledTotal s.store userId) := by
  obtain ⟨user, hk⟩ := kept_of_run (ledgerInv_start hfound hactive hempty) hrun
  have h0 : settledTotal s0.store userId = 0 := by
    unfold settledTotal
    rw [hempty, Table.sum_empty]
  have hopening := hk.opening
  unfold opening at hopening
  refine ⟨fun r hr hu => ⟨(hk.inv.rows r hr hu).settled_eq, (hk.inv.rows r hr hu).settled_le⟩,
    user, hk.inv.found, by omega, fun e t hstep => ⟨?_, ?_⟩⟩
  · exact fun input hcall step hmem hid => reject_refunds_once hk.inv hstep hcall hmem hid
  · exact fun input newId token hcall => claim_charges_nothing hk.inv hstep hcall

/-! ### A renewal inside a run -/

/-- A `plus` account under an Apple subscription that ends at 1000 and, behind it, a grant an admin
made earlier for the same plan. -/
def subscribedUser : UserRecord where
  id := "u"
  plan := .plus
  officialMinutesTotal := 600
  officialMinutesBillingOrderId := some "apple"
  officialMinutesPeriodStartAt := some 10
  officialMinutesPeriodEndAt := some 1000
  officialMinutesPeriodSource := some "apple_iap"

def subscribedStore : AuthStore where
  users := Table.empty.insert subscribedUser
  entitlementGrants := (Table.empty.insert {
    id := "g0", userId := "u", billingOrderId := some "admin", source := .adminManual,
    previousPlan := .free, plan := .plus, officialMinutesTotal := 600, reason := "pilot",
    createdAt := 0 }).insert {
    id := "g1", userId := "u", billingOrderId := some "apple", source := .appleIap,
    previousPlan := .plus, plan := .plus, officialMinutesTotal := 600, reason := "subscription",
    startsAt := some 10, expiresAt := some 1000, createdAt := 10 }

/-- Ten hours are reserved, charged when the provider call starts and given back when the provider
rejects it; in between another meeting is recorded. -/
def rejectedAfterRenewal : List (Timestamp × QuotaCall) :=
  [(100, .reserveFinalization "u"
      { durationMs := 36000000, meetingId := "m", operationKey := "k",
        processingRoute := .officialQuota } "r"),
   (110, .claim "u" { reservationId := "r", stage := .finalizationAsr } "s" "token"),
   (120, .start "u" { claimToken := "token", stepId := "s" }),
   (2000, .recordUsage "u"
      { meetingId := "other", durationMs := 60000, route := .byok, resultGeneratedAt := "now" } "e"),
   (2010, .reject "u" { claimToken := "token", stepId := "s" })]

/-- The account has the same plan before and after a call. -/
def SamePlan (userId : UserId) (s t : Clocked AuthStore) : Prop :=
  (t.store.users.get? userId).map (·.plan) = (s.store.users.get? userId).map (·.plan)

instance (userId : UserId) (s t : Clocked AuthStore) : Decidable (SamePlan userId s t) :=
  inferInstanceAs (Decidable (_ = _))

/-- The account at the end: in the admin's period, with the ten hours still used. -/
def renewedUser : UserRecord :=
  { subscribedUser with
    officialMinutesUsed := 600
    officialMinutesBillingOrderId := some "admin"
    officialMinutesPeriodEndAt := none
    officialMinutesPeriodSource := some "admin_manual" }

/-- The plan stays `plus`, but the refresh that ends `recordMeetingFinalizeUsage` moves the account
from the Apple period to the admin's: the reject then gives the ten hours back to the reservation
and not to the account, and twenty hours of a ten-hour quota are spoken for. -/
theorem overbooked_after_renewal : ∃ (s0 s : Clocked AuthStore) (es : List QuotaEvent)
    (user0 user : UserRecord),
    s0.store.users.get? "u" = some user0 ∧ user0.deletedAt = none ∧
    s0.store.meetingProcessingReservations = .empty ∧
    0 ≤ user0.officialMinutesUsed ∧ user0.officialMinutesUsed ≤ user0.officialMinutesTotal ∧
    Run (fun s e t => QuotaStep id s e t ∧ SamePlan "u" s t) s0 es s ∧
    s.store.users.get? "u" = some user ∧
    user.officialMinutesTotal <
      user.officialMinutesUsed + localPendingCapacity s.store "u" s.clock := by
  refine ⟨⟨subscribedStore, 0⟩, replay (execute id) ⟨subscribedStore, 0⟩ rejectedAfterRenewal, _,
    subscribedUser, renewedUser, rfl, rfl, rfl, by decide, by decide,
    run_replay (execute id) freshIn (fun s _ t => SamePlan "u" s t)
      (fun _ _ _ h hok => ⟨h, hok⟩) ?_, ?_, ?_⟩ <;> decide +kernel

/-- In the same run the ten hours used are accounted for nowhere. -/
theorem unaccounted_after_renewal : ∃ (s0 s : Clocked AuthStore) (es : List QuotaEvent)
    (user0 user : UserRecord),
    s0.store.users.get? "u" = some user0 ∧ user0.deletedAt = none ∧
    s0.store.meetingProcessingReservations = .empty ∧
    Run (fun s e t => QuotaStep id s e t ∧ SamePlan "u" s t) s0 es s ∧
    s.store.users.get? "u" = some user ∧
    user.officialMinutesUsed ≠ user0.officialMinutesUsed + settledTotal s.store "u" +
      (chargedTotal s.store "u" - chargedTotal s0.store "u") := by
  refine ⟨⟨subscribedStore, 0⟩, replay (execute id) ⟨subscribedStore, 0⟩ rejectedAfterRenewal, _,
    subscribedUser, renewedUser, rfl, rfl, rfl,
    run_replay (execute id) freshIn (fun s _ t => SamePlan "u" s t)
      (fun _ _ _ h hok => ⟨h, hok⟩) ?_, ?_, ?_⟩ <;> decide +kernel

/-- The same calls before the subscription ends. -/
def rejectedInPeriod : List (Timestamp × QuotaCall) :=
  rejectedAfterRenewal.map fun call => (min call.1 900, call.2)

theorem steady_rejectedInPeriod :
    Run (SteadyStep id "u") ⟨subscribedStore, 0⟩
      (events (execute id) ⟨subscribedStore, 0⟩ rejectedInPeriod)
      (replay (execute id) ⟨subscribedStore, 0⟩ rejectedInPeriod) :=
  run_replay (execute id) freshIn
    (fun s call _ => KeepsPeriod "u" call.1 call.2 (normalizeStore s.store))
    (fun _ _ _ h hok => ⟨h, hok⟩) (by decide +kernel)

theorem quota_never_overbooked_in_period : ∃ user,
    (replay (execute id) ⟨subscribedStore, 0⟩ rejectedInPeriod).store.users.get? "u" = some user ∧
    ∀ later ≥ (replay (execute id) ⟨subscribedStore, 0⟩ rejectedInPeriod).clock,
      user.officialMinutesUsed + localPendingCapacity
        (replay (execute id) ⟨subscribedStore, 0⟩ rejectedInPeriod).store "u" later ≤
          user.officialMinutesTotal :=
  @quota_never_overbooked id "u" ⟨subscribedStore, 0⟩ _ _ subscribedUser rfl rfl rfl (by decide)
    (by decide) steady_rejectedInPeriod

theorem quota_conserved_in_period : ∃ user,
    (replay (execute id) ⟨subscribedStore, 0⟩ rejectedInPeriod).store.users.get? "u" = some user ∧
    user.officialMinutesUsed = 0 +
      settledTotal (replay (execute id) ⟨subscribedStore, 0⟩ rejectedInPeriod).store "u" +
      (chargedTotal (replay (execute id) ⟨subscribedStore, 0⟩ rejectedInPeriod).store "u" -
        chargedTotal subscribedStore "u") := by
  obtain ⟨-, user, hfound, hused, -⟩ := @quota_conserved id "u" ⟨subscribedStore, 0⟩ _ _
    subscribedUser rfl rfl rfl steady_rejectedInPeriod
  exact ⟨user, hfound, hused⟩

end OwnMinutes.Local.QuotaSafety
