import OwnMinutes.Backends.SameRows

/-! # Rows on which the backends agree

What the tables are like where the two backends answer alike (`Fits`), and that it stays so with each row that a quota
operation writes. -/

namespace OwnMinutes.Backends.FittingRows

open OwnMinutes.Lib.Keyed OwnMinutes.Auth.ProcessingRoute OwnMinutes.Auth.Records OwnMinutes.Auth.QuotaTypes
open OwnMinutes.Postgres.Store OwnMinutes.Postgres.Quota
open OwnMinutes.Backends.SameRows

/-- A step has nothing settled while it is claimed, and what it took of the trial is what it settled, where the account
is on its trial. -/
structure StepFits (users : Table UserRecord) (step : MeetingProviderStepRecord) : Prop where
  checks : StepChecks step
  claimed : step.status = .claimed → step.officialMinutesSettled = 0
  started : step.status = .started → ∀ user ∈ users, user.id = step.userId → user.plan = .free →
    step.freeTrialMinutesSettled =
      if step.settlementPeriodIdentity = some (settlementPeriodIdentity user) then step.officialMinutesSettled else 0

theorem stepFits_claimed {users : Table UserRecord} {step : MeetingProviderStepRecord} (hstatus : step.status = .claimed)
    (hsettled : step.officialMinutesSettled = 0) (hchecks : StepChecks step) : StepFits users step :=
  ⟨hchecks, fun _ => hsettled, fun hstarted => by rw [hstatus] at hstarted; cases hstarted⟩

theorem stepFits_closed {users : Table UserRecord} {step : MeetingProviderStepRecord}
    (hstatus : step.status ≠ .claimed ∧ step.status ≠ .started) (hchecks : StepChecks step) : StepFits users step :=
  ⟨hchecks, fun hclaimed => absurd hclaimed hstatus.1, fun hstarted => absurd hstarted hstatus.2⟩

/-- The account on its free trial. -/
structure OnTrial (user : UserRecord) : Prop where
  plan : user.plan = .free
  source : user.officialMinutesPeriodSource = some FREE_TRIAL_SOURCE
  start : user.officialMinutesPeriodStartAt = some user.freeTrialGrantedAt
  finish : user.officialMinutesPeriodEndAt = none
  billing : user.officialMinutesBillingOrderId = none

/-- The account is under the grant already. -/
def Projected (user : UserRecord) : Option EntitlementGrantRecord → Prop
  | some grant => user.plan = grant.plan ∧ user.officialMinutesBillingOrderId = grant.billingOrderId
  | none => OnTrial user

/-- The account has no grant that may expire, and is under its newest one. -/
structure AtRest (grants : Table EntitlementGrantRecord) (user : UserRecord) : Prop where
  apple : ∀ grant ∈ grants, grant.userId = user.id → grant.status = .active → grant.source ≠ .appleIap
  projected : Projected user
    (newestGrant (grants.rows.filter fun grant => grant.userId == user.id && grant.status == .active))

structure Fits (t : Tables) : Prop where
  constraints : Constraints t
  users : ∀ user ∈ t.users, UserFits user
  steps : ∀ step ∈ t.meetingProcessingProviderSteps, StepFits t.users step
  linked : ∀ step ∈ t.meetingProcessingProviderSteps, ∃ r ∈ t.meetingProcessingReservations,
    r.id = step.reservationId ∧ r.userId = step.userId
  atRest : ∀ user ∈ t.users, user.active = true → AtRest t.entitlementGrants user
  recorded : ∀ event ∈ t.usageEvents, ∀ id ∈ event.processingReservationId,
    ∃ r ∈ t.meetingProcessingReservations, r.id = id ∧ r.userId = event.userId ∧ event.type = .meetingFinalize

/-- The fields that no quota operation changes. -/
structure SameAccount (user user' : UserRecord) : Prop where
  id : user'.id = user.id
  plan : user'.plan = user.plan
  deletedAt : user'.deletedAt = user.deletedAt
  grantedAt : user'.freeTrialGrantedAt = user.freeTrialGrantedAt
  source : user'.officialMinutesPeriodSource = user.officialMinutesPeriodSource
  start : user'.officialMinutesPeriodStartAt = user.officialMinutesPeriodStartAt
  finish : user'.officialMinutesPeriodEndAt = user.officialMinutesPeriodEndAt
  billing : user'.officialMinutesBillingOrderId = user.officialMinutesBillingOrderId

theorem SameAccount.identity {user user' : UserRecord} (h : SameAccount user user') :
    settlementPeriodIdentity user' = settlementPeriodIdentity user := by
  unfold settlementPeriodIdentity
  rw [h.source, h.start, h.billing]

theorem SameAccount.atRest {grants : Table EntitlementGrantRecord} {user user' : UserRecord} (h : SameAccount user user')
    (hrest : AtRest grants user) : AtRest grants user' := by
  have hprojected := hrest.projected
  refine ⟨by rw [h.id]; exact hrest.apple, ?_⟩
  rw [h.id]
  unfold Projected at hprojected ⊢
  split
  · rename_i hgrant
    rw [hgrant] at hprojected
    rw [h.plan, h.billing]
    exact hprojected
  · rename_i hgrant
    rw [hgrant] at hprojected
    have htrial : OnTrial user := hprojected
    exact ⟨h.plan.trans htrial.plan, h.source.trans htrial.source, by rw [h.start, h.grantedAt, htrial.start],
      h.finish.trans htrial.finish, h.billing.trans htrial.billing⟩

theorem sameAccount_incremented (user : UserRecord) (minutes : ℤ) : SameAccount user (incremented user minutes) :=
  ⟨rfl, rfl, rfl, rfl, rfl, rfl, rfl, rfl⟩

section Writes

variable {t : Tables}

/-! ### Reservations -/

theorem Fits.replaceReservation (h : Fits t) {r r' : MeetingProcessingReservationRecord}
    (hr : r ∈ t.meetingProcessingReservations) (hid : r'.id = r.id) (huser : r'.userId = r.userId)
    (hkey : r'.operationKey = r.operationKey) (hchecks : ReservationChecks r') :
    Fits { t with meetingProcessingReservations := t.meetingProcessingReservations.replace r' } where
  constraints := { h.constraints with
    reservations := by
      intro x hx
      rcases Table.mem_of_mem_replace hx with hx | rfl
      · exact h.constraints.reservations x hx
      · exact hchecks
    operationKeys := by
      have hsame : (r'.userId, r'.operationKey) = (r.userId, r.operationKey) := by rw [huser, hkey]
      dsimp only
      rw [Table.map_replace hr hid (f := fun r => (r.userId, r.operationKey)) hsame]
      exact h.constraints.operationKeys }
  users := h.users
  steps := h.steps
  linked step hstep := by
    obtain ⟨x, hx, hxid, hxuser⟩ := h.linked step hstep
    by_cases hxr : x.id = r.id
    · obtain rfl : x = r := Table.eq_of_key hx hr hxr
      exact ⟨r', Table.mem_replace_self hx hid.symm, hid.trans hxid, huser.trans hxuser⟩
    · exact ⟨x, Table.mem_replace_of_ne hx fun heq => hxr (heq.trans hid), hxid, hxuser⟩
  atRest := h.atRest
  recorded event hevent id hevid := by
    obtain ⟨x, hx, hxid, hxuser, htype⟩ := h.recorded event hevent id hevid
    by_cases hxr : x.id = r.id
    · obtain rfl : x = r := Table.eq_of_key hx hr hxr
      exact ⟨r', Table.mem_replace_self hx hid.symm, hid.trans hxid, huser.trans hxuser, htype⟩
    · exact ⟨x, Table.mem_replace_of_ne hx fun heq => hxr (heq.trans hid), hxid, hxuser, htype⟩

theorem Fits.insertReservation (h : Fits t) {r : MeetingProcessingReservationRecord}
    (hfresh : t.meetingProcessingReservations.Fresh r.id)
    (hnone : findPostgresProcessingReservation t r.userId r.operationKey = none) (hchecks : ReservationChecks r) :
    Fits { t with meetingProcessingReservations := t.meetingProcessingReservations.insert r } where
  constraints := { h.constraints with
    reservations := by
      intro x hx
      rcases Table.mem_of_mem_insert hx with hx | rfl
      · exact h.constraints.reservations x hx
      · exact hchecks
    operationKeys := by
      dsimp only
      rw [Table.rows_insert hfresh, List.map_append, List.nodup_append]
      refine ⟨h.constraints.operationKeys, List.nodup_singleton _, fun a ha b hb => ?_⟩
      obtain ⟨x, hx, rfl⟩ := List.mem_map.mp ha
      obtain rfl : b = (r.userId, r.operationKey) := List.mem_singleton.mp hb
      intro heq
      have hp := Table.find?_none.mp hnone x hx
      obtain ⟨huser, hkey⟩ := Prod.mk.inj heq
      simp [huser, hkey] at hp }
  users := h.users
  steps := h.steps
  linked step hstep := by
    obtain ⟨x, hx, hxid, hxuser⟩ := h.linked step hstep
    exact ⟨x, Table.mem_insert_of_mem hx, hxid, hxuser⟩
  atRest := h.atRest
  recorded event hevent id hevid := by
    obtain ⟨x, hx, hx'⟩ := h.recorded event hevent id hevid
    exact ⟨x, Table.mem_insert_of_mem hx, hx'⟩

/-! ### Steps -/

theorem Fits.replaceStep (h : Fits t) {step step' : MeetingProviderStepRecord}
    (hstep : step ∈ t.meetingProcessingProviderSteps) (hid : step'.id = step.id)
    (hreservation : step'.reservationId = step.reservationId) (huser : step'.userId = step.userId)
    (hkey : step'.stageKey = step.stageKey) (hfits : StepFits t.users step') :
    Fits { t with meetingProcessingProviderSteps := t.meetingProcessingProviderSteps.replace step' } where
  constraints := { h.constraints with
    steps := by
      intro x hx
      rcases Table.mem_of_mem_replace hx with hx | rfl
      · exact h.constraints.steps x hx
      · exact hfits.checks
    stageKeys := by
      have hsame : (step'.reservationId, step'.stageKey) = (step.reservationId, step.stageKey) := by
        rw [hreservation, hkey]
      dsimp only
      rw [Table.map_replace hstep hid (f := fun step => (step.reservationId, step.stageKey)) hsame]
      exact h.constraints.stageKeys }
  users := h.users
  steps x hx := by
    rcases Table.mem_of_mem_replace hx with hx | rfl
    · exact h.steps x hx
    · exact hfits
  linked x hx := by
    rcases Table.mem_of_mem_replace hx with hx | rfl
    · exact h.linked x hx
    · rw [hreservation, huser]
      exact h.linked step hstep
  atRest := h.atRest
  recorded := h.recorded

theorem Fits.insertStep (h : Fits t) {step : MeetingProviderStepRecord} {r : MeetingProcessingReservationRecord}
    (hfresh : t.meetingProcessingProviderSteps.Fresh step.id)
    (hnone : selectStepByStage t step.reservationId step.stageKey = none) (hr : r ∈ t.meetingProcessingReservations)
    (hid : r.id = step.reservationId) (huser : r.userId = step.userId) (hfits : StepFits t.users step) :
    Fits { t with meetingProcessingProviderSteps := t.meetingProcessingProviderSteps.insert step } where
  constraints := { h.constraints with
    steps := by
      intro x hx
      rcases Table.mem_of_mem_insert hx with hx | rfl
      · exact h.constraints.steps x hx
      · exact hfits.checks
    stageKeys := by
      dsimp only
      rw [Table.rows_insert hfresh, List.map_append, List.nodup_append]
      refine ⟨h.constraints.stageKeys, List.nodup_singleton _, fun a ha b hb => ?_⟩
      obtain ⟨x, hx, rfl⟩ := List.mem_map.mp ha
      obtain rfl : b = (step.reservationId, step.stageKey) := List.mem_singleton.mp hb
      intro heq
      have hp := Table.find?_none.mp hnone x hx
      obtain ⟨hreservation, hkey⟩ := Prod.mk.inj heq
      simp [hreservation, hkey] at hp }
  users := h.users
  steps x hx := by
    rcases Table.mem_of_mem_insert hx with hx | rfl
    · exact h.steps x hx
    · exact hfits
  linked x hx := by
    rcases Table.mem_of_mem_insert hx with hx | rfl
    · exact h.linked x hx
    · exact ⟨r, hr, hid, huser⟩
  atRest := h.atRest
  recorded := h.recorded

/-- The claimed steps of a reservation are released with it. -/
theorem Fits.releaseSteps (h : Fits t) (now : Timestamp) (reservationId : ReservationId) :
    Fits { t with
      meetingProcessingProviderSteps := releaseClaimedSteps now reservationId t.meetingProcessingProviderSteps } := by
  have hrow : ∀ x ∈ releaseClaimedSteps now reservationId t.meetingProcessingProviderSteps,
      ∃ step ∈ t.meetingProcessingProviderSteps, x.reservationId = step.reservationId ∧ x.userId = step.userId ∧
        StepFits t.users x := by
    intro x hx
    obtain ⟨step, hstep, rfl⟩ := mem_releaseClaimedSteps.mp hx
    have hfits := h.steps step hstep
    refine ⟨step, hstep, ?_, ?_, ?_⟩
    · unfold releasedRow
      split_ifs <;> rfl
    · unfold releasedRow
      split_ifs <;> rfl
    · unfold releasedRow
      split_ifs
      · exact ⟨hfits.checks, nofun, nofun⟩
      · exact hfits
  have hkeys : ((releaseClaimedSteps now reservationId t.meetingProcessingProviderSteps).rows.map fun step =>
      (step.reservationId, step.stageKey)) = t.meetingProcessingProviderSteps.rows.map fun step =>
        (step.reservationId, step.stageKey) := by
    unfold releaseClaimedSteps Table.updateWhere Table.mapRows
    dsimp only
    rw [List.map_map]
    refine List.map_congr_left fun step _ => ?_
    rw [Function.comp_apply]
    split_ifs <;> rfl
  exact
    { constraints := { h.constraints with
        steps := fun x hx => by
          obtain ⟨_, _, _, _, hfits⟩ := hrow x hx
          exact hfits.checks
        stageKeys := by
          dsimp only
          rw [hkeys]
          exact h.constraints.stageKeys }
      users := h.users
      steps := fun x hx => by
        obtain ⟨_, _, _, _, hfits⟩ := hrow x hx
        exact hfits
      linked := fun x hx => by
        obtain ⟨step, hstep, hreservation, huser, -⟩ := hrow x hx
        rw [hreservation, huser]
        exact h.linked step hstep
      atRest := h.atRest
      recorded := h.recorded }

/-! ### Accounts and events -/

theorem Fits.replaceUser (h : Fits t) {user user' : UserRecord} (huser : user ∈ t.users)
    (hsame : SameAccount user user') (hfits : UserFits user') : Fits { t with users := t.users.replace user' } where
  constraints := { h.constraints with
    users := by
      intro x hx
      rcases Table.mem_of_mem_replace hx with hx | rfl
      · exact h.constraints.users x hx
      · exact hfits.checks }
  users x hx := by
    rcases Table.mem_of_mem_replace hx with hx | rfl
    · exact h.users x hx
    · exact hfits
  steps step hstep := by
    have hold := h.steps step hstep
    refine ⟨hold.checks, hold.claimed, fun hstatus x hx hid hplan => ?_⟩
    rcases Table.mem_of_mem_replace hx with hx | rfl
    · exact hold.started hstatus x hx hid hplan
    · rw [hsame.identity]
      exact hold.started hstatus user huser (hsame.id.symm.trans hid) (hsame.plan.symm.trans hplan)
  linked := h.linked
  atRest x hx hactive := by
    rcases Table.mem_of_mem_replace hx with hx | rfl
    · exact h.atRest x hx hactive
    · have hold : user.active = true := by
        unfold UserRecord.active at hactive ⊢
        rw [← hsame.deletedAt]
        exact hactive
      exact hsame.atRest (h.atRest user huser hold)
  recorded := h.recorded

theorem Fits.appendEvent (h : Fits t) {event : UsageEventRecord}
    (hevent : ∀ id ∈ event.processingReservationId, ∃ r ∈ t.meetingProcessingReservations,
      r.id = id ∧ r.userId = event.userId ∧ event.type = .meetingFinalize)
    (hnew : ∀ id ∈ event.processingReservationId, ∀ e ∈ t.usageEvents, e.processingReservationId ≠ some id) :
    Fits { t with usageEvents := t.usageEvents ++ [event] } where
  constraints := { h.constraints with
    usageReservations := by
      dsimp only
      rw [List.filterMap_append, List.nodup_append]
      refine ⟨h.constraints.usageReservations, ?_, fun a ha b hb => ?_⟩
      · rw [List.filterMap_cons]
        split <;> simp
      · obtain ⟨e, he, hea⟩ := List.mem_filterMap.mp ha
        obtain ⟨e', he', heb⟩ := List.mem_filterMap.mp hb
        obtain rfl : e' = event := List.mem_singleton.mp he'
        rintro rfl
        exact hnew a heb e he hea }
  users := h.users
  steps := h.steps
  linked := h.linked
  atRest := h.atRest
  recorded e he id hid := by
    rcases List.mem_append.mp he with hold | hlast
    · exact h.recorded e hold id hid
    · obtain rfl : e = event := List.mem_singleton.mp hlast
      exact hevent id hid

end Writes

end OwnMinutes.Backends.FittingRows
