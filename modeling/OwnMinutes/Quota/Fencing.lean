import OwnMinutes.Lib.Fence
import OwnMinutes.Quota.Calls

/-! # Provider steps as fenced work

For a reservation and a stage there is at most one provider step, and a provider is called by whoever
sees it `started`. `StepChange` lists what a quota call does to the table of steps; seen at one
stage, each of these is a move of a fence (`fence_move`), and the guarantees of the fence are those
of the provider call (`Fenced`, `fenced_of_changes`).

A backend has these guarantees once its calls are shown to be step changes. -/

namespace OwnMinutes.Quota.Fencing

open OwnMinutes.Lib.Keyed OwnMinutes.Lib.Runs OwnMinutes.Auth.ProcessingRoute
open OwnMinutes.Auth.Records OwnMinutes.Auth.QuotaTypes OwnMinutes.Quota.Calls
open OwnMinutes.Lib

/-- The reservation and the stage of a provider step. -/
abbrev Stage := ReservationId × String

def stageOf (step : MeetingProviderStepRecord) : Stage := (step.reservationId, step.stageKey)

/-- A reservation has one provider step for a stage. -/
def StagesUnique (steps : Table MeetingProviderStepRecord) : Prop :=
  ∀ x ∈ steps, ∀ y ∈ steps, stageOf x = stageOf y → x = y

/-- The provider step of a stage. -/
def rowAt (steps : Table MeetingProviderStepRecord) (k : Stage) :
    Option MeetingProviderStepRecord :=
  steps.find? fun step => stageOf step == k

variable {k : Stage} {steps' : Table MeetingProviderStepRecord}

theorem rowAt_eq_some {steps : Table MeetingProviderStepRecord} (hU : StagesUnique steps)
    {step : MeetingProviderStepRecord} : rowAt steps k = some step ↔ step ∈ steps ∧ stageOf step = k := by
  constructor
  · intro h
    exact ⟨Table.mem_of_find? h, by simpa using Table.of_find? h⟩
  · rintro ⟨hstep, rfl⟩
    exact Table.find?_eq_some_of_unique hstep (by simp) fun y hy h =>
      hU y hy step hstep (by simpa using h)

theorem rowAt_eq_none {steps : Table MeetingProviderStepRecord} :
    rowAt steps k = none ↔ ∀ step ∈ steps, stageOf step ≠ k := by
  rw [rowAt, Table.find?_none]; simp

theorem rowAt_ext {steps : Table MeetingProviderStepRecord} (hU : StagesUnique steps) (hU' : StagesUnique steps')
    (h : ∀ step, stageOf step = k → (step ∈ steps' ↔ step ∈ steps)) : rowAt steps' k = rowAt steps k := by
  apply Option.ext
  intro step
  rw [rowAt_eq_some hU, rowAt_eq_some hU']
  exact and_congr_left fun hk => h step hk

/-! ### What a call does to the steps -/

/-- A provider step rewritten in place. -/
structure SameStage (old step : MeetingProviderStepRecord) : Prop where
  id : step.id = old.id
  stage : stageOf step = stageOf old

variable {now : Timestamp}

section Rows

variable {steps : Table MeetingProviderStepRecord} {old step : MeetingProviderStepRecord}

theorem mem_replace_iff (hold : old ∈ steps) (hsame : SameStage old step)
    {x : MeetingProviderStepRecord} : x ∈ steps.replace step ↔ (x ∈ steps ∧ x ≠ old) ∨ x = step := by
  have hkey : HasKey.key old = HasKey.key step := hsame.id.symm
  rw [Table.mem_replace]
  constructor
  · rintro (⟨hx, hne⟩ | ⟨rfl, -⟩)
    · exact .inl ⟨hx, fun h => hne (h ▸ hkey)⟩
    · exact .inr rfl
  · rintro (⟨hx, hne⟩ | rfl)
    · exact .inl ⟨hx, fun h => hne (Table.eq_of_key hx hold (h.trans hkey.symm))⟩
    · exact .inr ⟨rfl, old, hold, hkey⟩

theorem stagesUnique_replace (hU : StagesUnique steps) (hold : old ∈ steps)
    (hsame : SameStage old step) : StagesUnique (steps.replace step) := by
  intro x hx y hy hxy
  rcases (mem_replace_iff hold hsame).mp hx with ⟨hxs, hxo⟩ | rfl <;>
    rcases (mem_replace_iff hold hsame).mp hy with ⟨hys, hyo⟩ | rfl
  · exact hU x hxs y hys hxy
  · exact absurd (hU x hxs old hold (hxy.trans hsame.stage)) hxo
  · exact absurd (hU y hys old hold (hxy.symm.trans hsame.stage)) hyo
  · rfl

theorem rowAt_replace (hU : StagesUnique steps) (hold : old ∈ steps) (hsame : SameStage old step)
    (k : Stage) :
    rowAt (steps.replace step) k = if stageOf old = k then some step else rowAt steps k := by
  have hU' := stagesUnique_replace hU hold hsame
  split_ifs with h
  · exact (rowAt_eq_some hU').mpr
      ⟨(mem_replace_iff hold hsame).mpr (.inr rfl), hsame.stage.trans h⟩
  · refine rowAt_ext hU hU' fun x hk => ?_
    rw [mem_replace_iff hold hsame]
    constructor
    · rintro (⟨hx, -⟩ | rfl)
      · exact hx
      · exact absurd (hsame.stage.symm.trans hk) h
    · exact fun hx => .inl ⟨hx, fun he => h (he ▸ hk)⟩

theorem stagesUnique_insert (hU : StagesUnique steps) (hfree : rowAt steps (stageOf step) = none) :
    StagesUnique (steps.insert step) := by
  have hne := rowAt_eq_none.mp hfree
  intro x hx y hy hxy
  rcases Table.mem_of_mem_insert hx with hxs | rfl <;>
    rcases Table.mem_of_mem_insert hy with hys | rfl
  · exact hU x hxs y hys hxy
  · exact absurd hxy (hne x hxs)
  · exact absurd hxy.symm (hne y hys)
  · rfl

theorem rowAt_insert (hU : StagesUnique steps) (hfresh : steps.Fresh step.id)
    (hfree : rowAt steps (stageOf step) = none) (k : Stage) :
    rowAt (steps.insert step) k = if stageOf step = k then some step else rowAt steps k := by
  have hU' := stagesUnique_insert hU hfree
  split_ifs with h
  · exact (rowAt_eq_some hU').mpr ⟨(Table.mem_insert hfresh).mpr (.inr rfl), h⟩
  · refine rowAt_ext hU hU' fun x hk => ?_
    rw [Table.mem_insert hfresh]
    exact or_iff_left fun he => h (he ▸ hk)

theorem sameStage_releasedRow (now : Timestamp) (reservationId : ReservationId)
    (step : MeetingProviderStepRecord) : SameStage step (releasedRow now reservationId step) := by
  unfold releasedRow
  split_ifs <;> exact ⟨rfl, rfl⟩

theorem stagesUnique_release {reservationId : ReservationId} (hU : StagesUnique steps) :
    StagesUnique (releaseClaimedSteps now reservationId steps) := by
  intro x hx y hy hxy
  obtain ⟨a, ha, rfl⟩ := mem_releaseClaimedSteps.mp hx
  obtain ⟨b, hb, rfl⟩ := mem_releaseClaimedSteps.mp hy
  rw [(sameStage_releasedRow now reservationId a).stage,
    (sameStage_releasedRow now reservationId b).stage] at hxy
  rw [hU a ha b hb hxy]

theorem rowAt_release {reservationId : ReservationId} (hU : StagesUnique steps) (k : Stage) :
    rowAt (releaseClaimedSteps now reservationId steps) k =
      (rowAt steps k).map (releasedRow now reservationId) := by
  cases h : rowAt steps k with
  | none =>
    rw [rowAt_eq_none] at h
    rw [Option.map_none, rowAt_eq_none]
    intro x hx
    obtain ⟨a, ha, rfl⟩ := mem_releaseClaimedSteps.mp hx
    rw [(sameStage_releasedRow now reservationId a).stage]
    exact h a ha
  | some a =>
    obtain ⟨ha, rfl⟩ := (rowAt_eq_some hU).mp h
    exact (rowAt_eq_some (stagesUnique_release hU)).mpr
      ⟨mem_releaseClaimedSteps.mpr ⟨a, ha, rfl⟩, (sameStage_releasedRow now reservationId a).stage⟩

end Rows

variable (hashToken : ClaimToken → TokenHash)

/-- The call presents the token the step was claimed with. -/
def Presents (call : QuotaCall) (step : MeetingProviderStepRecord) : Prop :=
  ∃ input ∈ call.stepInput?, step.id = input.stepId ∧
    step.claimTokenHash = hashToken input.claimToken

/-- What a call that succeeds does to the provider steps. -/
inductive StepChange (now : Timestamp) (call : QuotaCall)
    (steps : Table MeetingProviderStepRecord) :
    QuotaResult → Table MeetingProviderStepRecord → Prop
  | same {res : QuotaResult} (hquiet : Quiet res) : StepChange now call steps res steps
  | claimFirst {step : MeetingProviderStepRecord} {token : ClaimToken} {res : QuotaResult}
      (hres : ∃ r, res = .claim r ∧ (r.step.reservationId, r.step.stageKey) = stageOf step)
      (hid : call.newStepId? = some step.id) (htoken : call.newToken? = some token)
      (hfree : rowAt steps (stageOf step) = none) (hstatus : step.status = .claimed)
      (hhash : step.claimTokenHash = hashToken token) :
      StepChange now call steps res (steps.insert step)
  | claimAgain {old step : MeetingProviderStepRecord} {token : ClaimToken} {res : QuotaResult}
      (hres : ∃ r, res = .claim r ∧ (r.step.reservationId, r.step.stageKey) = stageOf step)
      (htoken : call.newToken? = some token) (hold : old ∈ steps) (hsame : SameStage old step)
      (hopen : old.status = .released ∨ (old.status = .claimed ∧ old.leaseExpiresAt ≤ now))
      (hstatus : step.status = .claimed) (hhash : step.claimTokenHash = hashToken token) :
      StepChange now call steps res (steps.replace step)
  | start {old step : MeetingProviderStepRecord} {input : ProviderStepInput} {res : QuotaResult}
      (hres : ∃ r, res = .transition r ∧ (r.step.reservationId, r.step.stageKey) = stageOf step)
      (hcall : call = .start call.userId input) (hold : old ∈ steps) (hid : old.id = input.stepId)
      (hhash : old.claimTokenHash = hashToken input.claimToken) (hsame : SameStage old step)
      (hclaimed : old.status = .claimed) (hlease : now < old.leaseExpiresAt)
      (hstatus : step.status = .started) (hkeep : step.claimTokenHash = old.claimTokenHash) :
      StepChange now call steps res (steps.replace step)
  | complete {old step : MeetingProviderStepRecord} {res : QuotaResult} (hquiet : Quiet res)
      (hcall : Presents hashToken call old ∨ ∃ input, call = .reconcile call.userId input) (hold : old ∈ steps)
      (hsame : SameStage old step) (hstarted : old.status = .started)
      (hstatus : step.status = .completed) (hkeep : step.claimTokenHash = old.claimTokenHash) :
      StepChange now call steps res (steps.replace step)
  | release {old step : MeetingProviderStepRecord} {res : QuotaResult} (hquiet : Quiet res)
      (hcall : Presents hashToken call old) (hold : old ∈ steps) (hsame : SameStage old step)
      (hclaimed : old.status = .claimed) (hstatus : step.status = .released)
      (hkeep : step.claimTokenHash = old.claimTokenHash) :
      StepChange now call steps res (steps.replace step)
  | reject {old step : MeetingProviderStepRecord} {input : ProviderStepInput} {res : QuotaResult}
      (hres : ∃ r, res = .transition r ∧ r.outcome = .released)
      (hcall : call = .reject call.userId input) (hold : old ∈ steps) (hid : old.id = input.stepId)
      (hhash : old.claimTokenHash = hashToken input.claimToken) (hsame : SameStage old step)
      (hopen : old.status = .started ∨ old.status = .claimed) (hstatus : step.status = .released)
      (hkeep : step.claimTokenHash = old.claimTokenHash) :
      StepChange now call steps res (steps.replace step)
  | releaseAll {reservationId : ReservationId} {res : QuotaResult} (hquiet : Quiet res)
      (hcall : call = .releaseReservation call.userId reservationId)
      (hidle : ∀ step ∈ steps, step.reservationId = reservationId → step.status ≠ .started) :
      StepChange now call steps res (releaseClaimedSteps now reservationId steps)

variable {res : QuotaResult}

theorem stagesUnique_change {call : QuotaCall} {steps : Table MeetingProviderStepRecord}
    (h : StepChange hashToken now call steps res steps') (hU : StagesUnique steps) : StagesUnique steps' := by
  cases h with
  | same => exact hU
  | claimFirst _ _ _ hfree => exact stagesUnique_insert hU hfree
  | claimAgain _ _ hold hsame | start _ _ hold _ _ hsame => exact stagesUnique_replace hU hold hsame
  | complete _ _ hold hsame | release _ _ hold hsame => exact stagesUnique_replace hU hold hsame
  | reject _ _ hold _ _ hsame => exact stagesUnique_replace hU hold hsame
  | releaseAll => exact stagesUnique_release hU

/-- What a call that presents no token can do to a step. -/
inductive Unheld (now : Timestamp) (steps : Table MeetingProviderStepRecord) :
    QuotaCall → MeetingProviderStepRecord → MeetingProviderStepRecord → Prop
  | claim {userId : UserId} {input : ClaimMeetingProviderStepInput} {newId : ProviderStepId}
      {token : ClaimToken} {old step : MeetingProviderStepRecord}
      (hopen : old.status = .released ∨ (old.status = .claimed ∧ old.leaseExpiresAt ≤ now))
      (hstatus : step.status = .claimed) : Unheld now steps (.claim userId input newId token) old step
  | reconcile {userId : UserId} {input : ReconcileMeetingProviderStepInput}
      {old step : MeetingProviderStepRecord} (hstarted : old.status = .started)
      (hstatus : step.status = .completed) (hkeep : step.claimTokenHash = old.claimTokenHash) :
      Unheld now steps (.reconcile userId input) old step
  | releaseReservation {userId : UserId} {old step : MeetingProviderStepRecord}
      (hidle : ∀ step ∈ steps, step.reservationId = old.reservationId → step.status ≠ .started)
      (hclaimed : old.status = .claimed) (hstatus : step.status = .released)
      (hkeep : step.claimTokenHash = old.claimTokenHash) :
      Unheld now steps (.releaseReservation userId old.reservationId) old step

/-- A call that presents no token, at one step. -/
theorem unheld_of_change {call : QuotaCall} {steps : Table MeetingProviderStepRecord}
    (h : StepChange hashToken now call steps res steps') (hinput : call.stepInput? = none)
    {step : MeetingProviderStepRecord} (hstep : step ∈ steps) :
    step ∈ steps' ∨ ∃ step' ∈ steps', SameStage step step' ∧ Unheld now steps call step step' := by
  have hreplace : ∀ {old new : MeetingProviderStepRecord}, old ∈ steps → SameStage old new →
      Unheld now steps call old new → step ∈ steps.replace new ∨
        ∃ step' ∈ steps.replace new, SameStage step step' ∧ Unheld now steps call step step' := by
    intro old new hold hsame hunheld
    by_cases he : step = old
    · subst he
      exact .inr ⟨new, (mem_replace_iff hold hsame).mpr (.inr rfl), hsame, hunheld⟩
    · exact .inl ((mem_replace_iff hold hsame).mpr (.inl ⟨hstep, he⟩))
  cases h with
  | same => exact .inl hstep
  | claimFirst => exact .inl (Table.mem_insert_of_mem hstep)
  | claimAgain _ htoken hold hsame hopen hstatus =>
    refine hreplace hold hsame ?_
    cases call with
    | claim => exact .claim hopen hstatus
    | _ => cases htoken
  | start _ hcall =>
    rw [hcall] at hinput
    cases hinput
  | complete _ hcall hold hsame hstarted hstatus hkeep =>
    refine hreplace hold hsame ?_
    rcases hcall with ⟨input, hpresented, -⟩ | ⟨input, hcall⟩
    · rw [hinput] at hpresented
      cases hpresented
    · rw [hcall]
      exact .reconcile hstarted hstatus hkeep
  | release _ hcall =>
    obtain ⟨input, hpresented, -⟩ := hcall
    rw [hinput] at hpresented
    cases hpresented
  | reject _ hcall =>
    rw [hcall] at hinput
    cases hinput
  | @releaseAll reservationId _ _ hcall hidle =>
    by_cases hclaimed : step.reservationId = reservationId ∧ step.status = .claimed
    · obtain ⟨rfl, hstatus⟩ := hclaimed
      have hmem : releasedRow now step.reservationId step ∈ releaseClaimedSteps now step.reservationId steps :=
        mem_releaseClaimedSteps.mpr ⟨step, hstep, rfl⟩
      refine .inr ⟨_, hmem, sameStage_releasedRow now step.reservationId step, ?_⟩
      rw [hcall]
      unfold releasedRow
      rw [if_pos ⟨rfl, hstatus⟩]
      exact .releaseReservation hidle hstatus rfl rfl
    · refine .inl (mem_releaseClaimedSteps.mpr ⟨step, hstep, ?_⟩)
      unfold releasedRow
      rw [if_neg hclaimed]

/-! ### The fence of a stage -/

def phase : MeetingProviderStepStatus → Fence.Phase
  | .claimed => .claimed
  | .started => .started
  | .completed => .completed
  | .released => .released

/-- The phase of a step and the digest of the token it was claimed with. -/
def fenceOf (step : MeetingProviderStepRecord) : Fence.Phase × TokenHash :=
  (phase step.status, step.claimTokenHash)

def fenceAt (steps : Table MeetingProviderStepRecord) (k : Stage) : Fence.State TokenHash :=
  (rowAt steps k).map fenceOf

/-- The call answered `claimed` for the stage. -/
def ClaimedAt (k : Stage) (e : QuotaEvent) : Prop :=
  ∃ r, e.result = .ok (.claim r) ∧ r.outcome = .claimed ∧
    (r.step.reservationId, r.step.stageKey) = k

instance (k : Stage) (e : QuotaEvent) : Decidable (ClaimedAt k e) :=
  match h : e.result with
  | .ok (.claim r) =>
    decidable_of_iff (r.outcome = .claimed ∧ (r.step.reservationId, r.step.stageKey) = k)
      (by simp [ClaimedAt, h])
  | .ok (.realtime _) | .ok (.reservation _) | .ok (.transition _) | .ok (.usage _) | .error _ =>
    .isFalse (by simp [ClaimedAt, h])

/-- The call answered `started` for the stage: its caller calls the provider. -/
def StartedAt (k : Stage) (e : QuotaEvent) : Prop :=
  ∃ r, e.result = .ok (.transition r) ∧ r.outcome = .started ∧
    (r.step.reservationId, r.step.stageKey) = k

instance (k : Stage) (e : QuotaEvent) : Decidable (StartedAt k e) :=
  match h : e.result with
  | .ok (.transition r) =>
    decidable_of_iff (r.outcome = .started ∧ (r.step.reservationId, r.step.stageKey) = k)
      (by simp [StartedAt, h])
  | .ok (.realtime _) | .ok (.reservation _) | .ok (.claim _) | .ok (.usage _) | .error _ =>
    .isFalse (by simp [StartedAt, h])

/-- A reject that succeeded. -/
def Rejected (e : QuotaEvent) (input : ProviderStepInput) : Prop :=
  e.call = .reject e.call.userId input ∧
    ∃ r, e.result = .ok (.transition r) ∧ r.outcome = .released

/-- The move of the fence that an event is, seen at a stage. -/
def Observes (k : Stage) (e : QuotaEvent) : Fence.Action TokenHash → Prop
  | .claim t => ¬ StartedAt k e ∧ ∃ token ∈ e.call.newToken?, t = hashToken token
  | .start t =>
    ¬ ClaimedAt k e ∧ ∃ input, e.call = .start e.call.userId input ∧ t = hashToken input.claimToken
  | .reject t => ¬ ClaimedAt k e ∧ ¬ StartedAt k e ∧
    ∃ input, Rejected e input ∧ t = hashToken input.claimToken
  | _ => ¬ ClaimedAt k e ∧ ¬ StartedAt k e

theorem quiet_observes {call : QuotaCall} (h : Quiet res) :
    ¬ ClaimedAt k ⟨now, call, .ok res⟩ ∧ ¬ StartedAt k ⟨now, call, .ok res⟩ := by
  constructor
  · rintro ⟨r, hr, ho, -⟩
    cases hr
    exact h ho
  · rintro ⟨r, hr, ho, -⟩
    cases hr
    exact h ho

/-- A result about one stage is not one about another. -/
theorem other_observes {k' : Stage} {call : QuotaCall} (hne : k' ≠ k)
    (h : (∃ r, res = .claim r ∧ (r.step.reservationId, r.step.stageKey) = k') ∨
      ∃ r, res = .transition r ∧ (r.step.reservationId, r.step.stageKey) = k') :
    ¬ ClaimedAt k ⟨now, call, .ok res⟩ ∧ ¬ StartedAt k ⟨now, call, .ok res⟩ := by
  rcases h with ⟨r, rfl, hk⟩ | ⟨r, rfl, hk⟩
  · refine ⟨?_, fun ⟨r', hr, _⟩ => (by cases hr)⟩
    rintro ⟨r', hr, -, hk'⟩
    cases hr
    exact hne (hk.symm.trans hk')
  · refine ⟨fun ⟨r', hr, _⟩ => (by cases hr), ?_⟩
    rintro ⟨r', hr, -, hk'⟩
    cases hr
    exact hne (hk.symm.trans hk')

/-- **Every step change is a move of the fence** of each stage. -/
theorem fence_move {call : QuotaCall} {steps : Table MeetingProviderStepRecord}
    (h : StepChange hashToken now call steps res steps') (hU : StagesUnique steps)
    (hfresh : ∀ newId ∈ call.newStepId?, steps.Fresh newId) (k : Stage) :
    ∃ a, Observes hashToken k ⟨now, call, .ok res⟩ a ∧
      Fence.Step (fenceAt steps k) a (fenceAt steps' k) := by
  have hrow : ∀ {old : MeetingProviderStepRecord}, old ∈ steps → stageOf old = k →
      rowAt steps k = some old := fun hold hk => (rowAt_eq_some hU).mpr ⟨hold, hk⟩
  unfold fenceAt
  cases h with
  | same hquiet => exact ⟨.skip, quiet_observes hquiet, .skip _⟩
  | @claimFirst step token res hres hid htoken hfree hstatus hhash =>
    rw [rowAt_insert hU (hfresh _ hid) hfree]
    split_ifs with hk
    · refine ⟨.claim (hashToken token), ⟨?_, token, htoken, rfl⟩, ?_⟩
      · rintro ⟨r, hr, -⟩
        obtain ⟨r', rfl, -⟩ := hres
        cases hr
      · rw [← hk, hfree, Option.map_some, fenceOf, hstatus, hhash]
        exact .claimFirst _
    · exact ⟨.skip, other_observes hk (.inl hres), .skip _⟩
  | @claimAgain old step token res hres htoken hold hsame hopen hstatus hhash =>
    rw [rowAt_replace hU hold hsame]
    split_ifs with hk
    · refine ⟨.claim (hashToken token), ⟨?_, token, htoken, rfl⟩, ?_⟩
      · rintro ⟨r, hr, -⟩
        obtain ⟨r', rfl, -⟩ := hres
        cases hr
      · rw [hrow hold hk, Option.map_some, Option.map_some, fenceOf, fenceOf, hstatus, hhash]
        refine .claimAgain _ ?_
        rcases hopen with h | ⟨h, -⟩ <;> simp [h, phase]
    · exact ⟨.skip, other_observes (hsame.stage ▸ hk) (.inl hres), .skip _⟩
  | @start old step input res hres hcall hold hid hhash hsame hclaimed hlease hstatus hkeep =>
    rw [rowAt_replace hU hold hsame]
    split_ifs with hk
    · refine ⟨.start (hashToken input.claimToken), ⟨?_, input, hcall, rfl⟩, ?_⟩
      · rintro ⟨r, hr, -⟩
        obtain ⟨r', rfl, -⟩ := hres
        cases hr
      · rw [hrow hold hk, Option.map_some, Option.map_some, fenceOf, fenceOf, hstatus, hkeep, hhash,
          hclaimed]
        exact .start _
    · exact ⟨.skip, other_observes (hsame.stage ▸ hk) (.inr hres), .skip _⟩
  | @complete old step res hquiet hcall hold hsame hstarted hstatus hkeep =>
    rw [rowAt_replace hU hold hsame]
    split_ifs with hk
    · refine ⟨.complete none, quiet_observes hquiet, ?_⟩
      rw [hrow hold hk, Option.map_some, Option.map_some, fenceOf, fenceOf, hstatus, hkeep, hstarted]
      exact .complete (by simp)
    · exact ⟨.skip, quiet_observes hquiet, .skip _⟩
  | @release old step res hquiet hcall hold hsame hclaimed hstatus hkeep =>
    rw [rowAt_replace hU hold hsame]
    split_ifs with hk
    · refine ⟨.release none, quiet_observes hquiet, ?_⟩
      rw [hrow hold hk, Option.map_some, Option.map_some, fenceOf, fenceOf, hstatus, hkeep, hclaimed]
      exact .release (by simp)
    · exact ⟨.skip, quiet_observes hquiet, .skip _⟩
  | @reject old step input res hres hcall hold hid hhash hsame hopen hstatus hkeep =>
    obtain ⟨r, rfl, hr⟩ := hres
    have hquiet : Quiet (.transition r) := by simp [Quiet, hr]
    rw [rowAt_replace hU hold hsame]
    split_ifs with hk
    · refine ⟨.reject (hashToken input.claimToken), ⟨(quiet_observes hquiet).1,
        (quiet_observes hquiet).2, input, ⟨hcall, r, rfl, hr⟩, rfl⟩, ?_⟩
      rw [hrow hold hk, Option.map_some, Option.map_some, fenceOf, fenceOf, hstatus, hkeep, hhash]
      refine .reject ?_
      rcases hopen with h | h <;> simp [h, phase]
    · exact ⟨.skip, quiet_observes hquiet, .skip _⟩
  | @releaseAll reservationId res hquiet _ _ =>
    rw [rowAt_release hU]
    cases h : rowAt steps k with
    | none => exact ⟨.skip, quiet_observes hquiet, .skip _⟩
    | some old =>
      rw [Option.map_some, Option.map_some, Option.map_some]
      unfold releasedRow
      split_ifs with hc
      · refine ⟨.release none, quiet_observes hquiet, ?_⟩
        rw [fenceOf, fenceOf, hc.2]
        exact .release (by simp)
      · exact ⟨.skip, quiet_observes hquiet, .skip _⟩

/-! ### Runs of a backend -/

section Backend

variable {σ : Type} (call : Clocked σ → QuotaEvent → Clocked σ → Prop)
  (stepsOf : σ → Table MeetingProviderStepRecord)

/-- The calls of a backend are step changes; a call that fails changes no step. -/
structure ChangesSteps : Prop where
  ok : ∀ {s e t res}, call s e t → e.result = .ok res →
    StepChange hashToken e.now e.call (stepsOf s.store) res (stepsOf t.store)
  error : ∀ {s e t err}, call s e t → e.result = .error err → stepsOf t.store = stepsOf s.store
  fresh : ∀ {s e t}, call s e t → ∀ newId ∈ e.call.newStepId?, (stepsOf s.store).Fresh newId

/-- The guarantees of a provider call, over every run of a backend. -/
structure Fenced : Prop where
  /-- Between two `started` answers for a stage, the first of the two starters was rejected. -/
  started_again : ∀ {k : Stage} {s t : Clocked σ} {pre mid post : List QuotaEvent}
    {e1 e2 : QuotaEvent}, StagesUnique (stepsOf s.store) →
    Run call s (pre ++ e1 :: (mid ++ e2 :: post)) t → StartedAt k e1 → StartedAt k e2 →
    ∃ e ∈ mid, ∃ input1 input, e1.call = .start e1.call.userId input1 ∧ Rejected e input ∧
      input.claimToken = input1.claimToken
  /-- A completed step is neither claimed nor started again, and stays completed. -/
  completed : ∀ {k : Stage} {s t : Clocked σ} {es : List QuotaEvent}
    {step : MeetingProviderStepRecord}, StagesUnique (stepsOf s.store) → Run call s es t →
    step ∈ stepsOf s.store → stageOf step = k → step.status = .completed →
    (∃ step' ∈ stepsOf t.store, stageOf step' = k ∧ step'.status = .completed) ∧
      ∀ e ∈ es, ¬ ClaimedAt k e ∧ ¬ StartedAt k e
  /-- Once a stage was claimed again, a call that presents the token of the earlier claim leaves the
  step of the stage as it is and does not answer `started`. -/
  stale : ∀ {k : Stage} {s t u : Clocked σ} {pre mid post : List QuotaEvent} {e1 e2 e3 : QuotaEvent}
    {token : ClaimToken} {input : ProviderStepInput}, StagesUnique (stepsOf s.store) →
    Run call s (pre ++ e1 :: (mid ++ e2 :: post)) t →
    ((pre ++ e1 :: (mid ++ e2 :: post)).filterMap fun e => e.call.newToken?).Nodup →
    ClaimedAt k e1 → e1.call.newToken? = some token → ClaimedAt k e2 →
    call t e3 u → e3.call.stepInput? = some input → input.claimToken = token →
    (∀ step ∈ stepsOf t.store, stageOf step = k → step ∈ stepsOf u.store) ∧ ¬ StartedAt k e3
  /-- A call that presents no token does not answer `started`, and leaves the step of a stage as it is or does one of
  three things to it (`Unheld`). -/
  unheld : ∀ {k : Stage} {s t u : Clocked σ} {es : List QuotaEvent} {e : QuotaEvent}
    {step : MeetingProviderStepRecord}, Run call s es t → call t e u → e.call.stepInput? = none →
    step ∈ stepsOf t.store → stageOf step = k → ¬ StartedAt k e ∧ (step ∈ stepsOf u.store ∨
      ∃ step' ∈ stepsOf u.store, stageOf step' = k ∧ Unheld e.now (stepsOf t.store) e.call step step')

variable {hashToken call stepsOf}

variable {s t : Clocked σ} {e : QuotaEvent}

/-- A call moves the fence of each stage. -/
theorem call_moves (hC : ChangesSteps hashToken call stepsOf) (k : Stage) (hU : StagesUnique (stepsOf s.store))
    (h : call s e t) :
    StagesUnique (stepsOf t.store) ∧ ∃ a, Observes hashToken k e a ∧
      Fence.Step (fenceAt (stepsOf s.store) k) a (fenceAt (stepsOf t.store) k) := by
  cases hres : e.result with
  | error err =>
    rw [hC.error h hres]
    have hnot : ¬ ClaimedAt k e ∧ ¬ StartedAt k e := by
      constructor <;> rintro ⟨r, hr, -⟩ <;> rw [hres] at hr <;> cases hr
    exact ⟨hU, .skip, hnot, .skip _⟩
  | ok res =>
    have hchange := hC.ok h hres
    refine ⟨stagesUnique_change hashToken hchange hU, ?_⟩
    obtain ⟨a, ha, hstep⟩ := fence_move hashToken hchange hU (hC.fresh h) k
    rw [← hres] at ha
    exact ⟨a, ha, hstep⟩

/-- A run is a run of the fence of each stage. -/
theorem run_moves (hC : ChangesSteps hashToken call stepsOf) (k : Stage) {es : List QuotaEvent}
    (hU : StagesUnique (stepsOf s.store)) (h : Run call s es t) :
    StagesUnique (stepsOf t.store) ∧ ∃ as, List.Forall₂ (Observes hashToken k) es as ∧
      Run Fence.Step (fenceAt (stepsOf s.store) k) as (fenceAt (stepsOf t.store) k) := by
  obtain ⟨as, f, hL, hrun, hU', rfl⟩ := Run.simulate_labels
    (R := fun (s : Clocked σ) f => StagesUnique (stepsOf s.store) ∧ f = fenceAt (stepsOf s.store) k)
    (L := Observes hashToken k) (T := Fence.Step)
    (by
      rintro s e s' f ⟨hU, rfl⟩ hstep
      obtain ⟨hU', a, ha, hmove⟩ := call_moves hC k hU hstep
      exact ⟨a, _, ha, hmove, hU', rfl⟩) h ⟨hU, rfl⟩
  exact ⟨hU', as, hL, hrun⟩

/-- A `started` answer is a start of the fence, by the token presented. -/
theorem started_move {a : Fence.Action TokenHash} {f f' : Fence.State TokenHash} (hs : StartedAt k e)
    (ha : Observes hashToken k e a) (hstep : Fence.Step f a f') : ∃ input, e.call = .start e.call.userId input ∧
      a = .start (hashToken input.claimToken) ∧
      f = some (.claimed, hashToken input.claimToken) ∧
      f' = some (.started, hashToken input.claimToken) := by
  cases hstep with
  | start t =>
    obtain ⟨-, input, hcall, rfl⟩ := ha
    exact ⟨input, hcall, rfl, rfl, rfl⟩
  | claimFirst | claimAgain => exact absurd hs ha.1
  | reject => exact absurd hs ha.2.1
  | skip | complete | release => exact absurd hs ha.2

/-- A `claimed` answer is a claim of the fence with the token the call drew. -/
theorem claimed_move {a : Fence.Action TokenHash} {f f' : Fence.State TokenHash} (hs : ClaimedAt k e)
    (ha : Observes hashToken k e a) (hstep : Fence.Step f a f') : ∃ token ∈ e.call.newToken?,
      f' = some (.claimed, hashToken token) := by
  cases hstep with
  | claimFirst | claimAgain =>
    obtain ⟨-, token, htoken, rfl⟩ := ha
    exact ⟨token, htoken, rfl⟩
  | start | reject => exact absurd hs ha.1
  | skip | complete | release => exact absurd hs ha.1

/-- In a list of pairwise distinct tokens, the token of one claim is not that of a later one. -/
theorem tokens_differ {pre mid post : List QuotaEvent} {e1 e2 : QuotaEvent} {token : ClaimToken}
    (h : ((pre ++ e1 :: (mid ++ e2 :: post)).filterMap fun e => e.call.newToken?).Nodup)
    (h1 : e1.call.newToken? = some token) : e2.call.newToken? ≠ some token ∧
      ∀ e ∈ post, e.call.newToken? ≠ some token := by
  have hcons : (e1 :: (mid ++ e2 :: post)).filterMap (fun e => e.call.newToken?) =
      token :: (mid ++ e2 :: post).filterMap fun e => e.call.newToken? :=
    List.filterMap_cons_some h1
  rw [List.filterMap_append, hcons] at h
  have hnot := (List.nodup_cons.mp (List.nodup_append.mp h).2.1).1
  have hlater : ∀ e ∈ mid ++ e2 :: post, e.call.newToken? ≠ some token := fun e he htoken =>
    hnot (List.mem_filterMap.mpr ⟨e, he, htoken⟩)
  exact ⟨hlater e2 (by simp), fun e he => hlater e (by simp [he])⟩

/-- A call that presents a token draws none. -/
theorem newToken?_of_stepInput? {call : QuotaCall} {input : ProviderStepInput} {token : ClaimToken}
    (h : call.stepInput? = some input) : ¬ call.newToken? = some token := by
  cases call <;> cases h <;> simp [QuotaCall.newToken?]

/-- A call that presents a token which is not the one of the last claim changes nothing. -/
theorem stale_call (hC : ChangesSteps hashToken call stepsOf) {input : ProviderStepInput}
    (hU : StagesUnique (stepsOf s.store))
    (hheld : Fence.token (fenceAt (stepsOf s.store) k) ≠ some (hashToken input.claimToken)) (h : call s e t)
    (hinput : e.call.stepInput? = some input) :
    (∀ step ∈ stepsOf s.store, stageOf step = k → step ∈ stepsOf t.store) ∧ ¬ StartedAt k e := by
  -- the step of the stage was claimed with another token
  have hother : ∀ {old : MeetingProviderStepRecord}, old ∈ stepsOf s.store →
      old.claimTokenHash = hashToken input.claimToken → stageOf old ≠ k := by
    intro old hold hhash hk
    refine hheld ?_
    unfold Fence.token fenceAt
    rw [(rowAt_eq_some hU).mpr ⟨hold, hk⟩, Option.map_some, Option.map_some, fenceOf, hhash]
  have hkeep : ∀ {old step : MeetingProviderStepRecord}, old ∈ stepsOf s.store →
      SameStage old step → stageOf old ≠ k →
      ∀ x ∈ stepsOf s.store, stageOf x = k → x ∈ (stepsOf s.store).replace step :=
    fun hold hsame hne x hx hk =>
      (mem_replace_iff hold hsame).mpr (.inl ⟨hx, fun he => hne (he ▸ hk)⟩)
  have hquietly : ∀ {res : QuotaResult}, e.result = .ok res → Quiet res → ¬ StartedAt k e := by
    rintro res hres hquiet ⟨r, hr, ho, -⟩
    rw [hres] at hr
    cases hr
    exact hquiet ho
  cases hres : e.result with
  | error err =>
    rw [hC.error h hres]
    refine ⟨fun x hx _ => hx, ?_⟩
    rintro ⟨r, hr, -⟩
    rw [hres] at hr
    cases hr
  | ok res =>
    have hchange := hC.ok h hres
    generalize stepsOf t.store = steps' at hchange
    cases hchange with
    | same hquiet => exact ⟨fun x hx _ => hx, hquietly hres hquiet⟩
    | claimFirst _ _ htoken | claimAgain _ htoken => exact absurd htoken (newToken?_of_stepInput? hinput)
    | start hr hcall hold _ hhash hsame =>
      rw [hcall] at hinput
      cases hinput
      have hne := hother hold hhash
      refine ⟨hkeep hold hsame hne, ?_⟩
      obtain ⟨r, rfl, hk⟩ := hr
      rintro ⟨r', hr', -, hk'⟩
      rw [hres] at hr'
      cases hr'
      exact hne (hsame.stage.symm.trans (hk.symm.trans hk'))
    | complete hquiet hcall hold hsame =>
      refine ⟨hkeep hold hsame ?_, hquietly hres hquiet⟩
      rcases hcall with ⟨input', hinput', -, hhash⟩ | ⟨input', hcall⟩
      · rw [Option.mem_def, hinput] at hinput'
        cases hinput'
        exact hother hold hhash
      · rw [hcall] at hinput
        cases hinput
    | release hquiet hcall hold hsame =>
      obtain ⟨input', hinput', -, hhash⟩ := hcall
      rw [Option.mem_def, hinput] at hinput'
      cases hinput'
      exact ⟨hkeep hold hsame (hother hold hhash), hquietly hres hquiet⟩
    | reject hr hcall hold _ hhash hsame =>
      rw [hcall] at hinput
      cases hinput
      obtain ⟨r, rfl, hr⟩ := hr
      exact ⟨hkeep hold hsame (hother hold hhash), hquietly hres (by simp [Quiet, hr])⟩
    | releaseAll _ hcall =>
      rw [hcall] at hinput
      cases hinput

/-- A step is started by who presents its token. -/
theorem not_started_of_unheld (hC : ChangesSteps hashToken call stepsOf) (h : call s e t)
    (hinput : e.call.stepInput? = none) : ¬ StartedAt k e := by
  rintro ⟨r, hr, ho, -⟩
  have hquiet : ¬ Quiet (.transition r) := fun hq => hq ho
  have hchange := hC.ok h hr
  generalize stepsOf t.store = steps' at hchange
  cases hchange with
  | same hq | complete hq | release hq | releaseAll hq => exact hquiet hq
  | claimFirst hres | claimAgain hres =>
    obtain ⟨_, hres, -⟩ := hres
    cases hres
  | start _ hcall =>
    rw [hcall] at hinput
    cases hinput
  | reject hres =>
    obtain ⟨_, hres, ho'⟩ := hres
    cases hres
    rw [ho] at ho'
    cases ho'

theorem fenced_of_changes (hinj : Function.Injective hashToken)
    (hC : ChangesSteps hashToken call stepsOf) : Fenced call stepsOf where
  started_again {k s t pre mid post e1 e2} hU hrun h1 h2 := by
    obtain ⟨s1, hpre, hrest⟩ := Run.append_iff.mp hrun
    obtain ⟨s2, hstep1, hrest⟩ := Run.cons_iff.mp hrest
    obtain ⟨s3, hmid, hrest⟩ := Run.append_iff.mp hrest
    obtain ⟨s4, hstep2, -⟩ := Run.cons_iff.mp hrest
    obtain ⟨hU1, -⟩ := run_moves hC k hU hpre
    obtain ⟨hU2, a1, ha1, hmove1⟩ := call_moves hC k hU1 hstep1
    obtain ⟨input1, hcall1, -, -, hstarted⟩ := started_move h1 ha1 hmove1
    obtain ⟨hU3, as, hobs, hmoves⟩ := run_moves hC k hU2 hmid
    obtain ⟨-, a2, ha2, hmove2⟩ := call_moves hC k hU3 hstep2
    obtain ⟨input2, -, -, hclaimed, -⟩ := started_move h2 ha2 hmove2
    by_contra hno
    have hreject : .reject (hashToken input1.claimToken) ∉ as := by
      intro hmem
      obtain ⟨e, he, hobs⟩ := exists_of_mem_right hobs hmem
      obtain ⟨-, -, input, hrejected, htoken⟩ := hobs
      exact hno ⟨e, he, input1, input, hcall1, hrejected, (hinj htoken).symm⟩
    rcases (Fence.started_until_reject hmoves hstarted hreject).1 with h | h <;>
      rw [h] at hclaimed <;> cases hclaimed
  completed {k s t es step} hU hrun hstep hk hstatus := by
    obtain ⟨hU', as, hobs, hmoves⟩ := run_moves hC k hU hrun
    have hfence : fenceAt (stepsOf s.store) k = some (.completed, step.claimTokenHash) := by
      unfold fenceAt
      rw [(rowAt_eq_some hU).mpr ⟨hstep, hk⟩, Option.map_some, fenceOf, hstatus]
      rfl
    obtain ⟨hend, hopens⟩ := Fence.completed_forever hmoves hfence
    constructor
    · obtain ⟨step', hrow, hf⟩ := Option.map_eq_some_iff.mp hend
      obtain ⟨hmem, hk'⟩ := (rowAt_eq_some hU').mp hrow
      refine ⟨step', hmem, hk', ?_⟩
      have hphase : phase step'.status = .completed := congrArg Prod.fst hf
      cases hs : step'.status <;> rw [hs] at hphase <;> first | rfl | cases hphase
    · intro e he
      obtain ⟨a, ha, hobs⟩ := exists_of_mem_left hobs he
      have hno := hopens a ha
      cases a with
      | claim | start => exact absurd trivial hno
      | reject => exact ⟨hobs.1, hobs.2.1⟩
      | skip | complete | release => exact hobs
  stale {k s t u pre mid post e1 e2 e3 token input} hU hrun hnodup _ htoken h2 hcall hinput htok := by
    subst htok
    obtain ⟨hfresh2, hfreshPost⟩ := tokens_differ hnodup htoken
    obtain ⟨s1, hpre, hrest⟩ := Run.append_iff.mp hrun
    obtain ⟨s2, hstep1, hrest⟩ := Run.cons_iff.mp hrest
    obtain ⟨s3, hmid, hrest⟩ := Run.append_iff.mp hrest
    obtain ⟨s4, hstep2, hpost⟩ := Run.cons_iff.mp hrest
    obtain ⟨hU1, -⟩ := run_moves hC k hU hpre
    obtain ⟨hU2, -⟩ := call_moves hC k hU1 hstep1
    obtain ⟨hU3, -⟩ := run_moves hC k hU2 hmid
    obtain ⟨hU4, a2, ha2, hmove2⟩ := call_moves hC k hU3 hstep2
    obtain ⟨token2, htoken2, hclaimed⟩ := claimed_move h2 ha2 hmove2
    obtain ⟨hU5, as, hobs, hmoves⟩ := run_moves hC k hU4 hpost
    have hheld : Fence.token (fenceAt (stepsOf t.store) k) ≠ some (hashToken input.claimToken) := by
      refine Fence.stale_forever hmoves ?_ fun hmem => ?_
      · rw [hclaimed]
        intro h
        exact hfresh2 (htoken2.trans (congrArg some (hinj (Option.some.inj h))))
      · obtain ⟨e, he, -, token', htoken', heq⟩ := exists_of_mem_right hobs hmem
        exact hfreshPost e he (htoken'.trans (congrArg some (hinj heq).symm))
    exact stale_call hC hU5 hheld hcall hinput
  unheld {k s t u es e step} _ hcall hinput hstep hk := by
    refine ⟨not_started_of_unheld hC hcall hinput, ?_⟩
    cases hres : e.result with
    | error err =>
      rw [hC.error hcall hres]
      exact .inl hstep
    | ok res =>
      rcases unheld_of_change hashToken (hC.ok hcall hres) hinput hstep with hmem | ⟨step', hmem, hsame, hunheld⟩
      · exact .inl hmem
      · exact .inr ⟨step', hmem, hsame.stage.trans hk, hunheld⟩

end Backend

end OwnMinutes.Quota.Fencing
