import OwnMinutes.Finalizer.Records
import OwnMinutes.Quota.Fencing
import OwnMinutes.Quota.Reservations

/-! # The ledger of a finalization

What runs rely on of the quota operations, for either backend (`FinalizerLedger`), and what a call does to
the provider step of one stage (`StageMove`). -/

namespace OwnMinutes.Finalizer.Ledger

open OwnMinutes.Lib OwnMinutes.Lib.Keyed OwnMinutes.Auth.ProcessingRoute OwnMinutes.Auth.Records
open OwnMinutes.Auth.QuotaTypes OwnMinutes.Quota.Calls OwnMinutes.Quota.Fencing
open OwnMinutes.Quota.Reservations OwnMinutes.Finalizer.Records

variable (hashToken : ClaimToken → TokenHash)

/-! ### One stage -/

/-- What a call that succeeds with `res` does to the step of the stage `k`. -/
inductive StageMove (call : QuotaCall) (res : QuotaResult) (k : Stage)
    (steps : Table MeetingProviderStepRecord) : Fence.State TokenHash → Fence.State TokenHash → Prop
  | same (f : Fence.State TokenHash) : StageMove call res k steps f f
  | claimed {f : Fence.State TokenHash} {r : MeetingProviderStepClaimResult} {token : ClaimToken}
      (hres : res = .claim r) (hstage : (r.step.reservationId, r.step.stageKey) = k)
      (htoken : call.newToken? = some token)
      (hfree : ∀ p u, f = some (p, u) → p = .released ∨ p = .claimed) :
      StageMove call res k steps f (some (.claimed, hashToken token))
  | started {row : MeetingProviderStepRecord} {input : ProviderStepInput}
      (hcall : call = .start call.userId input) (hrow : row ∈ steps) (hid : row.id = input.stepId)
      (hstage : stageOf row = k) :
      StageMove call res k steps (some (.claimed, hashToken input.claimToken))
        (some (.started, hashToken input.claimToken))
  | completed (u : TokenHash) :
      StageMove call res k steps (some (.started, u)) (some (.completed, u))
  | released (u : TokenHash) :
      StageMove call res k steps (some (.claimed, u)) (some (.released, u))
  | rejected {row : MeetingProviderStepRecord} {p : Fence.Phase} {input : ProviderStepInput}
      (hcall : call = .reject call.userId input) (hrow : row ∈ steps) (hid : row.id = input.stepId)
      (hstage : stageOf row = k) (hp : p = .started ∨ p = .claimed) :
      StageMove call res k steps (some (p, hashToken input.claimToken))
        (some (.released, hashToken input.claimToken))

variable {hashToken} {now : Timestamp} {call : QuotaCall} {res : QuotaResult}
  {steps steps' : Table MeetingProviderStepRecord}

variable {k : Stage}

theorem fenceAt_eq {row : MeetingProviderStepRecord} (hU : StagesUnique steps) (hrow : row ∈ steps)
    (hk : stageOf row = k) : fenceAt steps k = some (fenceOf row) := by
  rw [fenceAt, (rowAt_eq_some hU).mpr ⟨hrow, hk⟩, Option.map_some]

theorem fenceAt_replace {old step : MeetingProviderStepRecord} (hU : StagesUnique steps) (hold : old ∈ steps)
    (hsame : SameStage old step) :
    fenceAt (steps.replace step) k = if stageOf old = k then some (fenceOf step) else fenceAt steps k := by
  rw [fenceAt, rowAt_replace hU hold hsame]
  split_ifs
  · rfl
  · rfl

/-- Every step change, seen at one stage. -/
theorem stageMove_of_change (h : StepChange hashToken now call steps res steps')
    (hU : StagesUnique steps) (hfresh : ∀ newId ∈ call.newStepId?, steps.Fresh newId) (k : Stage) :
    StageMove hashToken call res k steps (fenceAt steps k) (fenceAt steps' k) := by
  cases h with
  | same => exact .same _
  | @claimFirst step token res hres hid htoken hfree hstatus hhash =>
    obtain ⟨r, hr, hstage⟩ := hres
    have hrow := rowAt_insert hU (hfresh _ hid) hfree k
    rw [fenceAt, fenceAt, hrow]
    split_ifs with hk
    · rw [Option.map_some, fenceOf, hstatus, hhash, ← hk, hfree]
      exact .claimed hr hstage htoken fun p u hf => by cases hf
    · exact .same _
  | @claimAgain old step token res hres htoken hold hsame hopen hstatus hhash =>
    obtain ⟨r, hr, hstage⟩ := hres
    rw [fenceAt_replace hU hold hsame]
    split_ifs with hk
    · rw [fenceAt_eq hU hold hk, fenceOf, fenceOf, hstatus, hhash]
      refine .claimed hr (hstage.trans (hsame.stage.trans hk)) htoken fun p u hf => ?_
      cases hf
      rcases hopen with h | ⟨h, -⟩
      · exact .inl (by rw [h]; rfl)
      · exact .inr (by rw [h]; rfl)
    · exact .same _
  | @start old step input res hres hcall hold hid hhash hsame hclaimed hlease hstatus hkeep =>
    rw [fenceAt_replace hU hold hsame]
    split_ifs with hk
    · rw [fenceAt_eq hU hold hk, fenceOf, fenceOf, hstatus, hkeep, hhash, hclaimed]
      exact .started hcall hold hid hk
    · exact .same _
  | @complete old step res hquiet hcall hold hsame hstarted hstatus hkeep =>
    rw [fenceAt_replace hU hold hsame]
    split_ifs with hk
    · rw [fenceAt_eq hU hold hk, fenceOf, fenceOf, hstatus, hkeep, hstarted]
      exact .completed _
    · exact .same _
  | @release old step res hquiet hcall hold hsame hclaimed hstatus hkeep =>
    rw [fenceAt_replace hU hold hsame]
    split_ifs with hk
    · rw [fenceAt_eq hU hold hk, fenceOf, fenceOf, hstatus, hkeep, hclaimed]
      exact .released _
    · exact .same _
  | @reject old step input res hres hcall hold hid hhash hsame hopen hstatus hkeep =>
    rw [fenceAt_replace hU hold hsame]
    split_ifs with hk
    · rw [fenceAt_eq hU hold hk, fenceOf, fenceOf, hstatus, hkeep, hhash]
      refine .rejected hcall hold hid hk ?_
      rcases hopen with h | h <;> simp [h, phase]
    · exact .same _
  | @releaseAll reservationId res hquiet _ =>
    rw [fenceAt, fenceAt, rowAt_release hU]
    cases h : rowAt steps k with
    | none => exact .same _
    | some old =>
      rw [Option.map_some, Option.map_some, Option.map_some]
      unfold releasedRow
      split_ifs with hc
      · rw [fenceOf, fenceOf, hc.2]
        exact .released _
      · exact .same _

/-! ### Rows -/

/-- The step with an id belongs to a stage. -/
def StepAt (steps : Table MeetingProviderStepRecord) (stepId : ProviderStepId) (k : Stage) : Prop :=
  ∃ row ∈ steps, row.id = stepId ∧ stageOf row = k

variable {stepId : ProviderStepId}

theorem StepAt.unique (h : StepAt steps stepId k) {row : MeetingProviderStepRecord} (hrow : row ∈ steps)
    (hid : row.id = stepId) : stageOf row = k := by
  obtain ⟨row', hrow', hid', hk⟩ := h
  rw [Table.eq_of_key hrow hrow' (hid.trans hid'.symm), hk]

theorem stepAt_replace {old step : MeetingProviderStepRecord} (hold : old ∈ steps) (hsame : SameStage old step)
    (h : StepAt steps stepId k) : StepAt (steps.replace step) stepId k := by
  obtain ⟨row, hrow, hid, hk⟩ := h
  by_cases he : row = old
  · subst he
    exact ⟨step, (mem_replace_iff hold hsame).mpr (.inr rfl), hsame.id.trans hid, hsame.stage.trans hk⟩
  · exact ⟨row, (mem_replace_iff hold hsame).mpr (.inl ⟨hrow, he⟩), hid, hk⟩

/-- A step stays with its stage. -/
theorem stepAt_change (h : StepChange hashToken now call steps res steps') (hstep : StepAt steps stepId k) :
    StepAt steps' stepId k := by
  cases h with
  | same => exact hstep
  | claimFirst =>
    obtain ⟨row, hrow, hid, hk⟩ := hstep
    exact ⟨row, Table.mem_insert_of_mem hrow, hid, hk⟩
  | claimAgain _ _ hold hsame | start _ _ hold _ _ hsame => exact stepAt_replace hold hsame hstep
  | complete _ _ hold hsame | release _ _ hold hsame => exact stepAt_replace hold hsame hstep
  | reject _ _ hold _ _ hsame => exact stepAt_replace hold hsame hstep
  | releaseAll =>
    obtain ⟨row, hrow, hid, hk⟩ := hstep
    exact ⟨_, mem_releaseClaimedSteps.mpr ⟨row, hrow, rfl⟩,
      (sameStage_releasedRow _ _ row).id.trans hid, (sameStage_releasedRow _ _ row).stage.trans hk⟩

/-- No call makes a step for a reservation that it creates. -/
theorem newReservation_change (h : StepChange hashToken now call steps res steps') {id : ReservationId}
    (hnew : call.newReservationId? = some id) (hold : ∀ step ∈ steps, step.reservationId ≠ id) :
    ∀ step ∈ steps', step.reservationId ≠ id := by
  have hreplace : ∀ {old step : MeetingProviderStepRecord}, old ∈ steps → SameStage old step →
      ∀ x ∈ steps.replace step, x.reservationId ≠ id := by
    intro old step hmem hsame x hx
    rcases (mem_replace_iff hmem hsame).mp hx with ⟨hx, -⟩ | rfl
    · exact hold x hx
    · have hstage : x.reservationId = old.reservationId := congrArg Prod.fst hsame.stage
      rw [hstage]
      exact hold old hmem
  cases h with
  | same => exact hold
  | claimFirst _ hid =>
    cases call with
    | claim => cases hnew
    | _ => cases hid
  | claimAgain _ _ hold hsame | start _ _ hold _ _ hsame | complete _ _ hold hsame => exact hreplace hold hsame
  | release _ _ hold hsame | reject _ _ hold _ _ hsame => exact hreplace hold hsame
  | releaseAll =>
    intro x hx
    obtain ⟨old, hmem, rfl⟩ := mem_releaseClaimedSteps.mp hx
    exact fun h => hold old hmem ((congrArg Prod.fst (sameStage_releasedRow _ _ old).stage).symm.trans h)

/-! ### The ledger -/

variable (hashToken) {σ : Type} (call : Clocked σ → QuotaEvent → Clocked σ → Prop)
  (stepsOf : σ → Table MeetingProviderStepRecord)
  (reservationOf : σ → UserId → String → Option ReservationId)

/-- What a run relies on. `reservationOf` is the reservation of a user for an operation key. -/
structure FinalizerLedger : Prop where
  changes : ChangesSteps hashToken call stepsOf
  /-- A reservation is that of one operation. -/
  owner : ∀ {s userId operationKey userId' operationKey' id},
    reservationOf s userId operationKey = some id → reservationOf s userId' operationKey' = some id →
      userId = userId' ∧ operationKey = operationKey'
  /-- It is created once. -/
  keep : ∀ {s e t userId operationKey id}, call s e t →
    reservationOf s.store userId operationKey = some id →
      reservationOf t.store userId operationKey = some id
  reserve : ∀ {s e t userId input newId res}, call s e t →
    e.call = .reserveFinalization userId input newId → e.result = .ok res →
      ∃ r, res = .reservation r ∧ reservationOf t.store userId input.operationKey = some r.id
  /-- No step belongs to a reservation that is created. -/
  created : ∀ {s e t userId operationKey id}, call s e t →
    reservationOf s.store userId operationKey = none →
      reservationOf t.store userId operationKey = some id →
        ∀ step ∈ stepsOf t.store, step.reservationId ≠ id
  claim : ∀ {s e t userId input newId token res}, call s e t →
    e.call = .claim userId input newId token → e.result = .ok res →
      ∃ r, res = .claim r ∧ stageKeyOf input.stage = .ok r.step.stageKey ∧
        r.step.reservationId = input.reservationId ∧
        StepAt (stepsOf t.store) r.step.id (r.step.reservationId, r.step.stageKey) ∧
        ∀ claimToken, r.outcome = .claimed → r.claimToken = some claimToken → claimToken = token
  complete : ∀ {s e t userId input r}, call s e t → e.call = .complete userId input →
    e.result = .ok (.transition r) → r.outcome = .completed →
      ∃ step ∈ stepsOf t.store, step.id = input.stepId ∧ step.status = .completed
  reconcile : ∀ {s e t userId input r}, call s e t → e.call = .reconcile userId input →
    e.result = .ok (.transition r) → r.outcome = .completed →
      ∃ step ∈ stepsOf t.store, step.reservationId = input.reservationId ∧
        stageKeyOf input.stage = .ok step.stageKey ∧ step.status = .completed

/-- The calls of a backend with a table of reservations are a ledger. -/
theorem finalizerLedger_of_calls {reservationsOf : σ → Table MeetingProcessingReservationRecord}
    (changes : ChangesSteps hashToken call stepsOf)
    (fresh : ∀ {s e t}, call s e t → FreshIds (reservationsOf s.store) (stepsOf s.store) e.call)
    (ok : ∀ {s e t res}, call s e t → e.result = .ok res →
      ReservationChange e.call (reservationsOf s.store) (reservationsOf t.store))
    (error : ∀ {s e t err}, call s e t → e.result = .error err →
      reservationsOf t.store = reservationsOf s.store)
    (reserve : ∀ {s e t userId input newId res}, call s e t →
      e.call = .reserveFinalization userId input newId → e.result = .ok res →
        ∃ r, res = .reservation r ∧
          reservationFor (reservationsOf t.store) userId input.operationKey = some r.id)
    (claim : ∀ {s e t userId input newId token res}, call s e t →
      e.call = .claim userId input newId token → e.result = .ok res →
        ∃ r, res = .claim r ∧ stageKeyOf input.stage = .ok r.step.stageKey ∧
          r.step.reservationId = input.reservationId ∧
          StepAt (stepsOf t.store) r.step.id (r.step.reservationId, r.step.stageKey) ∧
          ∀ claimToken, r.outcome = .claimed → r.claimToken = some claimToken → claimToken = token)
    (complete : ∀ {s e t userId input r}, call s e t → e.call = .complete userId input →
      e.result = .ok (.transition r) → r.outcome = .completed →
        ∃ step ∈ stepsOf t.store, step.id = input.stepId ∧ step.status = .completed)
    (reconcile : ∀ {s e t userId input r}, call s e t → e.call = .reconcile userId input →
      e.result = .ok (.transition r) → r.outcome = .completed →
        ∃ step ∈ stepsOf t.store, step.reservationId = input.reservationId ∧
          stageKeyOf input.stage = .ok step.stageKey ∧ step.status = .completed) :
    FinalizerLedger hashToken call stepsOf fun s => reservationFor (reservationsOf s) where
  changes
  owner := reservationFor_owner
  keep {s e t userId operationKey id} hcall hid := by
    cases hres : e.result with
    | error err => rwa [error hcall hres]
    | ok res => exact (ok hcall hres).keep (fun newId hnew => ((fresh hcall).1 newId hnew).1) hid
  reserve
  created {s e t userId operationKey id} hcall hnone hid := by
    cases hres : e.result with
    | error err =>
      rw [error hcall hres, hnone] at hid
      cases hid
    | ok res =>
      have hfresh := (fresh hcall).1
      have hnew := (ok hcall hres).of_none (fun newId hnew => (hfresh newId hnew).1) hnone hid
      exact newReservation_change (changes.ok hcall hres) hnew (hfresh id hnew).2
  claim
  complete
  reconcile

/-! ### The stages of an operation -/

/-- The user and the operation key: what a reservation is for. -/
abbrev Operation := UserId × String

/-- The step of a stage of an operation. -/
def stageFence (store : σ) (op : Operation) (stage : PaidStage) : Fence.State TokenHash :=
  (reservationOf store op.1 op.2).bind fun id => fenceAt (stepsOf store) (id, stage.key)

/-- The provider may have been paid, by the run that claimed the step with this token. -/
def PaidBy (u : TokenHash) (f : Fence.State TokenHash) : Prop :=
  f = some (.started, u) ∨ f = some (.completed, u)

theorem PaidBy.unique {u u' : TokenHash} {f : Fence.State TokenHash} (h : PaidBy u f)
    (h' : PaidBy u' f) : u = u' := by
  rcases h with h | h <;> rcases h' with h' | h' <;> rw [h] at h' <;> cases h' <;> rfl

theorem stage_key_injective {stage stage' : PaidStage} (h : stage.key = stage'.key) :
    stage = stage' := by
  cases stage <;> cases stage' <;> first | rfl | exact absurd h (by decide)

theorem stageKeyOf_ledger (stage : PaidStage) : stageKeyOf stage.ledger = .ok stage.key := by
  cases stage <;> rfl

namespace FinalizerLedger

variable {hashToken call stepsOf reservationOf}
variable (hL : FinalizerLedger hashToken call stepsOf reservationOf) {s t : Clocked σ} {q : QuotaEvent}
  (hU : StagesUnique (stepsOf s.store)) (hcall : call s q t)
include hL hcall

theorem stepAt (h : StepAt (stepsOf s.store) stepId k) : StepAt (stepsOf t.store) stepId k := by
  cases hres : q.result with
  | error err => rwa [hL.changes.error hcall hres]
  | ok res => exact stepAt_change (hL.changes.ok hcall hres) h

include hU

theorem unique : StagesUnique (stepsOf t.store) := by
  cases hres : q.result with
  | error err => rwa [hL.changes.error hcall hres]
  | ok res => exact stagesUnique_change hashToken (hL.changes.ok hcall hres) hU

/-- **A call moves the step of a stage**, or leaves it. -/
theorem stageFence_move (op : Operation) (stage : PaidStage) :
    stageFence stepsOf reservationOf t.store op stage =
        stageFence stepsOf reservationOf s.store op stage ∨
      ∃ id res, reservationOf s.store op.1 op.2 = some id ∧ q.result = .ok res ∧
        StageMove hashToken q.call res (id, stage.key) (stepsOf s.store)
          (stageFence stepsOf reservationOf s.store op stage)
          (stageFence stepsOf reservationOf t.store op stage) := by
  unfold stageFence
  cases hid : reservationOf s.store op.1 op.2 with
  | none =>
    left
    cases hid' : reservationOf t.store op.1 op.2 with
    | none => rfl
    | some id =>
      -- the reservation is created, and no step belongs to it
      have hnone := hL.created hcall hid hid'
      rw [Option.bind_some, Option.bind_none, fenceAt, rowAt_eq_none.mpr, Option.map_none]
      intro step hstep hk
      exact hnone step hstep (congrArg Prod.fst hk)
  | some id =>
    rw [hL.keep hcall hid, Option.bind_some, Option.bind_some]
    cases hres : q.result with
    | error err => exact .inl (by rw [hL.changes.error hcall hres])
    | ok res =>
      exact .inr ⟨id, res, rfl, rfl,
        stageMove_of_change (hL.changes.ok hcall hres) hU (hL.changes.fresh hcall) _⟩

variable {op : Operation}

/-- A paid step stays paid unless it is rejected. -/
theorem paid_or_reject {stage : PaidStage} {u : TokenHash}
    (h : PaidBy u (stageFence stepsOf reservationOf s.store op stage)) :
    PaidBy u (stageFence stepsOf reservationOf t.store op stage) ∨
      ∃ id input, ∃ row ∈ stepsOf s.store, reservationOf s.store op.1 op.2 = some id ∧
        q.call = .reject q.call.userId input ∧ row.id = input.stepId ∧
        stageOf row = (id, stage.key) ∧ u = hashToken input.claimToken := by
  rcases hL.stageFence_move hU hcall op stage with hsame | ⟨id, res, hid, -, hmove⟩
  · exact .inl (hsame ▸ h)
  · generalize stageFence stepsOf reservationOf s.store op stage = f at h hmove
    generalize stageFence stepsOf reservationOf t.store op stage = f' at hmove ⊢
    cases hmove with
    | same => exact .inl h
    | claimed _ _ _ hfree =>
      rcases h with h | h <;> rcases hfree _ _ h with hp | hp <;> cases hp
    | started => rcases h with h | h <;> cases h
    | completed =>
      rcases h with h | h <;> cases h
      exact .inl (.inr rfl)
    | released => rcases h with h | h <;> cases h
    | rejected hcall hrow hid' hstage hp =>
      refine .inr ⟨id, _, _, hrow, hid, hcall, hid', hstage, ?_⟩
      rcases h with h | h <;> cases h <;> rfl

/-- A step gets paid by a start. -/
theorem start_of_paid {stage : PaidStage} (h : ∀ u, ¬ PaidBy u (stageFence stepsOf reservationOf s.store op stage))
    {u : TokenHash} (h' : PaidBy u (stageFence stepsOf reservationOf t.store op stage)) :
    ∃ id input, ∃ row ∈ stepsOf s.store, reservationOf s.store op.1 op.2 = some id ∧
      q.call = .start q.call.userId input ∧ row.id = input.stepId ∧ stageOf row = (id, stage.key) ∧
      stageFence stepsOf reservationOf s.store op stage = some (.claimed, hashToken input.claimToken) := by
  rcases hL.stageFence_move hU hcall op stage with hsame | ⟨id, res, hid, -, hmove⟩
  · exact absurd (hsame ▸ h') (h u)
  · generalize stageFence stepsOf reservationOf s.store op stage = f at h hmove ⊢
    generalize stageFence stepsOf reservationOf t.store op stage = f' at hmove h'
    cases hmove with
    | same => exact absurd h' (h u)
    | claimed => rcases h' with h' | h' <;> cases h'
    | started hq hrow hid' hstage => exact ⟨id, _, _, hrow, hid, hq, hid', hstage, rfl⟩
    | completed u' => exact absurd (.inl rfl) (h u')
    | released | rejected => rcases h' with h' | h' <;> cases h'

theorem completed_stays {stage : PaidStage} {u : TokenHash}
    (h : stageFence stepsOf reservationOf s.store op stage = some (.completed, u)) :
    stageFence stepsOf reservationOf t.store op stage = some (.completed, u) := by
  rcases hL.stageFence_move hU hcall op stage with hsame | ⟨id, res, -, -, hmove⟩
  · rw [hsame, h]
  · rw [h] at hmove
    generalize stageFence stepsOf reservationOf t.store op stage = f' at hmove ⊢
    cases hmove with
    | same => rfl
    | claimed _ _ _ hfree => rcases hfree _ _ rfl with hp | hp <;> cases hp
    | rejected _ _ _ _ hp => rcases hp with hp | hp <;> cases hp

/-- The answer `started`. -/
theorem started {stage : PaidStage} {userId : UserId} {input : ProviderStepInput}
    {r : MeetingProviderStepTransitionResult} {id : ReservationId} (hid : reservationOf s.store op.1 op.2 = some id)
    (hat : StepAt (stepsOf s.store) input.stepId (id, stage.key)) (hq : q.call = .start userId input)
    (hres : q.result = .ok (.transition r)) (hr : r.outcome = .started) :
    stageFence stepsOf reservationOf s.store op stage = some (.claimed, hashToken input.claimToken) ∧
      stageFence stepsOf reservationOf t.store op stage =
        some (.started, hashToken input.claimToken) := by
  have hchange := hL.changes.ok hcall hres
  have hquiet : ¬ Quiet (.transition r) := fun h => h hr
  unfold stageFence
  rw [hL.keep hcall hid, hid, Option.bind_some, Option.bind_some]
  generalize stepsOf t.store = steps' at hchange
  cases hchange with
  | same h => exact absurd h hquiet
  | claimFirst h =>
    obtain ⟨_, h, -⟩ := h
    cases h
  | claimAgain h =>
    obtain ⟨_, h, -⟩ := h
    cases h
  | complete h | release h | releaseAll h => exact absurd h hquiet
  | reject h =>
    obtain ⟨_, h, ho⟩ := h
    cases h
    rw [hr] at ho
    cases ho
  | start _ hcall hold hid hhash hsame hclaimed _ hstatus hkeep =>
    rw [hq] at hcall
    cases hcall
    have hk := hat.unique hold hid
    rw [fenceAt_replace hU hold hsame, if_pos hk, fenceAt_eq hU hold hk, fenceOf, fenceOf, hstatus,
      hkeep, hhash, hclaimed]
    exact ⟨rfl, rfl⟩

/-- A stage whose step is completed. -/
theorem completed_of_row {stage : PaidStage} {id : ReservationId} {step : MeetingProviderStepRecord}
    (hid : reservationOf s.store op.1 op.2 = some id) (hstep : step ∈ stepsOf t.store)
    (hstage : stageOf step = (id, stage.key)) (hstatus : step.status = .completed) :
    ∃ u, stageFence stepsOf reservationOf t.store op stage = some (.completed, u) := by
  unfold stageFence
  rw [hL.keep hcall hid, Option.bind_some, fenceAt_eq (hL.unique hU hcall) hstep hstage, fenceOf,
    hstatus]
  exact ⟨_, rfl⟩

end FinalizerLedger

end OwnMinutes.Finalizer.Ledger
