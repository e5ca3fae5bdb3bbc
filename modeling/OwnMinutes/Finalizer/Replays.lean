import OwnMinutes.Finalizer.PaidStages

/-! # Replaying runs

Runs of a finalization over a backend that answers calls by `execute`, step by step. -/

namespace OwnMinutes.Finalizer.Replays

open OwnMinutes.Lib.Keyed OwnMinutes.Lib.Runs OwnMinutes.Auth.ProcessingRoute
open OwnMinutes.Auth.Records OwnMinutes.Auth.QuotaTypes OwnMinutes.Quota.Calls
open OwnMinutes.Finalizer.Records OwnMinutes.Finalizer.Runs OwnMinutes.Finalizer.Moves
open OwnMinutes.Finalizer.PaidStages

/-- What happens next: a step of a run, or its next call of the ledger. -/
inductive Move
  | run (runId : RunId) (call : RunCall)
  | ledger (runId : RunId) (drawn : Drawn) (now : Timestamp)

variable (rules : TextRules) (hashToken : ClaimToken → TokenHash) {σ : Type}
  (execute : Timestamp → QuotaCall → σ → Except AuthError QuotaResult × σ)
  (fresh : σ → QuotaCall → Prop) [∀ s call, Decidable (fresh s call)]
  (stepsOf : σ → Table MeetingProviderStepRecord)
  (ok : FinalizerState σ → FinalizerEvent → Prop) [∀ s e, Decidable (ok s e)]
  (runIds : List RunId)

/-- The state after a call of the ledger by a run. -/
def called (s : FinalizerState σ) (runId : RunId) (now : Timestamp) (call : QuotaCall) :
    FinalizerState σ :=
  let (result, store) := execute now call s.ledger.store
  { s with
    ledger := ⟨store, now⟩
    runs := Function.update s.runs runId ((s.runs runId).answered rules result) }

/-- The step that a move is; `none` where it is none, or not `ok`. The runs are among `runIds`. -/
def play (s : FinalizerState σ) : Move → Option (FinalizerEvent × FinalizerState σ)
  | .run runId call =>
    if runId ∈ runIds ∧ ok s (.run runId call) then
      (runStep rules runId call s).map fun t => (.run runId call, t)
    else none
  | .ledger runId drawn now =>
    ((s.runs runId).quotaCall drawn).bind fun call =>
      let e : FinalizerEvent := .ledger runId drawn ⟨now, call, (execute now call s.ledger.store).1⟩
      if runId ∈ runIds ∧ ok s e ∧ s.ledger.clock ≤ now ∧ fresh s.ledger.store call ∧
          ∀ token ∈ call.newToken?, ∀ other ∈ runIds, Phase.token? (s.runs other) ≠ some token then
        some (e, called rules execute s runId now call)
      else none

def playAll (s : FinalizerState σ) : List Move → Option (List FinalizerEvent × FinalizerState σ)
  | [] => some ([], s)
  | move :: moves =>
    (play rules execute fresh ok runIds s move).bind fun (e, t) =>
      (playAll t moves).map fun (es, u) => (e :: es, u)

variable {rules hashToken execute fresh stepsOf ok runIds}

/-- No run besides `runIds` has begun. -/
def OthersIdle (runIds : List RunId) (s : FinalizerState σ) : Prop :=
  ∀ runId ∉ runIds, s.runs runId = .idle

theorem step_of_play {s t : FinalizerState σ} {move : Move} {e : FinalizerEvent}
    (h : play rules execute fresh ok runIds s move = some (e, t)) (hidle : OthersIdle runIds s) :
    (OperationStep rules hashToken (CallStep execute fresh) stepsOf s e t ∧ ok s e) ∧
      OthersIdle runIds t := by
  cases move with
  | run runId call =>
    rw [play] at h
    split_ifs at h with hc
    obtain ⟨u, hstep, heq⟩ := Option.map_eq_some_iff.mp h
    cases heq
    refine ⟨⟨⟨hstep, trivial⟩, hc.2⟩, fun other hother => ?_⟩
    rw [(runChange_of_step hstep).others other fun he => hother (he ▸ hc.1)]
    exact hidle other hother
  | ledger runId drawn now =>
    obtain ⟨call, hcall, h⟩ := Option.bind_eq_some_iff.mp h
    dsimp only at h
    split_ifs at h with hc
    obtain ⟨hmem, hok, hclock, hfresh, htokens⟩ := hc
    cases h
    refine ⟨⟨⟨⟨hcall, ⟨hclock, hfresh, rfl, rfl⟩, rfl⟩, fun token htoken other => ?_⟩, hok⟩,
      fun other hother => ?_⟩
    · by_cases hother : other ∈ runIds
      · exact htokens token htoken other hother
      · rw [hidle other hother]
        exact fun h => by cases h
    · have hne : other ≠ runId := fun he => hother (he ▸ hmem)
      exact (Function.update_of_ne hne _ _).trans (hidle other hother)

/-- **A replay is a run.** -/
theorem run_of_playAll {moves : List Move} : ∀ {s t : FinalizerState σ} {es : List FinalizerEvent},
    playAll rules execute fresh ok runIds s moves = some (es, t) → OthersIdle runIds s →
      Run (fun s e t => OperationStep rules hashToken (CallStep execute fresh) stepsOf s e t ∧ ok s e)
        s es t := by
  induction moves with
  | nil =>
    intro s t es h _
    cases h
    exact Run.nil s
  | cons move moves ih =>
    intro s t es h hidle
    obtain ⟨⟨e, m⟩, hplay, h⟩ := Option.bind_eq_some_iff.mp h
    obtain ⟨⟨es', u⟩, hrest, heq⟩ := Option.map_eq_some_iff.mp h
    cases heq
    obtain ⟨hstep, hidle'⟩ := step_of_play hplay hidle
    exact Run.cons hstep (ih hrest hidle')

end OwnMinutes.Finalizer.Replays
