import Mathlib.Data.List.Dedup
import OwnMinutes.Finalizer.Runs

/-! # What a step does to a run

`RunMove` says once where the phase of a run can go, with what each way tells about the call of the
ledger and its answer (`runMove_of_step`). -/

namespace OwnMinutes.Finalizer.Moves

open OwnMinutes.Lib.Outcome OwnMinutes.Lib.Runs OwnMinutes.Auth.ProcessingRoute OwnMinutes.Auth.Records
open OwnMinutes.Auth.QuotaTypes OwnMinutes.Quota.Calls OwnMinutes.Finalization.Records
open OwnMinutes.Finalizer.Records OwnMinutes.Finalizer.Runs

/-- In the handler of an error. -/
def Position.closing : Position → Bool
  | .releasingStep _ _ | .discarding _ _ | .releasing _ => true
  | _ => false

/-- Not a run whose audio is prepared. -/
def Outside (phase : Phase) : Prop := ∀ v position, phase ≠ .processing v position

variable (rules : TextRules) {σ : Type}

/-- Where a step takes the phase of the run `runId`. -/
inductive RunMove (s : FinalizerState σ) (runId : RunId) : FinalizerEvent → Phase → Phase → Prop
  | outside {e : FinalizerEvent} {phase phase' : Phase} (h : Outside phase') :
      RunMove s runId e phase phase'
  | prepare {p : Preflight} {snapshot : AudioSnapshot} {realtime : Option Transcript}
      {identity : CheckpointIdentity} {durable : Option MeetingProcessingCheckpoint}
      (hidentity : identity = (prepared rules p snapshot none realtime).identity)
      (hdurable : durable = readMeetingProcessingCheckpoint identity (s.checkpoints identity)) :
      RunMove s runId (.run runId (.prepare snapshot realtime)) (.snapshotting p)
        (.processing (prepared rules p snapshot durable realtime) .reserving)
  | close {e : FinalizerEvent} {v v' : RunVars} {position position' : Position}
      (hv : v' = v ∨ v' = { v with activeClaim := none }) (hclosing : Position.closing position') :
      RunMove s runId e (.processing v position) (.processing v' position')
  | reserve {drawn : Drawn} {q : QuotaEvent} {v : RunVars} {r : MeetingProcessingReservation}
      (hcall : q.call = .reserveFinalization v.userId v.reserveInput drawn.newId)
      (hres : q.result = .ok (.reservation r)) :
      RunMove s runId (.ledger runId drawn q) (.processing v .reserving)
        (.processing { v with reservationId := some r.id }
          (reconcile rules { v with reservationId := some r.id }
            ((v.durableCheckpoint.map (·.providerStages)).getD [])))
  | reconcile {drawn : Drawn} {q : QuotaEvent} {v : RunVars} {stage : PaidStage}
      {stages : List PaidStage} {reservationId : ReservationId}
      {r : MeetingProviderStepTransitionResult} (hid : v.reservationId = some reservationId)
      (hcall : q.call = .reconcile v.userId { reservationId, stage := stage.ledger })
      (hres : q.result = .ok (.transition r)) (hr : r.outcome = .completed) :
      RunMove s runId (.ledger runId drawn q) (.processing v (.reconciling (stage :: stages)))
        (.processing v (Runs.reconcile rules v stages))
  | claim {drawn : Drawn} {q : QuotaEvent} {v : RunVars} {work : Work}
      {reservationId : ReservationId} {r : MeetingProviderStepClaimResult} {claimToken : ClaimToken}
      (hid : v.reservationId = some reservationId)
      (hcall : q.call = .claim v.userId { reservationId, stage := work.stage.ledger } drawn.newId
        drawn.claimToken)
      (hres : q.result = .ok (.claim r)) (hr : r.outcome = .claimed)
      (htoken : r.claimToken = some claimToken) :
      RunMove s runId (.ledger runId drawn q) (.processing v (.claiming work))
        (.processing v (.starting work { claimToken, stepId := r.step.id }))
  | start {drawn : Drawn} {q : QuotaEvent} {v : RunVars} {work : Work} {claim : ProviderStepInput}
      {r : MeetingProviderStepTransitionResult} (hcall : q.call = .start v.userId claim)
      (hres : q.result = .ok (.transition r)) (hr : r.outcome = .started) :
      RunMove s runId (.ledger runId drawn q) (.processing v (.starting work claim))
        (.processing { v with activeClaim := some claim, attempt := 0 } (.sending work))
  | send {v : RunVars} {work : Work} :
      RunMove s runId (.run runId (.send v.identity work.stage)) (.processing v (.sending work))
        (.processing v (.waiting work))
  | again {v : RunVars} {work : Work} {answer : ProviderAnswer} (htries : triesAgain v work answer = true) :
      RunMove s runId (.run runId (.answer v.identity work.stage answer)) (.processing v (.waiting work))
        (.processing { v with attempt := v.attempt + 1 } (.sending work))
  | reject {v : RunVars} {work : Work} {error : MeetingFinalizationError} {retryable : Bool} :
      RunMove s runId (.run runId (.answer v.identity work.stage (.rejected error retryable)))
        (.processing v (.waiting work)) (.processing v (.rejecting work.stage error))
  | transcribe {v : RunVars} {transcript : Transcript} (hformed : transcript.wellFormed) :
      RunMove s runId (.run runId (.answer v.identity .asr (.transcribed transcript)))
        (.processing v (.waiting .asr)) (.processing v (.saving (.asr transcript)))
  | summarize {v : RunVars} {transcript : Transcript} {summary : MeetingSummary} :
      RunMove s runId (.run runId (.answer v.identity .summary (.summarized summary)))
        (.processing v (.waiting (.summary transcript)))
        (.processing v (.saving (.summary transcript summary)))
  | save {v : RunVars} {output : Output} {checkpoint : MeetingProcessingCheckpoint}
      (hnext : nextCheckpoint v output = some checkpoint) :
      RunMove s runId (.run runId .saveCheckpoint) (.processing v (.saving output))
        (.processing { v with durableCheckpoint := some checkpoint } (.completing output))
  | complete {drawn : Drawn} {q : QuotaEvent} {v : RunVars} {output : Output}
      {claim : ProviderStepInput} {r : MeetingProviderStepTransitionResult}
      (hclaim : v.activeClaim = some claim) (hcall : q.call = .complete v.userId claim)
      (hres : q.result = .ok (.transition r)) (hr : r.outcome = .completed) :
      RunMove s runId (.ledger runId drawn q) (.processing v (.completing output))
        (.processing { v with activeClaim := none }
          (completed rules { v with activeClaim := none } output))
  | reserveAgain {drawn : Drawn} {q : QuotaEvent} {v : RunVars} {transcript : Transcript}
      {summary : MeetingSummary} {r : MeetingProcessingReservation} :
      RunMove s runId (.ledger runId drawn q) (.processing v (.reservingAgain transcript summary))
        (.processing v (.savingResult transcript summary r))
  | saveResult {generatedAt : Timestamp} {v : RunVars} {transcript : Transcript}
      {summary : MeetingSummary} {r : MeetingProcessingReservation} {result : MeetingResult} :
      RunMove s runId (.run runId (.saveResult generatedAt))
        (.processing v (.savingResult transcript summary r))
        (.processing v (.recordingUsage result r.id))

variable {rules} {s : FinalizerState σ} {runId : RunId}

theorem outside_idle : Outside .idle := fun _ _ h => by cases h

/-- The handler of an error closes the run. -/
theorem failed_move {e : FinalizerEvent} {v : RunVars} {position : Position}
    {error : MeetingFinalizationError} :
    RunMove rules s runId e (.processing v position) (failed v error) := by
  unfold failed
  split
  · exact .close (.inl rfl) rfl
  · split
    · exact .close (.inl rfl) rfl
    · exact .outside outside_idle

/-- The handler closes a run whose step is over, too. -/
theorem failed_move_none {e : FinalizerEvent} {v : RunVars} {position : Position}
    {error : MeetingFinalizationError} :
    RunMove rules s runId e (.processing v position) (failed { v with activeClaim := none } error) := by
  unfold failed
  split
  · exact .close (.inr rfl) rfl
  · split
    · exact .close (.inr rfl) rfl
    · exact .outside outside_idle

/-- The rest of the handler closes the run. -/
theorem releasing_move {e : FinalizerEvent} {v : RunVars} {position : Position}
    {error : MeetingFinalizationError} : RunMove rules s runId e (.processing v position)
      (if v.reservationId.isSome then .processing v (.releasing error) else .idle) := by
  split
  · exact .close (.inl rfl) rfl
  · exact .outside outside_idle

/-- Where a run goes with the answer of the ledger. -/
theorem ledger_move {drawn : Drawn} {q : QuotaEvent} {phase : Phase}
    (hcall : phase.quotaCall drawn = some q.call) :
    RunMove rules s runId (.ledger runId drawn q) phase (phase.answered rules q.result) := by
  obtain ⟨now, call, result⟩ := q
  cases phase with
  | idle | snapshotting => cases hcall
  | reservingExisting run =>
    refine .outside fun v position h => ?_
    simp only [Phase.answered] at h
    split at h <;> cases h
  | recordingExisting run => exact .outside outside_idle
  | processing v position =>
    -- answers that the code does not expect end in the handler of an error
    cases position with
    | reserving =>
      cases hcall
      rcases result with err | (_ | r | _ | _ | _)
      case ok.reservation => exact .reserve rfl rfl
      all_goals exact failed_move
    | reconciling stages =>
      cases stages with
      | nil => cases hcall
      | cons stage stages =>
        obtain ⟨reservationId, hid, rfl⟩ := Option.map_eq_some_iff.mp hcall
        rcases result with err | (_ | _ | _ | r | _)
        case ok.transition =>
          by_cases hr : r.outcome = .completed
          · rw [Phase.answered, if_pos hr]
            exact .reconcile hid rfl rfl hr
          · rw [Phase.answered, if_neg hr]
            exact failed_move
        all_goals exact failed_move
    | claiming work =>
      obtain ⟨reservationId, hid, rfl⟩ := Option.map_eq_some_iff.mp hcall
      rcases result with err | (_ | _ | r | _ | _)
      case ok.claim =>
        rw [Phase.answered]
        split
        · rename_i claimToken htoken
          obtain ⟨htoken, hr⟩ := Option.filter_eq_some_iff.mp htoken
          exact .claim hid rfl rfl (by simpa using hr) htoken
        · exact failed_move
      all_goals exact failed_move
    | starting work claim =>
      cases hcall
      rcases result with err | (_ | _ | _ | r | _)
      case error => exact .close (.inl rfl) rfl
      case ok.transition =>
        by_cases hr : r.outcome = .started
        · rw [Phase.answered, if_pos hr]
          exact .start rfl rfl hr
        · rw [Phase.answered, if_neg hr]
          exact .close (.inl rfl) rfl
      all_goals exact failed_move
    | rejecting stage error =>
      rcases result with err | (_ | _ | _ | r | _)
      case ok.transition =>
        by_cases hr : r.outcome = .released
        · rw [Phase.answered, if_pos hr]
          exact failed_move_none
        · rw [Phase.answered, if_neg hr]
          exact failed_move
      all_goals exact failed_move
    | completing output =>
      obtain ⟨claim, hclaim, rfl⟩ := Option.map_eq_some_iff.mp hcall
      rcases result with err | (_ | _ | _ | r | _)
      case ok.transition =>
        by_cases hr : r.outcome = .completed
        · rw [Phase.answered, if_pos hr]
          exact .complete hclaim rfl rfl hr
        · rw [Phase.answered, if_neg hr]
          exact failed_move
      all_goals exact failed_move
    | reservingAgain transcript summary =>
      rcases result with err | (_ | r | _ | _ | _)
      case ok.reservation => exact .reserveAgain
      all_goals exact failed_move
    | recordingUsage meetingResult reservationId =>
      rcases result with err | res
      · exact failed_move
      · exact .outside outside_idle
    | discarding claim error =>
      rcases result with err | (_ | _ | _ | r | _)
      case ok.transition =>
        by_cases hr : r.outcome = .completed
        · rw [Phase.answered, if_pos hr]
          exact failed_move_none
        · rw [Phase.answered, if_neg hr]
          exact releasing_move
      all_goals exact releasing_move
    | releasing error => exact .outside outside_idle
    | releasingStep claim error => exact failed_move
    | sending | waiting | saving | savingResult => cases hcall

/-- A checkpoint has the identity of its run, and the stages of the run's last one besides its own. -/
theorem nextCheckpoint_some {v : RunVars} {output : Output} {checkpoint : MeetingProcessingCheckpoint}
    (hdurable : ∀ c ∈ v.durableCheckpoint, c.toCheckpointIdentity = v.identity)
    (h : nextCheckpoint v output = some checkpoint) :
    checkpoint.toCheckpointIdentity = v.identity ∧ output.stage ∈ checkpoint.providerStages ∧
      (∀ stage ∈ checkpoint.providerStages, stage = output.stage ∨
        ∃ c ∈ v.durableCheckpoint, stage ∈ c.providerStages) ∧
      (output.stage = .summary → ∀ c ∈ v.durableCheckpoint, ∀ stage ∈ c.providerStages,
        stage ∈ checkpoint.providerStages) := by
  cases output with
  | asr transcript =>
    cases h
    refine ⟨rfl, List.mem_singleton_self _, fun stage hstage => .inl ?_, fun h => by cases h⟩
    exact List.mem_singleton.mp hstage
  | summary transcript summary =>
    obtain ⟨last, hlast, rfl⟩ := Option.map_eq_some_iff.mp h
    have hstages : ∀ stage, stage ∈ (last.providerStages ++ [PaidStage.summary]).dedup ↔
        stage ∈ last.providerStages ∨ stage = .summary := by simp
    have hself := (hstages .summary).mpr (.inr rfl)
    cases hv : v.durableCheckpoint with
    | some c =>
      rw [hv] at hlast
      obtain rfl : c = last := Option.some.inj hlast
      have hidentity : ({ c.toCheckpointIdentity with
          audioSha256 := v.audioSnapshot.audioSha256 } : CheckpointIdentity) = v.identity := by
        rw [hdurable c hv]
        rfl
      refine ⟨hidentity, hself, fun stage hstage => ?_, fun _ c' hc' stage hstage => ?_⟩
      · rcases (hstages stage).mp hstage with h | h
        · exact .inr ⟨c, rfl, h⟩
        · exact .inl h
      · cases hc'
        exact (hstages stage).mpr (.inl hstage)
    | none =>
      rw [hv] at hlast
      obtain ⟨preferred, -, rfl⟩ := Option.map_eq_some_iff.mp hlast
      refine ⟨rfl, hself, fun stage hstage => ?_, fun _ c' hc' => by cases hc'⟩
      rcases (hstages stage).mp hstage with h | h
      · cases h
      · exact .inl h

/-- Who reports a rejection. -/
theorem rejecting_of_reject {drawn : Drawn} {phase : Phase} {userId : UserId} {input : ProviderStepInput}
    (h : phase.quotaCall drawn = some (.reject userId input)) : ∃ v stage error,
      phase = .processing v (.rejecting stage error) ∧ v.activeClaim = some input := by
  cases phase with
  | idle | snapshotting | reservingExisting | recordingExisting => cases h
  | processing v position =>
    cases position with
    | rejecting stage error =>
      obtain ⟨claim, hclaim, h⟩ := Option.map_eq_some_iff.mp h
      cases h
      exact ⟨v, stage, error, rfl, hclaim⟩
    | reconciling stages =>
      cases stages with
      | nil => cases h
      | cons =>
        obtain ⟨_, -, h⟩ := Option.map_eq_some_iff.mp h
        cases h
    | claiming | completing | releasing =>
      obtain ⟨_, -, h⟩ := Option.map_eq_some_iff.mp h
      cases h
    | _ => cases h

/-- Who starts a step. -/
theorem starting_of_start {drawn : Drawn} {phase : Phase} {userId : UserId} {input : ProviderStepInput}
    (h : phase.quotaCall drawn = some (.start userId input)) :
    ∃ v work, phase = .processing v (.starting work input) := by
  cases phase with
  | idle | snapshotting | reservingExisting | recordingExisting => cases h
  | processing v position =>
    cases position with
    | starting work claim =>
      cases h
      exact ⟨v, work, rfl⟩
    | reconciling stages =>
      cases stages with
      | nil => cases h
      | cons =>
        obtain ⟨_, -, h⟩ := Option.map_eq_some_iff.mp h
        cases h
    | claiming | completing | releasing | rejecting =>
      obtain ⟨_, -, h⟩ := Option.map_eq_some_iff.mp h
      cases h
    | _ => cases h

variable (rules) in
/-- A step that does not call the ledger moves the phase of its run, and otherwise writes a checkpoint or a
result at most. -/
structure RunChange (s : FinalizerState σ) (runId : RunId) (call : RunCall) (t : FinalizerState σ) :
    Prop where
  ledger : t.ledger = s.ledger
  others : ∀ other, other ≠ runId → t.runs other = s.runs other
  move : t.runs runId = s.runs runId ∨
    RunMove rules s runId (.run runId call) (s.runs runId) (t.runs runId)
  checkpoints : t.checkpoints = s.checkpoints ∨ ∃ v output checkpoint,
    s.runs runId = .processing v (.saving output) ∧ nextCheckpoint v output = some checkpoint ∧
      t.runs runId = .processing { v with durableCheckpoint := some checkpoint } (.completing output) ∧
      t.checkpoints = Function.update s.checkpoints checkpoint.toCheckpointIdentity (some checkpoint)

theorem preflight_outside {input : FinalizationInput} {config : RunConfig} {reads : PreflightReads}
    {result : Option MeetingResult} {phase : Phase}
    (h : preflight input config reads result = .ok phase) : Outside phase := by
  unfold preflight at h
  dsimp only at h
  split at h
  · cases h
    exact fun v position h => by cases h
  · split_ifs at h
    all_goals
      obtain ⟨mode, -, h⟩ := bind_eq_ok.mp h
      split_ifs at h
      split at h <;> cases h <;> exact fun v position h => by cases h

/-- A step that only sets the phase of its run. -/
theorem runChange_setPhase {call : RunCall} {phase : Phase}
    (h : RunMove rules s runId (.run runId call) (s.runs runId) phase) :
    RunChange rules s runId call (s.setPhase runId phase) where
  ledger := rfl
  others other hne := s.setPhase_of_ne phase hne
  move := .inr (by rwa [s.setPhase_self])
  checkpoints := .inl rfl

theorem runChange_of_step {call : RunCall} {t : FinalizerState σ}
    (h : runStep rules runId call s = some t) : RunChange rules s runId call t := by
  have hout : ∀ {phase}, s.setPhase runId phase = t →
      RunMove rules s runId (.run runId call) (s.runs runId) phase → RunChange rules s runId call t := by
    rintro phase rfl hmove
    exact runChange_setPhase hmove
  unfold runStep at h
  split at h
  · -- `begin`
    split at h
    · cases h
      exact ⟨rfl, fun _ _ => rfl, .inl rfl, .inl rfl⟩
    · rename_i hphase
      exact hout (Option.some.inj h) (.outside (preflight_outside hphase))
  · rename_i p hp
    exact hout (Option.some.inj h) (hp ▸ .prepare rfl rfl)
  · rename_i v work hp
    split_ifs at h with hc
    obtain ⟨rfl, rfl⟩ := hc
    exact hout (Option.some.inj h) (hp ▸ .send)
  · rename_i answer v work hp
    split_ifs at h with hc
    obtain ⟨rfl, rfl⟩ := hc
    obtain ⟨phase, hphase, h⟩ := Option.map_eq_some_iff.mp h
    refine hout h (hp ▸ ?_)
    unfold providerAnswered at hphase
    split_ifs at hphase with htries
    · cases hphase
      exact .again htries
    cases answer with
    | rejected error =>
      cases hphase
      exact .reject
    | unknown error =>
      cases hphase
      exact failed_move
    | transcribed transcript =>
      rw [providerSettled] at hphase
      split_ifs at hphase with hc
      obtain ⟨rfl, hformed⟩ := hc
      cases hphase
      exact .transcribe hformed
    | summarized summary =>
      cases work with
      | asr => cases hphase
      | summary transcript =>
        cases hphase
        exact .summarize
  · rename_i v output hp
    split at h
    · exact hout (Option.some.inj h) (hp ▸ failed_move)
    · rename_i checkpoint hcheckpoint
      obtain ⟨hnext, -⟩ := Option.filter_eq_some_iff.mp hcheckpoint
      cases h
      refine ⟨rfl, fun other hne => FinalizerState.setPhase_of_ne _ _ hne, .inr ?_, .inr ?_⟩
      · rw [hp, FinalizerState.setPhase_self]
        exact .save hnext
      · exact ⟨v, output, checkpoint, hp, hnext, FinalizerState.setPhase_self _ _ _, rfl⟩
  · rename_i v transcript summary r hp
    cases h
    refine ⟨rfl, fun other hne => FinalizerState.setPhase_of_ne _ _ hne, .inr ?_, .inl rfl⟩
    rw [hp, FinalizerState.setPhase_self]
    exact .saveResult
  · exact hout (Option.some.inj h) (.outside outside_idle)
  · exact hout (Option.some.inj h) (.outside outside_idle)
  · exact hout (Option.some.inj h) (.outside outside_idle)
  · rename_i v position hp
    split at h
    all_goals first
      | exact hout (Option.some.inj h) (hp ▸ failed_move)
      | cases h
  · exact hout (Option.some.inj h) (.outside outside_idle)
  · cases h

/-! ### Steps that the results are about -/

theorem runStep_send {identity : CheckpointIdentity} {stage : PaidStage} {t : FinalizerState σ}
    (h : runStep rules runId (.send identity stage) s = some t) : ∃ v work,
      s.runs runId = .processing v (.sending work) ∧ v.identity = identity ∧ work.stage = stage ∧
        t = s.setPhase runId (.processing v (.waiting work)) := by
  unfold runStep at h
  cases hp : s.runs runId with
  | processing v position =>
    rw [hp] at h
    cases position with
    | sending work =>
      dsimp only at h
      split_ifs at h with hc
      cases h
      exact ⟨v, work, rfl, hc.1, hc.2, rfl⟩
    | _ => cases h
  | _ =>
    rw [hp] at h
    cases h

theorem runStep_saveResult {generatedAt : Timestamp} {t : FinalizerState σ}
    (h : runStep rules runId (.saveResult generatedAt) s = some t) : ∃ v transcript summary r,
      s.runs runId = .processing v (.savingResult transcript summary r) := by
  unfold runStep at h
  cases hp : s.runs runId with
  | processing v position =>
    rw [hp] at h
    cases position with
    | savingResult transcript summary r => exact ⟨v, transcript, summary, r, rfl⟩
    | _ => cases h
  | _ =>
    rw [hp] at h
    cases h

end OwnMinutes.Finalizer.Moves
