import OwnMinutes.Finalizer.PaidStages

/-! # What an operation pays for

A run may do without a stage: it takes a transcript that is there, or makes a local summary. Where no run
of an operation does without a stage that another one starts (`Planned`), a run that publishes has every
paid stage in its checkpoint, and seen it completed. -/

namespace OwnMinutes.Finalizer.Plans

open OwnMinutes.Lib OwnMinutes.Lib.Keyed OwnMinutes.Lib.Runs OwnMinutes.Auth.ProcessingRoute
open OwnMinutes.Auth.Records OwnMinutes.Auth.QuotaTypes OwnMinutes.Quota.Calls
open OwnMinutes.Quota.Fencing OwnMinutes.Finalizer.Records OwnMinutes.Finalizer.Ledger
open OwnMinutes.Finalizer.Runs OwnMinutes.Finalizer.Moves OwnMinutes.Finalizer.PaidStages

variable (rules : TextRules)

/-! ### Doing without a stage -/

/-- The transcript that a run works on without a request. -/
def transcriptTaken (v : RunVars) : Option Transcript :=
  if v.config.provider = .volcano then v.preferredTranscript.filter Transcript.taken
  else some (fallbackTranscript rules)

/-- A run asks for a summary of the transcript. -/
def asksSummary (v : RunVars) (transcript : Transcript) : Bool :=
  rules.usable transcript.transcript && v.config.arkConfigured

theorem transcribe_eq (v : RunVars) : transcribe rules v =
    match transcriptTaken rules v with
    | some transcript => summarize rules v transcript
    | none => .claiming .asr := by
  unfold transcribe transcriptTaken
  split_ifs
  · rfl
  · rfl

theorem summarize_eq (v : RunVars) (transcript : Transcript) (h : v.preferredSummary = none) :
    summarize rules v transcript =
      if asksSummary rules v transcript then .claiming (.summary transcript)
      else .reservingAgain transcript (rules.buildLocalSummary transcript) := by
  unfold summarize asksSummary
  rw [h]
  cases rules.usable transcript.transcript <;> cases v.config.arkConfigured <;> rfl

/-- The stages that an operation pays for. -/
abbrev Plan := PaidStage → Bool

/-- What a run that has found its checkpoint will do without is not paid for. -/
structure Follows (plan : Plan) (v : RunVars) : Prop where
  asr : v.durableCheckpoint = none → (transcriptTaken rules v).isSome → plan .asr = false
  summary : ∀ transcript ∈ transcriptTaken rules v, v.preferredSummary = none →
    asksSummary rules v transcript = false → plan .summary = false

variable {σ : Type}

/-- The run that `prepare` makes. -/
def preparedRun (s : FinalizerState σ) (p : Preflight) (snapshot : AudioSnapshot)
    (realtime : Option Transcript) : RunVars :=
  let identity := (prepared rules p snapshot none realtime).identity
  prepared rules p snapshot (readMeetingProcessingCheckpoint identity (s.checkpoints identity)) realtime

def snapshotting? : Phase → Option Preflight
  | .snapshotting p => some p
  | _ => none

def starting? : Phase → Option (RunVars × PaidStage)
  | .processing v (.starting work _) => some (v, work.stage)
  | _ => none

/-- A step of the operation keeps to the plan: no run does without a stage that is paid for, and none
starts a stage that is not. -/
def Planned (plan : Plan) (op : Operation) (s : FinalizerState σ) : FinalizerEvent → Prop
  | .run runId (.prepare snapshot realtime) => ∀ p ∈ snapshotting? (s.runs runId),
      (p.userId, p.operationKey) = op → Follows rules plan (preparedRun rules s p snapshot realtime)
  | .run runId (.answer _ _ (.transcribed transcript)) => ∀ request ∈ waiting? (s.runs runId),
      RunVars.operation request.1 = op → asksSummary rules request.1 transcript = false →
        plan .summary = false
  | .ledger runId _ _ => ∀ start ∈ starting? (s.runs runId),
      RunVars.operation start.1 = op → plan start.2 = true
  | _ => True

instance (plan : Plan) (v : RunVars) : Decidable (Follows rules plan v) :=
  decidable_of_iff ((v.durableCheckpoint = none → (transcriptTaken rules v).isSome → plan .asr = false) ∧
      ∀ transcript ∈ transcriptTaken rules v, v.preferredSummary = none →
        asksSummary rules v transcript = false → plan .summary = false)
    ⟨fun h => ⟨h.1, h.2⟩, fun h => ⟨h.asr, h.summary⟩⟩

instance decidablePlanned (plan : Plan) (op : Operation) (s : FinalizerState σ) :
    DecidablePred (Planned rules plan op s)
  | .run runId (.prepare snapshot realtime) => inferInstanceAs (Decidable (
      ∀ p ∈ snapshotting? (s.runs runId), (p.userId, p.operationKey) = op →
        Follows rules plan (preparedRun rules s p snapshot realtime)))
  | .run runId (.answer _ _ (.transcribed transcript)) => inferInstanceAs (Decidable (
      ∀ request ∈ waiting? (s.runs runId), RunVars.operation request.1 = op →
        asksSummary rules request.1 transcript = false → plan .summary = false))
  | .ledger runId _ _ => inferInstanceAs (Decidable (
      ∀ start ∈ starting? (s.runs runId), RunVars.operation start.1 = op → plan start.2 = true))
  | .run _ (.answer _ _ (.summarized _)) | .run _ (.answer _ _ (.rejected _ _))
  | .run _ (.answer _ _ (.unknown _ _)) | .run _ (.begin _ _ _) | .run _ (.send _ _)
  | .run _ .saveCheckpoint | .run _ (.saveResult _) | .run _ (.raise _) | .run _ .crash
  | .other _ => .isTrue trivial

/-! ### The invariant of a plan -/

/-- The stage is in the checkpoint of the run. -/
def Saved (v : RunVars) (stage : PaidStage) : Prop :=
  ∃ c ∈ v.durableCheckpoint, stage ∈ c.providerStages

/-- What a run of the operation has in its checkpoint, by its position. -/
def PositionOk (plan : Plan) (v : RunVars) : Position → Prop
  | .reserving | .reconciling _ => Follows rules plan v ∧
      (v.durableCheckpoint.isSome → (transcriptTaken rules v).isSome)
  | .claiming .asr | .starting .asr _ | .sending .asr | .waiting .asr => v.preferredSummary = none
  | .claiming (.summary _) | .starting (.summary _) _ | .sending (.summary _) | .waiting (.summary _)
  | .saving (.summary _ _) => plan .asr = true → Saved v .asr
  | .saving (.asr transcript) => v.preferredSummary = none ∧
      (asksSummary rules v transcript = false → plan .summary = false)
  | .completing (.asr transcript) => v.preferredSummary = none ∧ Saved v .asr ∧
      (asksSummary rules v transcript = false → plan .summary = false)
  | .completing (.summary _ _) | .reservingAgain _ _ | .savingResult _ _ _ =>
    ∀ stage, plan stage = true → Saved v stage
  | _ => True

structure PlanOk (plan : Plan) (v : RunVars) (position : Position) : Prop where
  asr : ∀ c ∈ v.durableCheckpoint, plan .asr = true → PaidStage.asr ∈ c.providerStages
  summary : v.preferredSummary.isSome → Saved v .summary
  position : PositionOk rules plan v position

variable {rules} {plan : Plan} {v : RunVars}

/-- A run with a summary has one in its checkpoint; otherwise it keeps to the plan. -/
theorem positionOk_summarize {transcript : Transcript} (hasr : plan .asr = true → Saved v .asr)
    (hsummary : v.preferredSummary.isSome → Saved v .summary)
    (hlocal : v.preferredSummary = none → asksSummary rules v transcript = false →
      plan .summary = false) : PositionOk rules plan v (summarize rules v transcript) := by
  have hall : Saved v .summary ∨ plan .summary = false → ∀ stage, plan stage = true → Saved v stage := by
    intro h stage hplan
    cases stage with
    | asr => exact hasr hplan
    | summary =>
      rcases h with h | h
      · exact h
      · rw [h] at hplan
        cases hplan
  cases hpreferred : v.preferredSummary with
  | some summary =>
    have heq : summarize rules v transcript = .reservingAgain transcript summary := by
      rw [summarize, hpreferred]
    rw [heq]
    exact hall (.inl (hsummary (by rw [hpreferred]; rfl)))
  | none =>
    rw [summarize_eq rules v transcript hpreferred]
    cases hasks : asksSummary rules v transcript with
    | true => exact hasr
    | false => exact hall (.inr (hlocal hpreferred hasks))

theorem positionOk_transcribe (hasr : ∀ c ∈ v.durableCheckpoint, plan .asr = true →
      PaidStage.asr ∈ c.providerStages) (hsummary : v.preferredSummary.isSome → Saved v .summary)
    (htaken : v.durableCheckpoint.isSome → (transcriptTaken rules v).isSome)
    (hfollows : Follows rules plan v) : PositionOk rules plan v (transcribe rules v) := by
  rw [transcribe_eq]
  cases htranscript : transcriptTaken rules v with
  | some transcript =>
    refine positionOk_summarize (fun hplan => ?_) hsummary (hfollows.summary transcript htranscript)
    cases hdurable : v.durableCheckpoint with
    | some c => exact ⟨c, hdurable, hasr c hdurable hplan⟩
    | none =>
      have hnot := hfollows.asr hdurable (by rw [htranscript]; rfl)
      rw [hnot] at hplan
      cases hplan
  | none =>
    -- without a checkpoint there is no summary either
    rw [htranscript] at htaken
    cases hpreferred : v.preferredSummary with
    | none => exact hpreferred
    | some summary =>
      obtain ⟨c, hc, -⟩ := hsummary (by rw [hpreferred]; rfl)
      rw [Option.mem_def] at hc
      rw [hc] at htaken
      cases htaken rfl

theorem positionOk_reconcile (h : PlanOk rules plan v .reserving) (stages : List PaidStage) :
    PositionOk rules plan v (reconcile rules v stages) := by
  cases stages with
  | nil => exact positionOk_transcribe h.asr h.summary h.position.2 h.position.1
  | cons stage stages => exact h.position

theorem positionOk_of_closing {position : Position} (h : Position.closing position) :
    PositionOk rules plan v position := by
  cases position with
  | releasingStep | discarding | releasing => trivial
  | _ => cases h

variable (hashToken : ClaimToken → TokenHash) {call : Clocked σ → QuotaEvent → Clocked σ → Prop}
  (stepsOf : σ → Table MeetingProviderStepRecord)
  (reservationOf : σ → UserId → String → Option ReservationId)

variable (rules) (plan) in
structure PlanInv (op : Operation) (s : FinalizerState σ) : Prop where
  runs : ∀ {runId v position}, s.runs runId = .processing v position → RunVars.operation v = op →
    PlanOk rules plan v position
  checkpoints : ∀ {identity c}, s.checkpoints identity = some c → operationOf identity = op →
    (plan .asr = true → PaidStage.asr ∈ c.providerStages) ∧
      (c.summary.isSome → PaidStage.summary ∈ c.providerStages)
  unpaid : ∀ {stage}, plan stage = false → ∀ u,
    ¬ PaidBy u (stageFence stepsOf reservationOf s.ledger.store op stage)

section Steps

variable {hashToken stepsOf reservationOf}
variable (hL : FinalizerLedger hashToken call stepsOf reservationOf) {s t : FinalizerState σ}
  {e : FinalizerEvent} {op : Operation} (hstep : OperationStep rules hashToken call stepsOf s e t)
  (hs : FinalizerInv hashToken stepsOf reservationOf s)
  (hp : PlanInv rules plan stepsOf reservationOf op s) (hplanned : Planned rules plan op s e)
include hstep hs hp hplanned

include hL in
/-- A stage that no run starts stays unpaid. -/
theorem step_unpaid {stage : PaidStage} (hplan : plan stage = false) (u : TokenHash) :
    ¬ PaidBy u (stageFence stepsOf reservationOf t.ledger.store op stage) := by
  intro hpaid
  have hunpaid := hp.unpaid hplan
  cases e with
  | run runId c =>
    rw [(runChange_of_step hstep.1).ledger] at hpaid
    exact hunpaid u hpaid
  | ledger runId drawn q =>
    obtain ⟨⟨hq, hcall, -⟩, -⟩ := hstep
    obtain ⟨id, input, row, hrow, hid, hstart, hrowId, hstage, -⟩ :=
      hL.start_of_paid hs.unique hcall hunpaid hpaid
    rw [hstart] at hq
    obtain ⟨v, work, hphase⟩ := starting_of_start hq
    -- the step it starts is the one that it has claimed
    have hok := hs.runs hphase
    obtain ⟨id', hid', hat⟩ := hok.starting rfl
    obtain ⟨rfl, hkey⟩ := Prod.mk.inj (hstage.symm.trans (hat.unique hrow hrowId))
    obtain rfl := stage_key_injective hkey
    obtain ⟨huser, hoperation⟩ := hL.owner (hok.reserved id hid') hid
    have htrue := hplanned (v, work.stage) (by rw [hphase]; rfl) (Prod.ext huser hoperation)
    rw [hplan] at htrue
    cases htrue
  | other q =>
    obtain ⟨⟨hcall, -⟩, hforeign⟩ := hstep
    obtain ⟨id, input, row, hrow, hid, hstart, hrowId, hstage, hfence⟩ :=
      hL.start_of_paid hs.unique hcall hunpaid hpaid
    have hhash := hforeign input (by rw [hstart]; rfl) row hrow stage (congrArg Prod.snd hstage)
    rw [stageFence, hid, Option.bind_some, fenceAt_eq hs.unique hrow hstage] at hfence
    exact hhash (congrArg Prod.snd (Option.some.inj hfence))

theorem step_planOk {runId : RunId} {v' : RunVars} {position' : Position}
    (hphase' : t.runs runId = .processing v' position') (hop : RunVars.operation v' = op) :
    PlanOk rules plan v' position' := by
  rcases step_move hstep runId with ⟨hsame, -⟩ | hmove
  · exact hp.runs (hsame ▸ hphase') hop
  · rw [hphase'] at hmove
    generalize hphase : s.runs runId = phase at hmove
    cases hmove with
    | outside h => exact absurd rfl (h _ _)
    | @prepare p snapshot realtime identity durable hidentity hdurable =>
      have hfollows := hplanned p (by rw [hphase]; rfl) hop
      rw [preparedRun] at hfollows
      subst hidentity
      rw [← hdurable] at hfollows
      have hread : ∀ c ∈ durable, ∃ stored : MeetingProcessingCheckpoint,
          (plan .asr = true → PaidStage.asr ∈ stored.providerStages) ∧
          (stored.summary.isSome → PaidStage.summary ∈ stored.providerStages) ∧
          c.summary = stored.summary ∧ c.providerStages = stored.providerStages.dedup ∧
          (c.noSpeech ∨ c.transcript ≠ []) := by
        rintro c rfl
        obtain ⟨stored, hstored, -, -, hsummary, hstages, hspeech⟩ :=
          readMeetingProcessingCheckpoint_some hdurable.symm
        obtain ⟨h1, h2⟩ := hp.checkpoints hstored hop
        exact ⟨stored, h1, h2, hsummary, hstages, hspeech⟩
      refine ⟨fun c hc hplan => ?_, fun hsummary => ?_, hfollows, fun hsome => ?_⟩
      · obtain ⟨stored, hasr, -, -, hstages, -⟩ := hread c hc
        rw [hstages, List.mem_dedup]
        exact hasr hplan
      · obtain ⟨summary, hsummary⟩ := Option.isSome_iff_exists.mp hsummary
        obtain ⟨c, hc, hcsummary⟩ := Option.bind_eq_some_iff.mp hsummary
        obtain ⟨stored, -, hstored, heq, hstages, -⟩ := hread c hc
        refine ⟨c, hc, ?_⟩
        rw [hstages, List.mem_dedup]
        exact hstored (by rw [← heq, hcsummary]; rfl)
      · obtain ⟨c, hc⟩ := Option.isSome_iff_exists.mp hsome
        obtain rfl : durable = some c := hc
        obtain ⟨-, -, -, -, -, hspeech⟩ := hread c rfl
        have htaken : c.toTranscript.taken = true := by
          unfold Transcript.taken MeetingProcessingCheckpoint.toTranscript
          rcases hspeech with h | h
          · simp [h]
          · simp [h]
        have hpreferred : (prepared rules p snapshot (some c) realtime).preferredTranscript =
            some c.toTranscript := rfl
        unfold transcriptTaken
        split_ifs
        · rw [hpreferred, Option.filter_eq_some_iff.mpr ⟨rfl, htaken⟩]
          rfl
        · rfl
    | close hv hclosing =>
      rcases hv with rfl | rfl
      · have hok := hp.runs hphase hop
        exact ⟨hok.asr, hok.summary, positionOk_of_closing hclosing⟩
      · have hok := hp.runs hphase hop
        exact ⟨hok.asr, hok.summary, positionOk_of_closing hclosing⟩
    | @reserve drawn q v r =>
      have hok := hp.runs hphase hop
      have hok' : PlanOk rules plan { v with reservationId := some r.id } .reserving :=
        ⟨hok.asr, hok.summary, ⟨hok.position.1.asr, hok.position.1.summary⟩, hok.position.2⟩
      exact ⟨hok'.asr, hok'.summary, positionOk_reconcile hok' _⟩
    | reconcile =>
      have hok := hp.runs hphase hop
      exact ⟨hok.asr, hok.summary, positionOk_reconcile ⟨hok.asr, hok.summary, hok.position⟩ _⟩
    | @claim _ _ _ work =>
      have hok := hp.runs hphase hop
      refine ⟨hok.asr, hok.summary, ?_⟩
      cases work <;> exact hok.position
    | @start _ _ v work =>
      have hok := hp.runs hphase hop
      refine ⟨hok.asr, hok.summary, ?_⟩
      cases work <;> exact hok.position
    | @send _ work =>
      have hok := hp.runs hphase hop
      refine ⟨hok.asr, hok.summary, ?_⟩
      cases work <;> exact hok.position
    | @again _ work =>
      have hok := hp.runs hphase hop
      refine ⟨hok.asr, hok.summary, ?_⟩
      cases work <;> exact hok.position
    | reject =>
      have hok := hp.runs hphase hop
      exact ⟨hok.asr, hok.summary, trivial⟩
    | transcribe =>
      have hok := hp.runs hphase hop
      exact ⟨hok.asr, hok.summary, hok.position, hplanned _ (by rw [hphase]; rfl) hop⟩
    | summarize =>
      have hok := hp.runs hphase hop
      exact ⟨hok.asr, hok.summary, hok.position⟩
    | @save v output checkpoint hnext =>
      have hok := hp.runs hphase hop
      obtain ⟨-, hself, -, hkeep⟩ := nextCheckpoint_some (hs.runs hphase).identity hnext
      cases output with
      | asr transcript =>
        obtain ⟨hnone, hlocal⟩ := hok.position
        refine ⟨?_, fun hsome => ?_, hnone, ⟨checkpoint, rfl, hself⟩, hlocal⟩
        · rintro c ⟨⟩ -
          exact hself
        · rw [hnone] at hsome
          cases hsome
      | summary transcript summary =>
        have hasr : plan .asr = true → PaidStage.asr ∈ checkpoint.providerStages := by
          intro hplan
          obtain ⟨c, hc, hmem⟩ := hok.position hplan
          exact hkeep rfl c hc _ hmem
        refine ⟨?_, fun _ => ⟨checkpoint, rfl, hself⟩, fun stage hplan => ⟨checkpoint, rfl, ?_⟩⟩
        · rintro c ⟨⟩
          exact hasr
        · cases stage with
          | asr => exact hasr hplan
          | summary => exact hself
    | @complete _ _ v output =>
      have hok := hp.runs hphase hop
      refine ⟨hok.asr, hok.summary, ?_⟩
      cases output with
      | asr transcript =>
        obtain ⟨hnone, hsaved, hlocal⟩ := hok.position
        exact positionOk_summarize (fun _ => hsaved) hok.summary fun _ => hlocal
      | summary transcript summary => exact hok.position
    | reserveAgain =>
      have hok := hp.runs hphase hop
      exact ⟨hok.asr, hok.summary, hok.position⟩
    | saveResult =>
      have hok := hp.runs hphase hop
      exact ⟨hok.asr, hok.summary, trivial⟩

include hL in
theorem planInv_step : PlanInv rules plan stepsOf reservationOf op t where
  runs := step_planOk hstep hs hp hplanned
  unpaid := step_unpaid hL hstep hs hp hplanned
  checkpoints {identity c} hc hop := by
    rcases step_checkpoint hstep hc with
      hold | ⟨runId, v, output, hphase, hnext, hidentity, hphase'⟩
    · exact hp.checkpoints hold hop
    · obtain ⟨hvars, hself, -, -⟩ := nextCheckpoint_some (hs.runs hphase).identity hnext
      have hrun : RunVars.operation v = op := by
        rw [← hop, ← hidentity, hvars]
        rfl
      have hok := step_planOk hstep hs hp hplanned hphase' hrun
      refine ⟨hok.asr c rfl, fun hsome => ?_⟩
      cases output with
      | asr transcript =>
        cases hnext
        cases hsome
      | summary transcript summary => exact hself

end Steps

/-! ### What is promised -/

section Promises

variable (rules call)

/-- Before any run of a finalization. -/
structure FinalizerStart (s : FinalizerState σ) : Prop where
  unique : StagesUnique (stepsOf s.ledger.store)
  idle : ∀ runId, s.runs runId = .idle
  checkpoints : ∀ identity, s.checkpoints identity = none
  steps : ∀ step ∈ stepsOf s.ledger.store, ∀ stage : PaidStage, step.stageKey ≠ stage.key

/-- A step in which the runs of the operation keep to the plan. -/
def PlannedStep (plan : Plan) (op : Operation) (s : FinalizerState σ) (e : FinalizerEvent)
    (t : FinalizerState σ) : Prop :=
  OperationStep rules hashToken call stepsOf s e t ∧ Planned rules plan op s e

/-- What the runs that start in `s` promise of the paid stages. -/
structure PaidOnce (s : FinalizerState σ) : Prop where
  /-- A stage is requested once, and once more after each rejection, where no run repeats a request that was
  not rejected. -/
  requests : ∀ {op stage es t}, Run (SingleStep rules hashToken call stepsOf op stage) s es t →
    sends op stage es ≤ rejections op stage es + 1
  /-- Only a run with the user's own model and more than one configured attempt repeats a request, that of its
  summary. -/
  repeats : ∀ {op stage} {m : FinalizerState σ} {e}, Repeats op stage m e → stage = .summary ∧ ∃ runId v work,
    m.runs runId = .processing v (.waiting work) ∧ RunVars.operation v = op ∧ v.route = .byok ∧
      ∃ configured ∈ v.config.summaryMaxAttempts, 1 < configured
  /-- Once a checkpoint that contains it is saved, nobody requests a stage. -/
  skipped : ∀ {pre m post t identity checkpoint stage},
    Run (OperationStep rules hashToken call stepsOf) s pre m →
    Run (OperationStep rules hashToken call stepsOf) m post t →
    m.checkpoints identity = some checkpoint → stage ∈ checkpoint.providerStages →
      sends (operationOf identity) stage post = 0
  /-- A run that is past the reconciliation has its checkpoint's stages completed. -/
  settled : ∀ {es t runId v position checkpoint stage},
    Run (OperationStep rules hashToken call stepsOf) s es t →
    t.runs runId = .processing v position → v.durableCheckpoint = some checkpoint →
    stage ∈ checkpoint.providerStages → stage ∉ Position.unsettled checkpoint position →
      Completed stepsOf reservationOf t (RunVars.operation v) stage
  /-- Where the runs of an operation keep to a plan, no result is published while a stage is started, and
  each stage of an earlier checkpoint is completed then. -/
  published : ∀ {plan op pre m post t u runId generatedAt v position},
    Run (PlannedStep rules hashToken call stepsOf plan op) s pre m →
    Run (PlannedStep rules hashToken call stepsOf plan op) m post t →
    FinalizerStep rules call t (.run runId (.saveResult generatedAt)) u →
    t.runs runId = .processing v position → RunVars.operation v = op → ∀ stage,
      (∀ token, stageFence stepsOf reservationOf t.ledger.store op stage ≠ some (.started, token)) ∧
      ∀ identity checkpoint, m.checkpoints identity = some checkpoint → operationOf identity = op →
        stage ∈ checkpoint.providerStages → Completed stepsOf reservationOf t op stage

variable {rules call hashToken stepsOf reservationOf}

theorem FinalizerStart.inv {s : FinalizerState σ} (h : FinalizerStart stepsOf s) :
    FinalizerInv hashToken stepsOf reservationOf s where
  unique := h.unique
  runs {runId v position} hphase := by
    rw [h.idle runId] at hphase
    cases hphase
  tokens {runId runId' token} htoken := by
    rw [h.idle runId] at htoken
    cases htoken
  checkpoints {identity checkpoint} hcheckpoint := by
    rw [h.checkpoints identity] at hcheckpoint
    cases hcheckpoint

theorem FinalizerStart.planInv {s : FinalizerState σ} (h : FinalizerStart stepsOf s) (plan : Plan)
    (op : Operation) : PlanInv rules plan stepsOf reservationOf op s where
  runs {runId v position} hphase := by
    rw [h.idle runId] at hphase
    cases hphase
  checkpoints {identity checkpoint} hcheckpoint := by
    rw [h.checkpoints identity] at hcheckpoint
    cases hcheckpoint
  unpaid {stage} _ u hpaid := by
    have hnone : stageFence stepsOf reservationOf s.ledger.store op stage = none := by
      unfold stageFence
      cases reservationOf s.ledger.store op.1 op.2 with
      | none => rfl
      | some id =>
        rw [Option.bind_some, fenceAt, rowAt_eq_none.mpr, Option.map_none]
        exact fun step hstep hk => h.steps step hstep stage (congrArg Prod.snd hk)
    rw [hnone] at hpaid
    rcases hpaid with h | h <;> cases h

theorem planInv_run (hL : FinalizerLedger hashToken call stepsOf reservationOf)
    (hinj : Function.Injective hashToken) {op : Operation} {s t : FinalizerState σ}
    {es : List FinalizerEvent} (hrun : Run (PlannedStep rules hashToken call stepsOf plan op) s es t)
    (hs : FinalizerInv hashToken stepsOf reservationOf s)
    (hp : PlanInv rules plan stepsOf reservationOf op s) :
    FinalizerInv hashToken stepsOf reservationOf t ∧ PlanInv rules plan stepsOf reservationOf op t :=
  hrun.invariant (I := fun s => FinalizerInv hashToken stepsOf reservationOf s ∧
      PlanInv rules plan stepsOf reservationOf op s)
    (fun _ _ _ h hstep => ⟨finalizerInv_step hL hstep.1 h.1 hinj,
      planInv_step hL hstep.1 h.1 h.2 hstep.2⟩) ⟨hs, hp⟩

/-- A run that publishes has each stage unpaid or completed. -/
theorem not_started_of_saving {op : Operation} {t : FinalizerState σ} {runId : RunId} {v : RunVars}
    {transcript : Transcript} {summary : MeetingSummary} {r : MeetingProcessingReservation}
    (ht : FinalizerInv hashToken stepsOf reservationOf t)
    (hp : PlanInv rules plan stepsOf reservationOf op t)
    (hphase : t.runs runId = .processing v (.savingResult transcript summary r))
    (hop : RunVars.operation v = op) (stage : PaidStage) (token : TokenHash) :
    stageFence stepsOf reservationOf t.ledger.store op stage ≠ some (.started, token) := by
  intro hstarted
  cases hplan : plan stage with
  | false => exact hp.unpaid hplan token (.inl hstarted)
  | true =>
    obtain ⟨c, hc, hstage⟩ := (hp.runs hphase hop).position stage hplan
    rcases (ht.runs hphase).settled c hc stage hstage with hun | ⟨u, hdone⟩
    · cases hun
    · rw [hop, hstarted] at hdone
      cases hdone

/-- **Paid stages over a ledger of finalizations.** -/
theorem paidOnce_of_ledger (hL : FinalizerLedger hashToken call stepsOf reservationOf)
    (hinj : Function.Injective hashToken) {s : FinalizerState σ} (hstart : FinalizerStart stepsOf s) :
    PaidOnce rules hashToken call stepsOf reservationOf s where
  requests {op stage es t} hrun := by
    have hle : 0 + sends op stage es ≤ 0 + rejections op stage es + 1 :=
      sends_le hL hinj hstart.inv hrun (Nat.zero_le 1) fun _ => le_rfl
    omega
  repeats h := byok_of_repeats h
  skipped {pre m post t identity checkpoint stage} hpre hpost hcheckpoint hstage := by
    have hm := finalizerInv_run hL hinj hpre hstart.inv
    exact sends_of_safe hL hinj hpost hm ((hm.checkpoints hcheckpoint).2 stage hstage)
  settled {es t runId v position checkpoint stage} hrun hphase hdurable hstage hun := by
    have ht := finalizerInv_run hL hinj hrun hstart.inv
    exact ((ht.runs hphase).settled checkpoint hdurable stage hstage).resolve_left hun
  published {plan op pre m post t u runId generatedAt v position} hpre hpost hsave hphase hop stage := by
    obtain ⟨hm, hpm⟩ := planInv_run hL hinj hpre hstart.inv (hstart.planInv plan op)
    obtain ⟨ht, hpt⟩ := planInv_run hL hinj hpost hm hpm
    obtain ⟨v', transcript, summary, r, hphase'⟩ := runStep_saveResult hsave
    cases hphase.symm.trans hphase'
    have hnot := not_started_of_saving ht hpt hphase hop stage
    refine ⟨hnot, fun identity checkpoint hcheckpoint hidentity hstage => ?_⟩
    have hsafe := (hm.checkpoints hcheckpoint).2 stage hstage
    rw [hidentity] at hsafe
    have hrun := hpost.mono fun _ _ _ h => h.1
    obtain ⟨token, hpaid⟩ := (safe_run hL hinj hrun hm hsafe).paid
    rcases hpaid with h | h
    · exact absurd h (hnot token)
    · exact ⟨token, h⟩

end Promises

end OwnMinutes.Finalizer.Plans
