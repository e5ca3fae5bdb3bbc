import OwnMinutes.Finalizer.Ledger
import OwnMinutes.Finalizer.Moves

/-! # Paid stages

The runs of an operation, over a ledger that others use too. `FinalizerInv` says what the runs hold of the
ledger and of each other; a stage that a checkpoint contains is `Safe` from then on. A stage is requested
again only after the provider rejected it, or where a run repeats its request (`sends_le`), and not at all once
it is safe. -/

namespace OwnMinutes.Finalizer.PaidStages

open OwnMinutes.Lib OwnMinutes.Lib.Keyed OwnMinutes.Lib.Runs OwnMinutes.Auth.ProcessingRoute
open OwnMinutes.Auth.Records OwnMinutes.Auth.QuotaTypes OwnMinutes.Quota.Calls
open OwnMinutes.Quota.Fencing OwnMinutes.Finalizer.Records OwnMinutes.Finalizer.Ledger
open OwnMinutes.Finalizer.Runs OwnMinutes.Finalizer.Moves

/-! ### Requests -/

def operationOf (identity : CheckpointIdentity) : Operation :=
  (identity.ownerUserId, identity.operationKey)

/-- The paid request that a step sends. -/
def sent : FinalizerEvent → Option (Operation × PaidStage)
  | .run _ (.send identity stage) => some (operationOf identity, stage)
  | _ => none

/-- The paid request that is rejected in a step. -/
def rejection : FinalizerEvent → Option (Operation × PaidStage)
  | .run _ (.answer identity stage (.rejected _ _)) => some (operationOf identity, stage)
  | _ => none

def sends (op : Operation) (stage : PaidStage) (es : List FinalizerEvent) : ℕ :=
  (es.filterMap sent).count (op, stage)

def rejections (op : Operation) (stage : PaidStage) (es : List FinalizerEvent) : ℕ :=
  (es.filterMap rejection).count (op, stage)

variable {op : Operation}

theorem send_of_sent {e : FinalizerEvent} {stage : PaidStage} (h : sent e = some (op, stage)) :
    ∃ runId identity, e = .run runId (.send identity stage) ∧ operationOf identity = op := by
  unfold sent at h
  split at h
  · cases h
    exact ⟨_, _, rfl, rfl⟩
  · cases h

theorem sends_cons (op : Operation) (stage : PaidStage) (e : FinalizerEvent)
    (es : List FinalizerEvent) : sends op stage (e :: es) =
      (if sent e = some (op, stage) then 1 else 0) + sends op stage es := by
  unfold sends
  cases h : sent e with
  | none => simp [h]
  | some request => simp [h, List.count_cons, add_comm]

theorem rejections_cons (op : Operation) (stage : PaidStage) (e : FinalizerEvent)
    (es : List FinalizerEvent) : rejections op stage (e :: es) =
      (if rejection e = some (op, stage) then 1 else 0) + rejections op stage es := by
  unfold rejections
  cases h : rejection e with
  | none => simp [h]
  | some request => simp [h, List.count_cons, add_comm]

/-! ### Phases -/

def RunVars.operation (v : RunVars) : Operation := (v.userId, v.operationKey)

/-- The stage whose step a run has started and not seen completed. -/
def Position.stage? : Position → Option PaidStage
  | .sending work | .waiting work => some work.stage
  | .rejecting stage _ => some stage
  | .saving output | .completing output => some output.stage
  | _ => none

/-- The stage that a run works on, up to its checkpoint. -/
def Position.working? : Position → Option PaidStage
  | .completing _ => none
  | position => Position.stage? position

/-- The stage that a run may request, or whose rejection it has to report. -/
def Position.open? : Position → Option PaidStage
  | .sending work => some work.stage
  | .rejecting stage _ => some stage
  | _ => none

/-- The stages of its checkpoint that a run has not seen completed. -/
def Position.unsettled (checkpoint : MeetingProcessingCheckpoint) : Position → List PaidStage
  | .reserving | .releasingStep _ _ | .discarding _ _ | .releasing _ => checkpoint.providerStages
  | .reconciling stages => stages
  | .completing output => [output.stage]
  | _ => []

/-- A run is at a position of the operation that `f` maps to the stage. -/
def At (f : Position → Option PaidStage) (op : Operation) (stage : PaidStage) (phase : Phase) : Prop :=
  ∃ v position, phase = .processing v position ∧ RunVars.operation v = op ∧ f position = some stage

/-- The claim token of the step that a run works on. -/
def Phase.token? : Phase → Option ClaimToken
  | .processing v position =>
    match position with
    | .starting _ claim => some claim.claimToken
    | position => (Position.stage? position).bind fun _ => v.activeClaim.map (·.claimToken)
  | _ => none

variable {checkpoint : MeetingProcessingCheckpoint}

section Positions

variable {position : Position} {stage : PaidStage}

theorem stage?_of_working? (h : Position.working? position = some stage) :
    Position.stage? position = some stage := by
  cases position <;> first | exact h | cases h

theorem working?_of_open? (h : Position.open? position = some stage) :
    Position.working? position = some stage := by
  cases position <;> first | exact h | cases h

theorem token?_of_stage? {v : RunVars} (h : Position.stage? position = some stage) :
    Phase.token? (.processing v position) = v.activeClaim.map (·.claimToken) := by
  cases position <;> first | rfl | cases h

theorem stage?_of_closing (h : Position.closing position) : Position.stage? position = none := by
  cases position <;> first | rfl | cases h

theorem unsettled_of_closing (h : Position.closing position) :
    Position.unsettled checkpoint position = checkpoint.providerStages := by
  cases position <;> first | rfl | cases h

variable (rules : TextRules) (v : RunVars)

/-- Before its next request a run waits for a claim or publishes. -/
theorem summarize_cases (transcript : Transcript) :
    summarize rules v transcript = .claiming (.summary transcript) ∨
      ∃ summary, summarize rules v transcript = .reservingAgain transcript summary := by
  unfold summarize
  split
  · exact .inr ⟨_, rfl⟩
  · split_ifs
    · exact .inr ⟨_, rfl⟩
    · exact .inl rfl

/-- Between requests. -/
def Position.between : Position → Bool
  | .claiming _ | .reservingAgain _ _ => true
  | _ => false

theorem summarize_between (transcript : Transcript) :
    Position.between (summarize rules v transcript) := by
  rcases summarize_cases rules v transcript with h | ⟨summary, h⟩ <;> rw [h] <;> rfl

theorem transcribe_between : Position.between (transcribe rules v) := by
  unfold transcribe
  split
  · split
    · exact summarize_between rules v _
    · rfl
  · exact summarize_between rules v _

theorem completed_between (output : Output) : Position.between (completed rules v output) := by
  cases output with
  | asr transcript => exact summarize_between rules v transcript
  | summary transcript summary => rfl

variable {rules v}

theorem stage?_of_between (h : Position.between position) : Position.stage? position = none := by
  cases position <;> first | rfl | cases h

theorem unsettled_of_between (h : Position.between position) : Position.unsettled checkpoint position = [] := by
  cases position <;> first | rfl | cases h

theorem between_ne_starting (h : Position.between position) (work : Work) (claim : ProviderStepInput) :
    position ≠ .starting work claim := by
  rintro rfl
  cases h

theorem reconcile_ne_starting (stages : List PaidStage) (work : Work) (claim : ProviderStepInput) :
    reconcile rules v stages ≠ .starting work claim := by
  cases stages with
  | nil => exact between_ne_starting (transcribe_between rules v) work claim
  | cons => exact fun h => by cases h

theorem token?_of_none (hstage : Position.stage? position = none)
    (hstarting : ∀ work claim, position ≠ .starting work claim) :
    Phase.token? (.processing v position) = none := by
  cases position with
  | starting work claim => exact absurd rfl (hstarting work claim)
  | _ => first | rfl | cases hstage

theorem reconcile_stage? (stages : List PaidStage) :
    Position.stage? (reconcile rules v stages) = none := by
  cases stages with
  | nil => exact stage?_of_between (transcribe_between rules v)
  | cons => rfl

theorem reconcile_unsettled (stages : List PaidStage) :
    Position.unsettled checkpoint (reconcile rules v stages) = stages := by
  cases stages with
  | nil => exact unsettled_of_between (transcribe_between rules v)
  | cons => rfl

end Positions

/-! ### Steps of an operation -/

variable (rules : TextRules) (hashToken : ClaimToken → TokenHash) {σ : Type}
  (call : Clocked σ → QuotaEvent → Clocked σ → Prop)
  (stepsOf : σ → Table MeetingProviderStepRecord)
  (reservationOf : σ → UserId → String → Option ReservationId)

/-- A token is drawn that no run has. -/
def FreshTokens (s : FinalizerState σ) (e : QuotaEvent) : Prop :=
  ∀ token ∈ e.call.newToken?, ∀ runId, Phase.token? (s.runs runId) ≠ some token

/-- Only finalizations know the tokens of the steps of their stages. -/
def Foreign (s : FinalizerState σ) (c : QuotaCall) : Prop :=
  ∀ input ∈ c.stepInput?, ∀ step ∈ stepsOf s.ledger.store, ∀ stage : PaidStage,
    step.stageKey = stage.key → step.claimTokenHash ≠ hashToken input.claimToken

/-- A step of runs and of others; tokens are random and not passed on. -/
def OperationStep (s : FinalizerState σ) (e : FinalizerEvent) (t : FinalizerState σ) : Prop :=
  FinalizerStep rules call s e t ∧
    match e with
    | .run _ _ => True
    | .ledger _ _ e => FreshTokens s e
    | .other e => Foreign hashToken stepsOf s e.call

def waiting? : Phase → Option (RunVars × Work)
  | .processing v (.waiting work) => some (v, work)
  | _ => none

/-- The step answers a request of the stage without a definitive rejection, and the run requests the stage
again: the answer is retryable, and attempts are left. -/
def Repeats (op : Operation) (stage : PaidStage) (s : FinalizerState σ) : FinalizerEvent → Prop
  | .run runId (.answer _ _ (.unknown error retryable)) => ∃ request ∈ waiting? (s.runs runId),
      RunVars.operation request.1 = op ∧ request.2.stage = stage ∧
        triesAgain request.1 request.2 (.unknown error retryable) = true
  | _ => False

instance decidableRepeats (op : Operation) (stage : PaidStage) (s : FinalizerState σ) :
    DecidablePred (Repeats op stage s)
  | .run runId (.answer _ _ (.unknown error retryable)) => inferInstanceAs (Decidable (
      ∃ request ∈ waiting? (s.runs runId), RunVars.operation request.1 = op ∧ request.2.stage = stage ∧
        triesAgain request.1 request.2 (.unknown error retryable) = true))
  | .run _ (.answer _ _ (.summarized _)) | .run _ (.answer _ _ (.rejected _ _))
  | .run _ (.answer _ _ (.transcribed _)) | .run _ (.begin _ _ _) | .run _ (.prepare _ _) | .run _ (.send _ _)
  | .run _ .saveCheckpoint | .run _ (.saveResult _) | .run _ (.raise _) | .run _ .crash
  | .ledger _ _ _ | .other _ => .isFalse id

/-- More than one attempt is for the user's own model. -/
theorem byok_of_attempts {v : RunVars} (h : 1 < v.summaryMaxAttempts) :
    v.route = .byok ∧ ∃ configured ∈ v.config.summaryMaxAttempts, 1 < configured := by
  unfold RunVars.summaryMaxAttempts arkSummaryMaxAttempts at h
  split_ifs at h with hroute
  · refine ⟨hroute, ?_⟩
    rw [Option.orElse_eq_orElse, Option.orElse_eq_or, Option.none_or] at h
    cases hconfigured : v.config.summaryMaxAttempts with
    | none => simp [hconfigured, clampInteger] at h
    | some configured =>
      simp only [hconfigured, clampInteger] at h
      exact ⟨configured, rfl, by omega⟩
  · simp [clampInteger] at h

/-- Only a run with the user's own model and more than one configured attempt repeats a request, that of its
summary. -/
theorem byok_of_repeats {stage : PaidStage} {s : FinalizerState σ} {e : FinalizerEvent} (h : Repeats op stage s e) :
    stage = .summary ∧ ∃ runId v work,
      s.runs runId = .processing v (.waiting work) ∧ RunVars.operation v = op ∧ v.route = .byok ∧
        ∃ configured ∈ v.config.summaryMaxAttempts, 1 < configured := by
  unfold Repeats at h
  split at h
  · rename_i runId _ _ error retryable
    obtain ⟨⟨v, work⟩, hwaiting, hop, rfl, htries⟩ := h
    simp only [triesAgain, Bool.and_eq_true, beq_iff_eq, decide_eq_true_eq] at htries
    obtain ⟨⟨-, hstage⟩, hattempts⟩ := htries
    refine ⟨hstage, runId, v, work, ?_, hop, byok_of_attempts (by omega)⟩
    unfold waiting? at hwaiting
    split at hwaiting
    · rename_i hphase
      cases hwaiting
      exact hphase
    · cases hwaiting
  · exact h.elim

/-- A step in which no run repeats a request of the stage. -/
def SingleStep (op : Operation) (stage : PaidStage) (s : FinalizerState σ) (e : FinalizerEvent)
    (t : FinalizerState σ) : Prop :=
  OperationStep rules hashToken call stepsOf s e t ∧ ¬ Repeats op stage s e

/-! ### The invariant -/

def Completed (s : FinalizerState σ) (op : Operation) (stage : PaidStage) : Prop :=
  ∃ u, stageFence stepsOf reservationOf s.ledger.store op stage = some (.completed, u)

/-- The stage is paid, and no run works on it. -/
structure Safe (s : FinalizerState σ) (op : Operation) (stage : PaidStage) : Prop where
  paid : ∃ u, PaidBy u (stageFence stepsOf reservationOf s.ledger.store op stage)
  idle : ∀ runId, ¬ At Position.working? op stage (s.runs runId)

structure RunOk (s : FinalizerState σ) (v : RunVars) (position : Position) : Prop where
  reserved : ∀ id ∈ v.reservationId, reservationOf s.ledger.store v.userId v.operationKey = some id
  starting : ∀ {work claim}, position = .starting work claim → ∃ id ∈ v.reservationId,
    StepAt (stepsOf s.ledger.store) claim.stepId (id, work.stage.key)
  working : ∀ stage ∈ Position.stage? position, ∃ id ∈ v.reservationId, ∃ claim ∈ v.activeClaim,
    StepAt (stepsOf s.ledger.store) claim.stepId (id, stage.key) ∧
      PaidBy (hashToken claim.claimToken)
        (stageFence stepsOf reservationOf s.ledger.store (RunVars.operation v) stage)
  identity : ∀ c ∈ v.durableCheckpoint, c.toCheckpointIdentity = v.identity
  safe : ∀ c ∈ v.durableCheckpoint, ∀ stage ∈ c.providerStages,
    Safe stepsOf reservationOf s (RunVars.operation v) stage
  settled : ∀ c ∈ v.durableCheckpoint, ∀ stage ∈ c.providerStages,
    stage ∈ Position.unsettled c position ∨
      Completed stepsOf reservationOf s (RunVars.operation v) stage

structure FinalizerInv (s : FinalizerState σ) : Prop where
  unique : StagesUnique (stepsOf s.ledger.store)
  runs : ∀ {runId v position}, s.runs runId = .processing v position →
    RunOk hashToken stepsOf reservationOf s v position
  tokens : ∀ {runId runId' token}, Phase.token? (s.runs runId) = some token →
    Phase.token? (s.runs runId') = some token → runId = runId'
  checkpoints : ∀ {identity checkpoint}, s.checkpoints identity = some checkpoint →
    checkpoint.toCheckpointIdentity = identity ∧ ∀ stage ∈ checkpoint.providerStages,
      Safe stepsOf reservationOf s (operationOf identity) stage

/-- A stage may be requested: it is not paid, or a run is about to request it or to report its
rejection. -/
def MayRequest (s : FinalizerState σ) (op : Operation) (stage : PaidStage) : Prop :=
  (∀ u, ¬ PaidBy u (stageFence stepsOf reservationOf s.ledger.store op stage)) ∨
    ∃ runId, At Position.open? op stage (s.runs runId)

section Steps

variable {rules hashToken call stepsOf reservationOf}
variable (hL : FinalizerLedger hashToken call stepsOf reservationOf) {s t : FinalizerState σ}
  {e : FinalizerEvent} (hstep : OperationStep rules hashToken call stepsOf s e t)

include hstep in
/-- Each run stays where it is, or moves. -/
theorem step_move (runId : RunId) :
    (t.runs runId = s.runs runId ∧ ∀ drawn q, e ≠ .ledger runId drawn q) ∨
      RunMove rules s runId e (s.runs runId) (t.runs runId) := by
  obtain ⟨hstep, -⟩ := hstep
  cases e with
  | run other c =>
    have hchange := runChange_of_step hstep
    by_cases hother : runId = other
    · subst hother
      exact hchange.move.imp (fun h => ⟨h, fun _ _ h => by cases h⟩) id
    · exact .inl ⟨hchange.others _ hother, fun _ _ h => by cases h⟩
  | ledger other drawn q =>
    obtain ⟨hcall, -, ht⟩ := hstep
    have hruns : t.runs = Function.update s.runs other ((s.runs other).answered rules q.result) :=
      congrArg FinalizerState.runs ht
    rw [hruns]
    by_cases hother : runId = other
    · subst hother
      rw [Function.update_self]
      exact .inr (ledger_move hcall)
    · rw [Function.update_of_ne hother]
      refine .inl ⟨rfl, fun _ _ h => hother ?_⟩
      cases h
      rfl
  | other q =>
    obtain ⟨-, ht⟩ := hstep
    rw [ht]
    exact .inl ⟨rfl, fun _ _ h => by cases h⟩

variable {runId : RunId}

theorem step_call {drawn : Drawn} {q : QuotaEvent}
    (hstep : OperationStep rules hashToken call stepsOf s (.ledger runId drawn q) t) :
    call s.ledger q t.ledger := hstep.1.2.1

include hstep in
/-- The ledger stays as it is, or answers a call. -/
theorem step_ledger : t.ledger = s.ledger ∨ ∃ q, call s.ledger q t.ledger := by
  obtain ⟨hstep, -⟩ := hstep
  cases e with
  | run runId c => exact .inl (runChange_of_step hstep).ledger
  | ledger runId drawn q => exact .inr ⟨q, hstep.2.1⟩
  | other q => exact .inr ⟨q, hstep.1⟩

include hL hstep in
theorem step_reserved {userId : UserId} {operationKey : String} {id : ReservationId}
    (h : reservationOf s.ledger.store userId operationKey = some id) :
    reservationOf t.ledger.store userId operationKey = some id := by
  rcases step_ledger hstep with hsame | ⟨q, hcall⟩
  · rwa [hsame]
  · exact hL.keep hcall h

include hL hstep in
theorem step_stepAt {stepId : ProviderStepId} {k : Stage}
    (h : StepAt (stepsOf s.ledger.store) stepId k) : StepAt (stepsOf t.ledger.store) stepId k := by
  rcases step_ledger hstep with hsame | ⟨q, hcall⟩
  · rwa [hsame]
  · exact hL.stepAt hcall h

variable (hs : FinalizerInv hashToken stepsOf reservationOf s)
include hL hstep hs

theorem step_unique : StagesUnique (stepsOf t.ledger.store) := by
  rcases step_ledger hstep with hsame | ⟨q, hcall⟩
  · rw [hsame]
    exact hs.unique
  · exact hL.unique hs.unique hcall

theorem step_completed {stage : PaidStage} (h : Completed stepsOf reservationOf s op stage) :
    Completed stepsOf reservationOf t op stage := by
  obtain ⟨u, hu⟩ := h
  rcases step_ledger hstep with hsame | ⟨q, hcall⟩
  · exact ⟨u, by rw [hsame, hu]⟩
  · exact ⟨u, hL.completed_stays hs.unique hcall hu⟩

/-- **A paid stage stays paid** unless the run that paid it reports that it was rejected. -/
theorem step_paid {stage : PaidStage} {u : TokenHash}
    (h : PaidBy u (stageFence stepsOf reservationOf s.ledger.store op stage)) :
    PaidBy u (stageFence stepsOf reservationOf t.ledger.store op stage) ∨
      ∃ runId drawn q v error claim, e = .ledger runId drawn q ∧
        s.runs runId = .processing v (.rejecting stage error) ∧ RunVars.operation v = op ∧
        v.activeClaim = some claim ∧ u = hashToken claim.claimToken := by
  cases e with
  | run runId c =>
    rw [(runChange_of_step hstep.1).ledger]
    exact .inl h
  | ledger runId drawn q =>
    obtain ⟨⟨hq, hcall, -⟩, -⟩ := hstep
    refine (hL.paid_or_reject hs.unique hcall h).imp id ?_
    rintro ⟨id, input, row, hrow, hid, hreject, hrowId, hstage, rfl⟩
    rw [hreject] at hq
    obtain ⟨v, stage', error, hphase, hclaim⟩ := rejecting_of_reject hq
    -- the step it rejects is the one it works on
    have hok := hs.runs hphase
    obtain ⟨id', hid', claim, hclaim', hat, -⟩ := hok.working stage' rfl
    cases hclaim.symm.trans hclaim'
    obtain ⟨rfl, hkey⟩ := Prod.mk.inj (hstage.symm.trans (hat.unique hrow hrowId))
    obtain rfl := stage_key_injective hkey
    obtain ⟨huser, hoperation⟩ := hL.owner (hok.reserved id hid') hid
    exact ⟨runId, drawn, q, v, error, input, rfl, hphase, Prod.ext huser hoperation, hclaim, rfl⟩
  | other q =>
    obtain ⟨⟨hcall, -⟩, hforeign⟩ := hstep
    refine (hL.paid_or_reject hs.unique hcall h).imp id ?_
    rintro ⟨id, input, row, hrow, hid, hreject, hrowId, hstage, rfl⟩
    -- others do not know the token of the step
    have hhash := hforeign input (by rw [hreject]; rfl) row hrow stage (congrArg Prod.snd hstage)
    refine absurd ?_ hhash
    have hfence : stageFence stepsOf reservationOf s.ledger.store op stage = some (fenceOf row) := by
      rw [stageFence, hid, Option.bind_some, fenceAt_eq hs.unique hrow hstage]
    rw [hfence] at h
    rcases h with h | h <;> exact congrArg Prod.snd (Option.some.inj h)

/-- A run starts to work on a stage that is claimed. -/
theorem step_working {stage : PaidStage} (h : At Position.working? op stage (t.runs runId)) :
    At Position.working? op stage (s.runs runId) ∨
      ∃ u, stageFence stepsOf reservationOf s.ledger.store op stage = some (.claimed, u) := by
  obtain ⟨v', position', hphase', rfl, hworking⟩ := h
  rcases step_move hstep runId with ⟨hsame, -⟩ | hmove
  · exact .inl ⟨v', position', hsame ▸ hphase', rfl, hworking⟩
  · rw [hphase'] at hmove
    have hstage := stage?_of_working? hworking
    generalize hphase : s.runs runId = phase at hmove ⊢
    cases hmove with
    | outside h => exact absurd rfl (h _ _)
    | prepare => cases hstage
    | close _ hclosing => rw [stage?_of_closing hclosing] at hstage; cases hstage
    | reserve | reconcile => rw [reconcile_stage?] at hstage; cases hstage
    | claim => cases hstage
    | @start drawn q v work claim r hcall hres hr =>
      cases hworking
      obtain ⟨id, hid, hat⟩ := (hs.runs hphase).starting rfl
      exact .inr ⟨_, (hL.started hs.unique (step_call hstep) ((hs.runs hphase).reserved id hid) hat
        hcall hres hr).1⟩
    | send | again | reject | transcribe | summarize => exact .inl ⟨_, _, rfl, rfl, hworking⟩
    | save => cases hworking
    | complete => rw [stage?_of_between (completed_between rules _ _)] at hstage; cases hstage
    | reserveAgain | saveResult => cases hstage

/-- **A safe stage stays safe.** -/
theorem step_safe {stage : PaidStage} (h : Safe stepsOf reservationOf s op stage) :
    Safe stepsOf reservationOf t op stage := by
  obtain ⟨⟨u, hpaid⟩, hidle⟩ := h
  constructor
  · rcases step_paid hL hstep hs hpaid with hkept | ⟨runId, -, -, v, error, -, -, hphase, hop, -⟩
    · exact ⟨u, hkept⟩
    · exact absurd ⟨v, _, hphase, hop, rfl⟩ (hidle runId)
  · intro runId hat
    rcases step_working hL hstep hs hat with hat | ⟨u', hclaimed⟩
    · exact hidle runId hat
    · rw [hclaimed] at hpaid
      rcases hpaid with h | h <;> cases h

omit hs in
/-- A token is known already, or drawn by a claim. -/
theorem step_token {token : ClaimToken} (h : Phase.token? (t.runs runId) = some token) :
    Phase.token? (s.runs runId) = some token ∨
      ∃ drawn q, e = .ledger runId drawn q ∧ q.call.newToken? = some token := by
  rcases step_move hstep runId with ⟨hsame, -⟩ | hmove
  · exact .inl (hsame ▸ h)
  · generalize hphase : s.runs runId = phase at hmove ⊢
    generalize t.runs runId = phase' at hmove h
    have hnone : ∀ {v position}, Position.stage? position = none →
        (∀ work claim, position ≠ .starting work claim) →
          Phase.token? (.processing v position) ≠ some token := by
      intro v position hstage hstarting htoken
      rw [token?_of_none hstage hstarting] at htoken
      cases htoken
    cases hmove with
    | outside hout =>
      cases phase' with
      | processing v position => exact absurd rfl (hout v position)
      | _ => cases h
    | prepare => cases h
    | close _ hclosing =>
      refine absurd h (hnone (stage?_of_closing hclosing) fun _ _ hpos => ?_)
      rw [hpos] at hclosing
      cases hclosing
    | reserve | reconcile => exact absurd h (hnone (reconcile_stage? _) (reconcile_ne_starting _))
    | @claim drawn q v work reservationId r claimToken hid hcall hres hr htoken =>
      cases h
      obtain ⟨r', hr', -, -, -, htok⟩ := hL.claim (step_call hstep) hcall hres
      cases hr'
      rw [htok claimToken hr htoken]
      exact .inr ⟨drawn, q, rfl, by rw [hcall]; rfl⟩
    | start | send | again | reject | transcribe | summarize | save => exact .inl h
    | complete =>
      have hbetween := completed_between rules
      exact absurd h (hnone (stage?_of_between (hbetween _ _)) (between_ne_starting (hbetween _ _)))
    | reserveAgain | saveResult => cases h

theorem step_tokens {runId' : RunId} {token : ClaimToken} (h : Phase.token? (t.runs runId) = some token)
    (h' : Phase.token? (t.runs runId') = some token) : runId = runId' := by
  rcases step_token hL hstep h with hold | ⟨drawn, q, he, hdrawn⟩ <;>
    rcases step_token hL hstep h' with hold' | ⟨drawn', q', he', hdrawn'⟩
  · exact hs.tokens hold hold'
  · subst he'
    exact absurd hold (hstep.2 token hdrawn' runId)
  · subst he
    exact absurd hold' (hstep.2 token hdrawn runId')
  · subst he
    cases he'
    rfl

/-- The step that a run works on stays paid by it, as long as it does not call the ledger. -/
theorem working_keep (hinj : Function.Injective hashToken) {v : RunVars} {position : Position}
    (hphase : s.runs runId = .processing v position) (hquiet : ∀ drawn q, e ≠ .ledger runId drawn q) :
    ∀ stage ∈ Position.stage? position,
      ∃ id ∈ v.reservationId, ∃ claim ∈ v.activeClaim,
        StepAt (stepsOf t.ledger.store) claim.stepId (id, stage.key) ∧
          PaidBy (hashToken claim.claimToken)
            (stageFence stepsOf reservationOf t.ledger.store (RunVars.operation v) stage) := by
  intro stage hstage
  obtain ⟨id, hid, claim, hclaim, hat, hpaid⟩ := (hs.runs hphase).working stage hstage
  refine ⟨id, hid, claim, hclaim, step_stepAt hL hstep hat, ?_⟩
  rcases step_paid hL hstep hs hpaid with
    hkept | ⟨other, drawn, q, v', error, claim', he, hphase', -, hclaim', hhash⟩
  · exact hkept
  · -- whoever rejects the step has its token
    have htoken : Phase.token? (s.runs runId) = some claim.claimToken := by
      rw [hphase, token?_of_stage? hstage, hclaim]
      rfl
    have htoken' : Phase.token? (s.runs other) = some claim.claimToken := by
      rw [hphase', hinj hhash, token?_of_stage? (show Position.stage? _ = some stage from rfl), hclaim']
      rfl
    obtain rfl := hs.tokens htoken htoken'
    exact absurd he (hquiet drawn q)

/-- A run whose checkpoint and reservation stay as they are. -/
theorem run_carry {v v' : RunVars} {position position' : Position}
    (h : RunOk hashToken stepsOf reservationOf s v position) (hidentity : v'.identity = v.identity)
    (hdurable : v'.durableCheckpoint = v.durableCheckpoint)
    (hreserved : v'.reservationId = v.reservationId)
    (hstarting : ∀ {work claim}, position' = .starting work claim → ∃ id ∈ v.reservationId,
      StepAt (stepsOf t.ledger.store) claim.stepId (id, work.stage.key))
    (hworking : ∀ stage ∈ Position.stage? position', ∃ id ∈ v.reservationId,
      ∃ claim ∈ v'.activeClaim, StepAt (stepsOf t.ledger.store) claim.stepId (id, stage.key) ∧
        PaidBy (hashToken claim.claimToken)
          (stageFence stepsOf reservationOf t.ledger.store (RunVars.operation v) stage))
    (hsettled : ∀ c ∈ v.durableCheckpoint, ∀ stage ∈ c.providerStages,
      stage ∈ Position.unsettled c position → stage ∈ Position.unsettled c position' ∨
        Completed stepsOf reservationOf t (RunVars.operation v) stage) :
    RunOk hashToken stepsOf reservationOf t v' position' := by
  have hop : RunVars.operation v' = RunVars.operation v := congrArg operationOf hidentity
  obtain ⟨huser, hkey⟩ := Prod.mk.inj hop
  constructor
  · intro id hid
    rw [hreserved] at hid
    rw [huser, hkey]
    exact step_reserved hL hstep (h.reserved id hid)
  · rwa [hreserved]
  · rwa [hreserved, hop]
  · rw [hdurable, hidentity]
    exact h.identity
  · rw [hdurable, hop]
    exact fun c hc stage hstage => step_safe hL hstep hs (h.safe c hc stage hstage)
  · rw [hdurable, hop]
    intro c hc stage hstage
    rcases h.settled c hc stage hstage with hun | hdone
    · exact hsettled c hc stage hstage hun
    · exact .inr (step_completed hL hstep hs hdone)

omit hL hstep in
/-- One run works on a stage. -/
theorem working_unique (hinj : Function.Injective hashToken) {runId' : RunId} {v v' : RunVars}
    {position position' : Position} {stage : PaidStage} (hphase : s.runs runId = .processing v position)
    (hphase' : s.runs runId' = .processing v' position') (hop : RunVars.operation v = RunVars.operation v')
    (hstage : Position.stage? position = some stage) (hstage' : Position.stage? position' = some stage) :
    runId = runId' := by
  obtain ⟨-, -, claim, hclaim, -, hpaid⟩ := (hs.runs hphase).working stage hstage
  obtain ⟨-, -, claim', hclaim', -, hpaid'⟩ := (hs.runs hphase').working stage hstage'
  have htoken : Phase.token? (s.runs runId) = some claim.claimToken := by
    rw [hphase, token?_of_stage? hstage, hclaim]
    rfl
  have htoken' : Phase.token? (s.runs runId') = some claim.claimToken := by
    rw [hop] at hpaid
    rw [hphase', token?_of_stage? hstage', hclaim', hinj (hpaid.unique hpaid')]
    rfl
  exact hs.tokens htoken htoken'

/-- The stage whose checkpoint a run saves is safe. -/
theorem saved_safe (hinj : Function.Injective hashToken) {v v' : RunVars} {output : Output}
    (hphase : s.runs runId = .processing v (.saving output))
    (hphase' : t.runs runId = .processing v' (.completing output)) (hquiet : ∀ drawn q, e ≠ .ledger runId drawn q) :
    Safe stepsOf reservationOf t (RunVars.operation v) output.stage := by
  obtain ⟨id, -, claim, hclaim, -, hpaid⟩ := working_keep hL hstep hs hinj hphase hquiet output.stage rfl
  refine ⟨⟨_, hpaid⟩, fun other hat => ?_⟩
  by_cases hother : other = runId
  · subst hother
    obtain ⟨v'', position, hphase'', -, hworking⟩ := hat
    cases hphase'.symm.trans hphase''
    cases hworking
  · rcases step_working hL hstep hs hat with ⟨v'', position, hphase'', hop, hworking⟩ | ⟨u, hclaimed⟩
    · exact hother (working_unique hs hinj hphase'' hphase hop (stage?_of_working? hworking) rfl)
    · obtain ⟨-, -, claim', -, -, hpaid'⟩ := (hs.runs hphase).working output.stage rfl
      rw [hclaimed] at hpaid'
      rcases hpaid' with h | h <;> cases h

theorem step_run (hinj : Function.Injective hashToken) {v' : RunVars} {position' : Position}
    (hphase' : t.runs runId = .processing v' position') : RunOk hashToken stepsOf reservationOf t v' position' := by
  rcases step_move hstep runId with ⟨hsame, hquiet⟩ | hmove
  · rw [hsame] at hphase'
    have hok := hs.runs hphase'
    refine run_carry hL hstep hs hok rfl rfl rfl ?_ (working_keep hL hstep hs hinj hphase' hquiet)
      fun c _ stage _ h => .inl h
    intro work claim hpos
    obtain ⟨id, hid, hat⟩ := hok.starting hpos
    exact ⟨id, hid, step_stepAt hL hstep hat⟩
  · have hphase'' := hphase'
    rw [hphase'] at hmove
    generalize hphase : s.runs runId = phase at hmove
    cases hmove with
    | outside h => exact absurd rfl (h _ _)
    | @prepare p snapshot realtime identity durable hidentity hdurable =>
      have hvars : (prepared rules p snapshot durable realtime).identity = identity := by
        rw [hidentity]
        rfl
      constructor
      · exact fun id hid => by cases hid
      · exact fun hpos => by cases hpos
      · exact fun stage hstage => by cases hstage
      · rintro c rfl
        obtain ⟨-, -, -, hc, -⟩ := readMeetingProcessingCheckpoint_some hdurable.symm
        exact hc.trans hvars.symm
      · rintro c rfl stage hstage
        obtain ⟨stored, hstored, -, -, -, hstages, -⟩ := readMeetingProcessingCheckpoint_some hdurable.symm
        rw [hstages, List.mem_dedup] at hstage
        have hsafe := step_safe hL hstep hs ((hs.checkpoints hstored).2 stage hstage)
        rwa [← hvars] at hsafe
      · exact fun c _ stage hstage => .inl hstage
    | close hv hclosing =>
      have hstage := stage?_of_closing hclosing
      have hok := hs.runs hphase
      have hnot : ∀ {work claim}, position' ≠ .starting work claim := by
        rintro work claim rfl
        cases hclosing
      have hun : ∀ c : MeetingProcessingCheckpoint, ∀ stage ∈ c.providerStages,
          stage ∈ Position.unsettled c position' := fun c stage h => by
        rwa [unsettled_of_closing hclosing]
      rcases hv with rfl | rfl
      · exact run_carry hL hstep hs hok rfl rfl rfl (fun hpos => absurd hpos hnot)
          (fun stage h => by rw [hstage] at h; cases h) fun c _ stage hc _ => .inl (hun c stage hc)
      · exact run_carry hL hstep hs hok rfl rfl rfl (fun hpos => absurd hpos hnot)
          (fun stage h => by rw [hstage] at h; cases h) fun c _ stage hc _ => .inl (hun c stage hc)
    | @reserve drawn q v r hcall hres =>
      have hok := hs.runs hphase
      obtain ⟨r', hr', hreserved⟩ := hL.reserve (step_call hstep) hcall hres
      cases hr'
      refine ⟨fun id hid => ?_, fun hpos => absurd hpos (reconcile_ne_starting _ _ _), fun stage h => ?_,
        hok.identity, fun c hc stage hstage => step_safe hL hstep hs (hok.safe c hc stage hstage),
        fun c hc stage hstage => .inl ?_⟩
      · cases hid
        exact hreserved
      · rw [reconcile_stage?] at h
        cases h
      · have hc : v.durableCheckpoint = some c := hc
        rwa [reconcile_unsettled, hc]
    | @reconcile drawn q v stage stages reservationId r hid hcall hres hr =>
      have hok := hs.runs hphase
      refine run_carry hL hstep hs hok rfl rfl rfl (fun hpos => absurd hpos (reconcile_ne_starting _ _ _))
        (fun stage h => by rw [reconcile_stage?] at h; cases h) fun c _ stage' _ hun => ?_
      rw [reconcile_unsettled]
      rcases List.mem_cons.mp hun with rfl | hun
      · obtain ⟨step, hrow, hreservation, hkey, hstatus⟩ :=
          hL.reconcile (step_call hstep) hcall hres hr
        rw [stageKeyOf_ledger] at hkey
        refine .inr (hL.completed_of_row hs.unique (step_call hstep)
          (hok.reserved reservationId hid) hrow ?_ hstatus)
        rw [stageOf, hreservation, Except.ok.inj hkey]
      · exact .inl hun
    | @claim drawn q v work reservationId r claimToken hid hcall hres hr htoken =>
      have hok := hs.runs hphase
      refine run_carry hL hstep hs hok rfl rfl rfl (fun hpos => ?_) (fun stage h => by cases h)
        fun c _ stage _ hun => .inl hun
      cases hpos
      obtain ⟨r', hr', hkey, hreservation, hat, -⟩ := hL.claim (step_call hstep) hcall hres
      cases hr'
      rw [stageKeyOf_ledger] at hkey
      rw [hreservation, ← Except.ok.inj hkey] at hat
      exact ⟨reservationId, hid, hat⟩
    | @start drawn q v work claim r hcall hres hr =>
      have hok := hs.runs hphase
      obtain ⟨id, hid, hat⟩ := hok.starting rfl
      refine run_carry hL hstep hs hok rfl rfl rfl (fun hpos => by cases hpos) (fun stage h => ?_)
        fun c _ stage _ hun => .inl hun
      cases h
      exact ⟨id, hid, claim, rfl, step_stepAt hL hstep hat, .inl (hL.started hs.unique
        (step_call hstep) (hok.reserved id hid) hat hcall hres hr).2⟩
    | send =>
      have hkeep := working_keep hL hstep hs hinj hphase fun _ _ h => by cases h
      exact run_carry hL hstep hs (hs.runs hphase) rfl rfl rfl (fun hpos => by cases hpos) hkeep
        fun c _ stage _ hun => .inl hun
    | again =>
      have hkeep := working_keep hL hstep hs hinj hphase fun _ _ h => by cases h
      exact run_carry hL hstep hs (hs.runs hphase) rfl rfl rfl (fun hpos => by cases hpos) hkeep
        fun c _ stage _ hun => .inl hun
    | reject =>
      have hkeep := working_keep hL hstep hs hinj hphase fun _ _ h => by cases h
      exact run_carry hL hstep hs (hs.runs hphase) rfl rfl rfl (fun hpos => by cases hpos) hkeep
        fun c _ stage _ hun => .inl hun
    | transcribe =>
      have hkeep := working_keep hL hstep hs hinj hphase fun _ _ h => by cases h
      exact run_carry hL hstep hs (hs.runs hphase) rfl rfl rfl (fun hpos => by cases hpos) hkeep
        fun c _ stage _ hun => .inl hun
    | summarize =>
      have hkeep := working_keep hL hstep hs hinj hphase fun _ _ h => by cases h
      exact run_carry hL hstep hs (hs.runs hphase) rfl rfl rfl (fun hpos => by cases hpos) hkeep
        fun c _ stage _ hun => .inl hun
    | @save v output checkpoint hnext =>
      have hok := hs.runs hphase
      have hquiet : ∀ drawn q, (FinalizerEvent.run runId .saveCheckpoint) ≠ .ledger runId drawn q :=
        fun _ _ h => by cases h
      obtain ⟨hidentity, -, hstages, -⟩ := nextCheckpoint_some hok.identity hnext
      have hkeep := working_keep hL hstep hs hinj hphase hquiet
      have hsafe := saved_safe hL hstep hs hinj hphase hphase'' hquiet
      refine ⟨fun id hid => step_reserved hL hstep (hok.reserved id hid),
        fun hpos => (by cases hpos), hkeep, ?_, ?_, ?_⟩
      · rintro c ⟨⟩
        exact hidentity
      · rintro c ⟨⟩ stage hstage
        rcases hstages stage hstage with rfl | ⟨last, hlast, hstage⟩
        · exact hsafe
        · exact step_safe hL hstep hs (hok.safe last hlast stage hstage)
      · rintro c ⟨⟩ stage hstage
        rcases hstages stage hstage with rfl | ⟨last, hlast, hstage⟩
        · exact .inl (List.mem_singleton_self _)
        · rcases hok.settled last hlast stage hstage with hun | hdone
          · cases hun
          · exact .inr (step_completed hL hstep hs hdone)
    | @complete drawn q v output claim r hclaim hcall hres hr =>
      have hok := hs.runs hphase
      have hbetween := completed_between rules { v with activeClaim := none } output
      refine run_carry hL hstep hs hok rfl rfl rfl (fun hpos => absurd hpos (between_ne_starting hbetween _ _))
        (fun stage h => by rw [stage?_of_between hbetween] at h; cases h) fun c _ stage _ hun => .inr ?_
      obtain rfl := List.mem_singleton.mp hun
      obtain ⟨id, hid, claim', hclaim', hat, -⟩ := hok.working output.stage rfl
      cases hclaim.symm.trans hclaim'
      obtain ⟨step, hrow, hrowId, hstatus⟩ := hL.complete (step_call hstep) hcall hres hr
      exact hL.completed_of_row hs.unique (step_call hstep) (hok.reserved id hid) hrow
        ((step_stepAt hL hstep hat).unique hrow hrowId) hstatus
    | reserveAgain =>
      exact run_carry hL hstep hs (hs.runs hphase) rfl rfl rfl (fun hpos => by cases hpos)
        (fun stage h => by cases h) fun c _ stage _ hun => .inl hun
    | saveResult =>
      exact run_carry hL hstep hs (hs.runs hphase) rfl rfl rfl (fun hpos => by cases hpos)
        (fun stage h => by cases h) fun c _ stage _ hun => .inl hun

omit hL hs in
/-- A checkpoint that is there after a step was there before, or is the one that a run has just saved. -/
theorem step_checkpoint {identity : CheckpointIdentity} (h : t.checkpoints identity = some checkpoint) :
    s.checkpoints identity = some checkpoint ∨
      ∃ runId v output, s.runs runId = .processing v (.saving output) ∧
        nextCheckpoint v output = some checkpoint ∧ checkpoint.toCheckpointIdentity = identity ∧
        t.runs runId =
          .processing { v with durableCheckpoint := some checkpoint } (.completing output) := by
  obtain ⟨hstep, -⟩ := hstep
  cases e with
  | run runId c =>
    rcases (runChange_of_step hstep).checkpoints with
      hsame | ⟨v, output, saved, hphase, hnext, hphase', hcheckpoints⟩
    · exact .inl (hsame ▸ h)
    · rw [hcheckpoints] at h
      by_cases hidentity : identity = saved.toCheckpointIdentity
      · subst hidentity
        rw [Function.update_self] at h
        cases h
        exact .inr ⟨runId, v, output, hphase, hnext, rfl, hphase'⟩
      · rw [Function.update_of_ne hidentity] at h
        exact .inl h
  | ledger runId drawn q =>
    rw [hstep.2.2] at h
    exact .inl h
  | other q =>
    rw [hstep.2] at h
    exact .inl h

/-- **The invariant is kept.** -/
theorem finalizerInv_step (hinj : Function.Injective hashToken) :
    FinalizerInv hashToken stepsOf reservationOf t where
  unique := step_unique hL hstep hs
  runs := step_run hL hstep hs hinj
  tokens := step_tokens hL hstep hs
  checkpoints {identity checkpoint} hcheckpoint := by
    rcases step_checkpoint hstep hcheckpoint with
      hold | ⟨runId, v, output, -, -, hidentity, hphase'⟩
    · obtain ⟨hidentity, hsafe⟩ := hs.checkpoints hold
      exact ⟨hidentity, fun stage hstage => step_safe hL hstep hs (hsafe stage hstage)⟩
    · have hok := step_run hL hstep hs hinj hphase'
      refine ⟨hidentity, fun stage hstage => ?_⟩
      rw [← hidentity, hok.identity checkpoint rfl]
      exact hok.safe checkpoint rfl stage hstage

/-! ### Requests of a stage -/

omit hL hs in
/-- A run that sends a request may do so. -/
theorem mayRequest_of_sent {stage : PaidStage} (hsent : sent e = some (op, stage)) :
    MayRequest stepsOf reservationOf s op stage := by
  obtain ⟨runId, identity, rfl, rfl⟩ := send_of_sent hsent
  obtain ⟨v, work, hphase, rfl, rfl, -⟩ := runStep_send hstep.1
  exact .inr ⟨runId, v, .sending work, hphase, rfl, rfl⟩

omit hL in
/-- After a request nobody may send another one. -/
theorem not_mayRequest_of_sent (hinj : Function.Injective hashToken) {stage : PaidStage}
    (hsent : sent e = some (op, stage)) : ¬ MayRequest stepsOf reservationOf t op stage := by
  obtain ⟨runId, identity, rfl, rfl⟩ := send_of_sent hsent
  obtain ⟨v, work, hphase, rfl, rfl, ht⟩ := runStep_send hstep.1
  rintro (hunpaid | ⟨other, v', position, hphase', hop, hopen⟩)
  · obtain ⟨-, -, claim, -, -, hpaid⟩ := (hs.runs hphase).working work.stage rfl
    rw [ht] at hunpaid
    exact hunpaid _ hpaid
  · rw [ht] at hphase'
    by_cases hother : other = runId
    · subst hother
      rw [s.setPhase_self] at hphase'
      cases hphase'
      cases hopen
    · rw [s.setPhase_of_ne _ hother] at hphase'
      have hstage := stage?_of_working? (working?_of_open? hopen)
      exact hother (working_unique hs hinj hphase' hphase hop hstage rfl)

/-- A stage may be requested again after a rejection, or where its run repeats the request. -/
theorem step_mayRequest {stage : PaidStage} (h : MayRequest stepsOf reservationOf t op stage) :
    MayRequest stepsOf reservationOf s op stage ∨ rejection e = some (op, stage) ∨ Repeats op stage s e := by
  rcases h with hunpaid | ⟨runId, v', position', hphase', rfl, hopen⟩
  · left
    by_cases hpaid : ∃ u, PaidBy u (stageFence stepsOf reservationOf s.ledger.store op stage)
    · obtain ⟨u, hpaid⟩ := hpaid
      rcases step_paid hL hstep hs hpaid with hkept | ⟨runId, -, -, v, error, -, -, hphase, hop, -⟩
      · exact absurd hkept (hunpaid u)
      · exact .inr ⟨runId, v, _, hphase, hop, rfl⟩
    · exact .inl fun u hu => hpaid ⟨u, hu⟩
  · rcases step_move hstep runId with ⟨hsame, -⟩ | hmove
    · exact .inl (.inr ⟨runId, v', position', hsame ▸ hphase', rfl, hopen⟩)
    · rw [hphase'] at hmove
      have hstage := stage?_of_working? (working?_of_open? hopen)
      generalize hphase : s.runs runId = phase at hmove
      cases hmove with
      | outside h => exact absurd rfl (h _ _)
      | prepare => cases hstage
      | close _ hclosing => rw [stage?_of_closing hclosing] at hstage; cases hstage
      | reserve | reconcile => rw [reconcile_stage?] at hstage; cases hstage
      | claim => cases hstage
      | @start drawn q v work claim r hcall hres hr =>
        cases hopen
        obtain ⟨id, hid, hat⟩ := (hs.runs hphase).starting rfl
        have hreserved : reservationOf s.ledger.store (RunVars.operation v).1 (RunVars.operation v).2 =
            some id := (hs.runs hphase).reserved id hid
        have hclaimed := (hL.started hs.unique (step_call hstep) hreserved hat hcall hres hr).1
        refine .inl (.inl fun u hu => ?_)
        rcases hu with h | h <;> cases hclaimed.symm.trans h
      | send => cases hopen
      | @again v work answer htries =>
        cases hopen
        cases answer with
        | transcribed | summarized => cases htries
        | rejected => exact .inr (.inl rfl)
        | unknown error retryable => exact .inr (.inr ⟨(v, work), by rw [hphase]; rfl, rfl, rfl, htries⟩)
      | reject =>
        cases hopen
        exact .inr (.inl rfl)
      | transcribe | summarize | save => cases hopen
      | complete => rw [stage?_of_between (completed_between rules _ _)] at hstage; cases hstage
      | reserveAgain | saveResult => cases hstage

omit hL hs in
/-- A safe stage is not requested. -/
theorem not_sent_of_safe {stage : PaidStage} (h : Safe stepsOf reservationOf s op stage) :
    sent e ≠ some (op, stage) := by
  intro hsent
  obtain ⟨runId, identity, rfl, rfl⟩ := send_of_sent hsent
  obtain ⟨v, work, hphase, rfl, rfl, -⟩ := runStep_send hstep.1
  exact h.idle runId ⟨v, .sending work, hphase, rfl, rfl⟩

end Steps

/-! ### Runs of an operation -/

section Operations

variable {rules hashToken call stepsOf reservationOf}
variable (hL : FinalizerLedger hashToken call stepsOf reservationOf)
  (hinj : Function.Injective hashToken) {s t : FinalizerState σ} {es : List FinalizerEvent}
  (hrun : Run (OperationStep rules hashToken call stepsOf) s es t)
  (hs : FinalizerInv hashToken stepsOf reservationOf s)
include hL hinj hrun hs

theorem finalizerInv_run : FinalizerInv hashToken stepsOf reservationOf t :=
  hrun.invariant (fun _ _ _ h hstep => finalizerInv_step hL hstep h hinj) hs

omit hrun in
/-- **A stage is requested once, and once more after each rejection**, where no run repeats a request. -/
theorem sends_le {stage : PaidStage} (hsingle : Run (SingleStep rules hashToken call stepsOf op stage) s es t) :
    ∀ {sent rejected : ℕ},
    sent ≤ rejected + 1 →
    (MayRequest stepsOf reservationOf s op stage → sent ≤ rejected) →
    sent + sends op stage es ≤ rejected + rejections op stage es + 1 := by
  induction hsingle with
  | nil => exact fun h _ => h
  | @cons s m u e es hsingle hrest ih =>
    intro sent rejected hsent hmay
    obtain ⟨hstep, hnot⟩ := hsingle
    have hm := finalizerInv_step hL hstep hs hinj
    rw [sends_cons, rejections_cons, ← add_assoc, ← add_assoc]
    by_cases he : PaidStages.sent e = some (op, stage)
    · have hle := hmay (mayRequest_of_sent hstep he)
      have hlast := not_mayRequest_of_sent hstep hs hinj he
      rw [if_pos he]
      exact ih hm (by omega) fun h => absurd h hlast
    · rw [if_neg he]
      refine ih hm (by omega) fun h => ?_
      rcases step_mayRequest hL hstep hs h with h | h | h
      · have := hmay h
        omega
      · rw [if_pos h]
        omega
      · exact absurd h hnot

theorem safe_run {stage : PaidStage} (h : Safe stepsOf reservationOf s op stage) :
    Safe stepsOf reservationOf t op stage := by
  induction hrun with
  | nil => exact h
  | cons hstep _ ih => exact ih (finalizerInv_step hL hstep hs hinj) (step_safe hL hstep hs h)

/-- **A safe stage is not requested any more.** -/
theorem sends_of_safe {stage : PaidStage} (h : Safe stepsOf reservationOf s op stage) : sends op stage es = 0 := by
  induction hrun with
  | nil => rfl
  | cons hstep hrest ih =>
    rw [sends_cons, if_neg (not_sent_of_safe hstep h), ih (finalizerInv_step hL hstep hs hinj)
      (step_safe hL hstep hs h)]

end Operations

end OwnMinutes.Finalizer.PaidStages
