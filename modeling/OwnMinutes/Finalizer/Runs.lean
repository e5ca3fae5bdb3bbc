import Mathlib.Logic.Function.Basic
import OwnMinutes.Finalizer.Records
import OwnMinutes.Quota.Calls

/-! # Runs of a finalization

`runMeetingFinalization` as the ledger, the checkpoints and the results see it. A run goes from one call
of the ledger, one object written or one request to a provider to the next (`Phase`), and may stop after
any of them; in between other runs and other users of the ledger go on. The text of transcripts is judged
by `TextRules`; what else the code reads from outside is part of the label of a step. The projection, which
a run updates at its start and its end, is that of `Finalization.WorkerRuns`. -/

namespace OwnMinutes.Finalizer.Runs

open OwnMinutes.Lib.Keyed OwnMinutes.Lib.Runs OwnMinutes.Auth.ProcessingRoute OwnMinutes.Auth.Records
open OwnMinutes.Auth.QuotaTypes OwnMinutes.Quota.Calls OwnMinutes.Finalization.Records
open OwnMinutes.Finalizer.Records

abbrev RunId := String

/-! ### The variables of a run -/

structure FinalizationInput where
  meetingId : MeetingId
  userId : UserId
  accountMode : UserProcessingMode
  force : Bool := false
  usageOperationKey : Option String := none
  processingMode : Option UserProcessingMode := none
  deriving DecidableEq, Repr

/-- The environment of the process that runs: its transcription provider, and whether a model for
summaries is configured. -/
structure RunConfig where
  provider : Provider
  arkConfigured : Bool
  /-- `OWNMINUTES_SUMMARY_MAX_ATTEMPTS`, where it is a whole number -/
  summaryMaxAttempts : Option ℤ := none
  /-- the user's own models are configured, for runs that use them -/
  byokComplete : Bool := true
  deriving DecidableEq, Repr

/-- A result that is current already, and whose usage is recorded again. -/
structure ExistingRun where
  userId : UserId
  meetingId : MeetingId
  durationMs : ℚ
  route : MeetingProcessingRoute
  result : MeetingResult
  isReprocess : Bool
  operationKey : String
  reservationId : Option ReservationId := none
  deriving DecidableEq, Repr

/-- What the preflight leaves to the run. -/
structure Preflight where
  userId : UserId
  meetingId : MeetingId
  force : Bool
  config : RunConfig
  existingResult : Option MeetingResult
  existingResultMatchesCurrentAudio : Bool
  isReprocess : Bool
  operationKey : String
  route : MeetingProcessingRoute
  deriving DecidableEq, Repr

structure RunVars extends Preflight where
  audioSnapshot : AudioSnapshot
  durableCheckpoint : Option MeetingProcessingCheckpoint
  preferredTranscript : Option Transcript
  preferredSummary : Option MeetingSummary
  reservationId : Option ReservationId := none
  /-- The stages follow one another, so `claims` of `createProviderStepFence` has one entry at most. -/
  activeClaim : Option ProviderStepInput := none
  /-- the requests of the stage before the present one -/
  attempt : ℕ := 0
  deriving DecidableEq, Repr

def RunVars.identity (v : RunVars) : CheckpointIdentity where
  audioSha256 := v.audioSnapshot.audioSha256
  meetingId := v.meetingId
  operationKey := v.operationKey
  ownerUserId := v.userId

/-- A stage to be paid for, with the transcript it works on. -/
inductive Work
  | asr
  | summary (transcript : Transcript)
  deriving DecidableEq, Repr

def Work.stage : Work → PaidStage
  | .asr => .asr
  | .summary _ => .summary

/-- What a provider made of it. -/
inductive Output
  | asr (transcript : Transcript)
  | summary (transcript : Transcript) (summary : MeetingSummary)
  deriving DecidableEq, Repr

def Output.stage : Output → PaidStage
  | .asr _ => .asr
  | .summary _ _ => .summary

inductive Position
  | reserving
  | reconciling (stages : List PaidStage)
  /-- in `start` of the step fence -/
  | claiming (work : Work)
  | starting (work : Work) (claim : ProviderStepInput)
  | releasingStep (claim : ProviderStepInput) (error : MeetingFinalizationError)
  | sending (work : Work)
  | waiting (work : Work)
  | rejecting (stage : PaidStage) (error : MeetingFinalizationError)
  | saving (output : Output)
  | completing (output : Output)
  /-- in the publishing section -/
  | reservingAgain (transcript : Transcript) (summary : MeetingSummary)
  | savingResult (transcript : Transcript) (summary : MeetingSummary)
      (reservation : MeetingProcessingReservation)
  | recordingUsage (result : MeetingResult) (reservationId : ReservationId)
  /-- in the handler of an error -/
  | discarding (claim : ProviderStepInput) (error : MeetingFinalizationError)
  | releasing (error : MeetingFinalizationError)
  deriving DecidableEq, Repr

inductive Phase
  | idle
  | reservingExisting (run : ExistingRun)
  | recordingExisting (run : ExistingRun)
  | snapshotting (preflight : Preflight)
  | processing (vars : RunVars) (position : Position)
  deriving DecidableEq, Repr

/-- What the code makes of the texts of transcripts and results. -/
structure TextRules where
  canReuseFormalTranscript : MeetingResult → Bool
  /-- `diagnoseTranscriptQuality(transcript).status === "usable"` -/
  usable : List TranscriptSegment → Bool
  buildLocalSummary : Transcript → MeetingSummary
  buildFallbackTranscript : List TranscriptSegment

section Texts

variable (rules : TextRules)

/-! ### The preflight -/

/-- What the preflight reads besides the result: the manifest and the projection of the meeting, and the
route that is frozen for the operation. -/
structure PreflightReads where
  audio : ManifestAudio
  leaseActive : Bool
  retryingChangedAudio : Bool
  frozenRoute : Option MeetingProcessingRoute
  randomId : String
  deriving DecidableEq, Repr

def preflight (input : FinalizationInput) (config : RunConfig) (reads : PreflightReads)
    (result : Option MeetingResult) : Except MeetingFinalizationError Phase := do
  let current := isMeetingResultFreshForAudio result reads.audio
  match result.filter fun _ => !input.force && current with
  | some existing =>
    let operationKey := (existing.processingOperationKey.filter (· ≠ "")).getD
      (initialMeetingOperationKey input.meetingId)
    .ok (.recordingExisting
      { userId := input.userId
        meetingId := input.meetingId
        durationMs := reads.audio.durationMs
        route := existing.processingRoute.getD .officialQuota
        result := existing
        isReprocess :=
          ("meeting:" ++ input.meetingId ++ ":reprocess:").toList.isPrefixOf operationKey.toList
        operationKey })
  | none =>
    if !reads.audio.isSealed then .error meetingAudioNotSealed
    else if reads.leaseActive then .error processingInProgress
    else
      let revisionReprocess := result.isSome && !current || reads.retryingChangedAudio
      let operationKey := (input.usageOperationKey.filter (· ≠ "")).getD
        (if revisionReprocess then
          reprocessMeetingOperationKey input.meetingId reads.audio.audioRevision
        else if input.force then
          reprocessMeetingOperationKey input.meetingId ("legacy-" ++ reads.randomId)
        else initialMeetingOperationKey input.meetingId)
      let isReprocess := input.force || revisionReprocess
      let mode ← resolveMeetingProcessingMode input.accountMode reads.frozenRoute input.processingMode
      if mode = .byok ∧ !config.byokComplete then .error byokConfigurationIncomplete
      else
        match result.filter fun existing =>
            current && existing.processingOperationKey == some operationKey with
        | some existing =>
          .ok (.reservingExisting
            { userId := input.userId
              meetingId := input.meetingId
              durationMs := reads.audio.durationMs
              route := routeOf mode
              result := existing
              isReprocess
              operationKey })
        | none =>
          .ok (.snapshotting
            { userId := input.userId
              meetingId := input.meetingId
              force := input.force
              config
              existingResult := result
              existingResultMatchesCurrentAudio := current
              isReprocess
              operationKey
              route := routeOf mode })

/-! ### Choosing the transcript -/

/-- The transcript of the existing result, for a run that only makes a new summary. -/
def existingFormalTranscript (p : Preflight) (snapshot : AudioSnapshot) : Option Transcript :=
  (p.existingResult.filter fun result =>
    p.force && p.existingResultMatchesCurrentAudio &&
      (result.audioSha256.filter (· ≠ "")).all (· == snapshot.audioSha256) &&
      rules.canReuseFormalTranscript result).map
    fun result => { adapter := result.adapter, transcript := result.transcript }

/-- The run after its audio is prepared; `realtime` is the reusable transcript of the realtime session. -/
def prepared (p : Preflight) (snapshot : AudioSnapshot)
    (durable : Option MeetingProcessingCheckpoint) (realtime : Option Transcript) : RunVars :=
  { p with
    audioSnapshot := snapshot
    durableCheckpoint := durable
    preferredTranscript :=
      match durable with
      | some checkpoint => some checkpoint.toTranscript
      | none => existingFormalTranscript rules p snapshot <|> realtime
    preferredSummary := durable.bind (·.summary) }

/-! ### `processMeetingAudio` -/

/-- `summarizeTranscript` up to its request. -/
def summarize (v : RunVars) (transcript : Transcript) : Position :=
  match v.preferredSummary with
  | some summary => .reservingAgain transcript summary
  | none =>
    if !rules.usable transcript.transcript ∨ !v.config.arkConfigured then
      .reservingAgain transcript (rules.buildLocalSummary transcript)
    else .claiming (.summary transcript)

def fallbackTranscript : Transcript where
  adapter := "mock-file-transcriber"
  transcript := rules.buildFallbackTranscript

/-- `processMeetingAudio` up to its first request. -/
def transcribe (v : RunVars) : Position :=
  if v.config.provider = .volcano then
    match v.preferredTranscript.filter Transcript.taken with
    | some transcript => summarize rules v transcript
    | none => .claiming .asr
  else summarize rules v (fallbackTranscript rules)

/-- The loop over the stages of the durable checkpoint. -/
def reconcile (v : RunVars) : List PaidStage → Position
  | [] => transcribe rules v
  | stage :: stages => .reconciling (stage :: stages)

/-- After `complete` of the step fence. -/
def completed (v : RunVars) : Output → Position
  | .asr transcript => summarize rules v transcript
  | .summary transcript summary => .reservingAgain transcript summary

/-- The checkpoint that `onTranscriptReady` or `onSummaryReady` saves; `none` where it throws. -/
def nextCheckpoint (v : RunVars) : Output → Option MeetingProcessingCheckpoint
  | .asr transcript => some
      { v.identity with
        adapter := transcript.adapter
        noSpeech := transcript.noSpeech
        providerStages := [.asr]
        transcript := transcript.transcript }
  | .summary _ summary =>
    let transcriptCheckpoint := v.durableCheckpoint <|> v.preferredTranscript.map fun preferred =>
      { v.identity with
        adapter := preferred.adapter
        noSpeech := preferred.noSpeech
        providerStages := []
        transcript := preferred.transcript }
    transcriptCheckpoint.map fun checkpoint =>
      { checkpoint with
        audioSha256 := v.audioSnapshot.audioSha256
        providerStages := (checkpoint.providerStages ++ [PaidStage.summary]).dedup
        summary := some summary }

def meetingResult (v : RunVars) (transcript : Transcript) (summary : MeetingSummary)
    (reservation : MeetingProcessingReservation) (generatedAt : Timestamp) : MeetingResult where
  generatedAt
  provider := v.config.provider
  adapter := transcript.adapter
  transcript := transcript.transcript
  summary
  audioRevision := some v.audioSnapshot.audioRevision
  audioSha256 := some v.audioSnapshot.audioSha256
  processingRoute := some v.route
  processedMinutes := some (calculateMeetingUsage v.audioSnapshot.durationMs v.route).processedMinutes
  officialMinutesCharged := some reservation.officialMinutesSettled
  processingOperationKey := some v.operationKey

/-! ### Errors -/

/-- The handler of an error after the audio was prepared. -/
def failed (v : RunVars) (error : MeetingFinalizationError) : Phase :=
  match v.activeClaim.filter fun _ => error.meetingDeleted with
  | some claim => .processing v (.discarding claim error)
  | none => if v.reservationId.isSome then .processing v (.releasing error) else .idle

def claimError : ClaimOutcome → MeetingFinalizationError
  | .busy => providerStepBusy
  | _ => providerStepOutcomeUncertain

/-! ### Calls of the ledger -/

/-- What a call draws at random. -/
structure Drawn where
  newId : String
  claimToken : ClaimToken := ""
  deriving DecidableEq, Repr

def ExistingRun.recordInput (run : ExistingRun) : RecordMeetingFinalizeUsageInput where
  meetingId := run.meetingId
  durationMs := run.durationMs
  route := run.route
  resultGeneratedAt := isoText run.result.generatedAt
  isReprocess := run.isReprocess
  nonBillable := run.result.provider == .mock
  reservationId := run.reservationId
  reservationOperationKey := some run.operationKey

def RunVars.recordInput (v : RunVars) (result : MeetingResult) (reservationId : ReservationId) :
    RecordMeetingFinalizeUsageInput where
  meetingId := v.meetingId
  durationMs := v.audioSnapshot.durationMs
  route := v.route
  resultGeneratedAt := isoText result.generatedAt
  isReprocess := v.isReprocess
  nonBillable := v.config.provider == .mock
  reservationId := some reservationId
  reservationOperationKey := some v.operationKey

def RunVars.reserveInput (v : RunVars) : ReserveFinalizationQuotaInput where
  durationMs := v.audioSnapshot.durationMs
  meetingId := v.meetingId
  operationKey := v.operationKey
  processingRoute := v.route

/-- The next call of the ledger that a run makes. -/
def Phase.quotaCall (drawn : Drawn) : Phase → Option QuotaCall
  | .reservingExisting run => some (.reserveFinalization run.userId
      { durationMs := run.durationMs, meetingId := run.meetingId, operationKey := run.operationKey
        processingRoute := run.route } drawn.newId)
  | .recordingExisting run => some (.recordUsage run.userId run.recordInput drawn.newId)
  | .processing v position =>
    match position with
    | .reserving | .reservingAgain _ _ =>
      some (.reserveFinalization v.userId v.reserveInput drawn.newId)
    | .reconciling (stage :: _) =>
      v.reservationId.map fun reservationId =>
        .reconcile v.userId { reservationId, stage := stage.ledger }
    | .claiming work =>
      v.reservationId.map fun reservationId =>
        .claim v.userId { reservationId, stage := work.stage.ledger } drawn.newId drawn.claimToken
    | .starting _ claim => some (.start v.userId claim)
    | .releasingStep claim _ => some (.releaseStep v.userId claim)
    | .rejecting _ _ => v.activeClaim.map (.reject v.userId)
    | .completing _ => v.activeClaim.map (.complete v.userId)
    | .recordingUsage result reservationId =>
      some (.recordUsage v.userId (v.recordInput result reservationId) drawn.newId)
    | .discarding claim _ => some (.complete v.userId claim)
    | .releasing _ => v.reservationId.map (.releaseReservation v.userId)
    | .reconciling [] | .sending _ | .waiting _ | .saving _ | .savingResult _ _ _ => none
  | .idle | .snapshotting _ => none

/-- Where a run goes with the answer of the ledger. -/
def Phase.answered (result : Except AuthError QuotaResult) : Phase → Phase
  | .reservingExisting run =>
    match result with
    | .ok (.reservation r) => .recordingExisting { run with reservationId := some r.id }
    | _ => .idle
  | .recordingExisting _ => .idle
  | .processing v position =>
    let otherwise (error : MeetingFinalizationError) : Phase :=
      match result with
      | .error e => failed v (normalizeAuthError e)
      | .ok _ => failed v error
    match position, result with
    | .reserving, .ok (.reservation r) =>
      let v := { v with reservationId := some r.id }
      .processing v (reconcile rules v ((v.durableCheckpoint.map (·.providerStages)).getD []))
    | .reconciling (_ :: stages), .ok (.transition r) =>
      if r.outcome = .completed then .processing v (reconcile rules v stages)
      else failed v providerStepCheckpointMismatch
    | .claiming work, .ok (.claim r) =>
      match r.claimToken.filter fun _ => r.outcome == .claimed with
      | some claimToken => .processing v (.starting work { claimToken, stepId := r.step.id })
      | none => failed v (claimError r.outcome)
    | .starting work claim, .ok (.transition r) =>
      if r.outcome = .started then
        .processing { v with activeClaim := some claim, attempt := 0 } (.sending work)
      else .processing v (.releasingStep claim providerStepOutcomeUncertain)
    | .starting _ claim, .error e => .processing v (.releasingStep claim (normalizeAuthError e))
    | .releasingStep _ error, _ => failed v error
    | .rejecting _ error, .ok (.transition r) =>
      if r.outcome = .released then failed { v with activeClaim := none } error
      else failed v providerStepRejectionPending
    | .completing output, .ok (.transition r) =>
      if r.outcome = .completed then
        let v := { v with activeClaim := none }
        .processing v (completed rules v output)
      else failed v providerStepCheckpointPending
    | .reservingAgain transcript summary, .ok (.reservation r) =>
      .processing v (.savingResult transcript summary r)
    | .recordingUsage _ _, .ok _ => .idle
    | .discarding _ error, .ok (.transition r) =>
      if r.outcome = .completed then failed { v with activeClaim := none } error
      else if v.reservationId.isSome then .processing v (.releasing error) else .idle
    | .discarding _ error, _ =>
      if v.reservationId.isSome then .processing v (.releasing error) else .idle
    | .releasing _, _ => .idle
    | _, _ => otherwise providerStepOutcomeUncertain
  | phase => phase

/-! ### Steps -/

structure FinalizerState (σ : Type) where
  ledger : Clocked σ
  checkpoints : CheckpointIdentity → Option MeetingProcessingCheckpoint := fun _ => none
  results : MeetingId → Option MeetingResult := fun _ => none
  runs : RunId → Phase := fun _ => .idle

/-- The answer of a provider. Transcripts of a recording without speech are empty, others are not. An error is
`retryable` when its caller takes it for one that another request may not meet. -/
inductive ProviderAnswer
  | transcribed (transcript : Transcript)
  | summarized (summary : MeetingSummary)
  /-- the request was definitely not accepted -/
  | rejected (error : MeetingFinalizationError) (retryable : Bool)
  | unknown (error : MeetingFinalizationError) (retryable : Bool)
  deriving DecidableEq, Repr

/-- A step of a run that does not call the ledger. -/
inductive RunCall
  | begin (input : FinalizationInput) (config : RunConfig) (reads : PreflightReads)
  | prepare (snapshot : AudioSnapshot) (realtime : Option Transcript)
  /-- the paid request of a stage, and its answer -/
  | send (identity : CheckpointIdentity) (stage : PaidStage)
  | answer (identity : CheckpointIdentity) (stage : PaidStage) (answer : ProviderAnswer)
  | saveCheckpoint
  | saveResult (generatedAt : Timestamp)
  /-- the next step throws for a reason outside of this state: the fence or the lease denies it, the audio
  has changed, an object cannot be read or written -/
  | raise (error : MeetingFinalizationError)
  | crash
  deriving DecidableEq, Repr

inductive FinalizerEvent
  | run (runId : RunId) (call : RunCall)
  | ledger (runId : RunId) (drawn : Drawn) (e : QuotaEvent)
  /-- a call of the ledger by somebody else -/
  | other (e : QuotaEvent)

def FinalizerState.setPhase {σ : Type} (s : FinalizerState σ) (runId : RunId) (phase : Phase) :
    FinalizerState σ :=
  { s with runs := Function.update s.runs runId phase }

@[simp] theorem FinalizerState.setPhase_self {σ : Type} (s : FinalizerState σ) (runId : RunId)
    (phase : Phase) : (s.setPhase runId phase).runs runId = phase := Function.update_self _ _ _

@[simp] theorem FinalizerState.setPhase_of_ne {σ : Type} (s : FinalizerState σ) {runId other : RunId}
    (phase : Phase) (h : other ≠ runId) : (s.setPhase runId phase).runs other = s.runs other :=
  Function.update_of_ne h _ _

def clampInteger (value : Option ℤ) (min max fallback : ℤ) : ℤ :=
  match value with
  | none => fallback
  | some parsed => Min.min max (Max.max min parsed)

/-- `maxAttempts` of `getArkSummaryRetryConfig`: the policy of the caller, else the environment. -/
def arkSummaryMaxAttempts (maxAttempts configured : Option ℤ) : ℤ :=
  clampInteger (maxAttempts <|> configured) 1 3 1

/-- `summaryMaxAttempts` of the provider policy: a run with the user's own model has none. -/
def RunVars.summaryMaxAttempts (v : RunVars) : ℤ :=
  arkSummaryMaxAttempts (if v.route = .byok then none else some 1) v.config.summaryMaxAttempts

/-- The provider's client sends another request after the answer: `generateArkSummaryContent` while attempts
are left, `transcribeWithVolcanoFileAsr` after some rejections only. -/
def triesAgain (v : RunVars) (work : Work) : ProviderAnswer → Bool
  | .rejected _ retryable => retryable && (work.stage == .asr || decide (v.attempt + 1 < v.summaryMaxAttempts))
  | .unknown _ retryable => retryable && work.stage == .summary && decide (v.attempt + 1 < v.summaryMaxAttempts)
  | _ => false

/-- Where a run goes with the answer to its last request. -/
def providerSettled (v : RunVars) (work : Work) : ProviderAnswer → Option Phase
  | .rejected error _ => some (.processing v (.rejecting work.stage error))
  | .unknown error _ => some (failed v error)
  | .transcribed transcript =>
    if work = .asr ∧ transcript.wellFormed then some (.processing v (.saving (.asr transcript)))
    else none
  | .summarized summary =>
    match work with
    | .asr => none
    | .summary transcript => some (.processing v (.saving (.summary transcript summary)))

/-- Where a run goes with the answer of a provider. -/
def providerAnswered (v : RunVars) (work : Work) (answer : ProviderAnswer) : Option Phase :=
  if triesAgain v work answer then some (.processing { v with attempt := v.attempt + 1 } (.sending work))
  else providerSettled v work answer

def checkpointUnavailable : MeetingFinalizationError := ⟨"processing_failed", true, false⟩

/-- A step of a run; `none` where it is not where the run is. -/
def runStep {σ : Type} (runId : RunId) (call : RunCall) (s : FinalizerState σ) :
    Option (FinalizerState σ) :=
  match call, s.runs runId with
  | .begin input config reads, .idle =>
    match preflight input config reads (s.results input.meetingId) with
    | .error _ => some s
    | .ok phase => some (s.setPhase runId phase)
  | .prepare snapshot realtime, .snapshotting p =>
    let identity := (prepared rules p snapshot none realtime).identity
    let durable := readMeetingProcessingCheckpoint identity (s.checkpoints identity)
    some (s.setPhase runId (.processing (prepared rules p snapshot durable realtime) .reserving))
  | .send identity stage, .processing v (.sending work) =>
    if v.identity = identity ∧ work.stage = stage then
      some (s.setPhase runId (.processing v (.waiting work)))
    else none
  | .answer identity stage answer, .processing v (.waiting work) =>
    if v.identity = identity ∧ work.stage = stage then
      (providerAnswered v work answer).map (s.setPhase runId)
    else none
  | .saveCheckpoint, .processing v (.saving output) =>
    match (nextCheckpoint v output).filter MeetingProcessingCheckpoint.valid with
    | none => some (s.setPhase runId (failed v checkpointUnavailable))
    | some checkpoint =>
      some (({ s with
        checkpoints := Function.update s.checkpoints checkpoint.toCheckpointIdentity
          (some checkpoint) } : FinalizerState σ).setPhase runId
            (.processing { v with durableCheckpoint := some checkpoint } (.completing output)))
  | .saveResult generatedAt, .processing v (.savingResult transcript summary reservation) =>
    let result := meetingResult v transcript summary reservation generatedAt
    some (({ s with
      results := Function.update s.results v.meetingId (some result) } : FinalizerState σ).setPhase
        runId (.processing v (.recordingUsage result reservation.id)))
  | .raise _, .snapshotting _ | .raise _, .reservingExisting _ | .raise _, .recordingExisting _ =>
    some (s.setPhase runId .idle)
  | .raise error, .processing v position =>
    match position with
    | .starting _ _ | .releasingStep _ _ | .discarding _ _ | .releasing _ => none
    | _ => some (s.setPhase runId (failed v error))
  | .crash, _ => some (s.setPhase runId .idle)
  | _, _ => none

variable {σ : Type} (call : Clocked σ → QuotaEvent → Clocked σ → Prop)

def FinalizerStep (s : FinalizerState σ) (e : FinalizerEvent) (t : FinalizerState σ) : Prop :=
  match e with
  | .run runId runCall => runStep rules runId runCall s = some t
  | .ledger runId drawn e =>
    (s.runs runId).quotaCall drawn = some e.call ∧ call s.ledger e t.ledger ∧
      t = { s with
        ledger := t.ledger
        runs := Function.update s.runs runId ((s.runs runId).answered rules e.result) }
  | .other e => call s.ledger e t.ledger ∧ t = { s with ledger := t.ledger }

end Texts

end OwnMinutes.Finalizer.Runs
