import OwnMinutes.Quota.Streams
import OwnMinutes.Realtime.Reuse

/-! # Realtime chunks

The requests that stream a recording, as the quota ledger and the session of the meeting see them. A request is
classified and claims its chunk in the ledger, sends it to the provider outside of every lock, and publishes the answer
in the session; it may stop at any point. Between its steps other requests and other users of the ledger go on: the
locks only make fewer orders possible. A meeting or an account is marked as deleted, and then its reservations are
purged, with its locks held; a mark is never lost, as in the database. The responses are left out. -/

namespace OwnMinutes.Realtime.Chunks

open OwnMinutes.Lib.Counters OwnMinutes.Auth.ProcessingRoute OwnMinutes.Auth.Records OwnMinutes.Auth.Errors
open OwnMinutes.Auth.QuotaTypes OwnMinutes.Quota.Calls OwnMinutes.Quota.Streams OwnMinutes.Finalization.Records
open OwnMinutes.Finalizer.Records (Provider resolveMeetingProcessingMode routeOf)
open OwnMinutes.Realtime.Sessions OwnMinutes.Realtime.Reuse

abbrev RequestId := String

/-! ### The checks of a request -/

structure RealtimeChunk where
  meetingId : MeetingId
  sequence : ℤ
  durationMs : ℚ
  sampleRate : ℚ
  channels : ℤ
  receivedBytes : ℕ
  mimeType : Text
  deriving DecidableEq, Repr

/-- A chunk that the request was let through with. -/
structure AcceptedChunk extends RealtimeChunk where
  sequence_pos : 0 < sequence
  durationMs_pos : 0 < durationMs
  deriving DecidableEq, Repr

/-- The error is that of the response, which has status 400. -/
def acceptChunk (c : RealtimeChunk) : Except String AcceptedChunk :=
  if hsequence : c.sequence ≤ 0 then .error "invalid sequence"
  else if hduration : c.durationMs ≤ 0 ∨ 30000 < c.durationMs then .error "invalid durationMs"
  else if c.sampleRate ≤ 0 ∨ 192000 < c.sampleRate ∨ c.channels ≤ 0 ∨ 2 < c.channels then .error "invalid pcm format"
  else if c.receivedBytes = 0 then .error "empty realtime audio chunk"
  else .ok ⟨c, not_le.mp hsequence, not_le.mp fun h => hduration (.inl h)⟩

structure ByteCheck where
  expectedBytes : ℤ
  ok : Bool
  deriving DecidableEq, Repr

def validateRealtimePcmByteLength (c : RealtimeChunk) : ByteCheck :=
  if !includesIgnoringCase c.mimeType "pcm".toList then { expectedBytes := c.receivedBytes, ok := true }
  else
    let bytesPerSample := 2
    let expectedBytes := mathRound (c.sampleRate * c.channels * bytesPerSample * c.durationMs / 1000)
    let drift := |(c.receivedBytes : ℤ) - expectedBytes|
    let tolerance := max 4096 (mathRound (expectedBytes * (1 / 5)))
    { expectedBytes, ok := drift ≤ tolerance }

def byteDrift (c : RealtimeChunk) : ℤ := c.receivedBytes - (validateRealtimePcmByteLength c).expectedBytes

/-! ### Records of a chunk -/

def chunkRecord (userId : UserId) (c : AcceptedChunk) (provider : Provider) (adapter : String) : ChunkRecord where
  meetingId := c.meetingId
  ownerUserId := userId
  sequence := c.sequence
  receivedBytes := c.receivedBytes
  durationMs := c.durationMs
  sampleRate := some c.sampleRate
  channels := some c.channels
  byteDrift := byteDrift c.toRealtimeChunk
  formatOk := true
  provider
  adapter

def rejectedRecord (userId : UserId) (c : AcceptedChunk) (provider : Provider) : ChunkRecord :=
  { chunkRecord userId c provider "realtime-pcm-validator" with
    providerStatus := some .rejectedFormat
    formatOk := false }

/-- The record of `respondWithOfficialQuotaExhausted`. -/
def exhaustedRecord (userId : UserId) (c : AcceptedChunk) (provider : Provider) : ChunkRecord :=
  { chunkRecord userId c provider "official-quota-exhausted" with providerStatus := some .providerError }

structure TranscriptionChunkResult where
  adapter : String
  sessionId : Option String := none
  providerStatus : Option RealtimeSessionStatus := none
  transcriptSegment : Option TranscriptSegment := none
  deriving DecidableEq, Repr

/-! ### The request that is under way -/

/-- The environment of the process, and whether the user has a model of their own for recognition. -/
structure ChunkConfig where
  provider : Provider
  realtimeReady : Bool := false
  userAsrRuntime : Bool := false
  deriving DecidableEq, Repr

/-- What the preflight reads, and whether its reads of the session succeed. -/
structure PreflightReads where
  accountMode : UserProcessingMode
  frozenRoute : Option MeetingProcessingRoute := none
  requestedMode : Option UserProcessingMode := none
  session : Bool := true
  /-- the read of the session that `ensureRealtimeSessionOwnership` or an early record makes -/
  record : Bool := true
  /-- the read of the session that `respondWithOfficialQuotaExhausted` makes -/
  exhausted : Bool := true
  deriving DecidableEq, Repr

structure RealtimeProviderPlan where
  userId : UserId
  chunk : AcceptedChunk
  provider : Provider
  processingRoute : MeetingProcessingRoute
  /-- the provider is paid for by the service, and a step of the ledger is needed -/
  official : Bool
  deriving DecidableEq, Repr

namespace RealtimeProviderPlan

variable (p : RealtimeProviderPlan)

def operationKey : String := initialMeetingOperationKey p.chunk.meetingId

/-- The stream of the chunk. -/
def key : StreamKey := (p.userId, p.operationKey)

def item : Item := ⟨p.chunk.sequence, chunkMs p.chunk.durationMs⟩

/-- The record of the answer. -/
def answeredRecord (answer : TranscriptionChunkResult) : ChunkRecord :=
  { chunkRecord p.userId p.chunk p.provider answer.adapter with
    sessionId := answer.sessionId
    providerStatus := answer.providerStatus
    transcriptSegment := answer.transcriptSegment }

end RealtimeProviderPlan

/-- What `DELETE` has read before it ends the stream of the provider. -/
structure FinishPlan where
  userId : UserId
  meetingId : MeetingId
  provider : Provider
  deriving DecidableEq, Repr

structure FinishResult where
  sessionId : Option String := none
  providerStatus : RealtimeSessionStatus
  transcriptSegment : Option TranscriptSegment := none
  deriving DecidableEq, Repr

def FinishPlan.record (p : FinishPlan) (result : FinishResult) : EventRecord where
  meetingId := p.meetingId
  ownerUserId := p.userId
  provider := p.provider
  adapter :=
    match p.provider with
    | .volcano => "volcano-realtime-adapter"
    | .openai => "openai-realtime-adapter"
    | .mock => "mock-realtime-adapter"
  sessionId := result.sessionId
  providerStatus := result.providerStatus
  transcriptSegment := result.transcriptSegment

/-- Where a request is. -/
inductive Phase
  | idle
  | reserving (plan : RealtimeProviderPlan)
  | claimingStep (plan : RealtimeProviderPlan) (reservationId : ReservationId)
  | startingStep (plan : RealtimeProviderPlan) (reservationId : ReservationId) (step : ProviderStepInput)
  | releasingStep (userId : UserId) (step : ProviderStepInput)
  | sending (plan : RealtimeProviderPlan) (reservationId : ReservationId) (step : Option ProviderStepInput)
  | waiting (plan : RealtimeProviderPlan) (reservationId : ReservationId) (step : Option ProviderStepInput)
  | publishing (plan : RealtimeProviderPlan) (reservationId : ReservationId) (step : Option ProviderStepInput)
      (answer : TranscriptionChunkResult)
  | completing (userId : UserId) (step : ProviderStepInput)
  /-- in `reconcileAbandonedRealtimeProviderStep` -/
  | reconciling (userId : UserId) (reservationId : ReservationId) (step : ProviderStepInput)
  | releasing (userId : UserId) (reservationId : ReservationId)
  | finishing (plan : FinishPlan)
  | finished (plan : FinishPlan) (result : FinishResult)
  deriving DecidableEq, Repr

/-- The object after an operation that writes what it returns, unless it throws. -/
def written (stored : Option RealtimeSessionSummary)
    (result : Except RealtimeSessionAccessError RealtimeSessionSummary) : Option RealtimeSessionSummary :=
  match result with
  | .ok next => some next
  | .error _ => stored

/-- The first section of a request: the object it leaves, and where the request is then. -/
def preflight (config : ChunkConfig) (reads : PreflightReads) (userId : UserId) (c : AcceptedChunk)
    (stored : Option RealtimeSessionSummary) : Option RealtimeSessionSummary × Phase :=
  let provider := config.provider
  match readUserRealtimeSession stored reads.session c.meetingId userId with
  | .error _ => (stored, .idle)
  | .ok existing =>
    match resolveMeetingProcessingMode reads.accountMode reads.frozenRoute reads.requestedMode with
    | .error _ => (stored, .idle)
    | .ok mode =>
      match (classifyRealtimeSequence (existing.bind (·.highestSequence)) c.sequence).status with
      | .duplicate =>
        (written stored (recordRealtimeSequenceAnomaly stored reads.record
          { adapter := (existing.map (·.adapter)).getD "realtime-sequence-validator"
            meetingId := c.meetingId, ownerUserId := userId, provider, duplicate := true }), .idle)
      | .outOfOrder =>
        (written stored (recordRealtimeSequenceAnomaly stored reads.record
          { adapter := "realtime-sequence-validator"
            meetingId := c.meetingId, ownerUserId := userId, provider, duplicate := false }), .idle)
      | .next =>
        if !(validateRealtimePcmByteLength c.toRealtimeChunk).ok then
          (written stored (recordRealtimeSessionChunk stored reads.record (rejectedRecord userId c provider)), .idle)
        else
          match ensureRealtimeSessionOwnership stored reads.record c.meetingId userId provider with
          | .error _ => (stored, .idle)
          | .ok stored =>
            let providerRuntime := mode != .officialQuota && config.userAsrRuntime
            if mode = .byok ∧ !providerRuntime then (stored, .idle)
            else
              let usesOfficialRealtime := provider == .volcano && mode != .byok && !providerRuntime
              if usesOfficialRealtime && existing.any (·.adapter == "official-quota-exhausted") then
                (written stored (recordRealtimeSessionChunk stored reads.exhausted (exhaustedRecord userId c provider)),
                  .idle)
              else
                (stored, .reserving
                  { userId, chunk := c, provider, processingRoute := routeOf mode
                    official := usesOfficialRealtime && config.realtimeReady })

/-! ### Calls of the ledger -/

/-- What a call draws at random. -/
structure Drawn where
  newId : String := ""
  claimToken : ClaimToken := ""
  deriving DecidableEq, Repr

/-- The next call of the ledger that a request makes. -/
def Phase.quotaCall (drawn : Drawn) : Phase → Option QuotaCall
  | .reserving p => some (.reserveRealtime p.userId
      { durationMs := p.chunk.durationMs, meetingId := p.chunk.meetingId, operationKey := p.operationKey
        processingRoute := p.processingRoute, sequence := p.chunk.sequence } drawn.newId)
  | .claimingStep p reservationId => some (.claim p.userId
      { reservationId, stage := .realtimeAsr p.chunk.sequence } drawn.newId drawn.claimToken)
  | .startingStep p _ step => some (.start p.userId step)
  | .releasingStep userId step => some (.releaseStep userId step)
  | .completing userId step | .reconciling userId _ step => some (.complete userId step)
  | .releasing userId reservationId => some (.releaseReservation userId reservationId)
  | .idle | .sending .. | .waiting .. | .publishing .. | .finishing _ | .finished .. => none

/-- The plan of a request that is in its first section, with the locks of the user and the meeting held, and may still
claim. -/
def Phase.preflight? : Phase → Option RealtimeProviderPlan
  | .reserving p | .claimingStep p _ | .startingStep p _ _ => some p
  | _ => none

/-- Where a request goes with the answer of the ledger. -/
def Phase.answered (result : Except AuthError QuotaResult) : Phase → Phase
  | .reserving p =>
    match result with
    | .ok (.realtime claim) =>
      if claim.duplicate then .idle
      else if p.official then .claimingStep p claim.reservation.id
      else .sending p claim.reservation.id none
    | _ => .idle
  | .claimingStep p reservationId =>
    match result with
    | .ok (.claim r) =>
      match r.claimToken.filter fun _ => r.outcome == .claimed with
      | some claimToken => .startingStep p reservationId { claimToken, stepId := r.step.id }
      | none => .idle
    | _ => .idle
  | .startingStep p reservationId step =>
    match result with
    | .ok (.transition r) => if r.outcome = .started then .sending p reservationId (some step) else .idle
    | _ => .releasingStep p.userId step
  | .reconciling userId reservationId _ =>
    match result with
    | .ok (.transition r) => if r.outcome = .completed then .releasing userId reservationId else .idle
    | _ => .idle
  | .releasingStep _ _ | .completing _ _ | .releasing _ _ => .idle
  | phase => phase

/-- The request whose reservation is refused for want of quota records so in the session. -/
def Phase.exhausted (result : Except AuthError QuotaResult) : Phase → Option RealtimeProviderPlan
  | .reserving p =>
    match result with
    | .error e => if e.status = 402 then some p else none
    | .ok _ => none
  | _ => none

/-! ### Steps -/

structure RealtimeState (σ : Type) where
  ledger : Clocked σ
  sessions : MeetingId → Option RealtimeSessionSummary := fun _ => none
  requests : RequestId → Phase := fun _ => .idle
  deletedMeetings : MeetingId → Bool := fun _ => false
  deletedUsers : UserId → Bool := fun _ => false

inductive RealtimeEvent
  | post (id : RequestId) (userId : UserId) (config : ChunkConfig) (reads : PreflightReads) (c : RealtimeChunk)
  /-- a call of the ledger, and whether the session can be read after it -/
  | ledger (id : RequestId) (drawn : Drawn) (readable : Bool) (e : QuotaEvent)
  /-- a call of the ledger by somebody else -/
  | other (e : QuotaEvent)
  /-- the chunk is sent to the provider, and its answer -/
  | send (id : RequestId) (plan : RealtimeProviderPlan)
  | answer (id : RequestId) (answer : TranscriptionChunkResult)
  /-- the answer is recorded -/
  | publish (id : RequestId) (plan : RealtimeProviderPlan) (answer : TranscriptionChunkResult) (readable : Bool)
  /-- the answer is not recorded: the meeting or the account is deleted, or the session is that of another user -/
  | discard (id : RequestId) (readable : Bool)
  | finish (id : RequestId) (plan : FinishPlan) (readable : Bool)
  | finished (id : RequestId) (result : FinishResult)
  | publishFinish (id : RequestId) (plan : FinishPlan) (result : FinishResult) (readable : Bool)
  /-- the request throws, or its process crashes -/
  | stop (id : RequestId)
  | deleteMeeting (meetingId : MeetingId)
  | deleteUser (userId : UserId)
  /-- the reservations of a deleted meeting or account are removed -/
  | purge (p : LedgerPurge)
  /-- the objects of a deleted meeting are removed -/
  | removeSession (meetingId : MeetingId)

section Steps

variable {σ : Type}

def RealtimeState.setPhase (s : RealtimeState σ) (id : RequestId) (phase : Phase) : RealtimeState σ :=
  { s with requests := Function.update s.requests id phase }

def RealtimeState.setSession (s : RealtimeState σ) (meetingId : MeetingId) (session : Option RealtimeSessionSummary) :
    RealtimeState σ := { s with sessions := Function.update s.sessions meetingId session }

@[simp] theorem RealtimeState.setPhase_self (s : RealtimeState σ) (id : RequestId) (phase : Phase) :
    (s.setPhase id phase).requests id = phase := Function.update_self _ _ _

@[simp] theorem RealtimeState.setPhase_of_ne (s : RealtimeState σ) {id other : RequestId} (phase : Phase)
    (h : other ≠ id) : (s.setPhase id phase).requests other = s.requests other := Function.update_of_ne h _ _

@[simp] theorem RealtimeState.setSession_self (s : RealtimeState σ) (meetingId : MeetingId)
    (session : Option RealtimeSessionSummary) : (s.setSession meetingId session).sessions meetingId = session :=
  Function.update_self _ _ _

@[simp] theorem RealtimeState.setSession_of_ne (s : RealtimeState σ) {meetingId other : MeetingId}
    (session : Option RealtimeSessionSummary) (h : other ≠ meetingId) :
    (s.setSession meetingId session).sessions other = s.sessions other := Function.update_of_ne h _ _

/-- The fence of the meeting or the account denies the section. -/
def RealtimeState.barred (s : RealtimeState σ) (userId : UserId) (meetingId : MeetingId) : Bool :=
  s.deletedUsers userId || s.deletedMeetings meetingId

/-- A deletion that is marked, and whose locks no request in its first section holds. -/
def RealtimeState.settled (s : RealtimeState σ) : LedgerPurge → Prop
  | .meeting _ meetingId => s.deletedMeetings meetingId = true ∧
      ∀ id, ∀ p ∈ (s.requests id).preflight?, p.chunk.meetingId ≠ meetingId
  | .account userId => s.deletedUsers userId = true ∧ ∀ id, ∀ p ∈ (s.requests id).preflight?, p.userId ≠ userId

/-- What `reconcileAbandonedRealtimeProviderStep` does first. -/
def abandoned (p : RealtimeProviderPlan) (reservationId : ReservationId) : Option ProviderStepInput → Phase
  | some step => .reconciling p.userId reservationId step
  | none => .releasing p.userId reservationId

/-- A step that does not call the ledger; `none` where it is not where the request is. -/
def requestStep (e : RealtimeEvent) (s : RealtimeState σ) : Option (RealtimeState σ) :=
  match e with
  | .post id userId config reads c =>
    if s.requests id ≠ .idle then none
    else
      match acceptChunk c with
      | .error _ => some s
      | .ok c =>
        if s.barred userId c.meetingId then some s
        else
          let (session, phase) := preflight config reads userId c (s.sessions c.meetingId)
          some ((s.setSession c.meetingId session).setPhase id phase)
  | .send id plan =>
    match s.requests id with
    | .sending p reservationId step => if p = plan then some (s.setPhase id (.waiting p reservationId step)) else none
    | _ => none
  | .answer id answer =>
    match s.requests id with
    | .waiting p reservationId step => some (s.setPhase id (.publishing p reservationId step answer))
    | _ => none
  | .publish id plan given readable =>
    match s.requests id with
    | .publishing p _ step answer =>
      if p = plan ∧ answer = given ∧ s.barred p.userId p.chunk.meetingId = false then
        match recordRealtimeSessionChunk (s.sessions p.chunk.meetingId) readable (p.answeredRecord answer) with
        | .ok next =>
          let phase := match step with
            | some step => .completing p.userId step
            | none => .idle
          some ((s.setSession p.chunk.meetingId (some next)).setPhase id phase)
        | .error _ => none
      else none
    | _ => none
  | .discard id readable =>
    match s.requests id with
    | .publishing p reservationId step answer =>
      if s.barred p.userId p.chunk.meetingId then some (s.setPhase id (abandoned p reservationId step))
      else
        match recordRealtimeSessionChunk (s.sessions p.chunk.meetingId) readable (p.answeredRecord answer) with
        | .ok _ => none
        | .error _ => some (s.setPhase id .idle)
    | _ => none
  | .finish id plan readable =>
    if s.requests id ≠ .idle then none
    else if s.barred plan.userId plan.meetingId then some s
    else
      match readUserRealtimeSession (s.sessions plan.meetingId) readable plan.meetingId plan.userId with
      | .ok _ => some (s.setPhase id (.finishing plan))
      | .error _ => some s
  | .finished id result =>
    match s.requests id with
    | .finishing plan => some (s.setPhase id (.finished plan result))
    | _ => none
  | .publishFinish id plan result readable =>
    match s.requests id with
    | .finished p r =>
      if p = plan ∧ r = result ∧ s.barred p.userId p.meetingId = false then
        match recordRealtimeSessionEvent (s.sessions p.meetingId) readable (p.record r) with
        | .ok next => some ((s.setSession p.meetingId (some next)).setPhase id .idle)
        | .error _ => none
      else none
    | _ => none
  | .stop id => some (s.setPhase id .idle)
  | .deleteMeeting meetingId => some { s with deletedMeetings := Function.update s.deletedMeetings meetingId true }
  | .deleteUser userId => some { s with deletedUsers := Function.update s.deletedUsers userId true }
  | .removeSession meetingId => if s.deletedMeetings meetingId then some (s.setSession meetingId none) else none
  | .ledger .. | .other _ | .purge _ => none

/-- The state after a call of the ledger by a request. -/
def called (s : RealtimeState σ) (id : RequestId) (readable : Bool) (result : Except AuthError QuotaResult)
    (ledger : Clocked σ) : RealtimeState σ :=
  let s := { s with ledger }
  match (s.requests id).exhausted result with
  | some p =>
    (s.setSession p.chunk.meetingId (written (s.sessions p.chunk.meetingId) (recordRealtimeSessionChunk
      (s.sessions p.chunk.meetingId) readable (exhaustedRecord p.userId p.chunk p.provider)))).setPhase id .idle
  | none => s.setPhase id ((s.requests id).answered result)

theorem called_ledger {s : RealtimeState σ} {id : RequestId} {readable : Bool} {result : Except AuthError QuotaResult}
    {ledger : Clocked σ} : (called s id readable result ledger).ledger = ledger := by
  unfold called
  dsimp only
  split <;> rfl

theorem called_barred {s : RealtimeState σ} {id : RequestId} {readable : Bool} {result : Except AuthError QuotaResult}
    {ledger : Clocked σ} : (called s id readable result ledger).barred = s.barred := by
  unfold called
  dsimp only
  split <;> rfl

variable (call : Clocked σ → QuotaEvent → Clocked σ → Prop) (purge : Clocked σ → LedgerPurge → Clocked σ → Prop)

def RealtimeStep (s : RealtimeState σ) (e : RealtimeEvent) (t : RealtimeState σ) : Prop :=
  match e with
  | .ledger id drawn readable e =>
    (s.requests id).quotaCall drawn = some e.call ∧ call s.ledger e t.ledger ∧
      t = called s id readable e.result t.ledger
  | .other e => call s.ledger e t.ledger ∧ t = { s with ledger := t.ledger }
  | .purge p => s.settled p ∧ purge s.ledger p t.ledger ∧ t = { s with ledger := t.ledger }
  | e => requestStep e s = some t

theorem realtimeStep_of_requestStep {s t : RealtimeState σ} {e : RealtimeEvent} (h : requestStep e s = some t) :
    RealtimeStep call purge s e t := by
  cases e with
  | ledger | other | purge => cases h
  | _ => exact h

end Steps

end OwnMinutes.Realtime.Chunks
