import OwnMinutes.Finalization.Records
import OwnMinutes.Lib.JsText

/-! # The projection of a finalization

The functions of `meeting-finalization-state.ts` on the processing object of a meeting. Each runs under
the write fence of the meeting, as a function of what is stored there; what is stored was written by
one of them, or is older and may lack fields. -/

namespace OwnMinutes.Finalization.Projection

open OwnMinutes.Auth.ProcessingRoute OwnMinutes.Auth.Records OwnMinutes.Finalization.Records
open OwnMinutes.Lib.JsText

inductive MeetingFinalizationStatus
  | queued | processing | completed | failed
  deriving DecidableEq, Repr

inductive QualityStatus
  | verified | unverified
  deriving DecidableEq, Repr

/-- What names a run. -/
structure FinalizationIdentity where
  ownerUserId : UserId
  jobId : Option JobId := none
  processingOperationKey : Option String := none
  audioRevision : Option String := none
  deriving DecidableEq, Repr

structure MeetingFinalizationState where
  meetingId : MeetingId
  ownerUserId : UserId
  title : String
  status : MeetingFinalizationStatus
  attempt : ℕ
  jobId : Option JobId := none
  processingOperationKey : Option String := none
  processingMode : Option UserProcessingMode := none
  audioRevision : Option String := none
  requestedAt : Timestamp
  queuedAt : Option Timestamp := none
  startedAt : Option Timestamp := none
  updatedAt : Timestamp
  nextAttemptAt : Option Timestamp := none
  leaseExpiresAt : Option Timestamp := none
  completedAt : Option Timestamp := none
  failedAt : Option Timestamp := none
  resultGeneratedAt : Option Timestamp := none
  qualityStatus : Option QualityStatus := none
  error : Option WorkerError := none
  deriving DecidableEq, Repr

def MeetingFinalizationState.identity (s : MeetingFinalizationState) : FinalizationIdentity where
  ownerUserId := s.ownerUserId
  jobId := s.jobId
  processingOperationKey := s.processingOperationKey
  audioRevision := s.audioRevision

/-! ### Reading and writing -/

/-- The parsed object, `Partial<MeetingFinalizationState>`; a status that is none of the four is left
out. -/
structure StoredState where
  meetingId : Option MeetingId := none
  ownerUserId : Option UserId := none
  title : Option String := none
  status : Option MeetingFinalizationStatus := none
  attempt : Option ℕ := none
  jobId : Option JobId := none
  processingOperationKey : Option String := none
  processingMode : Option UserProcessingMode := none
  audioRevision : Option String := none
  requestedAt : Option Timestamp := none
  queuedAt : Option Timestamp := none
  startedAt : Option Timestamp := none
  updatedAt : Option Timestamp := none
  nextAttemptAt : Option Timestamp := none
  leaseExpiresAt : Option Timestamp := none
  completedAt : Option Timestamp := none
  failedAt : Option Timestamp := none
  resultGeneratedAt : Option Timestamp := none
  qualityStatus : Option QualityStatus := none
  error : Option WorkerError := none
  deriving DecidableEq, Repr

/-- What `writeState` stores. -/
def writeState (s : MeetingFinalizationState) : StoredState where
  meetingId := some s.meetingId
  ownerUserId := some s.ownerUserId
  title := some s.title
  status := some s.status
  attempt := some s.attempt
  jobId := s.jobId
  processingOperationKey := s.processingOperationKey
  processingMode := s.processingMode
  audioRevision := s.audioRevision
  requestedAt := some s.requestedAt
  queuedAt := s.queuedAt
  startedAt := s.startedAt
  updatedAt := some s.updatedAt
  nextAttemptAt := s.nextAttemptAt
  leaseExpiresAt := s.leaseExpiresAt
  completedAt := s.completedAt
  failedAt := s.failedAt
  resultGeneratedAt := s.resultGeneratedAt
  qualityStatus := s.qualityStatus
  error := s.error

/-- `value.replace(/[^a-z0-9_-]/gi, "_").slice(0, 80) || "processing_failed"`. -/
def sanitizeCode (value : String) : String :=
  let replaced := value.toList.flatMap fun c =>
    if c.isAlphanum || c == '_' || c == '-' then [c] else List.replicate (utf16Units c) '_'
  match slice 80 replaced with
  | [] => "processing_failed"
  | l => String.ofList l

/-- The trimmed value, cut to `maxLength`; an empty one is absent. -/
def sanitizeOptionalContextValue (value : Option String) (maxLength : ℕ) : Option String :=
  let normalized := trim ((value.getD "").toList)
  if normalized = [] then none else some (String.ofList (slice maxLength normalized))

/-- `value || otherwise`. -/
def orText (value : Option String) (otherwise : String) : String :=
  (value.filter (· ≠ "")).getD otherwise

section Messages

variable (sanitizeMessage : String → String)

def sanitizeError (error : WorkerError) : WorkerError where
  code := sanitizeCode error.code
  message := sanitizeMessage error.message
  retryable := error.retryable

def normalizeState (now : Timestamp) (meetingId : MeetingId) (input : StoredState) :
    MeetingFinalizationState :=
  let status := input.status.getD .processing
  { meetingId := orText input.meetingId meetingId
    ownerUserId := orText input.ownerUserId ""
    title := orText input.title ("OwnMinutes 会议 " ++ meetingId)
    status
    attempt := max (if status = .queued then 0 else 1)
      (input.attempt.getD (if status = .queued then 0 else 1))
    jobId := input.jobId
    processingOperationKey := sanitizeOptionalContextValue input.processingOperationKey 240
    processingMode := input.processingMode
    audioRevision := sanitizeOptionalContextValue input.audioRevision 128
    requestedAt := (input.requestedAt <|> input.startedAt <|> input.updatedAt).getD now
    queuedAt := input.queuedAt
    startedAt := input.startedAt
    updatedAt := input.updatedAt.getD now
    nextAttemptAt := input.nextAttemptAt
    leaseExpiresAt := input.leaseExpiresAt
    completedAt := input.completedAt
    failedAt := input.failedAt
    resultGeneratedAt := input.resultGeneratedAt
    qualityStatus := input.qualityStatus
    error := input.error.map (sanitizeError sanitizeMessage) }

def readMeetingFinalizationState (now : Timestamp) (meetingId : MeetingId)
    (stored : Option StoredState) : Option MeetingFinalizationState :=
  stored.map (normalizeState sanitizeMessage now meetingId)

/-! ### The transitions

Each gives the state it returns and what it stores; `none` where it stores nothing. -/

def sameFinalizationIdentity (current : MeetingFinalizationState) (expected : FinalizationIdentity) :
    Bool :=
  current.identity == expected

structure QueueFinalizationInput where
  meetingId : MeetingId
  ownerUserId : UserId
  title : String
  jobId : JobId
  processingOperationKey : Option String := none
  processingMode : Option UserProcessingMode := none
  audioRevision : Option String := none
  nextAttemptAt : Option Timestamp := none
  deriving DecidableEq, Repr

def queueMeetingFinalization (now : Timestamp) (input : QueueFinalizationInput)
    (stored : Option StoredState) : MeetingFinalizationState :=
  let previous := readMeetingFinalizationState sanitizeMessage now input.meetingId stored
  { meetingId := input.meetingId
    ownerUserId := input.ownerUserId
    title := input.title
    status := .queued
    attempt := (previous.map (·.attempt)).getD 0
    jobId := some input.jobId
    processingOperationKey := input.processingOperationKey <|> previous.bind (·.processingOperationKey)
    processingMode := input.processingMode <|> previous.bind (·.processingMode)
    audioRevision := input.audioRevision <|> previous.bind (·.audioRevision)
    requestedAt := (previous.map (·.requestedAt)).getD now
    queuedAt := some now
    updatedAt := now
    nextAttemptAt := input.nextAttemptAt }

structure StartFinalizationInput where
  meetingId : MeetingId
  ownerUserId : UserId
  title : String
  leaseMs : ℕ
  processingOperationKey : Option String := none
  processingMode : Option UserProcessingMode := none
  audioRevision : Option String := none
  deriving DecidableEq, Repr

/-- The stored state is that of the run that starts, whatever its job. -/
def recognized (input : StartFinalizationInput) (previous : MeetingFinalizationState) : Bool :=
  sameFinalizationIdentity previous
    { ownerUserId := input.ownerUserId
      jobId := previous.jobId
      processingOperationKey := input.processingOperationKey
      audioRevision := input.audioRevision }

/-- The state a run starts with; `own` is the previous state where it is recognized. -/
def startedState (now : Timestamp) (input : StartFinalizationInput)
    (previous own : Option MeetingFinalizationState) : MeetingFinalizationState where
  meetingId := input.meetingId
  ownerUserId := input.ownerUserId
  title := input.title
  status := .processing
  attempt := (previous.map (·.attempt)).getD 0 + 1
  jobId := own.bind (·.jobId)
  processingOperationKey := input.processingOperationKey <|> previous.bind (·.processingOperationKey)
  processingMode := input.processingMode <|> own.bind (·.processingMode)
  audioRevision := input.audioRevision <|> previous.bind (·.audioRevision)
  requestedAt := (own.map (·.requestedAt)).getD now
  queuedAt := own.bind (·.queuedAt)
  startedAt := some now
  updatedAt := now
  leaseExpiresAt := some (now + input.leaseMs)

def startMeetingFinalization (now : Timestamp) (input : StartFinalizationInput)
    (stored : Option StoredState) : MeetingFinalizationState × Option StoredState :=
  let previous := readMeetingFinalizationState sanitizeMessage now input.meetingId stored
  let own := previous.filter (recognized input)
  match own.filter (·.status == .completed) with
  | some completed => (completed, none)
  | none =>
    let state := startedState now input previous own
    (state, some (writeState state))

def refreshedState (now : Timestamp) (meetingId : MeetingId) (leaseMs : ℕ)
    (current : MeetingFinalizationState) : MeetingFinalizationState :=
  { current with meetingId, updatedAt := now, leaseExpiresAt := some (now + leaseMs) }

def refreshMeetingFinalizationLease (now : Timestamp) (meetingId : MeetingId)
    (expected : FinalizationIdentity) (leaseMs : ℕ) (stored : Option StoredState) :
    Option MeetingFinalizationState × Option StoredState :=
  match readMeetingFinalizationState sanitizeMessage now meetingId stored with
  | none => (none, none)
  | some current =>
    if current.status ≠ .processing ∨ !sameFinalizationIdentity current expected then
      (some current, none)
    else
      let state := refreshedState now meetingId leaseMs current
      (some state, some (writeState state))

/-- A state that `completeMeetingFinalization` and `failMeetingFinalization` leave: it is completed, or
not that of the run. -/
def settledOrForeign (state current : MeetingFinalizationState) : Bool :=
  current.status == .completed || !sameFinalizationIdentity current state.identity

def completedState (now : Timestamp) (resultGeneratedAt : Timestamp) (qualityStatus : QualityStatus)
    (meetingId : MeetingId) (state : MeetingFinalizationState) : MeetingFinalizationState :=
  { state with
    meetingId
    status := .completed
    updatedAt := now
    completedAt := some now
    leaseExpiresAt := none
    resultGeneratedAt := some resultGeneratedAt
    qualityStatus := some qualityStatus
    error := none }

def completeMeetingFinalization (now : Timestamp) (state : MeetingFinalizationState)
    (resultGeneratedAt : Timestamp) (qualityStatus : QualityStatus) (stored : Option StoredState) :
    MeetingFinalizationState × Option StoredState :=
  let current := readMeetingFinalizationState sanitizeMessage now state.meetingId stored
  match current.filter (settledOrForeign state) with
  | some current => (current, none)
  | none =>
    let next := completedState now resultGeneratedAt qualityStatus state.meetingId (current.getD state)
    (next, some (writeState next))

def failedState (now : Timestamp) (error : WorkerError) (meetingId : MeetingId)
    (state : MeetingFinalizationState) : MeetingFinalizationState :=
  { state with
    meetingId
    status := .failed
    updatedAt := now
    failedAt := some now
    leaseExpiresAt := none
    error := some (sanitizeError sanitizeMessage error) }

def failMeetingFinalization (now : Timestamp) (state : MeetingFinalizationState) (error : WorkerError)
    (stored : Option StoredState) : MeetingFinalizationState × Option StoredState :=
  let current := readMeetingFinalizationState sanitizeMessage now state.meetingId stored
  match current.filter (settledOrForeign state) with
  | some current => (current, none)
  | none =>
    let next := failedState sanitizeMessage now error state.meetingId (current.getD state)
    (next, some (writeState next))

def isFinalizationLeaseActive (now : Timestamp) (state : Option MeetingFinalizationState) : Bool :=
  state.any fun state => state.status == .processing && state.leaseExpiresAt.any (now < ·)

end Messages

/-! ### What the transitions store -/

section Stored

variable {sanitizeMessage : String → String} {now : Timestamp} {input : StartFinalizationInput}
  {stored : Option StoredState} {state : MeetingFinalizationState} {raw : StoredState}

/-- A start writes the state it returns, or finds its own completed state. -/
theorem start_cases (sanitizeMessage : String → String) (now : Timestamp)
    (input : StartFinalizationInput) (stored : Option StoredState) :
    (∃ previous, readMeetingFinalizationState sanitizeMessage now input.meetingId stored = some previous ∧
      recognized input previous = true ∧ previous.status = .completed ∧
      startMeetingFinalization sanitizeMessage now input stored = (previous, none)) ∨
    ∃ state, startMeetingFinalization sanitizeMessage now input stored =
        (state, some (writeState state)) ∧
      state = startedState now input
        (readMeetingFinalizationState sanitizeMessage now input.meetingId stored)
        ((readMeetingFinalizationState sanitizeMessage now input.meetingId stored).filter
          (recognized input)) := by
  unfold startMeetingFinalization
  dsimp only
  split
  · rename_i completed hcompleted
    obtain ⟨hown, hstatus⟩ := Option.filter_eq_some_iff.mp hcompleted
    obtain ⟨hprevious, hrecognized⟩ := Option.filter_eq_some_iff.mp hown
    exact .inl ⟨completed, hprevious, hrecognized, eq_of_beq hstatus, rfl⟩
  · exact .inr ⟨_, rfl, rfl⟩

theorem started_of_written
    (h : startMeetingFinalization sanitizeMessage now input stored = (state, some raw)) :
    raw = writeState state ∧ state = startedState now input
      (readMeetingFinalizationState sanitizeMessage now input.meetingId stored)
      ((readMeetingFinalizationState sanitizeMessage now input.meetingId stored).filter
        (recognized input)) := by
  rcases start_cases sanitizeMessage now input stored with ⟨previous, -, -, -, he⟩ | ⟨state', he, hs⟩
  · rw [he] at h; cases h
  · rw [he] at h; cases h
    exact ⟨rfl, hs⟩

/-- What completing and failing replace has the job of the run. -/
theorem jobId_of_unsettled
    (h : (readMeetingFinalizationState sanitizeMessage now state.meetingId (some raw)).filter
      (settledOrForeign state) = none) : raw.jobId = state.jobId := by
  have hkept := Option.filter_eq_none_iff.mp h _ rfl
  simp only [settledOrForeign, Bool.or_eq_true, not_or, Bool.not_eq_true', Bool.not_eq_false] at hkept
  exact congrArg FinalizationIdentity.jobId (eq_of_beq hkept.2)

/-- A completion replaces a state of the run. -/
theorem stored_of_complete {resultGeneratedAt : Timestamp} {qualityStatus : QualityStatus}
    (h : (completeMeetingFinalization sanitizeMessage now state resultGeneratedAt qualityStatus
      stored).2 = some raw) :
    raw.meetingId = some state.meetingId ∧
      ∀ old, stored = some old → old.jobId = state.jobId ∧ raw.jobId = old.jobId := by
  unfold completeMeetingFinalization at h
  dsimp only at h
  split at h
  · cases h
  · rename_i hnone
    cases h
    refine ⟨rfl, ?_⟩
    rintro old rfl
    exact ⟨jobId_of_unsettled hnone, rfl⟩

/-- A failure replaces a state of the run. -/
theorem stored_of_fail {error : WorkerError}
    (h : (failMeetingFinalization sanitizeMessage now state error stored).2 = some raw) :
    raw.meetingId = some state.meetingId ∧
      ∀ old, stored = some old → old.jobId = state.jobId ∧ raw.jobId = old.jobId := by
  unfold failMeetingFinalization at h
  dsimp only at h
  split at h
  · cases h
  · rename_i hnone
    cases h
    refine ⟨rfl, ?_⟩
    rintro old rfl
    exact ⟨jobId_of_unsettled hnone, rfl⟩

/-- A failure leaves no completed state, and replaces none. -/
theorem status_of_fail {error : WorkerError}
    (h : (failMeetingFinalization sanitizeMessage now state error stored).2 = some raw) :
    raw.status = some .failed ∧ ∀ old, stored = some old → old.status ≠ some .completed := by
  unfold failMeetingFinalization at h
  dsimp only at h
  split at h
  · cases h
  · rename_i hnone
    cases h
    refine ⟨rfl, ?_⟩
    rintro old rfl hcompleted
    have hkept := Option.filter_eq_none_iff.mp hnone _ rfl
    exact hkept (by simp [settledOrForeign, normalizeState, hcompleted])

theorem status_of_start
    (h : startMeetingFinalization sanitizeMessage now input stored = (state, some raw)) :
    raw.status = some .processing := by
  obtain ⟨rfl, rfl⟩ := started_of_written h
  rfl

/-- A refresh keeps the job of what it replaces. -/
theorem stored_of_refresh {meetingId : MeetingId} {expected : FinalizationIdentity} {leaseMs : ℕ}
    (h : (refreshMeetingFinalizationLease sanitizeMessage now meetingId expected leaseMs stored).2 =
      some raw) :
    raw.meetingId = some meetingId ∧ ∀ old, stored = some old → raw.jobId = old.jobId := by
  unfold refreshMeetingFinalizationLease at h
  split at h
  · cases h
  · rename_i current hcurrent
    split_ifs at h
    cases h
    refine ⟨rfl, ?_⟩
    rintro old rfl
    cases hcurrent
    rfl

theorem status_of_refresh {meetingId : MeetingId} {expected : FinalizationIdentity} {leaseMs : ℕ}
    (h : (refreshMeetingFinalizationLease sanitizeMessage now meetingId expected leaseMs stored).2 =
      some raw) : raw.status = some .processing := by
  unfold refreshMeetingFinalizationLease at h
  split at h
  · cases h
  · split_ifs at h with hkept
    cases h
    exact congrArg some (not_not.mp (not_or.mp hkept).1)

end Stored

end OwnMinutes.Finalization.Projection
