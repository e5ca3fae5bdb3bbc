import Mathlib.Data.List.MinMax
import Mathlib.Data.Prod.Lex
import OwnMinutes.Finalization.Records
import OwnMinutes.Lib.Outcome

/-! # The finalization queue

The statements and transactions of `finalization-queue.ts` on the table of jobs. Each is atomic: it
reads the clock of the database once and leaves the table as it was where it throws. The deletion
tombstones are read by some of them and written by none. -/

namespace OwnMinutes.Finalization.Queue

open OwnMinutes.Lib.Keyed OwnMinutes.Lib.Outcome OwnMinutes.Auth.ProcessingRoute
open OwnMinutes.Auth.Records OwnMinutes.Finalization.Records

/-- The jobs, and the meetings that have a deletion tombstone. -/
structure QueueState where
  jobs : Table JobRow := .empty
  tombstones : List MeetingId := []

/-- `update meeting_finalization_jobs set … where id = $1 and p returning *`. -/
def updateJob (s : QueueState) (jobId : JobId) (p : JobRow → Bool) (f : JobRow → JobRow) :
    Option JobRow × QueueState :=
  match (s.jobs.get? jobId).filter p with
  | none => (none, s)
  | some row => (some (f row), { s with jobs := s.jobs.replace (f row) })

/-! ### Enqueueing -/

/-- What `enqueueMeetingFinalizationJob` is called with. -/
structure EnqueueInput where
  meetingId : MeetingId
  ownerUserId : UserId
  title : String
  force : Bool := false
  contentLocale : Option MeetingContentLocale := none
  processingOperationKey : Option String := none
  audioRevision : Option String := none
  processingMode : Option UserProcessingMode := none
  deriving DecidableEq, Repr

/-- The mode asked for; `initialRoute` is the route of the reservation for the meeting's initial
operation key, if there is one. -/
def requestedProcessingMode (input : EnqueueInput) (initialRoute : Option MeetingProcessingRoute) :
    Except QueueError UserProcessingMode :=
  let requested := input.processingMode.getD .officialQuota
  if input.force then .ok requested
  else match initialRoute with
    | none => .ok requested
    | some .hybrid => .error legacyProcessingMode
    | some .byok =>
      if input.processingMode = some .officialQuota then .error processingModeFixedAtStart
      else .ok .byok
    | some .officialQuota =>
      if input.processingMode = some .byok then .error processingModeFixedAtStart
      else .ok .officialQuota

/-- The active job of the meeting created last. -/
def activeJob (s : QueueState) (meetingId : MeetingId) : Option JobRow :=
  (s.jobs.rows.filter fun row => row.meetingId == meetingId && row.status.active).argmax
    (·.createdAt)

/-- An active job with what it lacks filled in. -/
def hydratedJob (now : Timestamp) (input : EnqueueInput) (requested : UserProcessingMode)
    (row : JobRow) : JobRow :=
  let processingOperationKey := input.processingOperationKey.getD
    (if row.forceRegenerate then
      reprocessMeetingOperationKey input.meetingId ((input.audioRevision.filter (· ≠ "")).getD row.id)
    else initialMeetingOperationKey input.meetingId)
  { row with
    processingOperationKey := row.processingOperationKey <|> some processingOperationKey
    audioRevision := row.audioRevision <|> input.audioRevision
    processingMode := row.processingMode <|> some requested
    updatedAt :=
      if row.processingOperationKey = none ∨ (row.audioRevision = none ∧ input.audioRevision ≠ none) ∨
          row.processingMode = none then now
      else row.updatedAt }

/-- A new job. -/
def queuedJob (now : Timestamp) (jobId : JobId) (maxAttempts : ℕ) (input : EnqueueInput)
    (requested : UserProcessingMode) : JobRow where
  id := jobId
  meetingId := input.meetingId
  ownerUserId := input.ownerUserId
  title := input.title
  contentLocale := input.contentLocale.getD DEFAULT_MEETING_CONTENT_LOCALE
  forceRegenerate := input.force
  processingOperationKey := some (input.processingOperationKey.getD
    (if input.force then
      reprocessMeetingOperationKey input.meetingId ((input.audioRevision.filter (· ≠ "")).getD jobId)
    else initialMeetingOperationKey input.meetingId))
  audioRevision := input.audioRevision
  processingMode := some requested
  maxAttempts
  availableAt := now
  createdAt := now
  updatedAt := now

/-- The transaction of `enqueueMeetingFinalizationJob`, under the advisory lock of the meeting. -/
def enqueueTransaction (now : Timestamp) (jobId : JobId) (maxAttempts : ℕ) (input : EnqueueInput)
    (requested : UserProcessingMode) (s : QueueState) : Except QueueError (JobRow × QueueState) :=
  match activeJob s input.meetingId with
  | some existing =>
    if existing.ownerUserId ≠ input.ownerUserId then .error jobOfAnotherUser
    else if existing.processingMode.any (· != requested) then .error processingModeFixedInQueue
    else if (input.processingOperationKey.filter (· ≠ "")).any fun key =>
        existing.processingOperationKey.any (· != key) then .error processingInProgress
    else
      let row := hydratedJob now input requested existing
      if row.valid then .ok (row, { s with jobs := s.jobs.replace row })
      else .error jobConstraintViolation
  | none =>
    let row := queuedJob now jobId maxAttempts input requested
    if row.valid ∧ s.jobs.Fresh jobId then .ok (row, { s with jobs := s.jobs.insert row })
    else .error jobConstraintViolation

/-- The job of `enqueueMeetingFinalizationJob`; the projection is written after it. -/
def enqueueMeetingFinalizationJob (now : Timestamp) (jobId : JobId) (maxAttempts : ℕ)
    (input : EnqueueInput) (initialRoute : Option MeetingProcessingRoute) (s : QueueState) :
    Except QueueError (JobRow × QueueState) := do
  let requested ← requestedProcessingMode input initialRoute
  enqueueTransaction now jobId maxAttempts input requested s

/-! ### Workers -/

/-- The meeting is not deleted, attempts are left, and nobody works on the job. -/
def claimable (now : Timestamp) (tombstones : List MeetingId) (row : JobRow) : Bool :=
  row.attempt < row.maxAttempts && !tombstones.contains row.meetingId &&
    ((row.status == .queued || row.status == .retryWait) && decide (row.availableAt ≤ now) ||
      row.status == .processing && row.leaseExpiresAt.any (· < now))

/-- `order by available_at asc, created_at asc for update skip locked limit 1`: `skipped` are the
rows that other transactions hold. -/
def claimCandidate (now : Timestamp) (skipped : List JobId) (s : QueueState) : Option JobRow :=
  (s.jobs.rows.filter fun row =>
    claimable now s.tombstones row && !skipped.contains row.id).argmin
    fun row => toLex (row.availableAt, row.createdAt)

def claimedJob (now : Timestamp) (workerId : WorkerId) (leaseMs : ℕ) (row : JobRow) : JobRow :=
  { row with
    status := .processing
    attempt := row.attempt + 1
    lockedAt := some now
    lockedBy := some workerId
    leaseExpiresAt := some (now + leaseMs)
    updatedAt := now
    lastErrorCode := none
    lastErrorMessage := none }

def claimNextJob (now : Timestamp) (skipped : List JobId) (workerId : WorkerId) (leaseMs : ℕ)
    (s : QueueState) : Option JobRow × QueueState :=
  match claimCandidate now skipped s with
  | none => (none, s)
  | some row =>
    let row := claimedJob now workerId leaseMs row
    (some row, { s with jobs := s.jobs.replace row })

/-- A job put out of a worker's hands. -/
def unlocked (now : Timestamp) (status : FinalizationJobStatus) (row : JobRow) : JobRow :=
  { row with status, updatedAt := now, lockedAt := none, lockedBy := none, leaseExpiresAt := none }

def exhausted (now : Timestamp) (tombstones : List MeetingId) (row : JobRow) : Bool :=
  row.status.active && decide (row.maxAttempts ≤ row.attempt) &&
    (row.status != .processing || row.leaseExpiresAt.any (· < now)) &&
    !tombstones.contains row.meetingId

def exhaustedJob (now : Timestamp) (row : JobRow) : JobRow :=
  { unlocked now .failed row with
    failedAt := some now
    lastErrorCode := some "worker_attempts_exhausted"
    lastErrorMessage := some "Maximum worker attempts exhausted." }

theorem exhaustedJob_key (now : Timestamp) (row : JobRow) :
    HasKey.key (exhaustedJob now row) = HasKey.key row := rfl

/-- The statement of `failExhaustedJobs`, and the rows it returns. -/
def failExhaustedJobs (now : Timestamp) (s : QueueState) : List JobRow × QueueState :=
  ((s.jobs.rows.filter (exhausted now s.tombstones)).map (exhaustedJob now),
    { s with
      jobs := s.jobs.updateWhere (exhausted now s.tombstones) (exhaustedJob now)
        (exhaustedJob_key now) })

/-- The first statement of `heartbeatJob`. -/
def heartbeatJob (now : Timestamp) (jobId : JobId) (workerId : WorkerId) (leaseMs : ℕ)
    (s : QueueState) : Except QueueError (Unit × QueueState) :=
  match updateJob s jobId (fun row => row.heldBy workerId && row.status == .processing)
      (fun row => { row with leaseExpiresAt := some (now + leaseMs), updatedAt := now }) with
  | (none, _) => .error jobLeaseNotOwned
  | (some _, s) => .ok ((), s)

def hasActiveJobLease (now : Timestamp) (jobId : JobId) (workerId : WorkerId) (s : QueueState) : Bool :=
  (s.jobs.get? jobId).any fun row =>
    row.heldBy workerId && row.status == .processing && row.leaseExpiresAt.any (now < ·)

def completeJob (now : Timestamp) (jobId : JobId) (workerId : WorkerId) (s : QueueState) :
    Except QueueError (Unit × QueueState) :=
  match updateJob s jobId
      (fun row => row.heldBy workerId && row.status == .processing &&
        row.leaseExpiresAt.any (now < ·))
      (fun row => { unlocked now .completed row with completedAt := some now }) with
  | (none, _) => .error leaseLostBeforePublish
  | (some _, s) => .ok ((), s)

section Sanitized

variable (sanitizeMessage : String → String)

/-- A job given up for `error`. -/
def recordedError (error : WorkerError) (row : JobRow) : JobRow :=
  { row with
    lastErrorCode := some error.code
    lastErrorMessage := some (sanitizeMessage error.message) }

def retryJobLater (now : Timestamp) (jobId : JobId) (workerId : WorkerId) (error : WorkerError)
    (availableAt : Timestamp) (s : QueueState) : Option JobRow × QueueState :=
  updateJob s jobId (·.heldBy workerId) fun row =>
    recordedError sanitizeMessage error { unlocked now .retryWait row with availableAt }

def failJob (now : Timestamp) (jobId : JobId) (workerId : WorkerId) (error : WorkerError)
    (s : QueueState) : Option JobRow × QueueState :=
  updateJob s jobId (·.heldBy workerId) fun row =>
    recordedError sanitizeMessage error { unlocked now .failed row with failedAt := some now }

def cancelJob (now : Timestamp) (jobId : JobId) (workerId : WorkerId) (error : WorkerError)
    (s : QueueState) : Option JobRow × QueueState :=
  updateJob s jobId (·.heldBy workerId) fun row =>
    recordedError sanitizeMessage error (unlocked now .cancelled row)

end Sanitized

/-- `meeting_id = $1 and owner_user_id = $2 and status in (…)`. -/
def activeOf (meetingId : MeetingId) (ownerUserId : UserId) (row : JobRow) : Bool :=
  row.meetingId == meetingId && row.ownerUserId == ownerUserId && row.status.active

theorem unlocked_key (now : Timestamp) (status : FinalizationJobStatus) (row : JobRow) :
    HasKey.key (unlocked now status row) = HasKey.key row := rfl

def cancelMeetingFinalizationJobs (now : Timestamp) (meetingId : MeetingId) (ownerUserId : UserId)
    (s : QueueState) : QueueState :=
  { s with
    jobs := s.jobs.updateWhere (activeOf meetingId ownerUserId) (unlocked now .cancelled)
      (unlocked_key now .cancelled) }

end OwnMinutes.Finalization.Queue
