import OwnMinutes.Finalization.Projection
import OwnMinutes.Finalization.Queue

/-! # A worker and the projection

What `finalization-queue.ts` does with the projection of a job's meeting: the job row and the projection
are kept by different stores, and each call below is one update of the projection with the statements
of the queue around it. -/

namespace OwnMinutes.Finalization.Worker

open OwnMinutes.Lib.Keyed OwnMinutes.Auth.ProcessingRoute OwnMinutes.Auth.Records
open OwnMinutes.Finalization.Records OwnMinutes.Finalization.Queue
open OwnMinutes.Finalization.Projection

/-- What `queueMeetingFinalization` is called with for a job. -/
def queueInput (job : JobRow) (nextAttemptAt : Timestamp) : QueueFinalizationInput where
  meetingId := job.meetingId
  ownerUserId := job.ownerUserId
  title := job.title
  jobId := job.id
  processingOperationKey := job.processingOperationKey
  processingMode := job.processingMode
  audioRevision := job.audioRevision
  nextAttemptAt := some nextAttemptAt

/-- The operation key a worker runs a job with. -/
def usageOperationKey (job : JobRow) : String :=
  (job.processingOperationKey.filter (· ≠ "")).getD
    (if job.forceRegenerate then reprocessMeetingOperationKey job.meetingId job.id
    else initialMeetingOperationKey job.meetingId)

/-- The comparison of `enqueueMeetingFinalizationJobUnsafe` and of `heartbeatJob`: the projection is that
of the job, being processed. -/
def processedFor (job : JobRow) (current : MeetingFinalizationState) : Bool :=
  current.status == .processing && current.jobId == some job.id &&
    current.processingOperationKey == job.processingOperationKey &&
    current.audioRevision == job.audioRevision

/-- The identity under which a job's heartbeats refresh the projection. -/
def jobIdentity (job : JobRow) : FinalizationIdentity where
  ownerUserId := job.ownerUserId
  jobId := some job.id
  processingOperationKey := job.processingOperationKey
  audioRevision := job.audioRevision

/-! ### Heartbeats -/

inductive HeartbeatError
  | queue (error : QueueError)
  | meetingDeleted
  deriving DecidableEq, Repr

def projectionLeaseLost : WorkerError where
  code := "worker_projection_lease_lost"
  message := "The durable processing projection belongs to a different finalization run."
  retryable := false

def meetingDeleted : WorkerError where
  code := "meeting_deleted"
  message := "This meeting was deleted and cannot accept more writes."
  retryable := false

def projectionLost : HeartbeatError :=
  .queue (.plain "Finalization projection lease is no longer owned by this job.")

section Messages

variable (sanitizeMessage : String → String)

/-- `heartbeatJob` after its first statement; `allowed` is the answer of the write fence. -/
def heartbeatProjection (now : Timestamp) (job : JobRow) (workerId : WorkerId) (leaseMs : ℕ)
    (allowed : Bool) (s : QueueState) (stored : Option StoredState) :
    Except HeartbeatError Unit × QueueState × Option StoredState :=
  if !allowed then
    (.error .meetingDeleted,
      (cancelJob sanitizeMessage now job.id workerId meetingDeleted s).2, stored)
  else
    let (refreshed, written) := refreshMeetingFinalizationLease sanitizeMessage now job.meetingId
      (jobIdentity job) leaseMs stored
    if refreshed.any (processedFor job) then (.ok (), s, written <|> stored)
    else (.error projectionLost,
      (cancelJob sanitizeMessage now job.id workerId projectionLeaseLost s).2, written <|> stored)

def heartbeat (now : Timestamp) (job : JobRow) (workerId : WorkerId) (leaseMs : ℕ) (allowed : Bool)
    (s : QueueState) (stored : Option StoredState) :
    Except HeartbeatError Unit × QueueState × Option StoredState :=
  match heartbeatJob now job.id workerId leaseMs s with
  | .error e => (.error (.queue e), s, stored)
  | .ok ((), s) => heartbeatProjection sanitizeMessage now job workerId leaseMs allowed s stored

end Messages

end OwnMinutes.Finalization.Worker
