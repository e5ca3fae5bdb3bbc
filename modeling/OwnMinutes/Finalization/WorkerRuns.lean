import Mathlib.Logic.Function.Basic
import OwnMinutes.Deletion.Store
import OwnMinutes.Finalization.Worker
import OwnMinutes.Lib.Runs

/-! # Workers in any order

The finalization queue, the projections of the meetings and the workers. `runFinalizationWorkerOnce`
goes from one statement of the queue or one update of a projection to the next, and a worker may stop
after any of them; in between, others enqueue jobs and other workers run. An enqueue is one step: its
transaction and the projection it writes are under the write fence of the meeting. -/

namespace OwnMinutes.Finalization.WorkerRuns

open OwnMinutes.Lib.Keyed OwnMinutes.Lib.Outcome OwnMinutes.Lib.Runs OwnMinutes.Auth.ProcessingRoute
open OwnMinutes.Auth.Records OwnMinutes.Deletion.Store OwnMinutes.Finalization.Records
open OwnMinutes.Finalization.Queue OwnMinutes.Finalization.Projection OwnMinutes.Finalization.Worker

/-! ### The state -/

/-- Where a worker is in `runFinalizationWorkerOnce`. -/
inductive Phase
  | idle
  /-- in `failExhaustedJobs`, with the rows still to go through -/
  | sweeping (rows : List JobRow)
  | sweepFailing (job : JobRow) (current : MeetingFinalizationState) (rows : List JobRow)
  /-- in `runMeetingFinalization`, before the projection is written -/
  | running (job : JobRow)
  | started (job : JobRow) (processing : MeetingFinalizationState)
  | published (job : JobRow)
  /-- in the handler of an error -/
  | caught (job : JobRow) (error : WorkerError)
  | requeueing (job : JobRow) (availableAt : Timestamp)
  | failed (job : JobRow) (error : WorkerError)
  | failing (job : JobRow) (error : WorkerError) (current : MeetingFinalizationState)
  deriving DecidableEq, Repr

/-- The job whose heartbeats are sent. -/
def Phase.job? : Phase → Option JobRow
  | .idle | .sweeping _ | .sweepFailing _ _ _ => none
  | .running job | .started job _ | .published job | .caught job _ | .requeueing job _ | .failed job _
  | .failing job _ _ => some job

/-- The jobs that were put out of a worker's hands and whose projection is still to be updated. -/
def Phase.pending : Phase → List JobRow
  | .sweeping rows => rows
  | .sweepFailing job _ rows => job :: rows
  | .requeueing job _ | .failed job _ | .failing job _ _ => [job]
  | _ => []

structure FinalizationSystem where
  queue : QueueState := {}
  projections : MeetingId → Option StoredState := fun _ => none
  phases : WorkerId → Phase := fun _ => .idle

def FinalizationSystem.setQueue (s : FinalizationSystem) (queue : QueueState) : FinalizationSystem :=
  { s with queue }

def FinalizationSystem.setPhase (s : FinalizationSystem) (workerId : WorkerId) (phase : Phase) :
    FinalizationSystem :=
  { s with phases := Function.update s.phases workerId phase }

def FinalizationSystem.store (s : FinalizationSystem) (meetingId : MeetingId)
    (written : Option StoredState) : FinalizationSystem :=
  { s with
    projections := Function.update s.projections meetingId (written <|> s.projections meetingId) }

/-- The write fence. -/
def FinalizationSystem.allows (s : FinalizationSystem) (meetingId : MeetingId) : Bool :=
  isCanonicalMeetingId meetingId && !s.queue.tombstones.contains meetingId

/-! ### Steps -/

inductive WorkerCall
  | sweep
  | readSwept
  | failSwept
  | claim (skipped : List JobId) (leaseMs : ℕ)
  | start (title : String) (leaseMs : ℕ) (processingMode : UserProcessingMode) (audioRevision : String)
  | publishExisting (title : String) (leaseMs : ℕ) (processingMode : Option UserProcessingMode)
      (audioRevision : String) (operationKey : String) (resultGeneratedAt : Timestamp)
      (qualityStatus : QualityStatus)
  | publish (resultGeneratedAt : Timestamp) (qualityStatus : QualityStatus)
  /-- the run fails its projection with `failure`, and `error` reaches the worker -/
  | failRun (failure error : WorkerError)
  | raise (error : WorkerError)
  | complete
  | settle (availableAt : Timestamp)
  | requeue
  | readFailed
  | fail
  | heartbeat (leaseMs : ℕ)
  | crash
  deriving DecidableEq, Repr

inductive SystemCall
  | enqueue (jobId : JobId) (maxAttempts : ℕ) (input : EnqueueInput)
      (initialRoute : Option MeetingProcessingRoute)
  | worker (workerId : WorkerId) (call : WorkerCall)
  deriving DecidableEq, Repr

structure SystemEvent where
  now : Timestamp
  call : SystemCall
  deriving DecidableEq, Repr

def attemptsExhausted : WorkerError where
  code := "worker_attempts_exhausted"
  message := "Maximum worker attempts exhausted."
  retryable := false

def processingInProgressError : WorkerError where
  code := "processing_in_progress"
  message := "这场会议正在生成正式纪要，请稍后查看会议历史；若处理进程中断，可在租约过期后重试。"
  retryable := true

def leaseLostBeforePublishError : WorkerError where
  code := "worker_lease_lost_before_publish"
  message := "处理任务租约已失效，旧 Worker 不能发布完成状态。"
  retryable := true

section Messages

variable (sanitizeMessage : String → String)

/-- The projection of a meeting as it is read. -/
def FinalizationSystem.read (s : FinalizationSystem) (now : Timestamp) (meetingId : MeetingId) :
    Option MeetingFinalizationState :=
  readMeetingFinalizationState sanitizeMessage now meetingId (s.projections meetingId)

def enqueue (now : Timestamp) (jobId : JobId) (maxAttempts : ℕ) (input : EnqueueInput)
    (initialRoute : Option MeetingProcessingRoute) (s : FinalizationSystem) : FinalizationSystem :=
  if !s.allows input.meetingId then s
  else match enqueueMeetingFinalizationJob now jobId maxAttempts input initialRoute s.queue with
    | .error _ => s
    | .ok (job, queue) =>
      if job.status == .processing &&
          (s.read sanitizeMessage now job.meetingId).any (processedFor job) then
        s.setQueue queue
      else
        (s.setQueue queue).store job.meetingId (some (writeState (queueMeetingFinalization
          sanitizeMessage now (queueInput job job.availableAt) (s.projections job.meetingId))))

/-- A worker's update of the projection of a meeting; where the fence does not allow it, the worker goes to
`denied`. -/
def FinalizationSystem.update (s : FinalizationSystem) (workerId : WorkerId) (meetingId : MeetingId)
    (written : Option StoredState) (denied next : Phase) : FinalizationSystem :=
  if s.allows meetingId then (s.store meetingId written).setPhase workerId next
  else s.setPhase workerId denied

/-- What `startMeetingFinalization` is called with in a run of the job. -/
def startInput (job : JobRow) (title : String) (leaseMs : ℕ)
    (processingMode : Option UserProcessingMode) (operationKey audioRevision : String) :
    StartFinalizationInput where
  meetingId := job.meetingId
  ownerUserId := job.ownerUserId
  title
  leaseMs
  processingOperationKey := some operationKey
  processingMode
  audioRevision := some audioRevision

/-- The state that `completeExistingResult` completes, and what it stored before. -/
def existingState (now : Timestamp) (job : JobRow) (input : StartFinalizationInput)
    (stored : Option StoredState) : MeetingFinalizationState × Option StoredState :=
  match (readMeetingFinalizationState sanitizeMessage now job.meetingId stored).filter
      (·.ownerUserId == job.ownerUserId) with
  | some existing => (existing, none)
  | none => startMeetingFinalization sanitizeMessage now input stored

/-- The handler of an error in `runFinalizationWorkerOnce`, up to its statement of the queue. -/
def settle (now : Timestamp) (workerId : WorkerId) (job : JobRow) (error : WorkerError)
    (availableAt : Timestamp) (s : FinalizationSystem) : FinalizationSystem :=
  if error.code = "meeting_deleted" then
    (s.setQueue (cancelJob sanitizeMessage now job.id workerId error s.queue).2).setPhase workerId .idle
  else if error.retryable ∧ job.attempt < job.maxAttempts then
    match retryJobLater sanitizeMessage now job.id workerId error availableAt s.queue with
    | (none, _) => s.setPhase workerId .idle
    | (some _, queue) => (s.setQueue queue).setPhase workerId (.requeueing job availableAt)
  else
    match failJob sanitizeMessage now job.id workerId error s.queue with
    | (none, _) => s.setPhase workerId .idle
    | (some _, queue) => (s.setQueue queue).setPhase workerId (.failed job error)

/-- A step of a worker; `none` where it is not where the worker is. -/
def workerStep (now : Timestamp) (workerId : WorkerId) (call : WorkerCall) (s : FinalizationSystem) :
    Option FinalizationSystem :=
  match call, s.phases workerId with
  | .sweep, .idle =>
    let (rows, queue) := failExhaustedJobs now s.queue
    some ((s.setQueue queue).setPhase workerId (.sweeping rows))
  | .readSwept, .sweeping (job :: rows) =>
    match (s.read sanitizeMessage now job.meetingId).filter fun current =>
        current.ownerUserId == job.ownerUserId && current.status != .completed &&
          current.status != .failed with
    | none => some (s.setPhase workerId (.sweeping rows))
    | some current => some (s.setPhase workerId (.sweepFailing job current rows))
  | .failSwept, .sweepFailing _ current rows =>
    some (s.update workerId current.meetingId (failMeetingFinalization sanitizeMessage now current
      attemptsExhausted (s.projections current.meetingId)).2 .idle (.sweeping rows))
  | .claim skipped leaseMs, .sweeping [] =>
    match claimNextJob now skipped workerId leaseMs s.queue with
    | (none, _) => some (s.setPhase workerId .idle)
    | (some job, queue) => some ((s.setQueue queue).setPhase workerId (.running job))
  | .start title leaseMs processingMode audioRevision, .running job =>
    if isFinalizationLeaseActive now (s.read sanitizeMessage now job.meetingId) then
      some (s.setPhase workerId (.caught job processingInProgressError))
    else
      let (state, written) := startMeetingFinalization sanitizeMessage now
        (startInput job title leaseMs (some processingMode) (usageOperationKey job) audioRevision)
        (s.projections job.meetingId)
      some (s.update workerId job.meetingId written (.caught job meetingDeleted) (.started job state))
  | .publishExisting title leaseMs processingMode audioRevision operationKey resultGeneratedAt
      qualityStatus, .running job =>
    let (state, written) := existingState sanitizeMessage now job
      (startInput job title leaseMs processingMode operationKey audioRevision)
      (s.projections job.meetingId)
    let completed := completeMeetingFinalization sanitizeMessage now state resultGeneratedAt
      qualityStatus (written <|> s.projections job.meetingId)
    some (s.update workerId job.meetingId (completed.2 <|> written) (.caught job meetingDeleted)
      (.published job))
  | .publish resultGeneratedAt qualityStatus, .started job state =>
    some (s.update workerId state.meetingId (completeMeetingFinalization sanitizeMessage now state
      resultGeneratedAt qualityStatus (s.projections state.meetingId)).2 (.caught job meetingDeleted)
      (.published job))
  | .failRun failure error, .started job state =>
    some (s.update workerId state.meetingId (failMeetingFinalization sanitizeMessage now state failure
      (s.projections state.meetingId)).2 (.caught job meetingDeleted) (.caught job error))
  | .raise error, .running job | .raise error, .started job _ | .raise error, .published job =>
    some (s.setPhase workerId (.caught job error))
  | .complete, .published job =>
    match completeJob now job.id workerId s.queue with
    | .error _ => some (s.setPhase workerId (.caught job leaseLostBeforePublishError))
    | .ok ((), queue) => some ((s.setQueue queue).setPhase workerId .idle)
  | .settle availableAt, .caught job error =>
    some (settle sanitizeMessage now workerId job error availableAt s)
  | .requeue, .requeueing job availableAt =>
    some (s.update workerId job.meetingId (some (writeState (queueMeetingFinalization sanitizeMessage now
      (queueInput job availableAt) (s.projections job.meetingId)))) .idle .idle)
  | .readFailed, .failed job error =>
    match (s.read sanitizeMessage now job.meetingId).filter fun current =>
        current.ownerUserId == job.ownerUserId && current.status != .failed with
    | none => some (s.setPhase workerId .idle)
    | some current => some (s.setPhase workerId (.failing job error current))
  | .fail, .failing _ error current =>
    some (s.update workerId current.meetingId (failMeetingFinalization sanitizeMessage now current
      { error with retryable := false } (s.projections current.meetingId)).2 .idle .idle)
  | .heartbeat leaseMs, phase =>
    phase.job?.map fun job =>
      let (_, queue, stored) := heartbeat sanitizeMessage now job workerId leaseMs
        (s.allows job.meetingId) s.queue (s.projections job.meetingId)
      (s.setQueue queue).store job.meetingId stored
  | .crash, _ => some (s.setPhase workerId .idle)
  | _, _ => none

@[simp] theorem workerStep_crash {now : Timestamp} {workerId : WorkerId} {s : FinalizationSystem} :
    workerStep sanitizeMessage now workerId .crash s = some (s.setPhase workerId .idle) := by
  simp only [workerStep]

def systemStep (e : SystemEvent) (s : FinalizationSystem) : Option FinalizationSystem :=
  match e.call with
  | .enqueue jobId maxAttempts input initialRoute =>
    some (enqueue sanitizeMessage e.now jobId maxAttempts input initialRoute s)
  | .worker workerId call => workerStep sanitizeMessage e.now workerId call s

def SystemStep (s : FinalizationSystem) (e : SystemEvent) (t : FinalizationSystem) : Prop :=
  systemStep sanitizeMessage e s = some t

end Messages

end OwnMinutes.Finalization.WorkerRuns
