import OwnMinutes.Auth.Records

/-! # Finalization jobs

The rows of `meeting_finalization_jobs` and the errors of the finalization queue. -/

namespace OwnMinutes.Finalization.Records

open OwnMinutes.Lib.Keyed OwnMinutes.Auth.ProcessingRoute OwnMinutes.Auth.Records

abbrev JobId := String
abbrev WorkerId := String

/-! ### Operation keys -/

def initialMeetingOperationKey (meetingId : MeetingId) : String :=
  "meeting:" ++ meetingId ++ ":initial"

def reprocessMeetingOperationKey (meetingId stableAttemptId : String) : String :=
  "meeting:" ++ meetingId ++ ":reprocess:" ++ stableAttemptId

/-! ### Jobs -/

inductive MeetingContentLocale
  | en | zhHans | zhHant
  deriving DecidableEq, Repr

def DEFAULT_MEETING_CONTENT_LOCALE : MeetingContentLocale := .zhHans

inductive FinalizationJobStatus
  | queued | processing | retryWait | completed | failed | cancelled
  deriving DecidableEq, Repr

/-- `status in ('queued','processing','retry_wait')`. -/
def FinalizationJobStatus.active : FinalizationJobStatus → Bool
  | .queued | .processing | .retryWait => true
  | _ => false

structure JobRow where
  id : JobId
  meetingId : MeetingId
  ownerUserId : UserId
  title : String
  contentLocale : MeetingContentLocale
  forceRegenerate : Bool
  processingOperationKey : Option String
  audioRevision : Option String
  processingMode : Option UserProcessingMode
  status : FinalizationJobStatus := .queued
  attempt : ℕ := 0
  maxAttempts : ℕ
  availableAt : Timestamp
  lockedAt : Option Timestamp := none
  lockedBy : Option WorkerId := none
  leaseExpiresAt : Option Timestamp := none
  completedAt : Option Timestamp := none
  failedAt : Option Timestamp := none
  lastErrorCode : Option String := none
  lastErrorMessage : Option String := none
  createdAt : Timestamp
  updatedAt : Timestamp
  deriving DecidableEq, Repr

instance : HasKey JobRow JobId := ⟨JobRow.id⟩

/-- `locked_by = $2`. -/
def JobRow.heldBy (workerId : WorkerId) (row : JobRow) : Bool := row.lockedBy == some workerId

/-- `audio_revision ~ '^[0-9a-f]{64}$'`. -/
def validAudioRevision (audioRevision : String) : Bool :=
  audioRevision.length == 64 && audioRevision.all fun c => c.isDigit || ('a' ≤ c && c ≤ 'f')

/-- The check constraints of the table. -/
def JobRow.valid (row : JobRow) : Bool :=
  1 ≤ row.maxAttempts && row.maxAttempts ≤ 20 &&
    row.processingOperationKey.all (fun key => 1 ≤ key.length && key.length ≤ 240) &&
    row.audioRevision.all validAudioRevision

/-! ### Errors -/

/-- `MeetingFinalizationError`, without the state it may carry. -/
structure FinalizationError where
  message : String
  status : ℕ := 500
  code : String := "processing_failed"
  retryable : Bool := decide (500 ≤ status)
  deriving DecidableEq, Repr

/-- What a call of the queue throws: an error of the routes, or a plain one. -/
inductive QueueError
  | finalization (error : FinalizationError)
  | plain (message : String)
  deriving DecidableEq, Repr

def legacyProcessingMode : QueueError :=
  .finalization
    { message := "这场旧会议使用了已停用的混合处理方式，为避免误扣费，请导出录音后新建会议。", status := 409
      code := "legacy_meeting_processing_mode_unavailable", retryable := false }

def processingModeFixedAtStart : QueueError :=
  .finalization
    { message := "这场会议的处理方式已在开始时固定，不能在上传或重试时更换。", status := 409
      code := "meeting_processing_mode_conflict", retryable := false }

def processingModeFixedInQueue : QueueError :=
  .finalization
    { message := "这场会议的处理方式已在排队时固定，不能在重试时更换。", status := 409
      code := "meeting_processing_mode_conflict", retryable := false }

def processingInProgress : QueueError :=
  .finalization
    { message := "这场会议正在处理另一次纪要生成请求，请等待完成后再重新生成。", status := 409
      code := "processing_in_progress", retryable := true }

def jobOfAnotherUser : QueueError := .plain "Meeting finalization job belongs to another user."

def jobConstraintViolation : QueueError := .plain "constraint violation"

def jobLeaseNotOwned : QueueError :=
  .plain "Finalization job lease is no longer owned by this worker."

def leaseLostBeforePublish : QueueError :=
  .finalization
    { message := "处理任务租约已失效，旧 Worker 不能发布完成状态。", status := 503
      code := "worker_lease_lost_before_publish", retryable := true }

/-- The error a worker records. -/
structure WorkerError where
  code : String
  message : String
  retryable : Bool
  deriving DecidableEq, Repr

end OwnMinutes.Finalization.Records
