import OwnMinutes.Auth.Records
import OwnMinutes.Lib.Runs
import Mathlib.Logic.Function.Basic

/-! # Cleanup jobs of deleted accounts

`account-deletion-state.ts`, `account-deletion-cleanup-worker.ts` and the `DELETE` handler of the account route, in
PostgreSQL mode. The handler schedules a cleanup job and deletes the account after that; any number of calls of
`runAccountDeletionObjectCleanupOnce` claim the jobs. A statement or a transaction is one step. Its answer may get lost,
a handler or a call may stop anywhere, and heartbeats that are under way outlive their call. -/

namespace OwnMinutes.Deletion.AccountCleanup

open OwnMinutes.Auth.ProcessingRoute OwnMinutes.Auth.Records

/-! ### Tables -/

inductive JobStatus
  | pending
  | processing
  deriving DecidableEq, Repr

/-- A row of `account_deletion_cleanup_jobs`, but for its key `user_id`. -/
structure CleanupJob where
  status : JobStatus := .pending
  attempt : ℕ := 0
  availableAt : Timestamp
  claimedAt : Option Timestamp := none
  claimedBy : Option String := none
  claimToken : Option ClaimToken := none
  lastError : Option String := none
  createdAt : Timestamp
  updatedAt : Timestamp
  deadLetteredAt : Option Timestamp := none
  manualReplayCount : ℕ := 0
  lastReplayedAt : Option Timestamp := none
  lastReplayedByRef : Option String := none
  deriving DecidableEq, Repr

/-- The row of each user, where there is one. -/
abbrev JobTable := UserId → Option CleanupJob

/-- What the jobs need of `users`: `deleted_at` of each row. -/
abbrev UserTable := UserId → Option (Option Timestamp)

def isActive (users : UserTable) (userId : UserId) : Bool := users userId == some none

def isDeleted (users : UserTable) (userId : UserId) : Bool := (users userId).any Option.isSome

/-- `update … where user_id = $1 and …`, and whether it wrote the row. -/
def updateJob (userId : UserId) (p : CleanupJob → Bool) (f : CleanupJob → CleanupJob) (jobs : JobTable) :
    Bool × JobTable :=
  match (jobs userId).filter p with
  | none => (false, jobs)
  | some job => (true, Function.update jobs userId (some (f job)))

/-- `delete … where user_id = $1 and …`, and whether there was such a row. -/
def deleteJob (userId : UserId) (p : CleanupJob → Bool) (jobs : JobTable) : Bool × JobTable :=
  match (jobs userId).filter p with
  | none => (false, jobs)
  | some _ => (true, Function.update jobs userId none)

/-! ### Scheduling -/

def scheduledJob (now : Timestamp) : CleanupJob := { availableAt := now, createdAt := now, updatedAt := now }

def rescheduledJob (now : Timestamp) (job : CleanupJob) : CleanupJob :=
  { job with
    status := .pending, attempt := 0, availableAt := now, claimedAt := none, claimedBy := none, claimToken := none
    lastError := none, deadLetteredAt := none, updatedAt := now }

def scheduleAccountDeletionCleanup (now : Timestamp) (userId : UserId) (jobs : JobTable) : JobTable :=
  Function.update jobs userId (some (((jobs userId).map (rescheduledJob now)).getD (scheduledJob now)))

def cancelAccountDeletionCleanupForActiveUser (users : UserTable) (userId : UserId) (jobs : JobTable) :
    Bool × JobTable :=
  deleteJob userId (fun _ => isActive users userId) jobs

def hasPendingAccountDeletionCleanup (userId : UserId) (jobs : JobTable) : Bool := (jobs userId).isSome

inductive AccountDeletionStatus
  | active
  | pendingCleanup
  | deleted
  deriving DecidableEq, Repr

/-- What `resolveAccountDeletionStatus` reads, one after the other. -/
structure StatusReads where
  active : Bool
  processingPending : Bool
  objectCleanupPending : Bool
  discoveryPending : Bool
  catalogCleanupPending : Bool
  catalogCoveragePending : Bool
  transferPending : Bool

def resolveAccountDeletionStatus (reads : StatusReads) : AccountDeletionStatus :=
  if reads.active then .active
  else if reads.processingPending || reads.objectCleanupPending || reads.discoveryPending ||
      reads.catalogCleanupPending || reads.catalogCoveragePending || reads.transferPending then .pendingCleanup
  else .deleted

/-! ### Claims -/

def accountDeletionCleanupMaxAttempts : ℕ := 12

/-- Five minutes. -/
def CLAIM_MS : ℕ := 5 * 60 * 1000

structure CleanupClaim where
  attempt : ℕ
  claimToken : ClaimToken
  userId : UserId
  deriving DecidableEq, Repr

def isDue (users : UserTable) (now : Timestamp) (userId : UserId) (job : CleanupJob) : Bool :=
  isDeleted users userId && job.deadLetteredAt.isNone && decide (job.availableAt ≤ now) &&
    job.claimedAt.all fun claimedAt => decide (claimedAt + CLAIM_MS < now)

def claimedJob (now : Timestamp) (workerId : String) (claimToken : ClaimToken) (job : CleanupJob) : CleanupJob :=
  { job with
    status := .processing, attempt := job.attempt + 1, claimedAt := some now, claimedBy := some workerId
    claimToken := some claimToken, updatedAt := now }

/-- The transaction of `claimCleanup`. `chosen` is the job that comes first among those no other transaction holds; any
of them may. -/
def claimCleanup (users : UserTable) (now : Timestamp) (workerId : String) (chosen : UserId) (claimToken : ClaimToken)
    (jobs : JobTable) : Option (CleanupClaim × JobTable) :=
  ((jobs chosen).filter (isDue users now chosen)).map fun job =>
    (⟨job.attempt + 1, claimToken, chosen⟩,
      Function.update jobs chosen (some (claimedJob now workerId claimToken job)))

def CleanupClaim.holds (claim : CleanupClaim) (job : CleanupJob) : Bool := job.claimToken == some claim.claimToken

def heartbeatCleanup (now : Timestamp) (claim : CleanupClaim) (jobs : JobTable) : Bool × JobTable :=
  updateJob claim.userId
    (fun job => claim.holds job && job.status == .processing && job.deadLetteredAt.isNone)
    (fun job => { job with claimedAt := some now, updatedAt := now }) jobs

/-- The statement that ends `runAccountDeletionObjectCleanupOnce`. -/
def completeCleanup (claim : CleanupClaim) (jobs : JobTable) : Bool × JobTable :=
  deleteJob claim.userId claim.holds jobs

def accountDeletionCleanupRetryDelayMs (attempt : ℕ) : ℕ :=
  min (60 * 60 * 1000) (15000 * 2 ^ min 8 (attempt - 1))

def deadLetteredJob (now : Timestamp) (error : String) (job : CleanupJob) : CleanupJob :=
  { job with
    status := .pending, availableAt := now, claimedAt := none, claimedBy := none, claimToken := none
    lastError := some error, deadLetteredAt := some now, updatedAt := now }

def retriedJob (now : Timestamp) (retryAfterMs : ℕ) (error : String) (job : CleanupJob) : CleanupJob :=
  { job with
    status := .pending, availableAt := now + retryAfterMs, claimedAt := none, claimedBy := none, claimToken := none
    lastError := some error, deadLetteredAt := none, updatedAt := now }

/-- What a call answers once it has claimed a job. -/
inductive CleanupAnswer
  | cleaned
  | superseded
  | deadLettered
  | retried (retryAfterMs : ℕ)
  deriving DecidableEq, Repr

def retryCleanup (sanitize : String → String) (now : Timestamp) (claim : CleanupClaim) (error : String)
    (jobs : JobTable) : CleanupAnswer × JobTable :=
  if accountDeletionCleanupMaxAttempts ≤ claim.attempt then
    let written := updateJob claim.userId claim.holds (deadLetteredJob now (sanitize error)) jobs
    (if written.1 then .deadLettered else .superseded, written.2)
  else
    let retryAfterMs := accountDeletionCleanupRetryDelayMs claim.attempt
    let written := updateJob claim.userId claim.holds (retriedJob now retryAfterMs (sanitize error)) jobs
    (if written.1 then .retried retryAfterMs else .superseded, written.2)

def replayedJob (now : Timestamp) (operatorRef : String) (job : CleanupJob) : CleanupJob :=
  { job with
    status := .pending, attempt := 0, availableAt := now, claimedAt := none, claimedBy := none, claimToken := none
    lastError := none, deadLetteredAt := none, manualReplayCount := job.manualReplayCount + 1
    lastReplayedAt := some now, lastReplayedByRef := some operatorRef, updatedAt := now }

def replayDeadLetteredAccountDeletionCleanup (users : UserTable) (now : Timestamp) (userId : UserId)
    (operatorRef : String) (jobs : JobTable) : Except String JobTable :=
  let written := updateJob userId (fun job => isDeleted users userId && job.deadLetteredAt.isSome)
    (replayedJob now operatorRef) jobs
  if written.1 then .ok written.2
  else .error "A dead-lettered cleanup job was not found for the supplied deleted account."

/-! ### Calls and requests -/

/-- A statement is executed and answered, executed without an answer, or not executed. -/
inductive Delivery
  | answered
  | lost (message : String)
  | failed (message : String)
  deriving DecidableEq, Repr

def Delivery.executed : Delivery → Bool
  | answered => true
  | lost _ => true
  | failed _ => false

def Delivery.error : Delivery → Option String
  | answered => none
  | lost message => some message
  | failed message => some message

/-- What a statement leaves. -/
def Delivery.leaves {α : Type} (delivery : Delivery) (before after : α) : α :=
  if delivery.executed then after else before

/-- How `deleteAllUserMeetings` ends. -/
inductive DeletionOutcome
  | returned (cleanupPending : Bool)
  | threw (message : String)
  deriving DecidableEq, Repr

inductive CallPhase
  | deleting
  | completing
  /-- `caught`: an error of the retry is caught, and retried once more. -/
  | retrying (error : String) (caught : Bool)
  | ended (answer : Option CleanupAnswer)
  deriving DecidableEq, Repr

/-- A call of `runAccountDeletionObjectCleanupOnce` that has claimed a job. -/
structure CleanupCall where
  claim : CleanupClaim
  aborted : Bool := false
  phase : CallPhase := .deleting
  deriving DecidableEq, Repr

def afterDeletion (aborted : Bool) : DeletionOutcome → CallPhase
  | .returned cleanupPending =>
    if aborted then .ended (some .superseded)
    else if cleanupPending then .retrying "One or more meeting prefixes still require deletion." true
    else .completing
  | .threw message => if aborted then .ended (some .superseded) else .retrying message false

/-- After the statement that completes a cleanup: an error is caught and retried, unless the call is aborted. -/
def afterCompletion (aborted removed : Bool) (delivery : Delivery) : CallPhase :=
  match delivery.error with
  | none => .ended (some (if removed then .cleaned else .superseded))
  | some message => if aborted then .ended (some .superseded) else .retrying message false

/-- After the statement that puts a job off: that of a deletion that is not done is inside the `try`. -/
def afterRetry (aborted caught : Bool) (answer : CleanupAnswer) (delivery : Delivery) : CallPhase :=
  match delivery.error with
  | none => .ended (some answer)
  | some message =>
    if !caught then .ended none else if aborted then .ended (some .superseded) else .retrying message false

/-- The `DELETE` handler, from the status `active` on. -/
inductive RequestPhase
  | entered
  | scheduled
  | failed
  deriving DecidableEq, Repr

/-- `withUserWriteLock` lets in one request of a user at a time. -/
structure System where
  users : UserTable := fun _ => none
  jobs : JobTable := fun _ => none
  requests : UserId → Option RequestPhase := fun _ => none
  calls : ClaimToken → Option CleanupCall := fun _ => none

inductive Action
  | register (userId : UserId)
  | enter (userId : UserId)
  | schedule (userId : UserId) (delivery : Delivery)
  | deleteAccount (userId : UserId) (delivery : Delivery)
  | cancel (userId : UserId) (delivery : Delivery)
  | leave (userId : UserId)
  | claim (workerId : String) (userId : UserId) (claimToken : ClaimToken) (delivery : Delivery)
  | heartbeat (claimToken : ClaimToken) (delivery : Delivery)
  | deletionEnds (claimToken : ClaimToken) (outcome : DeletionOutcome)
  | complete (claimToken : ClaimToken) (delivery : Delivery)
  | retry (claimToken : ClaimToken) (delivery : Delivery)
  | stop (claimToken : ClaimToken)
  | replay (userId : UserId) (operatorRef : String)
  deriving DecidableEq, Repr

structure Label where
  now : Timestamp
  action : Action
  deriving DecidableEq, Repr

def System.setRequest (s : System) (userId : UserId) (phase : Option RequestPhase) : System :=
  { s with requests := Function.update s.requests userId phase }

def System.setCall (s : System) (call : CleanupCall) : System :=
  { s with calls := Function.update s.calls call.claim.claimToken (some call) }

/-- What can happen. A claim draws a fresh token, and takes a job only when the transaction is executed. -/
inductive Step (sanitize : String → String) : System → Label → System → Prop
  | register {s : System} {now : Timestamp} {userId : UserId} (hfresh : s.users userId = none) :
      Step sanitize s ⟨now, .register userId⟩ { s with users := Function.update s.users userId (some none) }
  | enter {s : System} {now : Timestamp} {userId : UserId} (hfree : s.requests userId = none)
      (hactive : isActive s.users userId = true) :
      Step sanitize s ⟨now, .enter userId⟩ (s.setRequest userId (some .entered))
  | schedule {s : System} {now : Timestamp} {userId : UserId} (delivery : Delivery)
      (hphase : s.requests userId = some .entered) :
      Step sanitize s ⟨now, .schedule userId delivery⟩
        ({ s with jobs := delivery.leaves s.jobs (scheduleAccountDeletionCleanup now userId s.jobs) }.setRequest userId
          (if delivery.error.isNone then some .scheduled else none))
  | deleteAccount {s : System} {now : Timestamp} {userId : UserId} (delivery : Delivery)
      (hphase : s.requests userId = some .scheduled) (hactive : isActive s.users userId = true) :
      Step sanitize s ⟨now, .deleteAccount userId delivery⟩
        ({ s with users := delivery.leaves s.users (Function.update s.users userId (some (some now))) }.setRequest userId
          (if delivery.error.isNone then none else some .failed))
  | deleteMissing {s : System} {now : Timestamp} {userId : UserId} (message : String)
      (hphase : s.requests userId = some .scheduled) (hactive : isActive s.users userId = false) :
      Step sanitize s ⟨now, .deleteAccount userId (.failed message)⟩ (s.setRequest userId (some .failed))
  | cancel {s : System} {now : Timestamp} {userId : UserId} (delivery : Delivery)
      (hphase : s.requests userId = some .failed) :
      Step sanitize s ⟨now, .cancel userId delivery⟩
        ({ s with
            jobs := delivery.leaves s.jobs (cancelAccountDeletionCleanupForActiveUser s.users userId s.jobs).2 }.setRequest
          userId none)
  | leave {s : System} {now : Timestamp} {userId : UserId} :
      Step sanitize s ⟨now, .leave userId⟩ (s.setRequest userId none)
  | claim {s : System} {now : Timestamp} {workerId : String} {userId : UserId} {claimToken : ClaimToken}
      {claim : CleanupClaim} {jobs : JobTable} (delivery : Delivery) (hexecuted : delivery.executed = true)
      (hfresh : s.calls claimToken = none)
      (hclaim : claimCleanup s.users now workerId userId claimToken s.jobs = some (claim, jobs)) :
      Step sanitize s ⟨now, .claim workerId userId claimToken delivery⟩
        ({ s with jobs := jobs }.setCall
          { claim := claim, phase := if delivery.error.isNone then .deleting else .ended none })
  | heartbeat {s : System} {now : Timestamp} {call : CleanupCall} (delivery : Delivery)
      (hcall : s.calls call.claim.claimToken = some call) :
      Step sanitize s ⟨now, .heartbeat call.claim.claimToken delivery⟩
        ({ s with jobs := delivery.leaves s.jobs (heartbeatCleanup now call.claim s.jobs).2 }.setCall
          { call with
            aborted := call.aborted || !(delivery.error.isNone && (heartbeatCleanup now call.claim s.jobs).1) })
  | deletionEnds {s : System} {now : Timestamp} {call : CleanupCall} (outcome : DeletionOutcome)
      (hcall : s.calls call.claim.claimToken = some call) (hphase : call.phase = .deleting) :
      Step sanitize s ⟨now, .deletionEnds call.claim.claimToken outcome⟩
        (s.setCall { call with phase := afterDeletion call.aborted outcome })
  | complete {s : System} {now : Timestamp} {call : CleanupCall} (delivery : Delivery)
      (hcall : s.calls call.claim.claimToken = some call) (hphase : call.phase = .completing) :
      Step sanitize s ⟨now, .complete call.claim.claimToken delivery⟩
        ({ s with jobs := delivery.leaves s.jobs (completeCleanup call.claim s.jobs).2 }.setCall
          { call with phase := afterCompletion call.aborted (completeCleanup call.claim s.jobs).1 delivery })
  | retry {s : System} {now : Timestamp} {call : CleanupCall} {error : String} {caught : Bool} (delivery : Delivery)
      (hcall : s.calls call.claim.claimToken = some call) (hphase : call.phase = .retrying error caught) :
      Step sanitize s ⟨now, .retry call.claim.claimToken delivery⟩
        ({ s with jobs := delivery.leaves s.jobs (retryCleanup sanitize now call.claim error s.jobs).2 }.setCall
          { call with
            phase := afterRetry call.aborted caught (retryCleanup sanitize now call.claim error s.jobs).1 delivery })
  | stop {s : System} {now : Timestamp} {call : CleanupCall} (hcall : s.calls call.claim.claimToken = some call)
      (hlive : ∀ answer, call.phase ≠ .ended answer) :
      Step sanitize s ⟨now, .stop call.claim.claimToken⟩ (s.setCall { call with phase := .ended none })
  | replay {s : System} {now : Timestamp} {userId : UserId} {operatorRef : String} {jobs : JobTable}
      (hreplay : replayDeadLetteredAccountDeletionCleanup s.users now userId operatorRef s.jobs = .ok jobs) :
      Step sanitize s ⟨now, .replay userId operatorRef⟩ { s with jobs := jobs }

end OwnMinutes.Deletion.AccountCleanup
