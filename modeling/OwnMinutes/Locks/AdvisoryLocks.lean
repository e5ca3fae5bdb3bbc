import OwnMinutes.Auth.Records
import OwnMinutes.Lib.Runs

/-! # User, meeting and upload locks

The three locks of `meeting-write-lock.ts` as operations of the meeting store take them, one inside the other. In
process mode an acquisition waits for its turn in the queue of the lock. In PostgreSQL mode it then waits for a
connection of the pool, on that connection for the shared backup barrier, and then for the key of the lock; it keeps
the three until its body has ended. The queries of a body take further connections of the same pool, each until it is
answered. Each request is served in the order of its tickets; a backup session asks for the barrier alone. -/

namespace OwnMinutes.Locks.AdvisoryLocks

open OwnMinutes.Lib.Runs OwnMinutes.Auth.Records

inductive Lock
  | user (userId : UserId)
  | meeting (meetingId : MeetingId)
  | upload (meetingId : MeetingId) (uploadId : String)
  deriving DecidableEq

/-- `getMeetingWriteLockMode()`, and `max` of the pool: a whole number from 1 to 50. -/
structure Config where
  postgres : Bool
  poolMax : ℕ
  poolMax_pos : 0 < poolMax

/-! ### Operations -/

/-- The body of a lock begins with `enter` and ends with `leave`; `query` is so many queries of the pool at once. -/
inductive Command
  | enter (lock : Lock)
  | query (count : ℕ)
  | leave
  deriving DecidableEq

/-- `with…Lock(…, body)` -/
def inside (lock : Lock) (body : List Command) : List Command := .enter lock :: (body ++ [.leave])

/-- An operation: what it locks when nothing stops it, and what its `catch` locks. -/
structure Script where
  body : List Command
  handler : List Command := []

/-- The operations of the meeting store that lock. -/
inductive StoreOperation
  | saveMeetingAudioChunk (userId : UserId) (meetingId : MeetingId)
  | readMeetingRecordingUploadStatus (userId : UserId) (meetingId : MeetingId)
  | sealMeetingAudio (userId : UserId) (meetingId : MeetingId)
  | saveMeetingRecordingUploadPart (userId : UserId) (meetingId : MeetingId) (uploadId : String) (stale : List MeetingId)
  | commitMeetingRecordingUpload (userId : UserId) (meetingId : MeetingId) (uploadId : String)
  | enqueueMeetingWrite (meetingId : MeetingId)
  | enqueueMeetingAccess (meetingId : MeetingId)
  | deleteUserMeeting (meetingId : MeetingId)
  | runMeetingDeletionCleanupOnce (meetingId : MeetingId)
  | deleteAllUserMeetings (userId : UserId) (meetingIds : List MeetingId)
  deriving DecidableEq

/-- `withMeetingWriteFence`: the body asks the database first whether the meeting is deleted. The bodies of the
deletions ask for the owner of the deletion. -/
def fenced (meetingId : MeetingId) : List Command := inside (.meeting meetingId) [.query 1]

/-- A short phase: the meeting inside its user. -/
def userPhase (userId : UserId) (meetingId : MeetingId) : List Command := inside (.user userId) (fenced meetingId)

/-- The locks of each operation, and the queries that it makes in every case. Edits and shares of a meeting are
`enqueueMeetingWrite`, its reads `enqueueMeetingAccess`; `stale` are the meetings whose abandoned uploads the first
phase of a part sweeps; `deleteAllUserMeetings` is called under the lock of the user. The handlers are
`scheduleLateMeetingDeletionCleanup`. -/
def StoreOperation.script : StoreOperation → Script
  | saveMeetingAudioChunk userId meetingId => ⟨userPhase userId meetingId, []⟩
  | readMeetingRecordingUploadStatus userId meetingId => ⟨userPhase userId meetingId, []⟩
  | sealMeetingAudio userId meetingId => ⟨userPhase userId meetingId, []⟩
  | saveMeetingRecordingUploadPart userId meetingId uploadId stale =>
    ⟨inside (.user userId) (stale.flatMap fenced ++ fenced meetingId) ++ inside (.upload meetingId uploadId) [] ++
        userPhase userId meetingId,
      fenced meetingId⟩
  | commitMeetingRecordingUpload userId meetingId uploadId =>
    ⟨userPhase userId meetingId ++ inside (.upload meetingId uploadId) [] ++ userPhase userId meetingId ++
      userPhase userId meetingId ++ userPhase userId meetingId,
      fenced meetingId⟩
  | enqueueMeetingWrite meetingId => ⟨fenced meetingId, []⟩
  | enqueueMeetingAccess meetingId => ⟨inside (.meeting meetingId) [], []⟩
  | deleteUserMeeting meetingId => ⟨fenced meetingId, []⟩
  | runMeetingDeletionCleanupOnce meetingId => ⟨fenced meetingId, []⟩
  | deleteAllUserMeetings userId meetingIds => ⟨inside (.user userId) (meetingIds.flatMap fenced), []⟩

/-! ### States -/

/-- What an acquisition waits for, in this order. -/
inductive Point
  | turn | connection | barrier | key
  deriving DecidableEq

/-- An operation runs, waits with a ticket, or is at a `query`: some of the queries wait for a connection, some have
one. -/
inductive Stage
  | running
  | waiting (point : Point) (lock : Lock) (ticket : ℕ)
  | querying (asking busy ticket : ℕ)
  deriving DecidableEq

/-- A lock that an operation is inside of; `reentered` when it held the meeting already. -/
structure Frame where
  lock : Lock
  reentered : Bool
  deriving DecidableEq

/-- An operation under way: the locks it holds, the innermost first, and what is left of its script. -/
structure Operation where
  process : ℕ
  held : List Frame
  stage : Stage
  script : List Command
  handler : List Command
  deriving DecidableEq

def Operation.locks (op : Operation) : List Lock := op.held.map Frame.lock

/-- The operation waits for something, with a ticket. -/
def Operation.waitsAt (op : Operation) (point : Point) : Option (Lock × ℕ) :=
  match op.stage with
  | .waiting point' lock ticket => if point' = point then some (lock, ticket) else none
  | _ => none

/-- The operation waits for a connection, for a lock or for its queries. -/
def Operation.connectionTicket (op : Operation) : Option ℕ :=
  match op.stage with
  | .waiting .connection _ ticket => some ticket
  | .querying (_ + 1) _ ticket => some ticket
  | _ => none

def Operation.finished (op : Operation) : Bool :=
  op.stage = .running && op.script = []

/-- The session that takes the barrier exclusively. -/
inductive Backup
  | idle
  | waiting (ticket : ℕ)
  | holding
  deriving DecidableEq

structure State where
  operations : List Operation
  backup : Backup
  clock : ℕ
  deriving DecidableEq

def State.empty : State := ⟨[], .idle, 0⟩

/-! ### What is granted -/

/-- The acquisition of a lock that has its turn in a process, or the lock. -/
def Operation.hasTurn (op : Operation) (process : ℕ) (lock : Lock) : Bool :=
  op.process = process && (lock ∈ op.locks ||
    match op.stage with
    | .waiting .turn _ _ => false
    | .waiting _ lock' _ => lock' = lock
    | _ => false)

/-- The connections that an operation has from the pool of its process. -/
def Operation.connections (op : Operation) : ℕ :=
  op.held.countP (fun frame => !frame.reentered) +
    match op.stage with
    | .waiting .barrier _ _ => 1
    | .waiting .key _ _ => 1
    | .querying _ busy _ => busy
    | _ => 0

def State.used (s : State) (process : ℕ) : ℕ :=
  (s.operations.map fun op => if op.process = process then op.connections else 0).sum

/-- The operation has the barrier, shared, on one of its connections. -/
def Operation.sharesBarrier (op : Operation) : Bool :=
  op.held ≠ [] || (op.waitsAt .key).isSome

/-- No request of the operation at a point has an earlier ticket. -/
def Operation.notBefore (op : Operation) (point : Point) (ticket : ℕ) : Bool :=
  (op.waitsAt point).all fun request => ticket ≤ request.2

/-- A connection of the pool is free, and no earlier request waits for one. -/
def connectionFree (config : Config) (s : State) (op : Operation) (ticket : ℕ) : Bool :=
  s.used op.process < config.poolMax &&
    s.operations.all fun other =>
      other.process ≠ op.process || other.connectionTicket.all fun ticket' => ticket ≤ ticket'

/-- The request of an operation is granted: its turn when nobody has it, a connection when one is free, the barrier
behind no exclusive request, the key when nobody has it. Earlier requests go first. -/
def grantable (config : Config) (s : State) (op : Operation) : Point → Lock → ℕ → Bool
  | .turn, lock, ticket =>
    s.operations.all fun other => !other.hasTurn op.process lock &&
      (other.process ≠ op.process ||
        (other.waitsAt .turn).all fun request => request.1 ≠ lock || ticket ≤ request.2)
  | .connection, _, ticket => connectionFree config s op ticket
  | .barrier, _, ticket =>
    (match s.backup with
      | .idle => true
      | .waiting exclusive => ticket ≤ exclusive
      | .holding => false) &&
      s.operations.all fun other => other.notBefore .barrier ticket
  | .key, lock, ticket =>
    s.operations.all fun other => lock ∉ other.locks &&
      (other.waitsAt .key).all fun request => request.1 ≠ lock || ticket ≤ request.2

/-- The operation after its request has been granted: it asks for the next thing, or its body is called. -/
def Operation.granted (op : Operation) (config : Config) (clock : ℕ) : Point → Lock → Operation
  | .turn, lock =>
    if config.postgres then { op with stage := .waiting .connection lock clock }
    else { op with held := ⟨lock, false⟩ :: op.held, stage := .running }
  | .connection, lock => { op with stage := .waiting .barrier lock clock }
  | .barrier, lock => { op with stage := .waiting .key lock clock }
  | .key, lock => { op with held := ⟨lock, false⟩ :: op.held, stage := .running }

/-- `heldMeetingWriteLocks.getStore()?.has(key)`; the other locks are not re-entrant. -/
def Operation.reenters (op : Operation) : Lock → Bool
  | .meeting meetingId => .meeting meetingId ∈ op.locks
  | _ => false

/-! ### Steps -/

inductive Event
  | start (process : ℕ) (operation : StoreOperation)
  | proceed (index : ℕ)
  | consult (index count : ℕ)
  | abandon (index : ℕ) (handled : Bool)
  | grant (index : ℕ)
  | requestBackup
  | takeBackup
  | releaseBackup
  deriving DecidableEq

def State.put (s : State) (index : ℕ) (op : Operation) : State :=
  ⟨s.operations.set index op, s.backup, s.clock + 1⟩

/-- The next command of a running operation, or the answer to one of its queries. -/
def Operation.next (op : Operation) (config : Config) (clock : ℕ) : Option Operation :=
  match op.stage, op.script with
  | .running, .enter lock :: script =>
    if op.reenters lock then some { op with held := ⟨lock, true⟩ :: op.held, script := script }
    else some { op with stage := .waiting .turn lock clock, script := script }
  | .running, .query count :: script =>
    if config.postgres then some { op with stage := .querying count 0 clock, script := script }
    else some { op with script := script }
  | .running, .leave :: script =>
    match op.held with
    | _ :: held => some { op with held := held, script := script }
    | [] => none
  | .querying asking (busy + 1) ticket, _ => some { op with stage := .querying asking busy ticket }
  | .querying 0 0 _, _ => some { op with stage := .running }
  | _, _ => none

/-- A running operation makes further queries: what its body does between the commands of its script. -/
def Operation.consulted (op : Operation) (count : ℕ) : Option Operation :=
  match op.stage, op.script with
  | .running, _ :: _ => some { op with script := .query count :: op.script }
  | _, _ => none

/-- A running operation throws or returns early: it leaves its locks, and its `catch` may run. -/
def Operation.abandoned (op : Operation) (handled : Bool) : Option Operation :=
  match op.stage, op.script with
  | .running, _ :: _ =>
    some { op with
      script := List.replicate op.held.length .leave ++ (if handled then op.handler else [])
      handler := [] }
  | _, _ => none

def step (config : Config) (s : State) : Event → Option State
  | .start process operation =>
    some ⟨s.operations ++ [⟨process, [], .running, operation.script.body, operation.script.handler⟩], s.backup,
      s.clock + 1⟩
  | .proceed index => do
    let op ← s.operations[index]?
    let after ← op.next config s.clock
    some (s.put index after)
  | .consult index count => do
    let op ← s.operations[index]?
    let after ← op.consulted count
    some (s.put index after)
  | .abandon index handled => do
    let op ← s.operations[index]?
    let after ← op.abandoned handled
    some (s.put index after)
  | .grant index => do
    let op ← s.operations[index]?
    match op.stage with
    | .waiting point lock ticket =>
      if grantable config s op point lock ticket then some (s.put index (op.granted config s.clock point lock))
      else none
    | .querying (asking + 1) busy ticket =>
      if connectionFree config s op ticket then
        some (s.put index { op with stage := .querying asking (busy + 1) ticket })
      else none
    | _ => none
  | .requestBackup =>
    match s.backup with
    | .idle => some ⟨s.operations, .waiting s.clock, s.clock + 1⟩
    | _ => none
  | .takeBackup =>
    match s.backup with
    | .waiting ticket =>
      if s.operations.all fun op => !(config.postgres && op.sharesBarrier) && op.notBefore .barrier ticket then
        some { s with backup := .holding }
      else none
    | _ => none
  | .releaseBackup =>
    match s.backup with
    | .holding => some { s with backup := .idle }
    | _ => none

abbrev Step (config : Config) (s : State) (e : Event) (t : State) : Prop := step config s e = some t

/-- Every unfinished operation waits, and the backup session too: nothing goes on unless something new is asked for. -/
structure Deadlocked (config : Config) (s : State) : Prop where
  unfinished : ∃ op ∈ s.operations, op.finished = false
  operations : ∀ index, step config s (.proceed index) = none ∧ step config s (.grant index) = none
  backup : step config s .takeBackup = none ∧ step config s .releaseBackup = none

end OwnMinutes.Locks.AdvisoryLocks
