import OwnMinutes.Deletion.Store
import OwnMinutes.Lib.Runs

/-! # The meeting write lock of one process

`withMeetingWriteLock` in process mode. A call in a context whose set has the meeting runs its body at once, any
other call waits for the last call in the queue of the meeting. The body of a queued call runs in a context of its
own, with a copy of the caller's set to which the meeting is added; what the body starts, awaited or not, inherits
that context. Between two steps any number of microtasks may pass. -/

namespace OwnMinutes.Locks.MeetingQueues

open OwnMinutes.Auth.Records OwnMinutes.Deletion.Store

/-- How the body of a call comes to run: at once, under the call that put the meeting in the set, or after the
call that was last in the queue. -/
inductive Entry
  | direct (outer : ℕ)
  | queued (previous : Option ℕ)
  deriving DecidableEq

/-- `settled` is the time from the end of a queued body to the end of `tracked`, which the next call of the queue
waits for; the caller's promise settles after it. -/
inductive Phase
  | waiting | running | settled | finished
  deriving DecidableEq

/-- A set of held meetings, with the call that added each. -/
abbrev Held := List (MeetingId × ℕ)

/-- A call. Its context is the queued call whose body it is made in, itself or in what that body started; `held`
is the set of the context that a queued call makes for its own body. -/
structure Call where
  key : MeetingId
  context : Option ℕ
  entry : Entry
  held : Held
  phase : Phase
  thrown : Bool
  deriving DecidableEq

def Call.isQueued (call : Call) : Bool :=
  match call.entry with
  | .direct _ => false
  | .queued _ => true

/-- The outermost call that a body belongs to. -/
def Call.outermost (call : Call) (index : ℕ) : ℕ :=
  match call.entry with
  | .direct outer => outer
  | .queued _ => index

/-- The calls in the order in which they were made, and `localMeetingWriteQueues`. -/
structure Coordinator where
  calls : List Call
  queues : MeetingId → Option ℕ

def Coordinator.empty : Coordinator := ⟨[], fun _ => none⟩

namespace Coordinator

def inPhase (s : Coordinator) (index : ℕ) (phase : Phase) : Bool :=
  match s.calls[index]? with
  | some call => call.phase = phase
  | none => false

/-- `heldMeetingWriteLocks.getStore() ?? []` -/
def getStore (s : Coordinator) : Option ℕ → Held
  | some context =>
    match s.calls[context]? with
    | some call => call.held
    | none => []
  | none => []

/-- The call that added the meeting to the set of a context. -/
def holder (s : Coordinator) (context : Option ℕ) (key : MeetingId) : Option ℕ :=
  ((s.getStore context).find? fun entry => entry.1 = key).map Prod.snd

/-- The contexts there are: none, or that of a queued call whose body has been called. -/
def hasContext (s : Coordinator) : Option ℕ → Bool
  | some context =>
    match s.calls[context]? with
    | some call => call.isQueued && call.phase ≠ .waiting
    | none => false
  | none => true

end Coordinator

/-- The synchronous part of a call. -/
def withMeetingWriteLock (context : Option ℕ) (meetingId : String) (s : Coordinator) : Except DeletionError Coordinator := do
  let key ← canonicalMeetingId meetingId
  match s.holder context key with
  | some outer => .ok { s with calls := s.calls ++ [⟨key, context, .direct outer, [], .running, false⟩] }
  | none =>
    .ok ⟨s.calls ++ [⟨key, context, .queued (s.queues key), [], .waiting, false⟩],
      Function.update s.queues key (some s.calls.length)⟩

/-- `run`, which is called when the promise of the previous call has settled: the set is copied now. -/
def run (index : ℕ) (s : Coordinator) : Option Coordinator :=
  match s.calls[index]? with
  | some call =>
    match call.entry, call.phase with
    | .queued previous, .waiting =>
      if previous.all fun before => s.inPhase before .finished then
        some { s with
          calls := s.calls.set index { call with
            held := (call.key, index) :: (s.getStore call.context).filter fun entry => entry.1 ≠ call.key
            phase := .running } }
      else none
    | _, _ => none
  | none => none

/-- The body returns or throws. A queued call deletes the meeting from its own set. -/
def endBody (index : ℕ) (thrown : Bool) (s : Coordinator) : Option Coordinator :=
  match s.calls[index]? with
  | some call =>
    match call.entry, call.phase with
    | .queued _, .running =>
      some { s with
        calls := s.calls.set index { call with
          held := call.held.filter fun entry => entry.1 ≠ call.key
          phase := .settled
          thrown := thrown } }
    | .direct _, .running =>
      some { s with calls := s.calls.set index { call with phase := .finished, thrown := thrown } }
    | _, _ => none
  | none => none

/-- The `finally` of `tracked`. -/
def cleanUp (index : ℕ) (s : Coordinator) : Option Coordinator :=
  match s.calls[index]? with
  | some call =>
    if call.phase = .settled then
      some ⟨s.calls.set index { call with phase := .finished },
        if s.queues call.key = some index then Function.update s.queues call.key none else s.queues⟩
    else none
  | none => none

inductive Event
  | invoke (context : Option ℕ) (meetingId : String)
  | start (index : ℕ)
  | finish (index : ℕ) (thrown : Bool)
  | cleanup (index : ℕ)
  deriving DecidableEq

/-- A step; a call with an invalid meeting id is rejected and changes nothing. -/
def step (s : Coordinator) : Event → Option Coordinator
  | .invoke context meetingId =>
    if s.hasContext context then (withMeetingWriteLock context meetingId s).toOption else none
  | .start index => run index s
  | .finish index thrown => endBody index thrown s
  | .cleanup index => cleanUp index s

/-! ### What a step can do -/

variable {s t : Coordinator} {e : Event}

/-- A call after a step that changed it: made as before, and not further back. -/
structure Later (before after : Call) : Prop where
  key : after.key = before.key
  context : after.context = before.context
  entry : after.entry = before.entry
  started : before.phase ≠ .waiting → after.phase ≠ .waiting
  finished : before.phase = .finished → after.phase = .finished

/-- The steps, by what they do to the calls. -/
inductive Move (s : Coordinator) : Event → Coordinator → Prop
  | reentered {context : Option ℕ} {meetingId : String} {key : MeetingId} {outer : ℕ}
      (hcontext : s.hasContext context = true) (hkey : canonicalMeetingId meetingId = .ok key)
      (hholder : s.holder context key = some outer) :
      Move s (.invoke context meetingId)
        { s with calls := s.calls ++ [⟨key, context, .direct outer, [], .running, false⟩] }
  | queued {context : Option ℕ} {meetingId : String} {key : MeetingId}
      (hcontext : s.hasContext context = true) (hkey : canonicalMeetingId meetingId = .ok key)
      (hholder : s.holder context key = none) :
      Move s (.invoke context meetingId)
        ⟨s.calls ++ [⟨key, context, .queued (s.queues key), [], .waiting, false⟩],
          Function.update s.queues key (some s.calls.length)⟩
  | started {index : ℕ} {call : Call} {previous : Option ℕ} (hcall : s.calls[index]? = some call)
      (hentry : call.entry = .queued previous) (hphase : call.phase = .waiting)
      (hprevious : ∀ before, previous = some before → s.inPhase before .finished = true) :
      Move s (.start index)
        { s with
          calls := s.calls.set index { call with
            held := (call.key, index) :: (s.getStore call.context).filter fun entry => entry.1 ≠ call.key
            phase := .running } }
  | settled {index : ℕ} {thrown : Bool} {call : Call} (hcall : s.calls[index]? = some call)
      (hentry : call.isQueued = true) (hphase : call.phase = .running) :
      Move s (.finish index thrown)
        { s with
          calls := s.calls.set index { call with
            held := call.held.filter fun entry => entry.1 ≠ call.key
            phase := .settled
            thrown := thrown } }
  | returned {index outer : ℕ} {thrown : Bool} {call : Call} (hcall : s.calls[index]? = some call)
      (hentry : call.entry = .direct outer) (hphase : call.phase = .running) :
      Move s (.finish index thrown)
        { s with calls := s.calls.set index { call with phase := .finished, thrown := thrown } }
  | cleaned {index : ℕ} {call : Call} (hcall : s.calls[index]? = some call) (hphase : call.phase = .settled) :
      Move s (.cleanup index)
        ⟨s.calls.set index { call with phase := .finished },
          if s.queues call.key = some index then Function.update s.queues call.key none else s.queues⟩

theorem move_of_step (h : step s e = some t) : Move s e t := by
  rcases e with ⟨context, meetingId⟩ | index | ⟨index, thrown⟩ | index
  · simp only [step] at h
    split at h
    · rename_i hcontext
      rcases hkey : canonicalMeetingId meetingId with error | key
      · simp [withMeetingWriteLock, hkey, Except.toOption, bind, Except.bind] at h
      · rcases hholder : s.holder context key with _ | outer
        · simp only [withMeetingWriteLock, hkey, bind, Except.bind, hholder, Except.toOption, Option.some.injEq] at h
          subst h
          exact .queued hcontext hkey hholder
        · simp only [withMeetingWriteLock, hkey, bind, Except.bind, hholder, Except.toOption, Option.some.injEq] at h
          subst h
          exact .reentered hcontext hkey hholder
    · exact absurd h (by simp)
  · simp only [step, run] at h
    split at h
    · rename_i call hcall
      split at h
      · rename_i previous hentry hphase
        split at h
        · rename_i hprevious
          simp only [Option.some.injEq] at h
          subst h
          refine .started hcall hentry hphase fun before hbefore => ?_
          simpa [hbefore] using hprevious
        · exact absurd h (by simp)
      · exact absurd h (by simp)
    · exact absurd h (by simp)
  · simp only [step, endBody] at h
    split at h
    · rename_i call hcall
      split at h
      · rename_i previous hentry hphase
        simp only [Option.some.injEq] at h
        subst h
        exact .settled hcall (by simp [Call.isQueued, hentry]) hphase
      · rename_i outer hentry hphase
        simp only [Option.some.injEq] at h
        subst h
        exact .returned hcall hentry hphase
      · exact absurd h (by simp)
    · exact absurd h (by simp)
  · simp only [step, cleanUp] at h
    split at h
    · rename_i call hcall
      split at h
      · rename_i hphase
        simp only [Option.some.injEq] at h
        subst h
        exact .cleaned hcall hphase
      · exact absurd h (by simp)
    · exact absurd h (by simp)

end OwnMinutes.Locks.MeetingQueues
