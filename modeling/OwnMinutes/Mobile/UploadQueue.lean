import OwnMinutes.Lib.Runs
import Mathlib.Data.List.Basic
import Mathlib.Logic.Function.Basic

/-! # The realtime upload queue

Each operation is chained to the tail that it found: its callback runs once that promise is fulfilled, and the
new tail is fulfilled some promise jobs after the operation has settled. In between lie the job that runs the
callback of `finally` and those that settle the promise of `enqueue`. Which of the waiting jobs runs next is
left open here. Cancelling starts a new generation with a tail of its own. -/

namespace OwnMinutes.Mobile.UploadQueue

open OwnMinutes.Lib.Runs

/-- How the promise of an operation settles; `cancelled` is a `RealtimeUploadQueueCancelledError`. -/
inductive Outcome
  | fulfilled
  | failed
  | cancelled
  deriving DecidableEq, Repr

inductive Phase
  /-- The callback of `tail.then` has not run. -/
  | waiting
  | running
  /-- `result` settles with this outcome; the callback of `finally` has not run. -/
  | finished (outcome : Outcome)
  /-- The callback of `finally` has run; the promise of `enqueue` is not settled. -/
  | counted (outcome : Outcome)
  | settled (outcome : Outcome)
  /-- The tail that this operation left is fulfilled. -/
  | released (outcome : Outcome)
  deriving DecidableEq, Repr

namespace Phase

def isReleased : Phase → Bool
  | released _ => true
  | _ => false

/-- The callback of `finally` has not run. -/
def isUncounted : Phase → Bool
  | waiting | running | finished _ => true
  | _ => false

/-- The promise of `enqueue` is not settled. -/
def isUnsettled : Phase → Bool
  | settled _ | released _ => false
  | _ => true

def outcome? : Phase → Option Outcome
  | waiting | running => none
  | finished outcome | counted outcome | settled outcome | released outcome => some outcome

end Phase

structure Operation where
  generation : ℕ
  /-- The operation that left the tail to which this one is chained; `none` is `Promise.resolve()`. -/
  previous : Option ℕ
  phase : Phase
  deriving DecidableEq, Repr

/-- A call of `drain`: the generation and the number of operations then, and the tail that it waits for. -/
structure Drain where
  generation : ℕ
  enqueued : ℕ
  pending : Option ℕ
  answer : Option Bool
  deriving DecidableEq, Repr

structure Queue where
  generation : ℕ
  pendingByGeneration : ℕ → Option ℕ
  tail : Option ℕ
  operations : List Operation
  /-- The operations that were started, in this order. -/
  started : List ℕ
  drains : List Drain

def Queue.initial : Queue := ⟨0, fun _ => none, none, [], [], []⟩

namespace Queue

variable (q : Queue)

def isCurrentGeneration (generation : ℕ) : Bool := generation = q.generation

def pendingCount : ℕ := (q.pendingByGeneration q.generation).getD 0

def enqueue : Queue :=
  { q with
    pendingByGeneration := Function.update q.pendingByGeneration q.generation
      (some ((q.pendingByGeneration q.generation).getD 0 + 1))
    operations := q.operations ++ [⟨q.generation, q.tail, .waiting⟩]
    tail := some q.operations.length }

def cancelPending : Queue := { q with generation := q.generation + 1, tail := none }

def drain : Queue :=
  { q with drains := q.drains ++ [⟨q.generation, q.operations.length, q.tail, none⟩] }

def setPhase (index : ℕ) (operation : Operation) (phase : Phase) : Queue :=
  { q with operations := q.operations.set index { operation with phase } }

/-- The tail is fulfilled. -/
def isFulfilled : Option ℕ → Bool
  | none => true
  | some index => (q.operations[index]?).any fun operation => operation.phase.isReleased

/-- The callback of `this.tail.then`. -/
def callback (index : ℕ) : Option Queue := do
  let operation ← q.operations[index]?
  if operation.phase = .waiting ∧ q.isFulfilled operation.previous then
    if q.isCurrentGeneration operation.generation then
      some { q.setPhase index operation .running with started := q.started ++ [index] }
    else some (q.setPhase index operation (.finished .cancelled))
  else none

/-- The promise of the operation settles. -/
def complete (index : ℕ) (ok : Bool) : Option Queue := do
  let operation ← q.operations[index]?
  if operation.phase = .running then
    some (q.setPhase index operation (.finished (if ok then .fulfilled else .failed)))
  else none

/-- The callback of `finally`. -/
def onFinally (index : ℕ) : Option Queue := do
  let operation ← q.operations[index]?
  match operation.phase with
  | .finished outcome =>
    let pending := (q.pendingByGeneration operation.generation).getD 1 - 1
    some { q.setPhase index operation (.counted outcome) with
      pendingByGeneration := Function.update q.pendingByGeneration operation.generation
        (if pending = 0 then none else some pending) }
  | _ => none

/-- The promise that `enqueue` returned settles. -/
def settle (index : ℕ) : Option Queue := do
  let operation ← q.operations[index]?
  match operation.phase with
  | .counted outcome => some (q.setPhase index operation (.settled outcome))
  | _ => none

/-- The new tail is fulfilled. -/
def release (index : ℕ) : Option Queue := do
  let operation ← q.operations[index]?
  match operation.phase with
  | .settled outcome => some (q.setPhase index operation (.released outcome))
  | _ => none

/-- A `drain` answers `true` once its tail is fulfilled, or `false` at its timeout; the first answer counts. -/
def answer (index : ℕ) (value : Bool) : Option Queue := do
  let call ← q.drains[index]?
  if call.answer = none ∧ (value = true → q.isFulfilled call.pending = true) then
    some { q with drains := q.drains.set index { call with answer := some value } }
  else none

end Queue

inductive Event
  | enqueue
  | cancelPending
  | drain
  | callback (index : ℕ)
  | complete (index : ℕ) (ok : Bool)
  | onFinally (index : ℕ)
  | settle (index : ℕ)
  | release (index : ℕ)
  | answer (index : ℕ) (value : Bool)
  deriving DecidableEq, Repr

def step (q : Queue) : Event → Option Queue
  | .enqueue => some q.enqueue
  | .cancelPending => some q.cancelPending
  | .drain => some q.drain
  | .callback index => q.callback index
  | .complete index ok => q.complete index ok
  | .onFinally index => q.onFinally index
  | .settle index => q.settle index
  | .release index => q.release index
  | .answer index value => q.answer index value

/-- Promise jobs, as against calls of the queue, timers and the ends of operations. -/
def Event.isJob : Event → Bool
  | .callback _ | .onFinally _ | .settle _ | .release _ => true
  | _ => false

/-- No promise job is waiting. -/
def Quiet (q : Queue) : Prop := ∀ e, Event.isJob e = true → step q e = none

abbrev Runs (events : List Event) (q : Queue) : Prop := events.foldlM step Queue.initial = some q

/-! ### What a step does to one operation -/

/-- The ways in which a job or an end moves an operation on. -/
inductive Moves (q : Queue) (operation : Operation) : Phase → Prop
  | start (hwaiting : operation.phase = .waiting) (hready : q.isFulfilled operation.previous = true)
      (hcurrent : operation.generation = q.generation) : Moves q operation .running
  | cancel (hwaiting : operation.phase = .waiting) (hready : q.isFulfilled operation.previous = true)
      (hcurrent : operation.generation ≠ q.generation) : Moves q operation (.finished .cancelled)
  | finish {outcome : Outcome} (hrunning : operation.phase = .running) (houtcome : outcome ≠ .cancelled) :
      Moves q operation (.finished outcome)
  | count {outcome : Outcome} (hfinished : operation.phase = .finished outcome) : Moves q operation (.counted outcome)
  | settle {outcome : Outcome} (hcounted : operation.phase = .counted outcome) : Moves q operation (.settled outcome)
  | release {outcome : Outcome} (hsettled : operation.phase = .settled outcome) :
      Moves q operation (.released outcome)

/-- The queue after operation `index` moved on to `phase`. -/
def moved (q : Queue) (index : ℕ) (operation : Operation) (phase : Phase) : Queue :=
  { q with
    operations := q.operations.set index { operation with phase }
    started := if phase = .running then q.started ++ [index] else q.started
    pendingByGeneration :=
      match phase with
      | .counted _ =>
        Function.update q.pendingByGeneration operation.generation
          (if (q.pendingByGeneration operation.generation).getD 1 - 1 = 0 then none
            else some ((q.pendingByGeneration operation.generation).getD 1 - 1))
      | _ => q.pendingByGeneration }

/-- **All that a step can do.** -/
theorem step_cases {q t : Queue} {e : Event} (h : step q e = some t) :
    (e = .enqueue ∧ t = q.enqueue) ∨ (e = .cancelPending ∧ t = q.cancelPending) ∨ (e = .drain ∧ t = q.drain) ∨
      (∃ index operation phase, q.operations[index]? = some operation ∧ Moves q operation phase ∧
        t = moved q index operation phase) ∨
      ∃ index call value, q.drains[index]? = some call ∧ call.answer = none ∧
        (value = true → q.isFulfilled call.pending = true) ∧
        t = { q with drains := q.drains.set index { call with answer := some value } } := by
  cases e with
  | enqueue => exact Or.inl ⟨rfl, (Option.some.inj h).symm⟩
  | cancelPending => exact Or.inr (Or.inl ⟨rfl, (Option.some.inj h).symm⟩)
  | drain => exact Or.inr (Or.inr (Or.inl ⟨rfl, (Option.some.inj h).symm⟩))
  | callback index =>
    obtain ⟨operation, hoperation, h⟩ := Option.bind_eq_some_iff.mp h
    split_ifs at h with hready hcurrent
    · exact Or.inr (Or.inr (Or.inr (Or.inl ⟨index, operation, .running, hoperation,
        Moves.start hready.1 hready.2 (of_decide_eq_true hcurrent), (Option.some.inj h).symm⟩)))
    · have hother : operation.generation ≠ q.generation := fun he => hcurrent (decide_eq_true he)
      exact Or.inr (Or.inr (Or.inr (Or.inl ⟨index, operation, .finished .cancelled, hoperation,
        Moves.cancel hready.1 hready.2 hother, (Option.some.inj h).symm⟩)))
  | complete index ok =>
    obtain ⟨operation, hoperation, h⟩ := Option.bind_eq_some_iff.mp h
    split_ifs at h with hrunning
    · exact Or.inr (Or.inr (Or.inr (Or.inl ⟨index, operation, .finished .fulfilled, hoperation,
        Moves.finish hrunning (by simp), (Option.some.inj h).symm⟩)))
    · exact Or.inr (Or.inr (Or.inr (Or.inl ⟨index, operation, .finished .failed, hoperation,
        Moves.finish hrunning (by simp), (Option.some.inj h).symm⟩)))
  | onFinally index =>
    obtain ⟨operation, hoperation, h⟩ := Option.bind_eq_some_iff.mp h
    split at h
    · rename_i outcome hphase
      exact Or.inr (Or.inr (Or.inr (Or.inl ⟨index, operation, .counted outcome, hoperation, Moves.count hphase,
        (Option.some.inj h).symm⟩)))
    · cases h
  | settle index =>
    obtain ⟨operation, hoperation, h⟩ := Option.bind_eq_some_iff.mp h
    split at h
    · rename_i outcome hphase
      exact Or.inr (Or.inr (Or.inr (Or.inl ⟨index, operation, .settled outcome, hoperation, Moves.settle hphase,
        (Option.some.inj h).symm⟩)))
    · cases h
  | release index =>
    obtain ⟨operation, hoperation, h⟩ := Option.bind_eq_some_iff.mp h
    split at h
    · rename_i outcome hphase
      exact Or.inr (Or.inr (Or.inr (Or.inl ⟨index, operation, .released outcome, hoperation, Moves.release hphase,
        (Option.some.inj h).symm⟩)))
    · cases h
  | answer index value =>
    obtain ⟨call, hcall, h⟩ := Option.bind_eq_some_iff.mp h
    split_ifs at h with hanswer
    exact Or.inr (Or.inr (Or.inr (Or.inr ⟨index, call, value, hcall, hanswer.1, hanswer.2, (Option.some.inj h).symm⟩)))

end OwnMinutes.Mobile.UploadQueue
