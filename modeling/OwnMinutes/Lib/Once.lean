import Mathlib.Data.List.Basic
import Mathlib.Data.Nat.Basic
import Mathlib.Tactic.Common

/-! # Work done once, shared while it is in flight

A cell runs a callback for whoever asks first and gives the same promise to those who ask while it is unsettled.
A success is kept in a flag that is set before the promise is dropped, a failure only drops the promise. The
attempts of a cell are its promises in order; what runs between two of their steps is free. -/

namespace OwnMinutes.Lib.Once

variable {ι α : Type*}

/-- How far the promise of an attempt is. -/
inductive Progress (α : Type*)
  | queued
  | running
  | fulfilled (value : α)
  | marked (value : α)
  | rejected
  | resolved (value : α)
  | failed
  deriving DecidableEq

namespace Progress

/-- The promise is unsettled. -/
def inFlight : Progress α → Bool
  | resolved _ => false
  | failed => false
  | _ => true

/-- The value that the callback was fulfilled with. -/
def result : Progress α → Option α
  | fulfilled value => some value
  | marked value => some value
  | resolved value => some value
  | _ => none

/-- The value in the flag, while the promise is unsettled. -/
def flag : Progress α → Option α
  | marked value => some value
  | _ => none

def isRunning : Progress α → Bool
  | running => true
  | _ => false

/-- What the promise is settled with: a value, or a failure. -/
def settled : Progress α → Option (Option α)
  | resolved value => some (some value)
  | failed => some none
  | _ => none

end Progress

/-- The steps of a promise: the callback is called, it is fulfilled or rejected, the flag is set, the promise is
dropped. -/
inductive Event (α : Type*)
  | call
  | fulfil (value : α)
  | reject
  | mark
  | clear
  deriving DecidableEq

def Progress.next : Progress α → Event α → Option (Progress α)
  | .queued, .call => some .running
  | .running, .fulfil value => some (.fulfilled value)
  | .running, .reject => some .rejected
  | .fulfilled value, .mark => some (.marked value)
  | .marked value, .clear => some (.resolved value)
  | .rejected, .clear => some .failed
  | _, _ => none

structure Attempt (ι α : Type*) where
  caller : ι
  progress : Progress α
  deriving DecidableEq

structure Cell (ι α : Type*) where
  value : Option α := none
  promise : Option ℕ := none
  attempts : List (Attempt ι α) := []
  deriving DecidableEq

/-- What a caller waits for: a value that it was given, or the promise of an attempt. -/
inductive Awaited (α : Type*)
  | value (value : α)
  | attempt (index : ℕ)
  deriving DecidableEq

namespace Cell

def enter (cell : Cell ι α) (caller : ι) : Cell ι α × Awaited α :=
  match cell.value, cell.promise with
  | some value, _ => (cell, .value value)
  | none, some index => (cell, .attempt index)
  | none, none =>
    (⟨none, some cell.attempts.length, cell.attempts ++ [⟨caller, .queued⟩]⟩, .attempt cell.attempts.length)

def advance (cell : Cell ι α) (index : ℕ) (event : Event α) : Option (Cell ι α) :=
  match cell.attempts[index]? with
  | none => none
  | some attempt =>
    (attempt.progress.next event).map fun progress =>
      ⟨progress.flag <|> cell.value, if progress.inFlight then cell.promise else none,
        cell.attempts.set index ⟨attempt.caller, progress⟩⟩

/-- What a caller resumes with: a value, or a failure. -/
def outcome (cell : Cell ι α) : Awaited α → Option (Option α)
  | .value value => some (some value)
  | .attempt index =>
    match cell.attempts[index]? with
    | none => none
    | some attempt => attempt.progress.settled

/-- Some attempt was fulfilled with the value. -/
def Succeeded (cell : Cell ι α) (value : α) : Prop := ∃ attempt ∈ cell.attempts, attempt.progress.result = some value

/-- Every attempt so far has failed, and its promise is dropped. -/
def AllFailed (cell : Cell ι α) : Prop := ∀ attempt ∈ cell.attempts, attempt.progress = .failed

/-- Failures, then at most one attempt that is in flight or has succeeded. -/
inductive Shape : Cell ι α → Prop
  | idle {failures : List (Attempt ι α)} (hfailures : ∀ attempt ∈ failures, attempt.progress = .failed) :
      Shape ⟨none, none, failures⟩
  | inFlight {failures : List (Attempt ι α)} (hfailures : ∀ attempt ∈ failures, attempt.progress = .failed)
      (attempt : Attempt ι α) (hflight : attempt.progress.inFlight = true) :
      Shape ⟨attempt.progress.flag, some failures.length, failures ++ [attempt]⟩
  | done {failures : List (Attempt ι α)} (hfailures : ∀ attempt ∈ failures, attempt.progress = .failed) (caller : ι)
      (value : α) : Shape ⟨some value, none, failures ++ [⟨caller, .resolved value⟩]⟩

theorem shape_empty : Shape ({} : Cell ι α) := Shape.idle (by simp)

variable {cell : Cell ι α} {index : ℕ}

theorem enter_of_promise (h : cell.promise = some index) (caller : ι) : (cell.enter caller).1 = cell := by
  unfold enter
  rw [h]
  rcases cell.value with _ | value <;> rfl

theorem shape_enter (h : Shape cell) (caller : ι) : Shape (cell.enter caller).1 := by
  cases h with
  | idle hfailures => exact Shape.inFlight hfailures ⟨caller, .queued⟩ rfl
  | inFlight hfailures attempt hflight =>
    rw [enter_of_promise rfl]
    exact Shape.inFlight hfailures attempt hflight
  | done hfailures caller' value => exact Shape.done hfailures caller' value

theorem next_of_failed {event : Event α} : (Progress.failed (α := α)).next event = none := by
  cases event <;> rfl

theorem next_of_resolved {value : α} {event : Event α} : (Progress.resolved value).next event = none := by
  cases event <;> rfl

/-- Only the last attempt moves, and only while it is in flight. -/
theorem advance_cases {next : Cell ι α} {event : Event α} (h : Shape cell)
    (hnext : cell.advance index event = some next) :
    ∃ failures attempt progress, (∀ a ∈ failures, a.progress = .failed) ∧ attempt.progress.inFlight = true ∧
      cell = ⟨attempt.progress.flag, some failures.length, failures ++ [attempt]⟩ ∧
      attempt.progress.next event = some progress ∧
      next = ⟨progress.flag <|> attempt.progress.flag, if progress.inFlight then some failures.length else none,
        failures ++ [⟨attempt.caller, progress⟩]⟩ := by
  unfold advance at hnext
  split at hnext
  · cases hnext
  · rename_i attempt hattempt
    obtain ⟨progress, hprogress, rfl⟩ := Option.map_eq_some_iff.mp hnext
    have hmem := List.mem_of_getElem? hattempt
    have hlive : attempt.progress ≠ .failed := by
      intro hfailed
      rw [hfailed, next_of_failed] at hprogress
      cases hprogress
    cases h with
    | idle hfailures => exact absurd (hfailures attempt hmem) hlive
    | @inFlight failures hfailures last hflight =>
      have hindex : index = failures.length ∧ last = attempt := by
        rcases Nat.lt_or_ge index failures.length with hlt | hge
        · rw [List.getElem?_append_left hlt] at hattempt
          exact absurd (hfailures attempt (List.mem_of_getElem? hattempt)) hlive
        · rw [List.getElem?_append_right hge, List.getElem?_singleton] at hattempt
          split_ifs at hattempt with hzero
          exact ⟨by omega, Option.some.inj hattempt⟩
      obtain ⟨rfl, rfl⟩ := hindex
      refine ⟨failures, last, progress, hfailures, hflight, rfl, hprogress, ?_⟩
      simp
    | @done failures hfailures caller value =>
      rcases List.mem_append.mp hmem with hmem | hmem
      · exact absurd (hfailures attempt hmem) hlive
      · rw [List.mem_singleton.mp hmem, next_of_resolved] at hprogress
        cases hprogress

theorem shape_advance {next : Cell ι α} {event : Event α} (h : Shape cell)
    (hnext : cell.advance index event = some next) : Shape next := by
  obtain ⟨failures, ⟨caller, before⟩, after, hfailures, hflight, -, hafter, rfl⟩ := advance_cases h hnext
  rcases before with _ | _ | value | value | _ | value | _ <;> rcases event with _ | result | _ | _ | _ <;>
    cases hafter
  · exact Shape.inFlight hfailures ⟨caller, .running⟩ rfl
  · exact Shape.inFlight hfailures ⟨caller, .fulfilled result⟩ rfl
  · exact Shape.inFlight hfailures ⟨caller, .rejected⟩ rfl
  · exact Shape.inFlight hfailures ⟨caller, .marked value⟩ rfl
  · exact Shape.done hfailures caller value
  · refine Shape.idle fun attempt hattempt => ?_
    rcases List.mem_append.mp hattempt with hattempt | hattempt
    · exact hfailures attempt hattempt
    · rw [List.mem_singleton.mp hattempt]

/-! ### What the shape says -/

theorem countP_failures {failures : List (Attempt ι α)} (p : Progress α → Bool) (hp : p .failed = false)
    (h : ∀ attempt ∈ failures, attempt.progress = .failed) :
    failures.countP (fun attempt => p attempt.progress) = 0 := by
  rw [List.countP_eq_zero]
  intro attempt hattempt
  rw [h attempt hattempt, hp]
  exact Bool.false_ne_true

/-- Of what no failed attempt is, there is at most one. -/
theorem Shape.countP_le_one (h : Shape cell) (p : Progress α → Bool) (hp : p .failed = false) :
    cell.attempts.countP (fun attempt => p attempt.progress) ≤ 1 := by
  cases h with
  | idle hfailures =>
    rw [countP_failures p hp hfailures]
    omega
  | inFlight hfailures attempt hflight =>
    rw [List.countP_append, countP_failures p hp hfailures, Nat.zero_add]
    exact List.countP_le_length
  | done hfailures caller value =>
    rw [List.countP_append, countP_failures p hp hfailures, Nat.zero_add]
    exact List.countP_le_length

theorem Shape.value_succeeded {value : α} (h : Shape cell) (hvalue : cell.value = some value) :
    cell.Succeeded value := by
  cases h with
  | idle hfailures => cases hvalue
  | inFlight hfailures attempt hflight =>
    refine ⟨attempt, by simp, ?_⟩
    rcases attempt with ⟨caller, _ | _ | _ | marked | _ | _ | _⟩ <;> cases hvalue
    rfl
  | done hfailures caller value' =>
    cases hvalue
    exact ⟨⟨caller, .resolved _⟩, by simp, rfl⟩

theorem outcome_succeeded {awaited : Awaited α} {value : α} (h : Shape cell)
    (hawaited : ∀ given, awaited = .value given → cell.value = some given)
    (houtcome : cell.outcome awaited = some (some value)) : cell.Succeeded value := by
  rcases awaited with given | index
  · have hgiven := hawaited given rfl
    injection houtcome with houtcome
    injection houtcome with houtcome
    exact h.value_succeeded (houtcome ▸ hgiven)
  · unfold outcome at houtcome
    dsimp only at houtcome
    split at houtcome
    · cases houtcome
    · rename_i attempt hattempt
      refine ⟨attempt, List.mem_of_getElem? hattempt, ?_⟩
      rcases attempt with ⟨caller, _ | _ | _ | _ | _ | result | _⟩ <;> cases houtcome
      rfl

theorem Shape.succeeded_unique {a b : α} (h : Shape cell) (ha : cell.Succeeded a) (hb : cell.Succeeded b) :
    a = b := by
  obtain ⟨first, hfirst, ha⟩ := ha
  obtain ⟨second, hsecond, hb⟩ := hb
  have hone : ∀ {failures : List (Attempt ι α)} {attempt last : Attempt ι α} {value : α},
      (∀ attempt ∈ failures, attempt.progress = .failed) → attempt ∈ failures ++ [last] →
        attempt.progress.result = some value → attempt = last := by
    intro failures attempt last value hfailures hmem hresult
    rcases List.mem_append.mp hmem with hmem | hmem
    · rw [hfailures attempt hmem] at hresult
      cases hresult
    · exact List.mem_singleton.mp hmem
  cases h with
  | idle hfailures =>
    rw [hfailures first hfirst] at ha
    cases ha
  | inFlight hfailures last hflight =>
    rw [hone hfailures hfirst ha] at ha
    rw [hone hfailures hsecond hb] at hb
    exact Option.some.inj (ha.symm.trans hb)
  | done hfailures caller value =>
    rw [hone hfailures hfirst ha] at ha
    rw [hone hfailures hsecond hb] at hb
    exact Option.some.inj (ha.symm.trans hb)

/-! ### What the operations keep -/

theorem enter_attempts (cell : Cell ι α) (caller : ι) :
    (cell.enter caller).1.attempts = cell.attempts ∨
      (cell.enter caller).1.attempts = cell.attempts ++ [⟨caller, .queued⟩] := by
  unfold enter
  split
  · exact .inl rfl
  · exact .inl rfl
  · exact .inr rfl

theorem enter_value (cell : Cell ι α) (caller : ι) : (cell.enter caller).1.value = cell.value := by
  unfold enter
  split
  · rfl
  · rfl
  · rename_i hvalue _
    exact hvalue.symm

theorem enter_awaited {caller : ι} {given : α} (h : (cell.enter caller).2 = .value given) :
    cell.value = some given := by
  unfold enter at h
  split at h
  · rename_i hvalue
    injection h with h
    rw [hvalue, h]
  · cases h
  · cases h

theorem Succeeded.enter {value : α} (h : cell.Succeeded value) (caller : ι) :
    (cell.enter caller).1.Succeeded value := by
  obtain ⟨attempt, hattempt, hresult⟩ := h
  refine ⟨attempt, ?_, hresult⟩
  rcases cell.enter_attempts caller with hsame | hsame <;> rw [hsame]
  · exact hattempt
  · exact List.mem_append_left _ hattempt

theorem Succeeded.advance {next : Cell ι α} {event : Event α} {value : α} (h : cell.Succeeded value)
    (hshape : Shape cell) (hnext : cell.advance index event = some next) : next.Succeeded value := by
  obtain ⟨failures, ⟨caller, before⟩, after, hfailures, -, rfl, hafter, rfl⟩ := advance_cases hshape hnext
  obtain ⟨attempt, hattempt, hresult⟩ := h
  refine ⟨⟨caller, after⟩, by simp, ?_⟩
  rcases List.mem_append.mp hattempt with hattempt | hattempt
  · rw [hfailures attempt hattempt] at hresult
    cases hresult
  · rw [List.mem_singleton.mp hattempt] at hresult
    rcases before with _ | _ | _ | _ | _ | _ | _ <;> cases hresult <;> rcases event with _ | _ | _ | _ | _ <;>
      cases hafter <;> rfl

theorem advance_value {next : Cell ι α} {event : Event α} {value : α} (h : cell.value = some value)
    (hshape : Shape cell) (hnext : cell.advance index event = some next) : next.value = some value := by
  obtain ⟨failures, ⟨caller, before⟩, after, hfailures, -, rfl, hafter, rfl⟩ := advance_cases hshape hnext
  rcases before with _ | _ | _ | _ | _ | _ | _ <;> cases h
  rcases event with _ | _ | _ | _ | _ <;> cases hafter
  rfl

theorem advance_attempts {next : Cell ι α} {event : Event α} (hnext : cell.advance index event = some next) :
    next.attempts.length = cell.attempts.length := by
  unfold Cell.advance at hnext
  split at hnext
  · cases hnext
  · obtain ⟨progress, -, rfl⟩ := Option.map_eq_some_iff.mp hnext
    exact List.length_set

/-- After a success nobody's callback is called again. -/
theorem Shape.enter_of_succeeded {value : α} (h : Shape cell) (hvalue : cell.Succeeded value) (caller : ι) :
    (cell.enter caller).1 = cell := by
  cases h with
  | idle hfailures =>
    obtain ⟨attempt, hattempt, hresult⟩ := hvalue
    rw [hfailures attempt hattempt] at hresult
    cases hresult
  | inFlight hfailures attempt hflight => exact enter_of_promise rfl caller
  | done hfailures caller' value => rfl

/-- After failures alone the next caller's callback is called. -/
theorem Shape.enter_of_allFailed (h : Shape cell) (hfailed : cell.AllFailed) (caller : ι) :
    cell.enter caller =
      (⟨none, some cell.attempts.length, cell.attempts ++ [⟨caller, .queued⟩]⟩, .attempt cell.attempts.length) := by
  cases h with
  | idle hfailures => rfl
  | inFlight hfailures attempt hflight =>
    rw [hfailed attempt (by simp)] at hflight
    cases hflight
  | done hfailures caller' value =>
    have hlast := hfailed ⟨caller', .resolved value⟩ (by simp)
    cases hlast

end Cell

end OwnMinutes.Lib.Once
