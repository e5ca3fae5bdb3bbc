import Mathlib.Data.List.Basic
import Mathlib.Tactic.Common

/-! # Computations that ask

A computation asks for answers, one after the other, and keeps a list of what happened; it may throw, and another
may catch (`handle`). Where the answers run out it is still waiting for the next (`pending`): a list of answers
stands for every moment of a call. The rules of `Ends` say how computations that are put together end. -/

namespace OwnMinutes.Lib.Dialogue

inductive Ending (Error α : Type)
  | returned (value : α)
  | threw (error : Error)
  | pending
  deriving DecidableEq, Repr

structure World (Answer Event State : Type) where
  answers : List Answer
  events : List Event
  state : State

def Asking (Answer Event State Error α : Type) :=
  World Answer Event State → Ending Error α × World Answer Event State

variable {Answer Event State Error α β : Type}

namespace Asking

def ret (a : α) : Asking Answer Event State Error α := fun w => (.returned a, w)

def andThen (x : Asking Answer Event State Error α) (f : α → Asking Answer Event State Error β) :
    Asking Answer Event State Error β := fun w =>
  match x w with
  | (.returned a, w') => f a w'
  | (.threw e, w') => (.threw e, w')
  | (.pending, w') => (.pending, w')

instance : Monad (Asking Answer Event State Error) where
  pure := ret
  bind := andThen

def fail (e : Error) : Asking Answer Event State Error α := fun w => (.threw e, w)

/-- The value, or an error where there is none. -/
def ofOption (e : Error) : Option α → Asking Answer Event State Error α
  | some a => ret a
  | none => fail e

/-- Ask; the event has the answer, or none while it is waited for. -/
def ask (event : Option Answer → Event) : Asking Answer Event State Error Answer := fun w =>
  match w.answers with
  | [] => (.pending, { w with events := w.events ++ [event none] })
  | answer :: rest => (.returned answer, { w with answers := rest, events := w.events ++ [event (some answer)] })

def note (event : Event) : Asking Answer Event State Error Unit := fun w =>
  (.returned (), { w with events := w.events ++ [event] })

def getState : Asking Answer Event State Error State := fun w => (.returned w.state, w)

def setState (state : State) : Asking Answer Event State Error Unit := fun w => (.returned (), { w with state })

/-- `try x catch handler` -/
def handle (x : Asking Answer Event State Error α) (handler : Error → Asking Answer Event State Error α) :
    Asking Answer Event State Error α := fun w =>
  match x w with
  | (.returned a, w') => (.returned a, w')
  | (.threw e, w') => handler e w'
  | (.pending, w') => (.pending, w')

end Asking

open Asking

/-! ### How a computation ends -/

/-- What a computation returns meets `R`, what it throws meets `T`, and where it waits `P` holds. -/
def Ends (x : Asking Answer Event State Error α) (w : World Answer Event State)
    (R : α → World Answer Event State → Prop) (T : Error → World Answer Event State → Prop)
    (P : World Answer Event State → Prop) : Prop :=
  match x w with
  | (.returned a, w') => R a w'
  | (.threw e, w') => T e w'
  | (.pending, w') => P w'

variable {x : Asking Answer Event State Error α} {w : World Answer Event State}
  {R R' : α → World Answer Event State → Prop} {T T' : Error → World Answer Event State → Prop}
  {P P' : World Answer Event State → Prop}

theorem Ends.mono (h : Ends x w R T P) (hR : ∀ a w', R a w' → R' a w') (hT : ∀ e w', T e w' → T' e w')
    (hP : ∀ w', P w' → P' w') : Ends x w R' T' P' := by
  unfold Ends at h ⊢
  split at h
  · exact hR _ _ h
  · exact hT _ _ h
  · exact hP _ h

@[simp] theorem ends_pure {a : α} : Ends (pure a : Asking Answer Event State Error α) w R T P ↔ R a w := Iff.rfl

@[simp] theorem ends_fail {e : Error} : Ends (fail e : Asking Answer Event State Error α) w R T P ↔ T e w := Iff.rfl

/-- **The rule of sequencing.** -/
theorem ends_bind {f : α → Asking Answer Event State Error β} {Q : β → World Answer Event State → Prop} :
    Ends (x >>= f) w Q T P ↔ Ends x w (fun a w' => Ends (f a) w' Q T P) T P := by
  change Ends (andThen x f) w Q T P ↔ _
  unfold Ends andThen
  rcases x w with ⟨ending, w'⟩
  cases ending with
  | returned a | threw e | pending => exact Iff.rfl

/-- **The rule of catching.** -/
theorem ends_handle {handler : Error → Asking Answer Event State Error α} :
    Ends (handle x handler) w R T P ↔ Ends x w R (fun e w' => Ends (handler e) w' R T P) P := by
  unfold Ends handle
  rcases x w with ⟨ending, w'⟩
  cases ending with
  | returned a | threw e | pending => exact Iff.rfl

theorem ends_ofOption {e : Error} {value : Option α} {R : α → World Answer Event State → Prop}
    (hsome : ∀ a, value = some a → R a w) (hnone : value = none → T e w) :
    Ends (ofOption e value : Asking Answer Event State Error α) w R T P := by
  cases value with
  | some a => exact hsome a rfl
  | none => exact hnone rfl

/-- **The rule of asking.** -/
theorem ends_ask {event : Option Answer → Event} {R : Answer → World Answer Event State → Prop}
    (hanswer : ∀ answer rest, w.answers = answer :: rest →
      R answer { w with answers := rest, events := w.events ++ [event (some answer)] })
    (hpending : P { w with events := w.events ++ [event none] }) :
    Ends (ask event : Asking Answer Event State Error Answer) w R T P := by
  unfold Ends ask
  cases hanswers : w.answers with
  | nil =>
    rw [hanswers] at hpending
    exact hpending
  | cons answer rest => exact hanswer answer rest hanswers

@[simp] theorem ends_note {event : Event} {R : Unit → World Answer Event State → Prop} :
    Ends (note event : Asking Answer Event State Error Unit) w R T P ↔
      R () { w with events := w.events ++ [event] } := Iff.rfl

@[simp] theorem ends_getState {R : State → World Answer Event State → Prop} :
    Ends (getState : Asking Answer Event State Error State) w R T P ↔ R w.state w := Iff.rfl

@[simp] theorem ends_setState {state : State} {R : Unit → World Answer Event State → Prop} :
    Ends (setState state : Asking Answer Event State Error Unit) w R T P ↔ R () { w with state } := Iff.rfl

theorem ends_ite {c : Prop} [Decidable c] {y : Asking Answer Event State Error α} (hx : c → Ends x w R T P)
    (hy : ¬ c → Ends y w R T P) : Ends (if c then x else y) w R T P := by
  by_cases h : c
  · rw [if_pos h]
    exact hx h
  · rw [if_neg h]
    exact hy h

/-- A computation goes on the same way with what goes on the same way from where it gets. -/
theorem bind_congr_at {f g : α → Asking Answer Event State Error β}
    (h : ∀ a w', x w = (.returned a, w') → f a w' = g a w') : (x >>= f) w = (x >>= g) w := by
  change andThen x f w = andThen x g w
  unfold andThen
  rcases hx : x w with ⟨ending, w'⟩
  cases ending with
  | returned a => exact h a w' hx
  | threw e | pending => rfl

end OwnMinutes.Lib.Dialogue
