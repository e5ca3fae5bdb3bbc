import OwnMinutes.Lib.Crash
import Mathlib.Data.List.Basic

/-! # All the ways a crash-prone computation ends

`Ends C x Q E s` adds to the weakest precondition `Wp C x Q s` what an error leaves: `E`. A computation never
runs on, so where `E` is false it returns (`Ends.returns`). `through` is a write that is found after any part
of it, and `fold` is a loop with an accumulator. -/

namespace OwnMinutes.Lib.Crash

variable {σ ε α β : Type}

namespace Durable

/-- A write in parts: the stores that it leaves, one after the other. -/
def through (f : σ → List σ) : Durable σ ε Unit := fun s => (f s, .ok ())

/-- `f` for each of a list in turn, with an accumulator. -/
def fold (f : β → α → Durable σ ε β) : β → List α → Durable σ ε β
  | b, [] => ret b
  | b, a :: as => andThen (f b a) fun b => fold f b as

end Durable

open Durable

variable {s t : σ} {e e' : ε}

variable {f : σ → List σ}

theorem visits_through : Visits (through f : Durable σ ε Unit) s t ↔ t = s ∨ t ∈ f s :=
  List.mem_cons

theorem returns_through {a : Unit} : Returns (through f : Durable σ ε Unit) s a t ↔ t = after s (f s) :=
  ⟨fun h => h.2, fun h => ⟨rfl, h⟩⟩

@[simp] theorem not_fails_pure {a : α} : ¬ Fails (pure a : Durable σ ε α) s e t := fun h => by cases h.1

@[simp] theorem not_fails_read : ¬ Fails (read : Durable σ ε σ) s e t := fun h => by cases h.1

@[simp] theorem not_fails_write {f : σ → σ} : ¬ Fails (write f : Durable σ ε Unit) s e t :=
  fun h => by cases h.1

@[simp] theorem not_fails_through : ¬ Fails (through f : Durable σ ε Unit) s e t :=
  fun h => by cases h.1

theorem fails_lift {x : Except ε α} : Fails (lift x : Durable σ ε α) s e t ↔ x = .error e ∧ t = s := Iff.rfl

/-- A computation returns or fails. -/
theorem returns_or_fails (x : Durable σ ε α) (s : σ) :
    (∃ a t, Returns x s a t) ∨ ∃ e t, Fails x s e t := by
  rcases hx : (x s).2 with e | a
  · exact Or.inr ⟨e, _, hx, rfl⟩
  · exact Or.inl ⟨a, _, hx, rfl⟩

/-- Started in `s`, `x` is only ever found where `C` holds, what it returns meets `Q` and what an error leaves
meets `E`. -/
structure Ends (C : σ → Prop) (x : Durable σ ε α) (Q : α → σ → Prop) (E : ε → σ → Prop) (s : σ) : Prop
    extends Wp C x Q s where
  error {t : σ} {e : ε} (h : Fails x s e t) : E e t

/-- The error that does not happen. -/
def Never : ε → σ → Prop := fun _ _ => False

variable {C C' : σ → Prop} {E E' : ε → σ → Prop}

variable {x : Durable σ ε α}

theorem Ends.mono {Q Q' : α → σ → Prop} (h : Ends C x Q E s) (hC : ∀ t, C t → C' t) (hQ : ∀ a t, Q a t → Q' a t)
    (hE : ∀ e t, E e t → E' e t) : Ends C' x Q' E' s :=
  ⟨h.toWp.mono hC hQ, fun hf => hE _ _ (h.error hf)⟩

/-- The rule of consequence for what is returned. -/
theorem Ends.post_mono {Q Q' : α → σ → Prop} (h : Ends C x Q Never s) (hQ : ∀ a t, Q a t → Q' a t) :
    Ends C x Q' E s :=
  h.mono (fun _ ht => ht) hQ fun _ _ hf => absurd hf id

section Rules

variable {Q : Unit → σ → Prop}

theorem ends_pure {a : α} {R : α → σ → Prop} : Ends C (pure a : Durable σ ε α) R E s ↔ C s ∧ R a s :=
  ⟨fun h => wp_pure.mp h.toWp, fun h => ⟨wp_pure.mpr h, fun hf => absurd hf not_fails_pure⟩⟩

theorem ends_read {R : σ → σ → Prop} : Ends C (read : Durable σ ε σ) R E s ↔ C s ∧ R s s :=
  ⟨fun h => wp_read.mp h.toWp, fun h => ⟨wp_read.mpr h, fun hf => absurd hf not_fails_read⟩⟩

theorem ends_write {f : σ → σ} :
    Ends C (write f : Durable σ ε Unit) Q E s ↔ C s ∧ C (f s) ∧ Q () (f s) :=
  ⟨fun h => wp_write.mp h.toWp, fun h => ⟨wp_write.mpr h, fun hf => absurd hf not_fails_write⟩⟩

theorem ends_through :
    Ends C (through f : Durable σ ε Unit) Q E s ↔ C s ∧ (∀ t ∈ f s, C t) ∧ Q () (after s (f s)) := by
  constructor
  · intro h
    exact ⟨h.crash (visits_through.mpr (Or.inl rfl)), fun t ht => h.crash (visits_through.mpr (Or.inr ht)),
      h.post (returns_through.mpr rfl)⟩
  · rintro ⟨hC, hparts, hQ⟩
    refine ⟨⟨fun h => ?_, fun h => returns_through.mp h ▸ hQ⟩, fun hf => absurd hf not_fails_through⟩
    rcases visits_through.mp h with rfl | h
    · exact hC
    · exact hparts _ h

theorem ends_require {c : Prop} [Decidable c] :
    Ends C (require c e : Durable σ ε Unit) Q E s ↔ C s ∧ (c → Q () s) ∧ (¬ c → E e s) := by
  constructor
  · intro h
    have hw := wp_require.mp h.toWp
    exact ⟨hw.1, hw.2, fun hc => h.error (fails_require.mpr ⟨hc, rfl, rfl⟩)⟩
  · rintro ⟨hC, hQ, hE⟩
    refine ⟨wp_require.mpr ⟨hC, hQ⟩, fun hf => ?_⟩
    obtain ⟨hc, rfl, rfl⟩ := fails_require.mp hf
    exact hE hc

theorem ends_lift {x : Except ε α} {R : α → σ → Prop} :
    Ends C (lift x : Durable σ ε α) R E s ↔
      C s ∧ (∀ a, x = .ok a → R a s) ∧ ∀ e, x = .error e → E e s := by
  constructor
  · intro h
    have hw := wp_lift.mp h.toWp
    exact ⟨hw.1, hw.2, fun e hx => h.error (fails_lift.mpr ⟨hx, rfl⟩)⟩
  · rintro ⟨hC, hR, hE⟩
    refine ⟨wp_lift.mpr ⟨hC, hR⟩, fun hf => ?_⟩
    obtain ⟨hx, rfl⟩ := fails_lift.mp hf
    exact hE _ hx

/-- **The rule of sequencing.** -/
theorem ends_bind {f : α → Durable σ ε β} {R : β → σ → Prop} :
    Ends C (x >>= f) R E s ↔ Ends C x (fun a => Ends C (f a) R E) E s := by
  constructor
  · intro h
    have hw := wp_bind.mp h.toWp
    refine ⟨⟨hw.crash, fun {m a} hx => ⟨hw.post hx, fun hf => ?_⟩⟩, fun hf => ?_⟩
    · exact h.error (fails_bind.mpr (Or.inr ⟨a, m, hx, hf⟩))
    · exact h.error (fails_bind.mpr (Or.inl hf))
  · intro h
    refine ⟨wp_bind.mpr ⟨h.crash, fun hx => (h.post hx).toWp⟩, fun hf => ?_⟩
    rcases fails_bind.mp hf with hf | ⟨a, m, hx, hf⟩
    · exact h.error hf
    · exact (h.post hx).error hf

/-- A part that never fails, and what follows it. -/
theorem Ends.bind {f : α → Durable σ ε β} {P : α → σ → Prop} {R : β → σ → Prop} (h : Ends C x P Never s)
    (hf : ∀ a t, P a t → Ends C (f a) R E t) : Ends C (x >>= f) R E s :=
  ends_bind.mpr (h.post_mono hf)

/-- **The rule of a loop**: `P` of what is left holds before each round. -/
theorem ends_fold {f : β → α → Durable σ ε β} {R : β → σ → Prop} (P : β → List α → σ → Prop)
    (hcrash : ∀ b t, P b [] t → C t)
    (hround : ∀ b a as t, P b (a :: as) t → Ends C (f b a) (fun b => P b as) E t)
    (hend : ∀ b t, P b [] t → R b t) {b : β} {as : List α} (hstart : P b as s) :
    Ends C (fold f b as) R E s := by
  induction as generalizing b s with
  | nil => exact ends_pure.mpr ⟨hcrash b s hstart, hend b s hstart⟩
  | cons a as ih =>
    change Ends C (f b a >>= fun b => fold f b as) R E s
    rw [ends_bind]
    exact (hround b a as s hstart).mono (fun _ h => h) (fun _ _ h => ih h) fun _ _ h => h

end Rules

end OwnMinutes.Lib.Crash
