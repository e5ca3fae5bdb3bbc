import Mathlib.Data.List.Forall2
import Mathlib.Tactic.Common

/-! # Computations that may fail

Inversion of `Except` computations: what follows from a successful run of a bind, and from a bind
that failed. -/

namespace OwnMinutes.Lib.Outcome

universe u

variable {ε : Type*} {α β : Type u}

variable {x : Except ε α} {f : α → Except ε β}

/-- A bind succeeds when its first part and the rest succeed. -/
theorem bind_eq_ok {b : β} : (x >>= f) = .ok b ↔ ∃ a, x = .ok a ∧ f a = .ok b := by
  cases x with
  | error e =>
    constructor
    · intro h; cases h
    · rintro ⟨_, h, -⟩; cases h
  | ok a =>
    constructor
    · intro h; exact ⟨a, rfl, h⟩
    · rintro ⟨_, h, h'⟩; cases h; exact h'

/-- A bind fails where its first part fails or, after it, the rest. -/
theorem bind_eq_error {e : ε} : (x >>= f) = .error e ↔ x = .error e ∨ ∃ a, x = .ok a ∧ f a = .error e := by
  cases x with
  | error e' =>
    constructor
    · intro h
      cases h
      exact Or.inl rfl
    · rintro (h | ⟨_, h, -⟩)
      · cases h
        rfl
      · cases h
  | ok a =>
    constructor
    · intro h
      exact Or.inr ⟨a, rfl, h⟩
    · rintro (h | ⟨_, h, h'⟩)
      · cases h
      · cases h
        exact h'

@[simp] theorem ok_bind (a : α) (f : α → Except ε β) : ((Except.ok a : Except ε α) >>= f) = f a := rfl

@[simp] theorem error_bind (e : ε) (f : α → Except ε β) :
    ((Except.error e : Except ε α) >>= f) = .error e := rfl

/-- A guard that raises an error was not met. -/
theorem guard_eq_ok {c : Prop} [Decidable c] {e : ε} {a : α} :
    (if c then .error e else x) = .ok a ↔ ¬ c ∧ x = .ok a := by
  split_ifs with h <;> simp [h]

theorem map_eq_ok {f : α → β} {b : β} : x.map f = .ok b ↔ ∃ a, x = .ok a ∧ f a = b := by
  cases x with
  | error e | ok a => simp [Except.map]

/-- A list is mapped when each of its elements is. -/
theorem mapM_eq_ok {l : List α} {l' : List β} : l.mapM f = .ok l' ↔ List.Forall₂ (fun a b => f a = .ok b) l l' := by
  induction l generalizing l' with
  | nil =>
    constructor
    · intro h
      cases h
      exact .nil
    · intro h
      cases h
      rfl
  | cons a l ih =>
    rw [List.mapM_cons, bind_eq_ok]
    constructor
    · rintro ⟨b, hb, h⟩
      obtain ⟨bs, hbs, h⟩ := bind_eq_ok.mp h
      cases h
      exact .cons hb (ih.mp hbs)
    · intro h
      obtain ⟨b, bs, hb, hbs, rfl⟩ := List.forall₂_cons_left_iff.mp h
      exact ⟨b, hb, bind_eq_ok.mpr ⟨bs, ih.mpr hbs, rfl⟩⟩

theorem exists_mapM_eq_ok {R : α → β → Prop} {l : List α} (h : ∀ a ∈ l, ∃ b, f a = .ok b ∧ R a b) :
    ∃ l', l.mapM f = .ok l' ∧ List.Forall₂ R l l' := by
  induction l with
  | nil => exact ⟨[], rfl, .nil⟩
  | cons a l ih =>
    obtain ⟨b, hb, hR⟩ := h a List.mem_cons_self
    obtain ⟨bs, hbs, hRs⟩ := ih fun a' ha' => h a' (List.mem_cons_of_mem _ ha')
    refine ⟨b :: bs, ?_, .cons hR hRs⟩
    rw [List.mapM_cons, hb, hbs]
    rfl

/-- The result and the next state of a computation; a failed one leaves the state as it was. -/
def commit {σ : Type*} (state : σ) : Except ε (α × σ) → Except ε α × σ
  | .error e => (.error e, state)
  | .ok (a, next) => (.ok a, next)

theorem commit_ok {σ : Type*} {state next : σ} {x : Except ε (α × σ)} {a : α}
    (h : commit state x = (.ok a, next)) : x = .ok (a, next) := by
  cases x with
  | error e => simp [commit] at h
  | ok p => simp only [commit, Prod.mk.injEq, Except.ok.injEq] at h; rw [← h.1, ← h.2]

theorem commit_error {σ : Type*} {state next : σ} {x : Except ε (α × σ)} {e : ε}
    (h : commit state x = (.error e, next)) : next = state ∧ x = .error e := by
  cases x with
  | error e' => simp only [commit, Prod.mk.injEq, Except.error.injEq] at h; exact ⟨h.2.symm, by rw [h.1]⟩
  | ok p => simp [commit] at h

end OwnMinutes.Lib.Outcome
