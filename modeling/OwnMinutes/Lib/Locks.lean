import Mathlib.Logic.Function.Basic

/-! # Locks of parties

Each party holds at most one of the locks, for as long as it says so (`Held`). A party that takes a lock
that is free, or gives back its own (`LockStep`), keeps this so; no two parties hold the same lock
(`Held.unique`). -/

namespace OwnMinutes.Lib.Locks

variable {ι κ : Type*}

/-- The locks that parties say they hold are those that are taken. -/
def Held (key? : ι → Option κ) (locks : κ → Option ι) : Prop :=
  ∀ i k, key? i = some k ↔ locks k = some i

theorem Held.unique {key? : ι → Option κ} {locks : κ → Option ι} (h : Held key? locks) {i j : ι} {k : κ}
    (hi : key? i = some k) (hj : key? j = some k) : i = j := by
  have hlock := (h i k).mp hi
  rw [(h j k).mp hj] at hlock
  exact (Option.some.inj hlock).symm

variable [DecidableEq κ]

/-- What a step of the party `i` does to the locks, with the lock that it holds before and after it. -/
inductive LockStep (i : ι) (locks locks' : κ → Option ι) : Option κ → Option κ → Prop
  | keeps {key : Option κ} (h : locks' = locks) : LockStep i locks locks' key key
  | takes {k : κ} (hfree : locks k = none) (h : locks' = Function.update locks k (some i)) :
      LockStep i locks locks' none (some k)
  | gives {k : κ} (h : locks' = Function.update locks k none) : LockStep i locks locks' (some k) none

/-- A lock that is free stays so, unless the party takes it. -/
theorem LockStep.free {i : ι} {locks locks' : κ → Option ι} {key key' : Option κ} {k : κ}
    (h : LockStep i locks locks' key key') (hfree : locks k = none) (hkey : key' = some k → key = some k) :
    locks' k = none := by
  cases h with
  | keeps h => rw [h, hfree]
  | takes _ h =>
    rw [h, Function.update_of_ne, hfree]
    intro heq
    cases hkey (congrArg some heq.symm)
  | @gives k' h =>
    rw [h]
    by_cases hk : k = k'
    · rw [hk, Function.update_self]
    · rw [Function.update_of_ne hk, hfree]

theorem Held.step {key? key?' : ι → Option κ} {locks locks' : κ → Option ι} {i : ι}
    (h : Held key? locks) (hothers : ∀ j ≠ i, key?' j = key? j)
    (hstep : LockStep i locks locks' (key? i) (key?' i)) : Held key?' locks' := by
  intro j k
  by_cases hj : j = i
  · subst hj
    generalize hkey : key? j = key at hstep
    generalize hkey' : key?' j = key' at hstep
    cases hstep with
    | keeps hlocks => rw [hlocks, ← h j k, hkey]
    | @takes k' hfree hlocks =>
      rw [hlocks]
      by_cases hk : k = k'
      · rw [hk, Function.update_self]
        exact ⟨fun _ => rfl, fun _ => rfl⟩
      · rw [Function.update_of_ne hk, ← h j k, hkey]
        exact ⟨fun heq => absurd (Option.some.inj heq).symm hk, fun heq => by cases heq⟩
    | @gives k' hlocks =>
      rw [hlocks]
      by_cases hk : k = k'
      · rw [hk, Function.update_self]
        exact ⟨fun heq => (by cases heq), fun heq => by cases heq⟩
      · rw [Function.update_of_ne hk, ← h j k, hkey]
        exact ⟨fun heq => (by cases heq), fun heq => absurd (Option.some.inj heq).symm hk⟩
  · rw [hothers j hj, h j k]
    generalize hkey : key? i = key at hstep
    generalize key?' i = key' at hstep
    cases hstep with
    | keeps hlocks => rw [hlocks]
    | @takes k' hfree hlocks =>
      rw [hlocks]
      by_cases hk : k = k'
      · rw [hk, Function.update_self, hfree]
        exact ⟨fun heq => (by cases heq), fun heq => absurd (Option.some.inj heq).symm hj⟩
      · rw [Function.update_of_ne hk]
    | @gives k' hlocks =>
      rw [hlocks]
      by_cases hk : k = k'
      · rw [hk, Function.update_self, (h i k').mp hkey]
        exact ⟨fun heq => absurd (Option.some.inj heq).symm hj, fun heq => by cases heq⟩
      · rw [Function.update_of_ne hk]

end OwnMinutes.Lib.Locks
