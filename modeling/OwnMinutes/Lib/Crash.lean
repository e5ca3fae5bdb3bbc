import Mathlib.Data.Nat.Notation
import Mathlib.Tactic.Common

/-! # Computations that may crash between their writes

A section of code that holds a lock over a durable store writes to it in several steps and may stop after
any of them. `Durable` keeps the store after each write beside the result, so that "stopped after some of
its writes" (`Visits`) and "returned" (`Returns`) are both read off it. `Wp C x Q` is the weakest
precondition with a crash condition: from there `x` is never found anywhere but in a store with `C`, and a
value that it returns meets `Q`; the rules are equivalences, one for each form of a computation. -/

namespace OwnMinutes.Lib.Crash

/-- A computation on a store: the stores that its writes leave, one after the other, and how it ends. -/
def Durable (σ ε α : Type) := σ → List σ × Except ε α

variable {σ ε α β : Type}

/-- The store after the writes `ws`. -/
def after (s : σ) (ws : List σ) : σ := ws.getLastD s

namespace Durable

def ret (a : α) : Durable σ ε α := fun _ => ([], .ok a)

def andThen (x : Durable σ ε α) (f : α → Durable σ ε β) : Durable σ ε β := fun s =>
  match (x s).2 with
  | .error e => ((x s).1, .error e)
  | .ok a => ((x s).1 ++ (f a (after s (x s).1)).1, (f a (after s (x s).1)).2)

instance : Monad (Durable σ ε) where
  pure := ret
  bind := andThen

def read : Durable σ ε σ := fun s => ([], .ok s)

def write (f : σ → σ) : Durable σ ε Unit := fun s => ([f s], .ok ())

def fail (e : ε) : Durable σ ε α := fun _ => ([], .error e)

/-- A check that ends the computation where it does not hold. -/
def require (c : Prop) [Decidable c] (e : ε) : Durable σ ε Unit := if c then ret () else fail e

def lift (x : Except ε α) : Durable σ ε α := fun _ => ([], x)

end Durable

open Durable

@[simp] theorem after_nil (s : σ) : after s [] = s := rfl

@[simp] theorem after_append (s : σ) (ws ws' : List σ) :
    after s (ws ++ ws') = after (after s ws) ws' := by
  rcases List.eq_nil_or_concat ws' with rfl | ⟨init, last, rfl⟩
  · rw [List.append_nil, after_nil]
  · unfold after
    rw [List.concat_eq_append, ← List.append_assoc, List.getLastD_concat, List.getLastD_concat]

theorem after_mem (s : σ) (ws : List σ) : after s ws ∈ s :: ws := by
  rcases List.eq_nil_or_concat ws with rfl | ⟨init, last, rfl⟩
  · exact List.mem_cons_self
  · unfold after
    rw [List.concat_eq_append, List.getLastD_concat]
    simp

/-! ### Where a computation may be found -/

/-- `x`, started in `s`, may be found in `t`: before its writes or after any of them. -/
def Visits (x : Durable σ ε α) (s t : σ) : Prop := t ∈ s :: (x s).1

/-- `x`, started in `s`, returns `a` and leaves `t`. -/
def Returns (x : Durable σ ε α) (s : σ) (a : α) (t : σ) : Prop :=
  (x s).2 = .ok a ∧ t = after s (x s).1

/-- `x`, started in `s`, ends with the error `e` and leaves `t`. -/
def Fails (x : Durable σ ε α) (s : σ) (e : ε) (t : σ) : Prop :=
  (x s).2 = .error e ∧ t = after s (x s).1

variable {x : Durable σ ε α} {t : σ} {a : α} {f : α → Durable σ ε β} {e : ε}

theorem Returns.visits {s : σ} (h : Returns x s a t) : Visits x s t :=
  h.2 ▸ after_mem s _

theorem returns_bind {s : σ} {b : β} : Returns (x >>= f) s b t ↔ ∃ a m, Returns x s a m ∧ Returns (f a) m b t := by
  change Returns (andThen x f) s b t ↔ _
  unfold Returns andThen
  constructor
  · intro h
    cases hx : (x s).2 with
    | error e => rw [hx] at h; cases h.1
    | ok a =>
      rw [hx] at h
      exact ⟨a, _, ⟨rfl, rfl⟩, h.1, h.2.trans (after_append s _ _)⟩
  · rintro ⟨a, m, ⟨hx, rfl⟩, hf, rfl⟩
    rw [hx]
    exact ⟨hf, (after_append s _ _).symm⟩

theorem visits_bind {s : σ} : Visits (x >>= f) s t ↔ Visits x s t ∨ ∃ a m, Returns x s a m ∧ Visits (f a) m t := by
  change Visits (andThen x f) s t ↔ _
  unfold Visits Returns andThen
  cases hx : (x s).2 with
  | error e =>
    constructor
    · exact .inl
    · rintro (h | ⟨a, m, ⟨h, -⟩, -⟩)
      · exact h
      · cases h
  | ok a =>
    rw [← List.cons_append, List.mem_append]
    constructor
    · rintro (h | h)
      · exact .inl h
      · exact .inr ⟨a, _, ⟨rfl, rfl⟩, List.mem_cons_of_mem _ h⟩
    · rintro (h | ⟨a', m, ⟨ha, rfl⟩, h⟩)
      · exact .inl h
      · cases ha
        rcases List.mem_cons.mp h with rfl | h
        · exact .inl (after_mem s _)
        · exact .inr h

@[simp] theorem returns_pure {s : σ} {b : α} : Returns (pure a : Durable σ ε α) s b t ↔ a = b ∧ t = s := by
  change Except.ok a = Except.ok b ∧ _ ↔ _
  rw [Except.ok.injEq]
  rfl

@[simp] theorem returns_read {s : σ} {a : σ} : Returns (read : Durable σ ε σ) s a t ↔ a = s ∧ t = s := by
  change Except.ok s = Except.ok a ∧ _ ↔ _
  rw [Except.ok.injEq, eq_comm]
  rfl

@[simp] theorem returns_write {f : σ → σ} {s : σ} {a : Unit} : Returns (write f : Durable σ ε Unit) s a t ↔ t = f s :=
  ⟨fun h => h.2, fun h => ⟨rfl, h⟩⟩

@[simp] theorem returns_fail {s : σ} : ¬ Returns (fail e : Durable σ ε α) s a t :=
  fun h => by cases h.1

@[simp] theorem returns_require {c : Prop} [Decidable c] {s : σ} {a : Unit} :
    Returns (require c e : Durable σ ε Unit) s a t ↔ c ∧ t = s := by
  unfold require
  split_ifs with h
  · exact ⟨fun hr => ⟨h, hr.2⟩, fun hr => ⟨rfl, hr.2⟩⟩
  · exact ⟨fun hr => absurd hr returns_fail, fun hr => absurd hr.1 h⟩

@[simp] theorem returns_lift {x : Except ε α} {s : σ} :
    Returns (lift x : Durable σ ε α) s a t ↔ x = .ok a ∧ t = s := Iff.rfl

@[simp] theorem visits_pure {s : σ} : Visits (pure a : Durable σ ε α) s t ↔ t = s :=
  List.mem_singleton

@[simp] theorem visits_read {s : σ} : Visits (read : Durable σ ε σ) s t ↔ t = s :=
  List.mem_singleton

@[simp] theorem visits_write {f : σ → σ} {s : σ} : Visits (write f : Durable σ ε Unit) s t ↔ t = s ∨ t = f s := by
  unfold Visits write
  rw [List.mem_cons, List.mem_singleton]

@[simp] theorem visits_fail {s : σ} : Visits (fail e : Durable σ ε α) s t ↔ t = s :=
  List.mem_singleton

@[simp] theorem visits_require {c : Prop} [Decidable c] {s : σ} :
    Visits (require c e : Durable σ ε Unit) s t ↔ t = s := by
  unfold require
  split_ifs
  · exact List.mem_singleton
  · exact List.mem_singleton

@[simp] theorem visits_lift {x : Except ε α} {s : σ} : Visits (lift x : Durable σ ε α) s t ↔ t = s :=
  List.mem_singleton

/-! ### How a computation fails -/

theorem fails_bind {s : σ} : Fails (x >>= f) s e t ↔ Fails x s e t ∨ ∃ a m, Returns x s a m ∧ Fails (f a) m e t := by
  change Fails (andThen x f) s e t ↔ _
  unfold Fails Returns andThen
  cases hx : (x s).2 with
  | error e' =>
    dsimp only
    constructor
    · rintro ⟨h, ht⟩
      cases h
      exact .inl ⟨rfl, ht⟩
    · rintro (⟨h, ht⟩ | ⟨a, m, ⟨h, -⟩, -⟩)
      · cases h
        exact ⟨rfl, ht⟩
      · cases h
  | ok a =>
    constructor
    · rintro ⟨h, ht⟩
      exact .inr ⟨a, _, ⟨rfl, rfl⟩, h, ht.trans (after_append s _ _)⟩
    · rintro (⟨h, -⟩ | ⟨a', m, ⟨ha, rfl⟩, h, ht⟩)
      · cases h
      · cases ha
        exact ⟨h, ht.trans (after_append s _ _).symm⟩

@[simp] theorem fails_require {c : Prop} [Decidable c] {s : σ} {e' : ε} :
    Fails (require c e : Durable σ ε Unit) s e' t ↔ ¬ c ∧ e' = e ∧ t = s := by
  unfold require
  split_ifs with h
  · constructor
    · intro hf
      cases hf.1
    · intro hf
      exact absurd h hf.1
  · constructor
    · intro hf
      cases hf.1
      exact ⟨h, rfl, hf.2⟩
    · rintro ⟨-, rfl, rfl⟩
      exact ⟨rfl, rfl⟩

/-- Run `x` to its end, or stop it after its first writes; the result is there at the end only. -/
def Durable.run (x : Durable σ ε α) (stop : Option ℕ) (s : σ) : σ × Option (Except ε α) :=
  match stop with
  | none => (after s (x s).1, some (x s).2)
  | some writes => (after s ((x s).1.take writes), none)

theorem visits_run (x : Durable σ ε α) (stop : Option ℕ) (s : σ) : Visits x s (x.run stop s).1 := by
  cases stop with
  | none => exact after_mem s _
  | some writes =>
    change after s ((x s).1.take writes) ∈ s :: (x s).1
    rcases List.mem_cons.mp (after_mem s ((x s).1.take writes)) with h | h
    · rw [h]
      exact List.mem_cons_self
    · exact List.mem_cons_of_mem _ (List.mem_of_mem_take h)

theorem returns_of_run {stop : Option ℕ} {s : σ} (h : (x.run stop s).2 = some (.ok a)) :
    Returns x s a (x.run stop s).1 := by
  cases stop with
  | none => exact ⟨Option.some.inj h, rfl⟩
  | some writes => cases h

theorem run_of_fails {s : σ} (h : Fails x s e t) : x.run none s = (t, some (.error e)) := by
  unfold Durable.run
  rw [h.1, h.2]

/-! ### Weakest preconditions with a crash condition -/

/-- Started in `s`, `x` is only ever found where `C` holds, and what it returns meets `Q`. -/
structure Wp (C : σ → Prop) (x : Durable σ ε α) (Q : α → σ → Prop) (s : σ) : Prop where
  crash {t : σ} (h : Visits x s t) : C t
  post {t : σ} {a : α} (h : Returns x s a t) : Q a t

variable {C : σ → Prop} {s : σ}

variable {Q : α → σ → Prop}

theorem wp_pure : Wp C (pure a : Durable σ ε α) Q s ↔ C s ∧ Q a s := by
  constructor
  · intro h
    exact ⟨h.crash (visits_pure.mpr rfl), h.post (returns_pure.mpr ⟨rfl, rfl⟩)⟩
  · rintro ⟨hC, hQ⟩
    refine ⟨fun h => visits_pure.mp h ▸ hC, fun h => ?_⟩
    obtain ⟨rfl, rfl⟩ := returns_pure.mp h
    exact hQ

theorem wp_fail : Wp C (fail e : Durable σ ε α) Q s ↔ C s := by
  constructor
  · intro h
    exact h.crash (visits_fail.mpr rfl)
  · intro hC
    exact ⟨fun h => visits_fail.mp h ▸ hC, fun h => absurd h returns_fail⟩

theorem wp_read {Q : σ → σ → Prop} : Wp C (read : Durable σ ε σ) Q s ↔ C s ∧ Q s s := by
  constructor
  · intro h
    exact ⟨h.crash (visits_read.mpr rfl), h.post (returns_read.mpr ⟨rfl, rfl⟩)⟩
  · rintro ⟨hC, hQ⟩
    refine ⟨fun h => visits_read.mp h ▸ hC, fun h => ?_⟩
    obtain ⟨rfl, rfl⟩ := returns_read.mp h
    exact hQ

theorem wp_write {f : σ → σ} {Q : Unit → σ → Prop} :
    Wp C (write f : Durable σ ε Unit) Q s ↔ C s ∧ C (f s) ∧ Q () (f s) := by
  constructor
  · intro h
    exact ⟨h.crash (visits_write.mpr (.inl rfl)), h.crash (visits_write.mpr (.inr rfl)),
      h.post (returns_write.mpr rfl)⟩
  · rintro ⟨hC, hf, hQ⟩
    refine ⟨fun h => ?_, fun h => returns_write.mp h ▸ hQ⟩
    rcases visits_write.mp h with rfl | rfl
    · exact hC
    · exact hf

theorem wp_require {c : Prop} [Decidable c] {Q : Unit → σ → Prop} :
    Wp C (require c e : Durable σ ε Unit) Q s ↔ C s ∧ (c → Q () s) := by
  constructor
  · intro h
    exact ⟨h.crash (visits_require.mpr rfl), fun hc => h.post (returns_require.mpr ⟨hc, rfl⟩)⟩
  · rintro ⟨hC, hQ⟩
    refine ⟨fun h => visits_require.mp h ▸ hC, fun h => ?_⟩
    obtain ⟨hc, rfl⟩ := returns_require.mp h
    exact hQ hc

theorem wp_lift {x : Except ε α} : Wp C (lift x : Durable σ ε α) Q s ↔ C s ∧ ∀ a, x = .ok a → Q a s := by
  constructor
  · intro h
    exact ⟨h.crash (visits_lift.mpr rfl), fun a hx => h.post (returns_lift.mpr ⟨hx, rfl⟩)⟩
  · rintro ⟨hC, hQ⟩
    refine ⟨fun h => visits_lift.mp h ▸ hC, fun h => ?_⟩
    obtain ⟨hx, rfl⟩ := returns_lift.mp h
    exact hQ _ hx

/-- **The rule of sequencing**: a crash of either half is a crash of the whole. -/
theorem wp_bind {Q : β → σ → Prop} : Wp C (x >>= f) Q s ↔ Wp C x (fun a => Wp C (f a) Q) s := by
  constructor
  · intro h
    refine ⟨fun hx => h.crash (visits_bind.mpr (.inl hx)), fun {m a} hx => ⟨fun hf => ?_, fun hf => ?_⟩⟩
    · exact h.crash (visits_bind.mpr (.inr ⟨a, m, hx, hf⟩))
    · exact h.post (returns_bind.mpr ⟨a, m, hx, hf⟩)
  · intro h
    refine ⟨fun ht => ?_, fun ht => ?_⟩
    · rcases visits_bind.mp ht with hx | ⟨a, m, hx, hf⟩
      · exact h.crash hx
      · exact (h.post hx).crash hf
    · obtain ⟨a, m, hx, hf⟩ := returns_bind.mp ht
      exact (h.post hx).post hf

theorem wp_map {f : α → β} {Q : β → σ → Prop} (h : Wp C x (fun a t => Q (f a) t) s) : Wp C (f <$> x) Q s := by
  change Wp C (x >>= fun a => pure (f a)) Q s
  rw [wp_bind]
  refine ⟨h.crash, fun hx => wp_pure.mpr ⟨h.crash hx.visits, h.post hx⟩⟩

theorem Wp.mono {C' : σ → Prop} {Q' : α → σ → Prop} (h : Wp C x Q s) (hC : ∀ t, C t → C' t)
    (hQ : ∀ a t, Q a t → Q' a t) : Wp C' x Q' s :=
  ⟨fun ht => hC _ (h.crash ht), fun ht => hQ _ _ (h.post ht)⟩

end OwnMinutes.Lib.Crash
