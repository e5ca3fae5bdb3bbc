import Mathlib.Data.List.Basic
import Mathlib.Logic.Function.Basic
import Mathlib.Data.Nat.Notation

/-! # Computations on a store that fails

Each step on the store takes the next fault of a script: the step is done, or it fails or the process stops
in it, after a part of its effect. `Faulty` computations are sequenced (`>>=`) and may catch a failure
(`attempt`); a stop is never caught. `Ends x faults s R T C` says how `x` ends under a script: what it returns
meets `R`, what a failure leaves meets `T`, what a stop leaves meets `C`. The rules of `Ends` are equivalences
for the ways to put computations together, and one implication for each step on files. -/

namespace OwnMinutes.Lib.Faults

/-- What happens to a step. The number says how much of its effect is there. -/
inductive Fault
  | done
  | fails (progress : ℕ)
  | stops (progress : ℕ)
  deriving DecidableEq, Repr

inductive Ending (α : Type)
  | returned (value : α)
  | failed
  | stopped
  deriving DecidableEq, Repr

def Faulty (σ α : Type) := List Fault → σ → Ending α × List Fault × σ

variable {σ α β : Type}

namespace Faulty

def ret (a : α) : Faulty σ α := fun faults s => (.returned a, faults, s)

def andThen (x : Faulty σ α) (f : α → Faulty σ β) : Faulty σ β := fun faults s =>
  match x faults s with
  | (.returned a, rest, t) => f a rest t
  | (.failed, rest, t) => (.failed, rest, t)
  | (.stopped, rest, t) => (.stopped, rest, t)

instance : Monad (Faulty σ) where
  pure := ret
  bind := andThen

def fail : Faulty σ α := fun faults s => (.failed, faults, s)

/-- `x`, and `handler` where it fails. -/
def attempt (x handler : Faulty σ α) : Faulty σ α := fun faults s =>
  match x faults s with
  | (.returned a, rest, t) => (.returned a, rest, t)
  | (.failed, rest, t) => handler rest t
  | (.stopped, rest, t) => (.stopped, rest, t)

/-- A step on the store: `partway k` is what a fault leaves of its effect. -/
def step (partway : ℕ → σ → σ) (effect : σ → Option (α × σ)) : Faulty σ α := fun faults s =>
  match faults.headD .done with
  | .done =>
    match effect s with
    | some (a, t) => (.returned a, faults.tail, t)
    | none => (.failed, faults.tail, s)
  | .fails progress => (.failed, faults.tail, partway progress s)
  | .stops progress => (.stopped, faults.tail, partway progress s)

/-- `f` for each of a list, in turn. -/
def forEach (f : α → Faulty σ β) : List α → Faulty σ (List β)
  | [] => ret []
  | a :: as => andThen (f a) fun b => andThen (forEach f as) fun bs => ret (b :: bs)

/-- A computation on a part of the store. -/
def zoom {τ : Type} (get : σ → τ) (set : σ → τ → σ) (x : Faulty τ α) : Faulty σ α := fun faults s =>
  match x faults (get s) with
  | (ending, rest, t) => (ending, rest, set s t)

end Faulty

open Faulty

/-! ### How a computation ends -/

def Ends (x : Faulty σ α) (faults : List Fault) (s : σ) (R : α → List Fault → σ → Prop)
    (T : List Fault → σ → Prop) (C : σ → Prop) : Prop :=
  match x faults s with
  | (.returned a, rest, t) => R a rest t
  | (.failed, rest, t) => T rest t
  | (.stopped, _, t) => C t

variable {x : Faulty σ α} {faults : List Fault} {s : σ} {R R' : α → List Fault → σ → Prop}
  {T T' : List Fault → σ → Prop} {C C' : σ → Prop}

theorem Ends.mono (h : Ends x faults s R T C) (hR : ∀ a rest t, R a rest t → R' a rest t)
    (hT : ∀ rest t, T rest t → T' rest t) (hC : ∀ t, C t → C' t) : Ends x faults s R' T' C' := by
  unfold Ends at h ⊢
  split at h
  · exact hR _ _ _ h
  · exact hT _ _ h
  · exact hC _ h

theorem Ends.and (h : Ends x faults s R T C) (h' : Ends x faults s R' T' C') :
    Ends x faults s (fun a rest t => R a rest t ∧ R' a rest t) (fun rest t => T rest t ∧ T' rest t)
      (fun t => C t ∧ C' t) := by
  unfold Ends at h h' ⊢
  rcases hx : x faults s with ⟨ending, rest, t⟩
  rw [hx] at h h'
  cases ending with
  | returned a | failed | stopped => exact ⟨h, h'⟩

variable {rest : List Fault} {f : α → Faulty σ β}

theorem Ends.returned {a : α} {t : σ} (h : Ends x faults s R T C) (hx : x faults s = (.returned a, rest, t)) :
    R a rest t := by
  unfold Ends at h
  rw [hx] at h
  exact h

theorem Ends.failed {t : σ} (h : Ends x faults s R T C) (hx : x faults s = (.failed, rest, t)) : T rest t := by
  unfold Ends at h
  rw [hx] at h
  exact h

theorem Ends.stopped {t : σ} (h : Ends x faults s R T C) (hx : x faults s = (.stopped, rest, t)) : C t := by
  unfold Ends at h
  rw [hx] at h
  exact h

@[simp] theorem ends_pure {a : α} : Ends (pure a : Faulty σ α) faults s R T C ↔ R a faults s := Iff.rfl

/-- **The rule of sequencing.** -/
theorem ends_bind {Q : β → List Fault → σ → Prop} :
    Ends (x >>= f) faults s Q T C ↔ Ends x faults s (fun a rest t => Ends (f a) rest t Q T C) T C := by
  change Ends (andThen x f) faults s Q T C ↔ _
  unfold Ends andThen
  rcases x faults s with ⟨ending, rest, t⟩
  cases ending with
  | returned a | failed | stopped => exact Iff.rfl

/-- **The rule of catching**: what a failure leaves is where the handler starts. -/
theorem ends_attempt {handler : Faulty σ α} :
    Ends (attempt x handler) faults s R T C ↔
      Ends x faults s R (fun rest t => Ends handler rest t R T C) C := by
  unfold Ends attempt
  rcases x faults s with ⟨ending, rest, t⟩
  cases ending with
  | returned a | failed | stopped => exact Iff.rfl

/-- The rule of a step under a known fault. -/
theorem ends_step_iff {partway : ℕ → σ → σ} {effect : σ → Option (α × σ)} :
    Ends (step partway effect) faults s R T C ↔
      match faults.headD .done with
      | .done =>
        match effect s with
        | some (a, t) => R a faults.tail t
        | none => T faults.tail s
      | .fails k => T faults.tail (partway k s)
      | .stops k => C (partway k s) := by
  unfold Ends step
  cases faults.headD .done with
  | done =>
    cases effect s with
    | none | some r => exact Iff.rfl
  | fails k | stops k => exact Iff.rfl

/-- The rule of a step under any fault: all that may be left of its effect is looked at. -/
theorem ends_step {partway : ℕ → σ → σ} {effect : σ → Option (α × σ)}
    (hT : ∀ k rest, T rest (partway k s)) (hC : ∀ k, C (partway k s))
    (hnone : effect s = none → ∀ rest, T rest s)
    (hsome : ∀ a t, effect s = some (a, t) → ∀ rest, R a rest t) :
    Ends (step partway effect) faults s R T C := by
  rw [ends_step_iff]
  cases faults.headD .done with
  | done =>
    cases heffect : effect s with
    | none => exact hnone heffect _
    | some r => exact hsome r.1 r.2 heffect _
  | fails k => exact hT k _
  | stops k => exact hC k

theorem ends_zoom {τ : Type} {get : σ → τ} {set : σ → τ → σ} {y : Faulty τ α} :
    Ends (zoom get set y) faults s R T C ↔
      Ends y faults (get s) (fun a rest t => R a rest (set s t)) (fun rest t => T rest (set s t))
        (fun t => C (set s t)) := by
  unfold Ends zoom
  rcases y faults (get s) with ⟨ending, rest, t⟩
  cases ending with
  | returned a | failed | stopped => exact Iff.rfl

/-- **The rule of a loop**: `P` of what is done and what is left holds before each round. -/
theorem ends_forEach {as : List α} (P : List β → List α → List Fault → σ → Prop) {Q : List β → List Fault → σ → Prop}
    {done : List β} (hstart : P done as faults s) (hround : ∀ done a as faults s, P done (a :: as) faults s →
      Ends (f a) faults s (fun b rest t => P (done ++ [b]) as rest t) T C)
    (hend : ∀ bs rest t, P (done ++ bs) [] rest t → Q bs rest t) : Ends (forEach f as) faults s Q T C := by
  induction as generalizing done faults s Q with
  | nil => exact hend [] faults s (by rw [List.append_nil]; exact hstart)
  | cons a as ih =>
    have hfirst := hround done a as faults s hstart
    change Ends (f a >>= fun b => forEach f as >>= fun bs => pure (b :: bs)) faults s Q T C
    rw [ends_bind]
    refine hfirst.mono (fun b rest t hb => ?_) (fun _ _ h => h) fun _ h => h
    rw [ends_bind]
    exact ih hb fun bs rest t hbs => hend (b :: bs) rest t (by rw [List.append_cons]; exact hbs)

theorem Ends.const {P : Prop} (h : Ends x faults s (fun _ _ _ => P) (fun _ _ => P) fun _ => P) : P := by
  unfold Ends at h
  split at h
  · exact h
  · exact h
  · exact h

theorem ends_true : Ends x faults s (fun _ _ _ => True) (fun _ _ => True) fun _ => True := by
  unfold Ends
  split
  · exact trivial
  · exact trivial
  · exact trivial

/-! ### One run -/

theorem run_bind {a : α} {t : σ} (h : x faults s = (.returned a, rest, t)) : (x >>= f) faults s = f a rest t := by
  change andThen x f faults s = _
  rw [andThen, h]

theorem ends_of_run {a : α} {t : σ} (h : x faults s = (.returned a, rest, t)) (hR : R a rest t) :
    Ends x faults s R T C := by
  unfold Ends
  rw [h]
  exact hR

theorem run_attempt {handler : Faulty σ α} {a : α} {t : σ} (h : x faults s = (.returned a, rest, t)) :
    attempt x handler faults s = (.returned a, rest, t) := by
  rw [attempt, h]

/-- A loop whose rounds leave the store as it is. -/
theorem run_forEach {g : α → β} {as : List α} (h : ∀ a ∈ as, f a faults s = (.returned (g a), faults, s)) :
    forEach f as faults s = (.returned (as.map g), faults, s) := by
  induction as with
  | nil => rfl
  | cons a as ih =>
    have hfirst := h a List.mem_cons_self
    have hrest := ih fun b hb => h b (List.mem_cons_of_mem a hb)
    change (f a >>= fun b => forEach f as >>= fun bs => pure (b :: bs)) faults s = _
    rw [run_bind hfirst, run_bind hrest]
    rfl

/-! ### What a computation keeps -/

/-- However it ends, `I` holds of what it leaves. -/
def Keeps (I : σ → Prop) (x : Faulty σ α) : Prop :=
  ∀ faults s, I s → Ends x faults s (fun _ _ t => I t) (fun _ t => I t) I

section Keeps

variable {I : σ → Prop} {y : Faulty σ β}

theorem Keeps.ends (h : Keeps I x) (hs : I s) :
    Ends x faults s (fun _ _ t => I t) (fun _ t => I t) I := h faults s hs

@[simp] theorem keeps_pure {a : α} : Keeps I (pure a : Faulty σ α) := fun _ _ h => h

@[simp] theorem keeps_fail : Keeps I (fail : Faulty σ α) := fun _ _ h => h

theorem keeps_bind (hx : Keeps I x) (hf : ∀ a, Keeps I (f a)) : Keeps I (x >>= f) := by
  intro faults s hs
  rw [ends_bind]
  exact (hx faults s hs).mono (fun a rest t ht => hf a rest t ht) (fun _ _ h => h) fun _ h => h

theorem keeps_attempt {handler : Faulty σ α} (hx : Keeps I x) (hhandler : Keeps I handler) :
    Keeps I (attempt x handler) := by
  intro faults s hs
  rw [ends_attempt]
  exact (hx faults s hs).mono (fun _ _ _ h => h) (fun rest t ht => hhandler rest t ht) fun _ h => h

theorem keeps_step {partway : ℕ → σ → σ} {effect : σ → Option (α × σ)} (hpartway : ∀ k s, I s → I (partway k s))
    (heffect : ∀ s a t, effect s = some (a, t) → I s → I t) : Keeps I (step partway effect) :=
  fun _ s hs => ends_step (fun k _ => hpartway k s hs) (fun k => hpartway k s hs) (fun _ _ => hs)
    fun a t h _ => heffect s a t h hs

theorem keeps_forEach {as : List α} (hf : ∀ a ∈ as, Keeps I (f a)) : Keeps I (forEach f as) := by
  induction as with
  | nil => exact keeps_pure
  | cons a as ih =>
    have hfirst := hf a List.mem_cons_self
    have hrest := ih fun b hb => hf b (List.mem_cons_of_mem a hb)
    exact keeps_bind hfirst fun b => keeps_bind hrest fun bs => keeps_pure

end Keeps

/-! ### Files

Removing and moving a file is atomic; a copy or a write may leave the first part of the contents. -/

section Files

variable {κ ι : Type} [DecidableEq κ]

/-- A store of files with their contents. -/
abbrev Files (κ ι : Type) := κ → Option (List ι)

/-- The store with the first `progress - 1` parts of a write, none at progress `0`. -/
def Files.partly (s : Files κ ι) (path : κ) (contents : List ι) (progress : ℕ) : Files κ ι :=
  match progress with
  | 0 => s
  | k + 1 => Function.update s path (some (contents.take k))

def fileExists (path : κ) : Faulty (Files κ ι) Bool :=
  step (fun _ s => s) fun s => some ((s path).isSome, s)

def read (path : κ) : Faulty (Files κ ι) (List ι) :=
  step (fun _ s => s) fun s => (s path).map fun contents => (contents, s)

def remove (path : κ) : Faulty (Files κ ι) Unit :=
  step (fun k s => if k = 0 then s else Function.update s path none)
    fun s => some ((), Function.update s path none)

def write (path : κ) (contents : List ι) : Faulty (Files κ ι) Unit :=
  step (fun k s => s.partly path contents k)
    fun s => some ((), Function.update s path (some contents))

/-- The store after a move of `contents`. -/
def Files.moved (s : Files κ ι) (source target : κ) (contents : List ι) : Files κ ι :=
  Function.update (Function.update s target (some contents)) source none

def move (source target : κ) : Faulty (Files κ ι) Unit :=
  step (fun k s => if k = 0 then s else (s source).elim s (s.moved source target))
    fun s => (s source).map fun contents => ((), s.moved source target contents)

def copy (source target : κ) : Faulty (Files κ ι) Unit :=
  step (fun k s => (s source).elim s fun contents => s.partly target contents k)
    fun s => (s source).map fun contents => ((), Function.update s target (some contents))

/-- All files hold contents with `P`. -/
def Files.Within (P : List ι → Prop) (s : Files κ ι) : Prop :=
  ∀ path contents, s path = some contents → P contents

variable {s : Files κ ι} {path source target : κ} {contents : List ι} {I : Files κ ι → Prop}

omit [DecidableEq κ] in
theorem ends_fileExists {R : Bool → List Fault → Files κ ι → Prop} (hI : I s)
    (hR : ∀ rest, R (s path).isSome rest s) :
    Ends (fileExists path) faults s R (fun _ => I) I := by
  refine ends_step (fun _ _ => hI) (fun _ => hI) (fun h => by cases h) fun a t h rest => ?_
  cases h
  exact hR rest

omit [DecidableEq κ] in
theorem ends_read {R : List ι → List Fault → Files κ ι → Prop} (hI : I s)
    (hR : ∀ contents, s path = some contents → ∀ rest, R contents rest s) :
    Ends (read path) faults s R (fun _ => I) I := by
  refine ends_step (fun _ _ => hI) (fun _ => hI) (fun _ _ => hI) fun a t h rest => ?_
  obtain ⟨contents, hcontents, heq⟩ := Option.map_eq_some_iff.mp h
  cases heq
  exact hR a hcontents rest

theorem ends_remove {R : Unit → List Fault → Files κ ι → Prop} (hI : I s)
    (hremoved : I (Function.update s path none)) (hR : ∀ rest, R () rest (Function.update s path none)) :
    Ends (remove path) faults s R (fun _ => I) I := by
  have hpartway : ∀ k, I (if k = 0 then s else Function.update s path none) := by
    intro k
    split_ifs
    · exact hI
    · exact hremoved
  refine ends_step (fun k _ => hpartway k) hpartway (fun h => by cases h) fun a t h rest => ?_
  cases h
  exact hR rest

theorem ends_write {R : Unit → List Fault → Files κ ι → Prop} (hI : I s)
    (hpart : ∀ k, I (Function.update s path (some (contents.take k))))
    (hR : ∀ rest, R () rest (Function.update s path (some contents))) :
    Ends (write path contents) faults s R (fun _ => I) I := by
  have hpartway : ∀ k, I (s.partly path contents k) := by
    intro k
    cases k with
    | zero => exact hI
    | succ k => exact hpart k
  refine ends_step (fun k _ => hpartway k) hpartway (fun h => by cases h) fun a t h rest => ?_
  cases h
  exact hR rest

theorem ends_move {R : Unit → List Fault → Files κ ι → Prop} (hI : I s)
    (hmoved : ∀ contents, s source = some contents → I (s.moved source target contents))
    (hR : ∀ contents, s source = some contents → ∀ rest, R () rest (s.moved source target contents)) :
    Ends (move source target) faults s R (fun _ => I) I := by
  have hpartway : ∀ k, I (if k = 0 then s else (s source).elim s (s.moved source target)) := by
    intro k
    split_ifs
    · exact hI
    · cases hsource : s source with
      | none => exact hI
      | some contents => exact hmoved contents hsource
  refine ends_step (fun k _ => hpartway k) hpartway (fun _ _ => hI) fun a t h rest => ?_
  obtain ⟨contents, hcontents, heq⟩ := Option.map_eq_some_iff.mp h
  cases heq
  exact hR contents hcontents rest

theorem ends_copy {R : Unit → List Fault → Files κ ι → Prop} (hI : I s)
    (hpart : ∀ contents, s source = some contents → ∀ k,
      I (Function.update s target (some (contents.take k))))
    (hR : ∀ contents, s source = some contents → ∀ rest,
      R () rest (Function.update s target (some contents))) :
    Ends (copy source target) faults s R (fun _ => I) I := by
  have hpartway : ∀ k, I ((s source).elim s fun contents => s.partly target contents k) := by
    intro k
    cases hsource : s source with
    | none => exact hI
    | some contents =>
      cases k with
      | zero => exact hI
      | succ k => exact hpart contents hsource k
  refine ends_step (fun k _ => hpartway k) hpartway (fun _ _ => hI) fun a t h rest => ?_
  obtain ⟨contents, hcontents, heq⟩ := Option.map_eq_some_iff.mp h
  cases heq
  exact hR contents hcontents rest

end Files

end OwnMinutes.Lib.Faults
