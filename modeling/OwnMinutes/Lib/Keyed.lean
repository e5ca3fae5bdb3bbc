import Mathlib.Algebra.BigOperators.Group.List.Basic
import Mathlib.Algebra.Order.BigOperators.Group.List
import Mathlib.Data.List.Forall2
import Mathlib.Data.List.Nodup
import Mathlib.Tactic.Abel

/-! # Keyed tables

A table is a list of rows no two of which have the same key; the proof is a field, so a table with
a repeated key cannot be built. Rows are found by a predicate (`find?`) or by their key (`get?`),
replaced by a row of the same key (`replace`), rewritten wherever a condition holds
(`updateWhere`), appended (`insert`) and dropped (`removeWhere`).

A sum over the rows (`sum`) changes by the rows that changed: `sum_replace`, `sum_insert`,
`sum_updateWhere`. -/

namespace OwnMinutes.Lib.Keyed

/-- Rows that carry a key. -/
class HasKey (α : Type*) (κ : outParam Type*) where
  key : α → κ

open HasKey (key)

/-- A list of rows without a repeated key. -/
structure Table (α : Type*) {κ : Type*} [HasKey α κ] where
  rows : List α
  nodup : (rows.map key).Nodup

namespace Table

variable {α κ : Type*} [HasKey α κ]

@[ext]
theorem ext_rows {s t : Table α} (h : s.rows = t.rows) : s = t := by
  cases s; cases t; cases h; rfl

instance [DecidableEq α] : DecidableEq (Table α) := fun s t =>
  decidable_of_iff (s.rows = t.rows) ⟨ext_rows, fun h => by rw [h]⟩

instance : Membership α (Table α) := ⟨fun t x => x ∈ t.rows⟩

variable {x : α}

theorem mem_def {t : Table α} : x ∈ t ↔ x ∈ t.rows := Iff.rfl

/-- The table without rows. -/
def empty : Table α := ⟨[], by simp⟩

instance : Inhabited (Table α) := ⟨empty⟩

@[simp] theorem not_mem_empty (x : α) : x ∉ (empty : Table α) := by simp [mem_def, empty]

variable {y : α}

/-- Two rows with the same key are the same row. -/
theorem eq_of_key {t : Table α} (hx : x ∈ t) (hy : y ∈ t) (h : key x = key y) : x = y :=
  List.inj_on_of_nodup_map t.nodup hx hy h

/-! ### Finding rows -/

/-- The first row that satisfies `p`. -/
def find? (t : Table α) (p : α → Bool) : Option α := t.rows.find? p

variable {p : α → Bool}

theorem mem_of_find? {t : Table α} (h : t.find? p = some x) : x ∈ t :=
  List.mem_of_find?_eq_some h

theorem of_find? {t : Table α} (h : t.find? p = some x) : p x = true :=
  List.find?_some h

theorem find?_none {t : Table α} : t.find? p = none ↔ ∀ x ∈ t, p x = false := by
  simp [find?, List.find?_eq_none, mem_def]

/-- A row that is the only one to satisfy `p` is the one found. -/
theorem find?_eq_some_of_unique {t : Table α} (hx : x ∈ t) (hp : p x = true) (hu : ∀ y ∈ t, p y = true → y = x) :
    t.find? p = some x := by
  cases h : t.find? p with
  | none => rw [find?_none.mp h x hx] at hp; cases hp
  | some y => rw [hu y (mem_of_find? h) (of_find? h)]

theorem find?_congr {t : Table α} {q : α → Bool} (h : ∀ x ∈ t, p x = q x) : t.find? p = t.find? q := by
  unfold find?
  have : ∀ l : List α, (∀ x ∈ l, p x = q x) → l.find? p = l.find? q := by
    intro l
    induction l with
    | nil => intro _; rfl
    | cons a l ih =>
      intro hl
      rw [List.find?_cons, List.find?_cons, hl a (by simp), ih fun x hx => hl x (by simp [hx])]
  exact this t.rows h

/-! ### Rewriting rows -/

/-- Rewrite every row by `f`, which keeps the keys. -/
def mapRows (t : Table α) (f : α → α) (hf : ∀ x, key (f x) = key x) : Table α where
  rows := t.rows.map f
  nodup := by
    have : (t.rows.map f).map key = t.rows.map key := by
      rw [List.map_map]; exact List.map_congr_left fun x _ => hf x
    rw [this]; exact t.nodup

/-- Rewrite the rows that satisfy `p` by `f`, which keeps the keys. -/
def updateWhere (t : Table α) (p : α → Bool) (f : α → α) (hf : ∀ x, key (f x) = key x) : Table α :=
  t.mapRows (fun x => if p x then f x else x) fun x => by
    by_cases h : p x
    · simp only [h, if_true]; exact hf x
    · simp only [h]; rfl

variable {f : α → α}

theorem mem_mapRows {t : Table α} (hf : ∀ x, key (f x) = key x) : y ∈ t.mapRows f hf ↔ ∃ x ∈ t, f x = y := by
  simp [mem_def, mapRows]

theorem mapRows_id {t : Table α} (hf : ∀ x, key (f x) = key x) (h : ∀ x ∈ t, f x = x) : t.mapRows f hf = t := by
  refine ext_rows ?_
  have hrows : t.rows.map f = t.rows.map id := List.map_congr_left h
  exact hrows.trans (List.map_id t.rows)

/-- Without a row that satisfies `p` nothing is rewritten. -/
theorem updateWhere_none {t : Table α} (hf : ∀ x, key (f x) = key x) (h : ∀ x ∈ t, p x = false) :
    t.updateWhere p f hf = t := by
  unfold updateWhere
  refine mapRows_id _ fun x hx => ?_
  rw [h x hx]
  rfl

theorem mem_updateWhere {t : Table α} (hf : ∀ x, key (f x) = key x) :
    y ∈ t.updateWhere p f hf ↔ ∃ x ∈ t, (if p x then f x else x) = y := mem_mapRows _

/-- Drop the rows that satisfy `p`. -/
def removeWhere (t : Table α) (p : α → Bool) : Table α where
  rows := t.rows.filter fun x => !p x
  nodup := (List.Sublist.map key List.filter_sublist).nodup t.nodup

theorem mem_removeWhere {t : Table α} : x ∈ t.removeWhere p ↔ x ∈ t ∧ p x = false := by
  simp [mem_def, removeWhere]

/-- The row that is found stays the first one. -/
theorem find?_removeWhere {t : Table α} {removed : α → Bool} (h : t.find? p = some x) (hx : removed x = false) :
    (t.removeWhere removed).find? p = some x := by
  obtain ⟨hp, front, back, hrows, hfront⟩ := List.find?_eq_some_iff_append.mp h
  have hgo : (t.rows.filter fun y => !removed y).find? p = some x := by
    rw [List.find?_filter, List.find?_eq_some_iff_append]
    refine ⟨by simp [hp, hx], front, back, hrows, fun y hy => ?_⟩
    have hy := hfront y hy
    simp_all
  exact hgo

variable [DecidableEq κ]

/-- The row of key `k`. -/
def get? (t : Table α) (k : κ) : Option α := t.find? fun x => decide (key x = k)

variable {k : κ}

theorem get?_eq_some {t : Table α} : t.get? k = some x ↔ x ∈ t ∧ key x = k := by
  constructor
  · intro h
    exact ⟨mem_of_find? h, by simpa using of_find? h⟩
  · rintro ⟨hx, rfl⟩
    exact find?_eq_some_of_unique hx (by simp) fun y hy h => eq_of_key hy hx (by simpa using h)

theorem get?_eq_none {t : Table α} : t.get? k = none ↔ ∀ x ∈ t, key x ≠ k := by
  rw [get?, find?_none]; simp

theorem get?_key {t : Table α} (hx : x ∈ t) : t.get? (key x) = some x :=
  get?_eq_some.mpr ⟨hx, rfl⟩

theorem mem_of_get? {t : Table α} (h : t.get? k = some x) : x ∈ t :=
  (get?_eq_some.mp h).1

theorem key_of_get? {t : Table α} (h : t.get? k = some x) : key x = k :=
  (get?_eq_some.mp h).2

/-- Replace the row of `x`'s key by `x`; without such a row nothing changes. -/
def replace (t : Table α) (x : α) : Table α where
  rows := t.rows.map fun y => if key y = key x then x else y
  nodup := by
    have : (t.rows.map fun y => if key y = key x then x else y).map key = t.rows.map key := by
      rw [List.map_map]
      refine List.map_congr_left fun y _ => ?_
      by_cases h : key y = key x
      · simp [h]
      · simp [h]
    rw [this]; exact t.nodup

/-- Append `x`, unless a row has its key. -/
def insert (t : Table α) (x : α) : Table α :=
  if h : key x ∈ t.rows.map key then t
  else ⟨t.rows ++ [x], by
    rw [List.map_append, List.map_singleton]
    refine List.Nodup.append t.nodup (List.nodup_singleton _) ?_
    intro k hk hx
    rw [List.mem_singleton] at hx
    exact h (hx ▸ hk)⟩

/-- No row has the key `k`. -/
def Fresh (t : Table α) (k : κ) : Prop := ∀ x ∈ t, key x ≠ k

instance (t : Table α) (k : κ) : Decidable (t.Fresh k) :=
  inferInstanceAs (Decidable (∀ x ∈ t.rows, key x ≠ k))

theorem insert_of_mem {t : Table α} (hy : y ∈ t) (h : key y = key x) : t.insert x = t :=
  dif_pos (h ▸ List.mem_map_of_mem hy)

theorem rows_insert {t : Table α} (h : t.Fresh (key x)) : (t.insert x).rows = t.rows ++ [x] := by
  have : key x ∉ t.rows.map key := by
    intro hm
    obtain ⟨y, hy, he⟩ := List.mem_map.mp hm
    exact h y hy he
  rw [insert, dif_neg this]

theorem mem_insert {t : Table α} (h : t.Fresh (key x)) : y ∈ t.insert x ↔ y ∈ t ∨ y = x := by
  rw [mem_def, rows_insert h]; simp [mem_def]

/-- Append the rows one after the other. -/
def insertAll (t : Table α) (xs : List α) : Table α := xs.foldl insert t

theorem rows_insertAll {t : Table α} {xs : List α} (hfresh : ∀ x ∈ xs, t.Fresh (key x))
    (hnodup : (xs.map key).Nodup) : (t.insertAll xs).rows = t.rows ++ xs := by
  induction xs generalizing t with
  | nil => exact (List.append_nil _).symm
  | cons x xs ih =>
    obtain ⟨hx, hxs⟩ := List.nodup_cons.mp hnodup
    have hrows := rows_insert (hfresh x List.mem_cons_self)
    have hrest : ∀ y ∈ xs, (t.insert x).Fresh (key y) := by
      intro y hy z hz he
      rcases (mem_insert (hfresh x List.mem_cons_self)).mp hz with hz | rfl
      · exact hfresh y (List.mem_cons_of_mem _ hy) z hz he
      · exact hx (he ▸ List.mem_map_of_mem hy)
    have hall := ih hrest hxs
    rw [hrows, List.append_assoc] at hall
    exact hall

theorem mem_of_mem_insert {t : Table α} (h : y ∈ t.insert x) : y ∈ t ∨ y = x := by
  by_cases hx : key x ∈ t.rows.map key
  · rw [insert, dif_pos hx] at h; exact Or.inl h
  · rw [insert, dif_neg hx, mem_def] at h
    rcases List.mem_append.mp h with h | h
    · exact Or.inl h
    · exact Or.inr (by simpa using h)

theorem mem_insert_of_mem {t : Table α} (h : y ∈ t) : y ∈ t.insert x := by
  by_cases hx : key x ∈ t.rows.map key
  · rw [insert, dif_pos hx]; exact h
  · rw [insert, dif_neg hx]; exact List.mem_append_left _ h

theorem mem_replace {t : Table α} : y ∈ t.replace x ↔ (y ∈ t ∧ key y ≠ key x) ∨ (y = x ∧ ∃ z ∈ t, key z = key x) := by
  simp only [mem_def, replace, List.mem_map]
  constructor
  · rintro ⟨z, hz, rfl⟩
    by_cases h : key z = key x
    · rw [if_pos h]; exact Or.inr ⟨rfl, z, hz, h⟩
    · rw [if_neg h]; exact Or.inl ⟨hz, h⟩
  · rintro (⟨hy, hne⟩ | ⟨rfl, z, hz, h⟩)
    · exact ⟨y, hy, if_neg hne⟩
    · exact ⟨z, hz, if_pos h⟩

theorem mem_replace_self {t : Table α} (hy : y ∈ t) (h : key y = key x) :
    x ∈ t.replace x := mem_replace.mpr (Or.inr ⟨rfl, y, hy, h⟩)

theorem mem_of_mem_replace {t : Table α} (h : y ∈ t.replace x) : y ∈ t ∨ y = x := by
  rcases mem_replace.mp h with ⟨h, -⟩ | ⟨h, -⟩
  · exact Or.inl h
  · exact Or.inr h

theorem mem_replace_of_ne {t : Table α} (hy : y ∈ t) (h : key y ≠ key x) :
    y ∈ t.replace x := mem_replace.mpr (Or.inl ⟨hy, h⟩)

theorem replace_self {t : Table α} (hx : x ∈ t) : t.replace x = t := by
  refine ext_rows ?_
  have hrow : ∀ y ∈ t.rows, (if key y = key x then x else y) = y := by
    intro y hy
    split_ifs with hkey
    · exact (eq_of_key hy hx hkey).symm
    · rfl
  exact (List.map_congr_left hrow).trans (List.map_id' t.rows)

/-- A row replaced by one with the same value of `f`. -/
theorem map_replace {β : Type*} {t : Table α} (hx : x ∈ t) (hkey : key y = key x) {f : α → β} (hf : f y = f x) :
    (t.replace y).rows.map f = t.rows.map f := by
  have hrows : (t.replace y).rows = t.rows.map fun z => if key z = key y then y else z := rfl
  rw [hrows, List.map_map]
  refine List.map_congr_left fun z hz => ?_
  rw [Function.comp_apply]
  split_ifs with h
  · rw [hf, eq_of_key hz hx (h.trans hkey)]
  · rfl

theorem get?_replace_self {t : Table α} (h : t.get? (key x) = some y) : (t.replace x).get? (key x) = some x :=
  get?_eq_some.mpr ⟨mem_replace_self (mem_of_get? h) (key_of_get? h), rfl⟩

theorem get?_replace_of_ne {t : Table α} (h : key x ≠ k) : (t.replace x).get? k = t.get? k := by
  cases hk : t.get? k with
  | none =>
    rw [get?_eq_none] at hk ⊢
    intro y hy
    rcases mem_of_mem_replace hy with hy | rfl
    · exact hk y hy
    · exact h
  | some y =>
    obtain ⟨hy, rfl⟩ := get?_eq_some.mp hk
    exact get?_eq_some.mpr ⟨mem_replace_of_ne hy (Ne.symm h), rfl⟩

theorem get?_insert_self {t : Table α} (h : t.Fresh (key x)) : (t.insert x).get? (key x) = some x :=
  get?_eq_some.mpr ⟨(mem_insert h).mpr (Or.inr rfl), rfl⟩

theorem get?_insert_of_ne {t : Table α} (h : key x ≠ k) : (t.insert x).get? k = t.get? k := by
  cases hk : t.get? k with
  | none =>
    rw [get?_eq_none] at hk ⊢
    intro y hy
    rcases mem_of_mem_insert hy with hy | rfl
    · exact hk y hy
    · exact h
  | some y =>
    obtain ⟨hy, rfl⟩ := get?_eq_some.mp hk
    exact get?_eq_some.mpr ⟨mem_insert_of_mem hy, rfl⟩

theorem get?_mapRows {t : Table α} (hf : ∀ x, key (f x) = key x) (k : κ) :
    (t.mapRows f hf).get? k = (t.get? k).map f := by
  cases hk : t.get? k with
  | none =>
    rw [get?_eq_none] at hk
    rw [Option.map_none, get?_eq_none]
    intro y hy
    obtain ⟨x, hx, rfl⟩ := (mem_mapRows hf).mp hy
    rw [hf]; exact hk x hx
  | some x =>
    obtain ⟨hx, rfl⟩ := get?_eq_some.mp hk
    exact get?_eq_some.mpr ⟨(mem_mapRows hf).mpr ⟨x, hx, rfl⟩, hf x⟩

theorem fresh_iff {t : Table α} : t.Fresh k ↔ t.get? k = none := get?_eq_none.symm

/-! ### Rewritten tables -/

section Rewrites

variable {R R' : α → α → Prop} {t t' t'' : Table α}

omit [DecidableEq κ]

/-- Row by row, the rows of `t'` are related to those of `t`. -/
def Rewrites (R : α → α → Prop) (t t' : Table α) : Prop := List.Forall₂ R t.rows t'.rows

theorem Rewrites.refl (hR : ∀ x, R x x) (t : Table α) : Rewrites R t t :=
  List.forall₂_same.mpr fun x _ => hR x

theorem Rewrites.trans (hR : ∀ x y z, R x y → R y z → R x z) (h : Rewrites R t t')
    (h' : Rewrites R t' t'') : Rewrites R t t'' := by
  have compose : ∀ {a b c : List α}, List.Forall₂ R a b → List.Forall₂ R b c →
      List.Forall₂ R a c := by
    intro a b c hab
    induction hab generalizing c with
    | nil => intro hbc; cases hbc; exact List.Forall₂.nil
    | cons h1 _ ih =>
      intro hbc
      rcases List.forall₂_cons_left_iff.mp hbc with ⟨z, c', h2, hrest, rfl⟩
      exact List.Forall₂.cons (hR _ _ _ h1 h2) (ih hrest)
  exact compose h h'

theorem Rewrites.mono (hR : ∀ x y, R x y → R' x y) (h : Rewrites R t t') : Rewrites R' t t' :=
  List.Forall₂.imp hR h

/-- Every new row comes from an old one. -/
theorem Rewrites.old (h : Rewrites R t t') (hy : y ∈ t') : ∃ x ∈ t, R x y := by
  have go : ∀ {l l' : List α}, List.Forall₂ R l l' → y ∈ l' → ∃ x ∈ l, R x y := by
    intro l l' h
    induction h with
    | nil => intro hy; cases hy
    | cons h1 _ ih =>
      intro hy
      rcases List.mem_cons.mp hy with rfl | hy
      · exact ⟨_, List.mem_cons_self, h1⟩
      · obtain ⟨x, hx, h⟩ := ih hy
        exact ⟨x, List.mem_cons_of_mem _ hx, h⟩
  exact go h hy

/-- Every old row is still there. -/
theorem Rewrites.new (h : Rewrites R t t') (hx : x ∈ t) : ∃ y ∈ t', R x y := by
  have hflip : Rewrites (fun a b => R b a) t' t := List.Forall₂.flip h
  exact hflip.old hx

theorem rewrites_mapRows (hf : ∀ x, key (f x) = key x) (h : ∀ x ∈ t, R x (f x)) : Rewrites R t (t.mapRows f hf) :=
  List.forall₂_map_right_iff.mpr (List.forall₂_same.mpr h)

theorem rewrites_updateWhere (hf : ∀ x, key (f x) = key x) (hR : ∀ x, R x x) (h : ∀ x ∈ t, p x = true → R x (f x)) :
    Rewrites R t (t.updateWhere p f hf) :=
  rewrites_mapRows _ fun x hx => by
    by_cases hp : p x = true
    · simp only [hp, if_true]; exact h x hx hp
    · simp only [hp]; exact hR x

/-- What is found by a property that rewriting keeps. -/
theorem Rewrites.find?_map {β : Type*} {g : α → β} (hR : ∀ x y, R x y → p y = p x ∧ g y = g x) (h : Rewrites R t t') :
    (t'.find? p).map g = (t.find? p).map g := by
  have go : ∀ {l l' : List α}, List.Forall₂ R l l' → (l'.find? p).map g = (l.find? p).map g := by
    intro l l' h
    induction h with
    | nil => rfl
    | @cons x y l l' hxy _ ih =>
      obtain ⟨hp, hg⟩ := hR x y hxy
      rw [List.find?_cons, List.find?_cons, hp]
      cases p x with
      | true => exact congrArg some hg
      | false => exact ih
  exact go h

variable [DecidableEq κ]

theorem find?_insert (h : t.Fresh (key x)) :
    (t.insert x).find? p = (t.find? p).or (if p x then some x else none) := by
  rw [find?, rows_insert h, List.find?_append]
  cases hp : p x <;> simp [find?, hp]

theorem rewrites_replace (hR : ∀ y, R y y) (h : ∀ y ∈ t, key y = key x → R y x) : Rewrites R t (t.replace x) := by
  refine List.forall₂_map_right_iff.mpr (List.forall₂_same.mpr fun y hy => ?_)
  by_cases hk : key y = key x
  · rw [if_pos hk]; exact h y hy hk
  · rw [if_neg hk]; exact hR y

theorem rewrites_replace_mem (hR : ∀ z, R z z) (hy : y ∈ t) (hk : key x = key y) (h : R y x) :
    Rewrites R t (t.replace x) :=
  rewrites_replace hR fun _ hz he => eq_of_key hz hy (he.trans hk) ▸ h

/-- The row of a key stays under its key. -/
theorem Rewrites.get?_some (hR : ∀ x y, R x y → key y = key x) (h : Rewrites R t t') (hx : t.get? k = some x) :
    ∃ y, t'.get? k = some y ∧ R x y := by
  obtain ⟨y, hy, hxy⟩ := h.new (mem_of_get? hx)
  have hk : key y = k := (hR x y hxy).trans (key_of_get? hx)
  exact ⟨y, get?_eq_some.mpr ⟨hy, hk⟩, hxy⟩

theorem Rewrites.get?_none (hR : ∀ x y, R x y → key y = key x) (h : Rewrites R t t') (hx : t.get? k = none) :
    t'.get? k = none := by
  rw [get?_eq_none] at hx ⊢
  intro y hy hk
  obtain ⟨x, hx', hxy⟩ := h.old hy
  exact hx x hx' ((hR x y hxy).symm.trans hk)

theorem Rewrites.fresh (hR : ∀ x y, R x y → key y = key x) (h : Rewrites R t t') (hx : t.Fresh k) : t'.Fresh k :=
  fresh_iff.mpr (h.get?_none hR (fresh_iff.mp hx))

end Rewrites

/-! ### Sums over the rows -/

variable {M : Type*} [AddCommGroup M] (g : α → M)

omit [DecidableEq κ] in
/-- The sum of `g` over the rows. -/
def sum (t : Table α) (g : α → M) : M := (t.rows.map g).sum

omit [DecidableEq κ] in
@[simp] theorem sum_empty : (empty : Table α).sum g = 0 := by simp [sum, empty]

theorem sum_insert {t : Table α} (h : t.Fresh (key x)) : (t.insert x).sum g = t.sum g + g x := by
  simp [sum, rows_insert h]

/-- Replacing `y` by `x` changes the sum by `g x - g y`. -/
theorem sum_replace {t : Table α} (hy : y ∈ t) (h : key y = key x) : (t.replace x).sum g = t.sum g - g y + g x := by
  obtain ⟨l, r, hlr⟩ := List.append_of_mem (mem_def.mp hy)
  have hnd := t.nodup
  rw [hlr, List.map_append, List.map_cons] at hnd
  have hl : ∀ z ∈ l, key z ≠ key x := by
    intro z hz he
    exact (List.nodup_append.mp hnd).2.2 _ (List.mem_map_of_mem hz) _ (by simp) (he.trans h.symm)
  have hr : ∀ z ∈ r, key z ≠ key x := by
    intro z hz he
    have h2 := (List.nodup_cons.mp (List.nodup_append.mp hnd).2.1).1
    exact h2 (h.symm ▸ he ▸ List.mem_map_of_mem hz)
  have same : ∀ s : List α, (∀ z ∈ s, key z ≠ key x) →
      s.map (fun z => if key z = key x then x else z) = s := fun s hs => by
    conv_rhs => rw [← List.map_id s]
    exact List.map_congr_left fun z hz => by rw [if_neg (hs z hz)]; rfl
  have hrows : (t.replace x).rows = l ++ x :: r := by
    simp only [replace, hlr, List.map_append, List.map_cons, h, if_true]
    rw [same l hl, same r hr]
  simp only [sum, hrows, hlr, List.map_append, List.map_cons, List.sum_append, List.sum_cons]
  abel

omit [DecidableEq κ] in
theorem sum_add {t : Table α} {f g : α → M} :
    t.sum (fun x => f x + g x) = t.sum f + t.sum g := List.sum_map_add

/-- The part of a sum that one row contributes. -/
theorem sum_single {t : Table α} (hx : x ∈ t) : (t.sum fun y => if key y = key x then g y else 0) = g x := by
  have h0 : ∀ l : List α, (∀ y ∈ l, key y = key x → y = x) → l.Nodup → x ∈ l →
      (l.map fun y => if key y = key x then g y else 0).sum = g x := by
    intro l
    induction l with
    | nil => intro _ _ h; cases h
    | cons a l ih =>
      intro hk hnd hmem
      obtain ⟨ha, hnd⟩ := List.nodup_cons.mp hnd
      rw [List.map_cons, List.sum_cons]
      rcases List.mem_cons.mp hmem with rfl | hmem
      · have hz : (l.map fun y => if key y = key x then g y else 0) = l.map fun _ => (0 : M) := by
          refine List.map_congr_left fun y hy => if_neg fun he => ha ?_
          exact hk y (List.mem_cons_of_mem _ hy) he ▸ hy
        rw [if_pos rfl, hz]; simp
      · have hne : key a ≠ key x := fun he => ha (hk a List.mem_cons_self he ▸ hmem)
        rw [if_neg hne, zero_add]
        exact ih (fun y hy => hk y (List.mem_cons_of_mem _ hy)) hnd hmem
  exact h0 t.rows (fun y hy he => eq_of_key hy hx he) (List.Nodup.of_map key t.nodup) hx

omit [DecidableEq κ] in
/-- A rewrite that keeps `g` on every row keeps the sum. -/
theorem sum_mapRows_of_eq {t : Table α} (hf : ∀ x, key (f x) = key x) (h : ∀ x ∈ t, g (f x) = g x) :
    (t.mapRows f hf).sum g = t.sum g := by
  simp only [sum, mapRows, List.map_map]
  exact congrArg List.sum (List.map_congr_left fun x hx => h x hx)

omit [DecidableEq κ] in
theorem sum_updateWhere_of_eq {t : Table α} (hf : ∀ x, key (f x) = key x) (h : ∀ x ∈ t, p x = true → g (f x) = g x) :
    (t.updateWhere p f hf).sum g = t.sum g :=
  sum_mapRows_of_eq g _ fun x hx => by
    by_cases hp : p x
    · simp only [hp, if_true]; exact h x hx hp
    · simp only [hp]; rfl

omit [DecidableEq κ] in
/-- Dropped rows count nothing. -/
theorem sum_removeWhere {t : Table α} : (t.removeWhere p).sum g = t.sum fun x => if p x then 0 else g x := by
  have h : ∀ l : List α, ((l.filter fun x => !p x).map g).sum =
      (l.map fun x => if p x then 0 else g x).sum := by
    intro l
    induction l with
    | nil => rfl
    | cons a l ih => cases hp : p a <;> simp [hp, ih]
  exact h t.rows

omit [DecidableEq κ] in
/-- The rows that are dropped and those that stay. -/
theorem sum_removeWhere_add {t : Table α} :
    (t.removeWhere p).sum g + (t.sum fun x => if p x then g x else 0) = t.sum g := by
  rw [sum_removeWhere, ← sum_add]
  exact congrArg List.sum (List.map_congr_left fun x _ => by cases p x <;> simp)

omit [DecidableEq κ] in
theorem sum_congr {t : Table α} {g g' : α → M} (h : ∀ x ∈ t, g x = g' x) : t.sum g = t.sum g' :=
  congrArg List.sum (List.map_congr_left fun x hx => h x hx)

omit [DecidableEq κ] in
/-- Only the rows with `p` count, and these are in both tables. -/
theorem sum_eq_of_mem {t t' : Table α} {g g' : α → M} (p : α → Prop)
    (hmem : ∀ x, p x → (x ∈ t' ↔ x ∈ t)) (heq : ∀ x ∈ t, p x → g' x = g x)
    (hold : ∀ x ∈ t, ¬ p x → g x = 0) (hnew : ∀ x ∈ t', ¬ p x → g' x = 0) : t'.sum g' = t.sum g := by
  classical
  have hfilter : ∀ (rows : List α) (f : α → M), (∀ x ∈ rows, ¬ p x → f x = 0) →
      (rows.map f).sum = ((rows.filter fun x => decide (p x)).map f).sum := by
    intro rows f h
    induction rows with
    | nil => rfl
    | cons a rows ih =>
      have hrest := ih fun x hx => h x (List.mem_cons_of_mem _ hx)
      by_cases hp : p a
      · simp [hp, hrest]
      · simp [hp, hrest, h a List.mem_cons_self hp]
  have hperm : (t'.rows.filter fun x => decide (p x)).Perm (t.rows.filter fun x => decide (p x)) := by
    refine (List.perm_ext_iff_of_nodup ((List.Nodup.of_map key t'.nodup).filter _)
      ((List.Nodup.of_map key t.nodup).filter _)).mpr fun x => ?_
    simp only [List.mem_filter, decide_eq_true_eq]
    exact and_congr_left fun hp => hmem x hp
  unfold sum
  rw [hfilter t'.rows g' hnew, hfilter t.rows g hold, (hperm.map g').sum_eq]
  refine congrArg List.sum (List.map_congr_left fun x hx => ?_)
  obtain ⟨hin, hp⟩ := List.mem_filter.mp hx
  exact heq x hin (of_decide_eq_true hp)

omit [DecidableEq κ] in
theorem sum_eq_zero {t : Table α} (h : ∀ x ∈ t, g x = 0) : t.sum g = 0 := by
  have h0 : t.sum g = t.sum (fun _ => (0 : M)) := sum_congr h
  rw [h0]; simp [sum]

omit [DecidableEq κ] in
theorem sum_le_sum {t : Table α} {g g' : α → ℤ} (h : ∀ x ∈ t, g x ≤ g' x) : t.sum g ≤ t.sum g' :=
  List.sum_le_sum h

omit [DecidableEq κ] in
theorem sum_nonneg {t : Table α} {g : α → ℤ} (h : ∀ x ∈ t, 0 ≤ g x) : 0 ≤ t.sum g := by
  have h0 : t.sum (fun _ => (0 : ℤ)) ≤ t.sum g := sum_le_sum h
  simpa [sum] using h0

end Table

end OwnMinutes.Lib.Keyed
