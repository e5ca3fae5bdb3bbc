import Mathlib.Algebra.Order.Ring.Int
import Mathlib.Data.List.Sort
import OwnMinutes.Lib.Runs

/-! # Streams that are counted once

A counter takes the items of a stream. The first item may have any number, and each other one the next number; a
counter that is opened before its first item starts at `1` (`Counts`). Over a run the items come in the order of their
numbers, each of them once, and the counter holds the last number and the sum of their amounts (`Counted`). -/

namespace OwnMinutes.Lib.Counters

open OwnMinutes.Lib.Runs

structure Item where
  sequence : ℤ
  amount : ℤ
  deriving DecidableEq, Repr

structure Counter where
  highest : ℤ := 0
  total : ℤ := 0
  deriving DecidableEq, Repr

/-- The amounts of the items, added up. -/
def amounts : List Item → ℤ
  | [] => 0
  | i :: items => i.amount + amounts items

/-- What one step does to a counter, and the item it takes. -/
inductive Counts : Option Counter → Option Item → Option Counter → Prop
  | idle (c : Option Counter) : Counts c none c
  | opened : Counts none none (some {})
  | first (i : Item) : Counts none (some i) (some ⟨i.sequence, i.amount⟩)
  | next (c : Counter) (amount : ℤ) :
      Counts (some c) (some ⟨c.highest + 1, amount⟩) (some ⟨c.highest + 1, c.total + amount⟩)

/-! ### Items among those of a counter -/

/-- The counter has taken the items, with others perhaps before, between and after them. -/
structure Counter.Includes (c : Counter) (items : List Item) : Prop where
  highest : ∀ i ∈ items, i.sequence ≤ c.highest
  total : amounts items ≤ c.total

theorem amounts_concat (items : List Item) (i : Item) : amounts (items ++ [i]) = amounts items + i.amount := by
  induction items with
  | nil => exact (add_zero i.amount).trans (zero_add i.amount).symm
  | cons j items ih =>
    have hitems : amounts (j :: items ++ [i]) = j.amount + amounts (items ++ [i]) := rfl
    have hcons : amounts (j :: items) = j.amount + amounts items := rfl
    omega

variable {c : Counter} {c' : Option Counter} {items : List Item}

/-- Another item may be taken. -/
theorem Counts.keeps {item : Option Item} (h : Counts (some c) item c') (hpos : ∀ i ∈ item, 0 < i.amount)
    (hc : c.Includes items) : ∃ k, c' = some k ∧ k.Includes items := by
  cases h with
  | idle => exact ⟨c, rfl, hc⟩
  | next _ amount =>
    have hamount : 0 < amount := hpos _ rfl
    have htotal := hc.total
    refine ⟨_, rfl, fun i hi => (hc.highest i hi).trans (Int.le.intro 1 rfl), ?_⟩
    dsimp only
    omega

/-- One more item comes after those before. -/
theorem Counts.extends {i : Item} (h : Counts (some c) (some i) c') (hc : c.Includes items) :
    (∀ j ∈ items, j.sequence < i.sequence) ∧ ∃ k, c' = some k ∧ k.Includes (items ++ [i]) := by
  cases h with
  | next _ amount =>
    refine ⟨fun j hj => Int.lt_add_one_of_le (hc.highest j hj), _, rfl, fun j hj => ?_, ?_⟩
    · rcases List.mem_append.mp hj with hold | hnew
      · exact (hc.highest j hold).trans (Int.le.intro 1 rfl)
      · rw [List.mem_singleton.mp hnew]
    · rw [amounts_concat]
      exact add_le_add_left hc.total amount

theorem Counts.starts {i : Item} (h : Counts none (some i) c') : ∃ k, c' = some k ∧ k.Includes [i] := by
  cases h with
  | first =>
    refine ⟨_, rfl, fun j hj => ?_, (add_zero i.amount).le⟩
    rw [List.mem_singleton.mp hj]

/-! ### Runs of a counter -/

/-- The number of the last of the items, or else that of the counter before them. -/
def lastNumber (c : Option Counter) (items : List Item) : ℤ :=
  match items.getLast? with
  | some i => i.sequence
  | none => (c.map (·.highest)).getD 0

/-- What the items in a row make of a counter. -/
structure Counted (c : Option Counter) (items : List Item) (c' : Option Counter) : Prop where
  consecutive : (items.map (·.sequence)).IsChain fun a b => b = a + 1
  following : ∀ k ∈ c, ∀ i ∈ items.head?, i.sequence = k.highest + 1
  highest : ∀ k ∈ c', k.highest = lastNumber c items
  total : ∀ k ∈ c', k.total = (c.map (·.total)).getD 0 + amounts items
  counting : c.isSome = true ∨ items ≠ [] → c'.isSome = true

theorem Counted.refl (c : Option Counter) : Counted c [] c where
  consecutive := .nil
  following _ _ _ h := by cases h
  highest k hk := by rw [Option.mem_def.mp hk]; rfl
  total k hk := by
    rw [Option.mem_def.mp hk]
    exact (add_zero k.total).symm
  counting h := h.resolve_right (by simp)

theorem lastNumber_cons (c : Option Counter) (i : Item) (items : List Item) (total : ℤ) :
    lastNumber c (i :: items) = lastNumber (some ⟨i.sequence, total⟩) items := by
  unfold lastNumber
  cases items with
  | nil => rfl
  | cons j items =>
    have hlast : (i :: j :: items).getLast? = (j :: items).getLast? := List.getLast?_cons_cons
    rw [hlast, List.getLast?_cons]

/-- An item is taken before others. -/
theorem Counted.cons {c : Option Counter} {i : Item} {total : ℤ} {items : List Item} {c' : Option Counter}
    (h : Counted (some ⟨i.sequence, total⟩) items c') (htotal : total = (c.map (·.total)).getD 0 + i.amount)
    (hfollowing : ∀ k ∈ c, i.sequence = k.highest + 1) : Counted c (i :: items) c' where
  consecutive := by
    cases items with
    | nil => exact .singleton _
    | cons j items => exact .cons_cons (h.following _ rfl j rfl) h.consecutive
  following k hk j hj := by
    obtain rfl : i = j := Option.some.inj hj
    exact hfollowing k hk
  highest k hk := (h.highest k hk).trans (lastNumber_cons c i items total).symm
  total k hk := by
    have htail : k.total = total + amounts items := h.total k hk
    have hitems : amounts (i :: items) = i.amount + amounts items := rfl
    omega
  counting _ := h.counting (.inl rfl)

/-- A step before others. -/
theorem Counted.step {c c1 c' : Option Counter} {i : Option Item} {items : List Item} (h : Counts c i c1)
    (hrest : Counted c1 items c') : Counted c (i.toList ++ items) c' := by
  cases h with
  | idle => exact hrest
  | opened =>
    have hnone : ∀ k ∈ (none : Option Counter), ∀ j ∈ items.head?, j.sequence = k.highest + 1 := by simp
    exact ⟨hrest.consecutive, hnone, hrest.highest, hrest.total, fun _ => hrest.counting (.inl rfl)⟩
  | first i => exact hrest.cons (zero_add i.amount).symm (by simp)
  | next c amount =>
    refine hrest.cons rfl fun k hk => ?_
    obtain rfl : c = k := Option.some.inj hk
    rfl

/-- **A run counts each item once.** The system that runs is seen through its counter and the items it takes. -/
theorem counted_of_run {σ ε : Type*} {step : σ → ε → σ → Prop} {I : σ → Prop} (counterOf : σ → Option Counter)
    (itemOf : ε → Option Item)
    (hstep : ∀ s e t, I s → step s e t → I t ∧ Counts (counterOf s) (itemOf e) (counterOf t)) {s t : σ} {es : List ε}
    (hrun : Run step s es t) (hs : I s) : Counted (counterOf s) (es.filterMap itemOf) (counterOf t) := by
  induction hrun with
  | nil => exact .refl _
  | @cons s u t e es h _ ih =>
    obtain ⟨hu, hcounts⟩ := hstep _ _ _ hs h
    have hitems : (e :: es).filterMap itemOf = (itemOf e).toList ++ es.filterMap itemOf := by
      rw [List.filterMap_cons]
      cases itemOf e <;> rfl
    rw [hitems]
    exact (ih hu).step hcounts

/-! ### Items taken from a stream -/

theorem amounts_perm {items more : List Item} (h : items.Perm more) : amounts items = amounts more := by
  induction h with
  | nil => rfl
  | cons i _ ih => exact congrArg (i.amount + ·) ih
  | swap i j items => exact add_left_comm _ _ _
  | trans _ _ ih ih' => exact ih.trans ih'

theorem amounts_le_of_sublist {items more : List Item} (h : items.Sublist more) (hpos : ∀ i ∈ more, 0 < i.amount) :
    amounts items ≤ amounts more := by
  induction h with
  | slnil => exact le_rfl
  | @cons items more i _ ih =>
    have hrest : amounts items ≤ amounts more := ih fun j hj => hpos j (List.mem_cons_of_mem _ hj)
    have hi : 0 < i.amount := hpos i List.mem_cons_self
    have hmore : amounts (i :: more) = i.amount + amounts more := rfl
    omega
  | @cons_cons items more i _ ih =>
    exact add_le_add_right (ih fun j hj => hpos j (List.mem_cons_of_mem _ hj)) i.amount

/-- Items that are taken once each are not more than the stream. -/
theorem amounts_le_of_subset {taken items : List Item} (honce : taken.Nodup) (htaken : taken ⊆ items)
    (hpos : ∀ i ∈ items, 0 < i.amount) : amounts taken ≤ amounts items := by
  obtain ⟨front, hperm, hsublist⟩ := List.subperm_of_subset honce htaken
  rw [← amounts_perm hperm]
  exact amounts_le_of_sublist hsublist hpos

/-- Items that are taken once each and in order are a part of the stream. -/
theorem sublist_of_ordered {taken items : List Item} (hincreasing : (items.map (·.sequence)).Pairwise (· < ·))
    (honce : taken.Nodup) (htaken : taken ⊆ items) (hordered : (taken.map (·.sequence)).Pairwise (· ≤ ·)) :
    taken.Sublist items := by
  have hnodup : (items.map (·.sequence)).Nodup := hincreasing.imp fun hlt => hlt.ne
  -- two items of the stream with one number are the same
  have hstrict : taken.Pairwise fun i j => i.sequence < j.sequence := by
    have hboth : taken.Pairwise fun i j => i.sequence ≤ j.sequence ∧ i ≠ j :=
      List.pairwise_and_iff.mpr ⟨List.pairwise_map.mp hordered, honce⟩
    refine hboth.imp_of_mem fun hi hj h => lt_of_le_of_ne h.1 fun heq => h.2 ?_
    exact List.inj_on_of_nodup_map hnodup (htaken hi) (htaken hj) heq
  have : Std.Antisymm fun i j : Item => i.sequence < j.sequence := ⟨fun _ _ h h' => absurd h' (lt_asymm h)⟩
  exact List.sublist_of_subperm_of_pairwise (List.subperm_of_subset honce htaken) hstrict
    (List.pairwise_map.mp hincreasing)

end OwnMinutes.Lib.Counters
