import Mathlib.Algebra.BigOperators.Group.List.Basic
import Mathlib.Data.List.Sort
import Mathlib.Tactic.Ring

/-! # Weights that expire

A weight counts until it expires. `alive ws t` is what counts at the time `t`; it only falls (`alive_antitone`).
The changes of a total are events at times: `upto es t` adds the events up to `t`, `addAt` adds a change to the
event of its time. `firstBelow bound c es` walks events in the order of their times from the total `c` and
stops at the first one that brings the total below the bound: `firstBelow_some` says that this is the time from
which on the total is below it. -/

namespace OwnMinutes.Lib.Expiring

/-! ### What is alive -/

/-- The weights that expire after `t`, added up. -/
def alive (ws : List (ℕ × ℕ)) (t : ℕ) : ℕ := ((ws.filter fun w => t < w.1).map (·.2)).sum

variable {ws ws' : List (ℕ × ℕ)} {t t' e d : ℕ}

@[simp] theorem alive_nil : alive [] t = 0 := rfl

@[simp] theorem alive_cons {w : ℕ × ℕ} : alive (w :: ws) t = (if t < w.1 then w.2 else 0) + alive ws t := by
  unfold alive
  by_cases h : t < w.1
  · simp [h]
  · simp [h]

@[simp] theorem alive_append : alive (ws ++ ws') t = alive ws t + alive ws' t := by
  unfold alive
  rw [List.filter_append, List.map_append, List.sum_append]

theorem alive_antitone (h : t ≤ t') : alive ws t' ≤ alive ws t := by
  induction ws with
  | nil => exact le_rfl
  | cons w ws ih =>
    rw [alive_cons, alive_cons]
    have hw : (if t' < w.1 then w.2 else 0) ≤ if t < w.1 then w.2 else 0 := by
      split_ifs with h1 h2
      · exact le_rfl
      · omega
      · exact Nat.zero_le _
      · exact le_rfl
    omega

/-- All weights expire. -/
theorem exists_alive_eq_zero (ws : List (ℕ × ℕ)) (t : ℕ) : ∃ last, t ≤ last ∧ alive ws last = 0 := by
  induction ws with
  | nil => exact ⟨t, le_rfl, rfl⟩
  | cons w ws ih =>
    obtain ⟨last, ht, hlast⟩ := ih
    refine ⟨max last w.1, ht.trans (le_max_left _ _), ?_⟩
    have hrest : alive ws (max last w.1) ≤ alive ws last := alive_antitone (le_max_left last w.1)
    rw [alive_cons, if_neg (not_lt.mpr (le_max_right _ _))]
    omega

/-- Weights of one each are counted. -/
theorem alive_ones (es : List ℕ) : alive (es.map (·, 1)) t = es.countP (t < ·) := by
  induction es with
  | nil => rfl
  | cons e es ih =>
    rw [List.map_cons, alive_cons, ih, List.countP_cons]
    by_cases h : t < e
    · simp [h, Nat.add_comm]
    · simp [h]

/-! ### Events -/

/-- The events up to `t`, added up. -/
def upto (es : List (ℕ × ℤ)) (t : ℕ) : ℤ := ((es.filter fun e => e.1 ≤ t).map (·.2)).sum

/-- Add `delta` to the event at `time`, or put one there. -/
def addAt : List (ℕ × ℤ) → ℕ → ℤ → List (ℕ × ℤ)
  | [], time, delta => [(time, delta)]
  | event :: es, time, delta =>
    if event.1 = time then (time, event.2 + delta) :: es else event :: addAt es time delta

variable {es es' : List (ℕ × ℤ)} {time : ℕ} {delta : ℤ}

@[simp] theorem upto_nil : upto [] t = 0 := rfl

@[simp] theorem upto_cons {event : ℕ × ℤ} :
    upto (event :: es) t = (if event.1 ≤ t then event.2 else 0) + upto es t := by
  unfold upto
  by_cases h : event.1 ≤ t
  · simp [h]
  · simp [h]

theorem upto_addAt : upto (addAt es time delta) t = upto es t + if time ≤ t then delta else 0 := by
  induction es with
  | nil => simp [addAt]
  | cons event es ih =>
    unfold addAt
    by_cases htime : event.1 = time
    · rw [if_pos htime, upto_cons, upto_cons, htime]
      split_ifs
      · ring
      · ring
    · rw [if_neg htime, upto_cons, upto_cons, ih]
      ring

theorem upto_perm (h : es.Perm es') : upto es t = upto es' t := by
  unfold upto
  exact ((h.filter _).map _).sum_eq

/-- No event adds to the total. -/
def Falling (es : List (ℕ × ℤ)) : Prop := ∀ event ∈ es, event.2 ≤ 0

theorem falling_addAt (h : Falling es) (hdelta : delta ≤ 0) : Falling (addAt es time delta) := by
  induction es with
  | nil =>
    intro event hmem
    rw [addAt, List.mem_singleton] at hmem
    rw [hmem]
    exact hdelta
  | cons head es ih =>
    have hhead := h head List.mem_cons_self
    have htail : Falling es := fun event hmem => h event (List.mem_cons_of_mem _ hmem)
    intro event hmem
    unfold addAt at hmem
    split_ifs at hmem
    · rcases List.mem_cons.mp hmem with rfl | hmem
      · exact add_nonpos hhead hdelta
      · exact htail event hmem
    · rcases List.mem_cons.mp hmem with rfl | hmem
      · exact hhead
      · exact ih htail event hmem

theorem upto_nonpos (h : Falling es) : upto es t ≤ 0 := by
  induction es with
  | nil => exact le_rfl
  | cons event es ih =>
    have hhead := h event List.mem_cons_self
    have htail := ih fun e hmem => h e (List.mem_cons_of_mem _ hmem)
    rw [upto_cons]
    split_ifs <;> omega

/-! ### The first time below a bound -/

/-- The time of the first event that brings the total below `bound`. -/
def firstBelow (bound : ℤ) : ℤ → List (ℕ × ℤ) → Option ℕ
  | _, [] => none
  | total, event :: es =>
    if total + event.2 < bound then some event.1 else firstBelow bound (total + event.2) es

variable {bound total : ℤ}

theorem upto_of_lt (h : ∀ event ∈ es, t < event.1) : upto es t = 0 := by
  induction es with
  | nil => rfl
  | cons event es ih =>
    have hhead := h event List.mem_cons_self
    rw [upto_cons, ih fun e hmem => h e (List.mem_cons_of_mem _ hmem), if_neg (by omega)]
    rfl

/-- **The walk.** From the time it stops at the total is below the bound, and not before. -/
theorem firstBelow_some (hsorted : es.Pairwise fun a b => a.1 ≤ b.1) (hfalling : Falling es)
    (htotal : bound ≤ total) (h : firstBelow bound total es = some e) :
    (∀ t, e ≤ t → total + upto es t < bound) ∧ ∀ t < e, bound ≤ total + upto es t := by
  induction es generalizing total with
  | nil => cases h
  | cons event es ih =>
    obtain ⟨hhead, htail⟩ := List.pairwise_cons.mp hsorted
    have hrest : Falling es := fun e hmem => hfalling e (List.mem_cons_of_mem _ hmem)
    have hbefore : ∀ t < event.1, upto (event :: es) t = 0 := by
      intro t ht
      refine upto_of_lt fun e hmem => ?_
      rcases List.mem_cons.mp hmem with rfl | hmem
      · exact ht
      · exact lt_of_lt_of_le ht (hhead e hmem)
    unfold firstBelow at h
    split_ifs at h with hbelow
    · cases h
      constructor
      · intro t ht
        have := upto_nonpos (t := t) hrest
        rw [upto_cons, if_pos ht]
        omega
      · intro t ht
        rw [hbefore t ht]
        omega
    · obtain ⟨hafter, hnot⟩ := ih htail hrest (not_lt.mp hbelow) h
      have hle : event.1 ≤ e := by
        by_contra hlt
        have hzero : upto es e = 0 := upto_of_lt fun x hx => lt_of_lt_of_le (not_le.mp hlt) (hhead x hx)
        have := hafter e le_rfl
        omega
      constructor
      · intro t ht
        have := hafter t ht
        rw [upto_cons, if_pos (hle.trans ht)]
        omega
      · intro t ht
        by_cases htime : event.1 ≤ t
        · have := hnot t ht
          rw [upto_cons, if_pos htime]
          omega
        · rw [hbefore t (not_le.mp htime)]
          omega

/-- The walk finds a time where the total gets below the bound in the end. -/
theorem firstBelow_isSome (hsorted : es.Pairwise fun a b => a.1 ≤ b.1) (hend : total + upto es t < bound)
    (htotal : bound ≤ total) : (firstBelow bound total es).isSome := by
  induction es generalizing total with
  | nil =>
    rw [upto_nil] at hend
    omega
  | cons event es ih =>
    obtain ⟨hhead, htail⟩ := List.pairwise_cons.mp hsorted
    unfold firstBelow
    split_ifs with hbelow
    · rfl
    · rw [upto_cons] at hend
      split_ifs at hend with htime
      · exact ih htail (by omega) (not_lt.mp hbelow)
      · have hzero : upto es t = 0 := upto_of_lt fun x hx => lt_of_lt_of_le (not_le.mp htime) (hhead x hx)
        omega

end OwnMinutes.Lib.Expiring
