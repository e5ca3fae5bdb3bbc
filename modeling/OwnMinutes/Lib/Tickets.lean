import Mathlib.Data.Set.Basic

/-! # Tickets that are spent once

A ticket is issued to one holder, who spends it, loses it or keeps it. While tickets are only issued that were not issued
before, no two holders have the same one, and none is spent twice (`Sound`, `Moves.sound`). -/

namespace OwnMinutes.Lib.Tickets

variable {τ η : Type*}

structure Desk (τ η : Type*) where
  issued : Set τ
  held : η → Option τ
  spent : List τ

/-- `h` has no ticket that it did not have before. -/
def Keeps (held held' : η → Option τ) (h : η) : Prop := held' h = held h ∨ held' h = none

inductive Moves (d d' : Desk τ η) : Prop
  /-- Tickets may be lost, and issued to nobody. -/
  | keep (hissued : d.issued ⊆ d'.issued) (hheld : ∀ h, Keeps d.held d'.held h) (hspent : d'.spent = d.spent)
  | issue (h : η) (x : τ) (hfresh : x ∉ d.issued) (hx : x ∈ d'.issued) (hissued : d.issued ⊆ d'.issued)
      (hself : d'.held h = some x) (hheld : ∀ other, other ≠ h → Keeps d.held d'.held other)
      (hspent : d'.spent = d.spent)
  | spend (h : η) (x : τ) (hself : d.held h = some x) (hdone : d'.held h = none) (hissued : d.issued ⊆ d'.issued)
      (hheld : ∀ other, other ≠ h → Keeps d.held d'.held other) (hspent : d'.spent = d.spent ++ [x])

structure Sound (d : Desk τ η) : Prop where
  held_issued : ∀ {h : η} {x : τ}, d.held h = some x → x ∈ d.issued
  spent_issued : ∀ x ∈ d.spent, x ∈ d.issued
  holder : ∀ {h h' : η} {x : τ}, d.held h = some x → d.held h' = some x → h = h'
  unspent : ∀ {h : η} {x : τ}, d.held h = some x → x ∉ d.spent
  spent_once : d.spent.Nodup

theorem Keeps.held {held held' : η → Option τ} {h : η} {x : τ} (hkeeps : Keeps held held' h) (hx : held' h = some x) :
    held h = some x := by
  rcases hkeeps with hsame | hnone
  · rw [← hsame, hx]
  · rw [hnone] at hx
    cases hx

variable {d d' : Desk τ η}

/-- Where no ticket is issued and none is spent. -/
theorem Sound.keep (hd : Sound d) (hissued : d.issued ⊆ d'.issued) (hheld : ∀ h, Keeps d.held d'.held h)
    (hspent : d'.spent = d.spent) : Sound d' where
  held_issued hx := hissued (hd.held_issued ((hheld _).held hx))
  spent_issued x hx := hissued (hd.spent_issued x (hspent ▸ hx))
  holder hx hx' := hd.holder ((hheld _).held hx) ((hheld _).held hx')
  unspent hx := by
    rw [hspent]
    exact hd.unspent ((hheld _).held hx)
  spent_once := hspent ▸ hd.spent_once

theorem Sound.issue (hd : Sound d) {h : η} {x : τ} (hfresh : x ∉ d.issued) (hx : x ∈ d'.issued)
    (hissued : d.issued ⊆ d'.issued) (hself : d'.held h = some x)
    (hheld : ∀ other, other ≠ h → Keeps d.held d'.held other) (hspent : d'.spent = d.spent) : Sound d' := by
  -- A holder has the new ticket and is `h`, or has a ticket that it had before.
  have hcases : ∀ {other : η} {y : τ}, d'.held other = some y → (other = h ∧ y = x) ∨ d.held other = some y := by
    intro other y hy
    by_cases hother : other = h
    · subst hother
      exact .inl ⟨rfl, Option.some.inj (hy.symm.trans hself)⟩
    · exact .inr ((hheld other hother).held hy)
  refine ⟨?_, fun y hy => hissued (hd.spent_issued y (hspent ▸ hy)), ?_, ?_, hspent ▸ hd.spent_once⟩
  · intro other y hy
    rcases hcases hy with ⟨-, rfl⟩ | hold
    · exact hx
    · exact hissued (hd.held_issued hold)
  · intro one other y hone hother
    rcases hcases hone with ⟨rfl, rfl⟩ | hone
    · rcases hcases hother with ⟨rfl, -⟩ | hother
      · rfl
      · exact absurd (hd.held_issued hother) hfresh
    · rcases hcases hother with ⟨rfl, rfl⟩ | hother
      · exact absurd (hd.held_issued hone) hfresh
      · exact hd.holder hone hother
  · intro other y hy hmem
    rw [hspent] at hmem
    rcases hcases hy with ⟨-, rfl⟩ | hold
    · exact hfresh (hd.spent_issued y hmem)
    · exact hd.unspent hold hmem

theorem Sound.spend (hd : Sound d) {h : η} {x : τ} (hself : d.held h = some x) (hdone : d'.held h = none)
    (hissued : d.issued ⊆ d'.issued) (hheld : ∀ other, other ≠ h → Keeps d.held d'.held other)
    (hspent : d'.spent = d.spent ++ [x]) : Sound d' := by
  have hother : ∀ {other : η} {y : τ}, d'.held other = some y → other ≠ h ∧ d.held other = some y := by
    intro other y hy
    have hne : other ≠ h := by
      rintro rfl
      rw [hdone] at hy
      cases hy
    exact ⟨hne, (hheld other hne).held hy⟩
  refine ⟨fun hy => hissued (hd.held_issued (hother hy).2), ?_, fun hy hy' => hd.holder (hother hy).2 (hother hy').2, ?_, ?_⟩
  · intro y hy
    rw [hspent] at hy
    rcases List.mem_append.mp hy with hold | hnew
    · exact hissued (hd.spent_issued y hold)
    · obtain rfl : y = x := List.mem_singleton.mp hnew
      exact hissued (hd.held_issued hself)
  · intro other y hy hmem
    obtain ⟨hne, hold⟩ := hother hy
    rw [hspent] at hmem
    rcases List.mem_append.mp hmem with hspent | hnew
    · exact hd.unspent hold hspent
    · obtain rfl : y = x := List.mem_singleton.mp hnew
      exact hne (hd.holder hold hself)
  · rw [hspent, List.nodup_append]
    refine ⟨hd.spent_once, by simp, fun y hy z hz => ?_⟩
    obtain rfl : z = x := List.mem_singleton.mp hz
    rintro rfl
    exact hd.unspent hself hy

/-- **Tickets stay sound.** -/
theorem Moves.sound (h : Moves d d') (hd : Sound d) : Sound d' := by
  cases h with
  | keep hissued hheld hspent => exact hd.keep hissued hheld hspent
  | issue h x hfresh hx hissued hself hheld hspent => exact hd.issue hfresh hx hissued hself hheld hspent
  | spend h x hself hdone hissued hheld hspent => exact hd.spend hself hdone hissued hheld hspent

end OwnMinutes.Lib.Tickets
