import Mathlib.Data.List.Infix
import Mathlib.Tactic.Common

/-! # Occurrences of a key in a text

A key that occurs once in a text (`Once`) is followed there by what the text has after it. A key whose first
letter comes once in it cannot overlap itself, and a key without a separator lies on one side of it. -/

namespace OwnMinutes.Lib.Occurrences

variable {α : Type*} {c sep : α} {key before after text left right p q : List α}

/-- In `before ++ key ++ after` the key occurs at this place only. -/
def Once (key before after : List α) : Prop := ∀ s t, before ++ (key ++ after) = s ++ (key ++ t) → t = after

theorem infix_iff_of_once (h : Once key before after) : key ++ p <:+: before ++ (key ++ after) ↔ p <+: after := by
  constructor
  · rintro ⟨s, t, hst⟩
    have hafter := h s (p ++ t) (by rw [← hst]; simp)
    exact ⟨t, hafter⟩
  · rintro ⟨t, rfl⟩
    exact ⟨before, t, by simp⟩

/-- A key begins where its first letter stands. -/
theorem infix_skip (hc : c ∉ left) : c :: p <:+: left ++ right ↔ c :: p <:+: right := by
  induction left with
  | nil => rfl
  | cons d left ih =>
    have hd : c ≠ d := fun he => hc (he ▸ List.mem_cons_self)
    rw [List.cons_append, List.infix_cons_iff, ih fun hm => hc (List.mem_cons_of_mem _ hm)]
    constructor
    · rintro (hbegins | hinside)
      · exact absurd (List.cons_prefix_cons.mp hbegins).1 hd
      · exact hinside
    · exact Or.inr

/-- A key without the separator lies before it or after it. -/
theorem infix_sep (hsep : sep ∉ key) : key <:+: left ++ sep :: right ↔ key <:+: left ∨ key <:+: right := by
  constructor
  · rintro ⟨s, t, hst⟩
    rw [List.append_assoc] at hst
    rcases List.append_eq_append_iff.mp hst with ⟨r, hleft, hright⟩ | ⟨r, hs, hright⟩
    · rcases List.append_eq_append_iff.mp hright with ⟨u, hr, ht⟩ | ⟨u, hkey, hu⟩
      · exact Or.inl ⟨s, u, by rw [hleft, hr, List.append_assoc]⟩
      · rcases u with _ | ⟨d, u⟩
        · refine Or.inl ⟨s, [], ?_⟩
          rw [hleft, hkey]
          simp
        · refine absurd ?_ hsep
          have hd : sep = d := (List.cons.inj hu).1
          rw [hkey, hd]
          simp
    · rcases r with _ | ⟨d, r⟩
      · rcases key with _ | ⟨e, key⟩
        · exact Or.inl (List.nil_infix)
        · have he : sep = e := (List.cons.inj hright).1
          exact absurd (he ▸ List.mem_cons_self) hsep
      · refine Or.inr ⟨r, t, ?_⟩
        have hr : right = r ++ (key ++ t) := (List.cons.inj hright).2
        rw [hr, List.append_assoc]
  · rintro (⟨s, t, rfl⟩ | ⟨s, t, rfl⟩)
    · exact ⟨s, t ++ sep :: right, by simp⟩
    · exact ⟨left ++ sep :: s, t, by simp⟩

/-- At the front of a text: the first letter of the key comes once in it, and the rest has no key. -/
theorem once_front (hc : c ∉ p) (hafter : ¬ c :: p <:+: after) : Once (c :: p) [] after := by
  intro s t h
  rcases s with _ | ⟨d, s⟩
  · exact List.append_cancel_left h.symm
  · have htail : p ++ after = s ++ (c :: p ++ t) := (List.cons.inj h).2
    have hinside : c :: p <:+: p ++ after := ⟨s, t, by rw [htail]; simp⟩
    exact absurd ((infix_skip hc).mp hinside) hafter

/-- After a separator, with no key before it. -/
theorem once_sep (hsep : sep ∉ key) (hbefore : ¬ key <:+: before) (h : Once key [] after) :
    Once key (before ++ [sep]) after := by
  intro s t hst
  rw [List.append_assoc] at hst
  rcases List.append_eq_append_iff.mp hst with ⟨r, hs, hr⟩ | ⟨r, hb, hr⟩
  · rcases r with _ | ⟨d, r⟩
    · -- the key would begin with the separator
      rcases key with _ | ⟨e, key⟩
      · exact absurd List.nil_infix hbefore
      · exact absurd ((List.cons.inj hr).1 ▸ List.mem_cons_self) hsep
    · exact h r t (List.cons.inj hr).2
  · -- the key begins before the separator, so it ends there too
    rcases List.append_eq_append_iff.mp hr with ⟨u, hu, -⟩ | ⟨u, hu, hrest⟩
    · exact absurd ⟨s, u, by rw [hb, hu, List.append_assoc]⟩ hbefore
    · rcases u with _ | ⟨e, u⟩
      · rw [List.append_nil] at hu
        exact absurd ⟨s, [], by rw [hb, hu]; simp⟩ hbefore
      · have he : sep = e := (List.cons.inj hrest).1
        refine absurd ?_ hsep
        rw [hu, he]
        simp

end OwnMinutes.Lib.Occurrences
