import Mathlib.Tactic.Common
import Mathlib.Data.List.Basic

/-! # The newest row

`newest time rows` is the first row of the latest time, as a stable sort by descending time puts it
first. -/

namespace OwnMinutes.Lib.Newest

variable {α : Type*} (time : α → ℕ)

/-- The newer of the best row so far and the next one; the earlier row wins a tie. -/
def newer (best : Option α) (row : α) : Option α :=
  match best with
  | none => some row
  | some b => if time b < time row then some row else some b

def newest (rows : List α) : Option α := rows.foldl (newer time) none

variable {time} {rows : List α} {row : α}

theorem newer_eq (time : α → ℕ) (best : Option α) (row : α) :
    newer time best row = some row ∨ newer time best row = best ∧ best ≠ none := by
  unfold newer
  split
  · exact Or.inl rfl
  · split
    · exact Or.inl rfl
    · exact Or.inr ⟨rfl, by simp⟩

theorem mem_of_foldl_newer : ∀ (rows : List α) (best : Option α),
    rows.foldl (newer time) best = some row → row ∈ rows ∨ best = some row
  | [], _, h => Or.inr h
  | r :: rows, best, h => by
    rw [List.foldl_cons] at h
    rcases mem_of_foldl_newer rows _ h with hm | hb
    · exact Or.inl (List.mem_cons_of_mem _ hm)
    · rcases newer_eq time best r with he | ⟨he, -⟩
      · rw [he] at hb
        exact Or.inl (Option.some.inj hb ▸ List.mem_cons_self)
      · exact Or.inr (he.symm.trans hb)

theorem mem_of_newest (h : newest time rows = some row) : row ∈ rows := by
  rcases mem_of_foldl_newer rows none h with hm | hm
  · exact hm
  · cases hm

end OwnMinutes.Lib.Newest
