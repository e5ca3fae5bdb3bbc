import Mathlib.Algebra.GroupWithZero.Nat
import Mathlib.Data.List.DropRight
import Mathlib.Data.List.TakeDrop
import Mathlib.Tactic.Common

/-! # Strings of JavaScript

`trim` and `slice` on lists of characters. A string of JavaScript is a sequence of UTF-16 units; a slice
that would cut a surrogate pair drops it. -/

namespace OwnMinutes.Lib.JsText

/-- White space and line terminators. -/
def isWhiteSpace (c : Char) : Bool :=
  c == ' ' || (9 ≤ c.val && c.val ≤ 13) || c.val == 0xA0 || c.val == 0xFEFF || c.val == 0x1680 ||
    (0x2000 ≤ c.val && c.val ≤ 0x200A) || c.val == 0x2028 || c.val == 0x2029 || c.val == 0x202F ||
    c.val == 0x205F || c.val == 0x3000

theorem isWhiteSpace_of_ascii {c : Char} (hlow : 33 ≤ c.val.toNat) (hhigh : c.val.toNat < 128) :
    isWhiteSpace c = false := by
  have hne : ∀ n : UInt32, n.toNat < 33 ∨ 128 ≤ n.toNat → c.val ≠ n := by
    rintro n hn rfl
    omega
  have hspace : c ≠ ' ' := fun he => hne 32 (.inl (by decide)) (he ▸ rfl)
  simp only [isWhiteSpace, Bool.or_eq_false_iff, beq_eq_false_iff_ne, Bool.and_eq_false_iff,
    decide_eq_false_iff_not, UInt32.le_iff_toNat_le]
  refine ⟨⟨⟨⟨⟨⟨⟨⟨⟨⟨hspace, ?_⟩, ?_⟩, ?_⟩, ?_⟩, ?_⟩, ?_⟩, ?_⟩, ?_⟩, ?_⟩, ?_⟩
  · right; show ¬ c.val.toNat ≤ 13; omega
  · exact hne 0xA0 (.inr (by decide))
  · exact hne 0xFEFF (.inr (by decide))
  · exact hne 0x1680 (.inr (by decide))
  · left; show ¬ 0x2000 ≤ c.val.toNat; omega
  all_goals exact hne _ (.inr (by decide))

def trim (l : List Char) : List Char := (l.dropWhile isWhiteSpace).rdropWhile isWhiteSpace

theorem trim_eq_self {l : List Char} (h : ∀ c ∈ l, isWhiteSpace c = false) : trim l = l := by
  have hleft : l.dropWhile isWhiteSpace = l := List.dropWhile_eq_self_iff.mpr fun hl => by
    rw [h _ (List.getElem_mem hl)]
    exact Bool.false_ne_true
  rw [trim, hleft]
  exact List.rdropWhile_eq_self_iff.mpr fun hl => by
    rw [h _ (List.getLast_mem hl)]
    exact Bool.false_ne_true

/-- The UTF-16 units of a character. -/
def utf16Units (c : Char) : ℕ := if c.val < 0x10000 then 1 else 2

/-- `slice(0, n)`. -/
def slice : ℕ → List Char → List Char
  | _, [] => []
  | n, c :: cs => if utf16Units c ≤ n then c :: slice (n - utf16Units c) cs else []

theorem slice_of_units {n : ℕ} {l : List Char} (h : ∀ c ∈ l, utf16Units c = 1) :
    slice n l = l.take n := by
  induction l generalizing n with
  | nil => simp [slice]
  | cons c l ih =>
    have hc := h c List.mem_cons_self
    rw [slice, hc]
    cases n with
    | zero => simp
    | succ n =>
      rw [if_pos (by omega), Nat.add_sub_cancel, ih fun x hx => h x (List.mem_cons_of_mem _ hx),
        List.take_succ_cons]

/-- `replace(/\s+/g, " ")`, inside a run of white space or not. -/
def collapseWhiteSpace : Bool → List Char → List Char
  | _, [] => []
  | inside, c :: cs =>
    if isWhiteSpace c then
      if inside then collapseWhiteSpace true cs else ' ' :: collapseWhiteSpace true cs
    else c :: collapseWhiteSpace false cs

/-- `length`: the UTF-16 units of a string. -/
def utf16Length (l : List Char) : ℕ := (l.map utf16Units).sum

end OwnMinutes.Lib.JsText
