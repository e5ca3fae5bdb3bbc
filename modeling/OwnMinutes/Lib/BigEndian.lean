import Mathlib.Data.List.Basic
import Mathlib.Tactic.Common
import Mathlib.Algebra.Order.Ring.Int
import Mathlib.Tactic.Positivity

/-! # Numbers in bytes

The most significant byte first; two's complement for signed numbers. `Agree` says that two messages have the same
bytes up to a place, so that whatever is read before it is the same. -/

namespace OwnMinutes.Lib.BigEndian

abbrev Bytes := List UInt8

/-- The number that the bytes write. -/
def value (bytes : Bytes) : ℕ := bytes.foldl (fun n byte => n * 256 + byte.toNat) 0

/-- A number in `width` bytes. -/
def bytesOf : ℕ → ℕ → Bytes
  | 0, _ => []
  | width + 1, n => bytesOf width (n / 256) ++ [UInt8.ofNat n]

/-- The signed number of `bits` bits. -/
def signed (bits n : ℕ) : ℤ := if 2 * n < 2 ^ bits then n else (n : ℤ) - 2 ^ bits

/-- Two's complement. -/
def unsigned (bits : ℕ) (z : ℤ) : ℕ := (z % 2 ^ bits).toNat

@[simp] theorem length_bytesOf (width n : ℕ) : (bytesOf width n).length = width := by
  induction width generalizing n with
  | zero => rfl
  | succ width ih => rw [bytesOf, List.length_append, ih, List.length_singleton]

theorem value_append_singleton (bytes : Bytes) (byte : UInt8) : value (bytes ++ [byte]) = value bytes * 256 + byte.toNat := by
  rw [value, List.foldl_append]
  rfl

theorem value_bytesOf {width n : ℕ} (h : n < 256 ^ width) : value (bytesOf width n) = n := by
  induction width generalizing n with
  | zero =>
    rw [pow_zero, Nat.lt_one_iff] at h
    subst h
    rfl
  | succ width ih =>
    have hdiv : n / 256 < 256 ^ width := by
      rw [pow_succ] at h
      exact Nat.div_lt_of_lt_mul (by omega)
    have hbyte : (UInt8.ofNat n).toNat = n % 256 := UInt8.toNat_ofNat'
    rw [bytesOf, value_append_singleton, ih hdiv, hbyte]
    omega

theorem signed_unsigned {bits : ℕ} {z : ℤ} (hbits : 0 < bits) (hlow : -2 ^ (bits - 1) ≤ z) (hhigh : z < 2 ^ (bits - 1)) :
    signed bits (unsigned bits z) = z := by
  obtain ⟨b, rfl⟩ : ∃ b, bits = b + 1 := ⟨bits - 1, by omega⟩
  rw [Nat.add_sub_cancel] at hlow hhigh
  have hpow : (2 : ℤ) ^ (b + 1) = 2 * 2 ^ b := by rw [pow_succ, mul_comm]
  have hpos : (0 : ℤ) < 2 ^ b := by positivity
  have hcast : ((2 ^ (b + 1) : ℕ) : ℤ) = 2 * 2 ^ b := by rw [Nat.cast_pow]; exact hpow
  unfold signed unsigned
  rw [hpow]
  have hmod : 0 ≤ z % (2 * 2 ^ b) := Int.emod_nonneg _ (by omega)
  have htoNat : ((z % (2 * 2 ^ b)).toNat : ℤ) = z % (2 * 2 ^ b) := Int.toNat_of_nonneg hmod
  rcases le_or_gt 0 z with hz | hz
  · have heq : z % (2 * 2 ^ b) = z := Int.emod_eq_of_lt hz (by omega)
    rw [if_pos (by omega), htoNat, heq]
  · have heq : z % (2 * 2 ^ b) = z + 2 * 2 ^ b := by
      rw [← Int.add_emod_right, Int.emod_eq_of_lt (by omega) (by omega)]
    rw [if_neg (by omega), htoNat, heq]
    omega

theorem unsigned_lt (bits : ℕ) (z : ℤ) : unsigned bits z < 2 ^ bits := by
  have hpos : (0 : ℤ) < 2 ^ bits := by positivity
  have hlt := Int.emod_lt_of_pos z hpos
  have hnonneg := Int.emod_nonneg z hpos.ne'
  have hcast : ((2 ^ bits : ℕ) : ℤ) = 2 ^ bits := by rw [Nat.cast_pow]; rfl
  unfold unsigned
  omega

/-! ### Messages that agree up to a place -/

/-- Both messages have `n` bytes, and the same. -/
structure Agree (n : ℕ) (m m' : Bytes) : Prop where
  take : m.take n = m'.take n
  left : n ≤ m.length
  right : n ≤ m'.length

variable {n k offset length : ℕ} {m m' : Bytes}

theorem Agree.mono (h : Agree n m m') (hk : k ≤ n) : Agree k m m' where
  take := by rw [← Nat.min_eq_left hk, ← List.take_take, h.take, List.take_take]
  left := hk.trans h.left
  right := hk.trans h.right

theorem Agree.getElem? (h : Agree n m m') (hk : k < n) : m[k]? = m'[k]? := by
  rw [← List.getElem?_take_of_lt hk, h.take, List.getElem?_take_of_lt hk]

theorem Agree.slice (h : Agree n m m') (hend : offset + length ≤ n) :
    (m.drop offset).take length = (m'.drop offset).take length := by
  have hslice : ∀ x : Bytes, (x.drop offset).take length = ((x.take (offset + length)).drop offset) := by
    intro x
    rw [List.drop_take, Nat.add_sub_cancel_left]
  rw [hslice, hslice, (h.mono hend).take]

end OwnMinutes.Lib.BigEndian
