import Mathlib.Algebra.GroupWithZero.Nat
import Mathlib.Data.List.Basic
import Mathlib.Tactic.Common

/-! # IP addresses as texts

The dotted form of IPv4 and the forms of IPv6 in lower case and without a zone, with the groups that they stand for,
and the blocks of addresses that are no public ones: private, local, multicast, for documentation or otherwise
reserved. An IPv6 address that embeds IPv4 addresses is as public as these. -/

namespace OwnMinutes.Lib.IpText

abbrev Text := List Char

/-! ### IPv4 -/

structure Ipv4 where
  a : ℕ
  b : ℕ
  c : ℕ
  d : ℕ
  deriving DecidableEq, Repr

def decimal (digits : Text) : ℕ := digits.foldl (fun n c => 10 * n + (c.toNat - 48)) 0

/-- A decimal number up to 255, without leading zeros. -/
def octet (part : Text) : Option ℕ :=
  if part ≠ [] ∧ part.all Char.isDigit ∧ (part.length = 1 ∨ part.head? ≠ some '0') ∧ decimal part ≤ 255 then
    some (decimal part)
  else none

def parseIpv4 (text : Text) : Option Ipv4 :=
  match text.splitOn '.' with
  | [a, b, c, d] => do some ⟨← octet a, ← octet b, ← octet c, ← octet d⟩
  | _ => none

def Ipv4.number (x : Ipv4) : ℕ := ((x.a * 256 + x.b) * 256 + x.c) * 256 + x.d

/-- The addresses that share this many bits with the base. -/
structure Block where
  base : Ipv4
  bits : ℕ

def Block.Contains (block : Block) (x : Ipv4) : Prop :=
  x.number / 2 ^ (32 - block.bits) = block.base.number / 2 ^ (32 - block.bits)

instance (block : Block) (x : Ipv4) : Decidable (block.Contains x) := inferInstanceAs (Decidable (_ = _))

/-- The blocks for special purposes that are not globally reachable, with multicast and all above it. -/
def reservedBlocks : List Block :=
  [⟨⟨0, 0, 0, 0⟩, 8⟩, ⟨⟨10, 0, 0, 0⟩, 8⟩, ⟨⟨100, 64, 0, 0⟩, 10⟩, ⟨⟨127, 0, 0, 0⟩, 8⟩, ⟨⟨169, 254, 0, 0⟩, 16⟩,
    ⟨⟨172, 16, 0, 0⟩, 12⟩, ⟨⟨192, 0, 0, 0⟩, 24⟩, ⟨⟨192, 0, 2, 0⟩, 24⟩, ⟨⟨192, 88, 99, 0⟩, 24⟩,
    ⟨⟨192, 168, 0, 0⟩, 16⟩, ⟨⟨198, 18, 0, 0⟩, 15⟩, ⟨⟨198, 51, 100, 0⟩, 24⟩, ⟨⟨203, 0, 113, 0⟩, 24⟩,
    ⟨⟨224, 0, 0, 0⟩, 4⟩, ⟨⟨240, 0, 0, 0⟩, 4⟩]

def Ipv4.IsReserved (x : Ipv4) : Prop := ∃ block ∈ reservedBlocks, block.Contains x

instance (x : Ipv4) : Decidable x.IsReserved := inferInstanceAs (Decidable (∃ block ∈ reservedBlocks, _))

def Ipv4.IsLoopback (x : Ipv4) : Prop := x.a = 127

/-! ### IPv6 -/

def isHexDigit (c : Char) : Bool := c.isDigit || ('a' ≤ c && c ≤ 'f')

def hexDigit (c : Char) : ℕ := if c.isDigit then c.toNat - 48 else c.toNat - 87

def hexadecimal (digits : Text) : ℕ := digits.foldl (fun n c => 16 * n + hexDigit c) 0

/-- One to four hexadecimal digits. -/
def hextet (part : Text) : Option ℕ :=
  if part ≠ [] ∧ part.length ≤ 4 ∧ part.all isHexDigit then some (hexadecimal part) else none

/-- The last part of an address is a group or, dotted, two. -/
def lastGroups (part : Text) : Option (List ℕ) :=
  match hextet part with
  | some group => some [group]
  | none => (parseIpv4 part).map fun x => [x.a * 256 + x.b, x.c * 256 + x.d]

/-- The groups between colons. -/
def headGroups (text : Text) : Option (List ℕ) :=
  if text = [] then some [] else (text.splitOn ':').mapM hextet

/-- The same at the end of an address. -/
def tailGroups (text : Text) : Option (List ℕ) :=
  if text = [] then some []
  else do
    let parts := text.splitOn ':'
    let before ← parts.dropLast.mapM hextet
    let last ← lastGroups (parts.getLast?.getD [])
    some (before ++ last)

/-- The text before and after the first `::`. -/
def splitDouble : Text → Option (Text × Text)
  | [] => none
  | c :: rest =>
    if c = ':' ∧ rest.head? = some ':' then some ([], rest.tail)
    else (splitDouble rest).map fun r => (c :: r.1, r.2)

/-- The eight groups; `::` stands for one or more that are zero. -/
def parseIpv6 (text : Text) : Option (List ℕ) :=
  match splitDouble text with
  | some (before, after) => do
    let front ← headGroups before
    let back ← tailGroups after
    if front.length + back.length ≤ 7 then
      some (front ++ List.replicate (8 - front.length - back.length) 0 ++ back)
    else none
  | none => do
    let groups ← tailGroups text
    if groups.length = 8 then some groups else none

/-- The IPv4 address in two groups. -/
def ipv4Of (high low : ℕ) : Ipv4 := ⟨high / 256, high % 256, low / 256, low % 256⟩

variable (groups : List ℕ)

/-- The group `i`. -/
abbrev group (i : ℕ) : ℕ := groups.getD i 0

/-- `::ffff:0:0/96` -/
def IsMapped : Prop := groups.take 6 = [0, 0, 0, 0, 0, 0xffff]

/-- `2002::/16` -/
def Is6to4 : Prop := group groups 0 = 0x2002

/-- `2001::/32` -/
def IsTeredo : Prop := group groups 0 = 0x2001 ∧ group groups 1 = 0

/-- `2000::/3` -/
def IsGlobalUnicast : Prop := 0x2000 ≤ group groups 0 ∧ group groups 0 ≤ 0x3fff

/-- `2001:db8::/32` and `3fff::/20` -/
def IsDocumentation : Prop :=
  group groups 0 = 0x2001 ∧ group groups 1 = 0xdb8 ∨ group groups 0 = 0x3fff ∧ group groups 1 < 0x1000

/-- `2001::/23` without Teredo and without the assignments in it that are globally reachable: `2001:1::1` to
`2001:1::3`, `2001:3::/32`, `2001:4:112::/48`, `2001:20::/28` and `2001:30::/28`. -/
def IsProtocolAssignment : Prop :=
  group groups 0 = 0x2001 ∧ 0 < group groups 1 ∧ group groups 1 < 0x200 ∧
    ¬ (group groups 1 = 1 ∧ (groups.drop 2).take 5 = [0, 0, 0, 0, 0] ∧ 1 ≤ group groups 7 ∧ group groups 7 ≤ 3) ∧
    group groups 1 ≠ 3 ∧ ¬ (group groups 1 = 4 ∧ group groups 2 = 0x112) ∧
    ¬ (0x20 ≤ group groups 1 ∧ group groups 1 < 0x40)

/-- A 6to4 or Teredo address with an IPv4 address that is reserved; Teredo has that of the server, and that of the
client with all bits inverted. -/
def TunnelsReserved : Prop :=
  Is6to4 groups ∧ (ipv4Of (group groups 1) (group groups 2)).IsReserved ∨
    IsTeredo groups ∧ ((ipv4Of (group groups 2) (group groups 3)).IsReserved ∨
      (ipv4Of (0xffff - group groups 6) (0xffff - group groups 7)).IsReserved)

def MapsReserved : Prop := IsMapped groups ∧ (ipv4Of (group groups 6) (group groups 7)).IsReserved

/-- The address is no public one. -/
def IsReservedIpv6 : Prop :=
  MapsReserved groups ∨ ¬ IsMapped groups ∧ ¬ IsGlobalUnicast groups ∨ IsDocumentation groups ∨
    IsProtocolAssignment groups ∨ TunnelsReserved groups

def IsLoopbackIpv6 : Prop := groups = [0, 0, 0, 0, 0, 0, 0, 1]

instance : Decidable (IsMapped groups) := inferInstanceAs (Decidable (_ = _))
instance : Decidable (Is6to4 groups) := inferInstanceAs (Decidable (_ = _))
instance : Decidable (IsTeredo groups) := inferInstanceAs (Decidable (_ ∧ _))
instance : Decidable (IsGlobalUnicast groups) := inferInstanceAs (Decidable (_ ∧ _))
instance : Decidable (IsDocumentation groups) := inferInstanceAs (Decidable (_ ∨ _))
instance : Decidable (IsProtocolAssignment groups) := inferInstanceAs (Decidable (_ ∧ _))
instance : Decidable (TunnelsReserved groups) := inferInstanceAs (Decidable (_ ∨ _))
instance : Decidable (MapsReserved groups) := inferInstanceAs (Decidable (_ ∧ _))
instance : Decidable (IsReservedIpv6 groups) := inferInstanceAs (Decidable (_ ∨ _))

/-! ### The first and the last groups of a text -/

theorem octet_le {part : Text} {n : ℕ} (h : octet part = some n) : n ≤ 255 := by
  unfold octet at h
  split at h
  · rename_i hpart
    cases h
    exact hpart.2.2.2
  · cases h

theorem parseIpv4_eq_some {text : Text} {x : Ipv4} (h : parseIpv4 text = some x) :
    ∃ a b c d, text.splitOn '.' = [a, b, c, d] ∧ octet a = some x.a ∧ octet b = some x.b ∧ octet c = some x.c ∧
      octet d = some x.d := by
  unfold parseIpv4 at h
  split at h
  · rename_i a b c d hsplit
    simp only [Option.bind_eq_bind, Option.bind_eq_some_iff] at h
    obtain ⟨na, ha, nb, hb, nc, hc, nd, hd, hx⟩ := h
    cases hx
    exact ⟨a, b, c, d, hsplit, ha, hb, hc, hd⟩
  · cases h

theorem ipv4Of_of_parse {text : Text} {x : Ipv4} (h : parseIpv4 text = some x) :
    ipv4Of (x.a * 256 + x.b) (x.c * 256 + x.d) = x := by
  obtain ⟨_, _, _, _, -, -, hb, -, hd⟩ := parseIpv4_eq_some h
  have := octet_le hb
  have := octet_le hd
  cases x with
  | mk a b c d =>
    simp only [ipv4Of, Ipv4.mk.injEq] at *
    omega

theorem hextet_of_dot {part : Text} (h : '.' ∈ part) : hextet part = none := by
  refine if_neg fun hpart => ?_
  have := List.all_eq_true.mp hpart.2.2 '.' h
  exact absurd this (by decide)

theorem splitDouble_skip {front : Text} (h : ':' ∉ front) (rest : Text) :
    splitDouble (front ++ rest) = (splitDouble rest).map fun r => (front ++ r.1, r.2) := by
  induction front with
  | nil => simp
  | cons c front ih =>
    rw [List.mem_cons, not_or] at h
    rw [List.cons_append, splitDouble, if_neg (fun hc => h.1 hc.1.symm), ih h.2, Option.map_map]
    rfl

/-- The first group is in front of the first colon. -/
theorem parseIpv6_front {front rest : Text} {groups : List ℕ} (hcolon : ':' ∉ front) (hne : front ≠ [])
    (h : parseIpv6 (front ++ ':' :: rest) = some groups) : ∃ g gs, hextet front = some g ∧ groups = g :: gs := by
  have hsplit (after : Text) : (front ++ ':' :: after).splitOn ':' = front :: after.splitOn ':' :=
    List.splitOn_append_cons_self_of_not_mem hcolon after
  unfold parseIpv6 at h
  rw [splitDouble_skip hcolon] at h
  cases hrest : splitDouble (':' :: rest) with
  | none =>
    rw [hrest] at h
    simp only [Option.map_none, tailGroups, hsplit, Option.bind_eq_bind, Option.bind_eq_some_iff] at h
    obtain ⟨gs, hgs, hlength⟩ := h
    rw [if_neg (by simp), Option.bind_eq_some_iff] at hgs
    obtain ⟨before, hbefore, hlast⟩ := hgs
    rw [List.dropLast_cons_of_ne_nil (List.splitOn_ne_nil _ _), List.mapM_cons] at hbefore
    simp only [Option.bind_eq_bind, Option.bind_eq_some_iff] at hbefore hlast
    obtain ⟨g, hg, before', -, hcons⟩ := hbefore
    obtain ⟨last, -, hall⟩ := hlast
    split at hlength
    · cases hlength
      cases hall
      cases hcons
      exact ⟨g, before' ++ last, hg, rfl⟩
    · cases hlength
  | some r =>
    rw [hrest] at h
    simp only [Option.map_some, Option.bind_eq_bind, Option.bind_eq_some_iff] at h
    obtain ⟨gs, hgs, back, -, hlength⟩ := h
    have hfirst : ∃ g gs', hextet front = some g ∧ gs = g :: gs' := by
      unfold headGroups at hgs
      rw [if_neg (by simp [hne])] at hgs
      rw [splitDouble] at hrest
      split at hrest
      · cases hrest
        rw [List.append_nil, List.splitOn_eq_singleton hcolon] at hgs
        simp only [List.mapM_cons, List.mapM_nil, Option.bind_eq_bind, Option.bind_eq_some_iff] at hgs
        obtain ⟨g, hg, gs', -, hcons⟩ := hgs
        cases hcons
        exact ⟨g, gs', hg, rfl⟩
      · rw [Option.map_eq_some_iff] at hrest
        obtain ⟨r', -, rfl⟩ := hrest
        rw [hsplit, List.mapM_cons] at hgs
        simp only [Option.bind_eq_bind, Option.bind_eq_some_iff] at hgs
        obtain ⟨g, hg, gs', -, hcons⟩ := hgs
        cases hcons
        exact ⟨g, gs', hg, rfl⟩
    obtain ⟨g, gs', hg, rfl⟩ := hfirst
    split at hlength
    · cases hlength
      exact ⟨g, _, hg, rfl⟩
    · cases hlength

theorem splitDouble_append (before rest : Text) :
    ∃ r, splitDouble (before ++ ':' :: ':' :: rest) = some r ∧ ∃ y, r.2 = y ++ rest := by
  induction before with
  | nil => exact ⟨([], rest), by simp [splitDouble], [], rfl⟩
  | cons c before ih =>
    obtain ⟨r, hr, y, hy⟩ := ih
    rw [List.cons_append, splitDouble]
    split
    · refine ⟨_, rfl, ?_⟩
      cases before with
      | nil => exact ⟨[':'], rfl⟩
      | cons c' before => exact ⟨before ++ [':', ':'], by simp⟩
    · rw [hr]
      exact ⟨_, rfl, y, hy⟩

/-- The last groups come from the text after the last colon. -/
theorem tailGroups_back {y back : Text} {groups : List ℕ} (hcolon : ':' ∉ back)
    (h : tailGroups (y ++ ':' :: back) = some groups) :
    ∃ before last, lastGroups back = some last ∧ groups = before ++ last := by
  unfold tailGroups at h
  rw [if_neg (by simp), List.splitOn_append_cons_self, List.splitOn_eq_singleton hcolon] at h
  simp only [Option.bind_eq_bind, Option.bind_eq_some_iff, List.dropLast_concat, List.getLast?_concat,
    Option.getD_some] at h
  obtain ⟨before, -, last, hlast, hall⟩ := h
  cases hall
  exact ⟨before, last, hlast, rfl⟩

/-- A dotted end after `::` and a group is the last two groups. -/
theorem parseIpv6_back {before middle back : Text} {groups : List ℕ} (hcolon : ':' ∉ back) (hdot : '.' ∈ back)
    (h : parseIpv6 (before ++ ':' :: ':' :: (middle ++ ':' :: back)) = some groups) :
    ∃ gs x, parseIpv4 back = some x ∧ groups = gs ++ [x.a * 256 + x.b, x.c * 256 + x.d] := by
  obtain ⟨r, hr, y, hy⟩ := splitDouble_append before (middle ++ ':' :: back)
  unfold parseIpv6 at h
  rw [hr] at h
  simp only [Option.bind_eq_bind, Option.bind_eq_some_iff, hy] at h
  obtain ⟨front, -, gs, hgs, hlength⟩ := h
  rw [← List.append_assoc] at hgs
  obtain ⟨gs', last, hlast, rfl⟩ := tailGroups_back hcolon hgs
  rw [lastGroups, hextet_of_dot hdot, Option.map_eq_some_iff] at hlast
  obtain ⟨x, hx, rfl⟩ := hlast
  split at hlength
  · cases hlength
    exact ⟨_, x, hx, (List.append_assoc _ _ _).symm⟩
  · cases hlength

theorem parseIpv6_length {text : Text} {groups : List ℕ} (h : parseIpv6 text = some groups) : groups.length = 8 := by
  unfold parseIpv6 at h
  split at h
  · simp only [Option.bind_eq_bind, Option.bind_eq_some_iff] at h
    obtain ⟨front, -, back, -, hlength⟩ := h
    split at hlength
    · cases hlength
      simp only [List.length_append, List.length_replicate]
      omega
    · cases hlength
  · simp only [Option.bind_eq_bind, Option.bind_eq_some_iff] at h
    obtain ⟨gs, -, hlength⟩ := h
    split at hlength
    · cases hlength
      assumption
    · cases hlength

example : parseIpv6 "2001:db8::1".toList = some [0x2001, 0xdb8, 0, 0, 0, 0, 0, 1] ∧
    parseIpv6 "::ffff:127.0.0.1".toList = some [0, 0, 0, 0, 0, 0xffff, 0x7f00, 1] ∧
    parseIpv6 "1::2::3".toList = none := by
  decide

end OwnMinutes.Lib.IpText
