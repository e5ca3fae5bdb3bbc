import OwnMinutes.Ark.EndpointSecurity
import Mathlib.Data.List.GetD
import Mathlib.Data.List.Infix

/-! # What counts as a public address

For IPv4 the test agrees with the reserved blocks. For IPv6 it reads the text: an address that passes either ends in
`::ffff:` and a public dotted address, or begins with a group from `2000` to `3fff`. -/

namespace OwnMinutes.Ark.PublicAddresses

open OwnMinutes.Lib.IpText OwnMinutes.Ark.EndpointSecurity

variable {text address : Text} {x : Ipv4} {groups : List ℕ}

/-! ### IPv4 -/

theorem octet_digits {part : Text} {n : ℕ} (h : octet part = some n) :
    digitsNumber part = some n ∧ (∀ c ∈ part, c.isDigit = true) ∧ n ≤ 255 := by
  have hle := octet_le h
  unfold octet at h
  split at h
  · rename_i hpart
    cases h
    exact ⟨if_pos ⟨hpart.1, hpart.2.1⟩, List.all_eq_true.mp hpart.2.1, hle⟩
  · cases h

theorem mem_splitOn (sep : Char) {c : Char} : ∀ {l : Text}, c ∈ l → c = sep ∨ ∃ part ∈ l.splitOn sep, c ∈ part
  | [], h => by cases h
  | y :: l, h => by
    rw [List.splitOn_cons_eq_if_modifyHead]
    obtain ⟨first, others, hsplit⟩ := List.exists_cons_of_ne_nil (List.splitOn_ne_nil sep l)
    rw [hsplit]
    by_cases hy : y = sep
    · rw [if_pos (by simpa using hy)]
      rcases List.mem_cons.mp h with rfl | h
      · exact .inl hy
      · rcases mem_splitOn sep h with hc | ⟨part, hpart, hc⟩
        · exact .inl hc
        · rw [hsplit] at hpart
          exact .inr ⟨part, List.mem_cons_of_mem _ hpart, hc⟩
    · rw [if_neg (by simpa using hy), List.modifyHead_cons]
      rcases List.mem_cons.mp h with rfl | h
      · exact .inr ⟨c :: first, List.mem_cons_self, List.mem_cons_self⟩
      · rcases mem_splitOn sep h with hc | ⟨part, hpart, hc⟩
        · exact .inl hc
        · rw [hsplit] at hpart
          rcases List.mem_cons.mp hpart with rfl | hpart
          · exact .inr ⟨y :: part, List.mem_cons_self, List.mem_cons_of_mem _ hc⟩
          · exact .inr ⟨part, List.mem_cons_of_mem _ hpart, hc⟩

theorem chars_of_parseIpv4 (h : parseIpv4 text = some x) : ∀ c ∈ text, c = '.' ∨ c.isDigit = true := by
  intro c hc
  obtain ⟨pa, pb, pc, pd, hsplit, ha, hb, hc', hd⟩ := parseIpv4_eq_some h
  rcases mem_splitOn '.' hc with hdot | ⟨part, hpart, hmem⟩
  · exact .inl hdot
  · rw [hsplit] at hpart
    simp only [List.mem_cons, List.not_mem_nil, or_false] at hpart
    rcases hpart with rfl | rfl | rfl | rfl
    · exact .inr ((octet_digits ha).2.1 c hmem)
    · exact .inr ((octet_digits hb).2.1 c hmem)
    · exact .inr ((octet_digits hc').2.1 c hmem)
    · exact .inr ((octet_digits hd).2.1 c hmem)

theorem isPublicIpv4_eq (h : parseIpv4 text = some x) : isPublicIpv4 text = isPublicOctets x.a x.b x.c := by
  obtain ⟨pa, pb, pc, pd, hsplit, ha, hb, hc, hd⟩ := parseIpv4_eq_some h
  obtain ⟨hna, -, hla⟩ := octet_digits ha
  obtain ⟨hnb, -, hlb⟩ := octet_digits hb
  obtain ⟨hnc, -, hlc⟩ := octet_digits hc
  obtain ⟨hnd, -, hld⟩ := octet_digits hd
  unfold isPublicIpv4
  rw [hsplit]
  simp only [List.map_cons, List.map_nil, hna, hnb, hnc, hnd]
  rw [if_neg]
  simp only [Bool.or_eq_true, decide_eq_true_eq]
  omega

section Blocks
variable (hb : x.b ≤ 255) (hc : x.c ≤ 255) (hd : x.d ≤ 255)
include hb hc hd

theorem contains_8 (n : ℕ) : Block.Contains ⟨⟨n, 0, 0, 0⟩, 8⟩ x ↔ x.a = n := by
  simp only [Block.Contains, Ipv4.number]
  omega

theorem contains_16 {n m : ℕ} (hm : m ≤ 255) : Block.Contains ⟨⟨n, m, 0, 0⟩, 16⟩ x ↔ x.a = n ∧ x.b = m := by
  simp only [Block.Contains, Ipv4.number]
  omega

theorem contains_24 {n m k : ℕ} (hm : m ≤ 255) (hk : k ≤ 255) :
    Block.Contains ⟨⟨n, m, k, 0⟩, 24⟩ x ↔ x.a = n ∧ x.b = m ∧ x.c = k := by
  simp only [Block.Contains, Ipv4.number]
  omega

/-- The blocks as the octets show them. -/
theorem isReserved_iff (ha : x.a ≤ 255) : x.IsReserved ↔
    x.a = 0 ∨ x.a = 10 ∨ (x.a = 100 ∧ 64 ≤ x.b ∧ x.b ≤ 127) ∨ x.a = 127 ∨ (x.a = 169 ∧ x.b = 254) ∨
      (x.a = 172 ∧ 16 ≤ x.b ∧ x.b ≤ 31) ∨ (x.a = 192 ∧ x.b = 0 ∧ x.c = 0) ∨ (x.a = 192 ∧ x.b = 0 ∧ x.c = 2) ∨
      (x.a = 192 ∧ x.b = 88 ∧ x.c = 99) ∨ (x.a = 192 ∧ x.b = 168) ∨ (x.a = 198 ∧ (x.b = 18 ∨ x.b = 19)) ∨
      (x.a = 198 ∧ x.b = 51 ∧ x.c = 100) ∨ (x.a = 203 ∧ x.b = 0 ∧ x.c = 113) ∨ 224 ≤ x.a := by
  have hshared : Block.Contains ⟨⟨100, 64, 0, 0⟩, 10⟩ x ↔ x.a = 100 ∧ 64 ≤ x.b ∧ x.b ≤ 127 := by
    simp only [Block.Contains, Ipv4.number]
    omega
  have hprivate : Block.Contains ⟨⟨172, 16, 0, 0⟩, 12⟩ x ↔ x.a = 172 ∧ 16 ≤ x.b ∧ x.b ≤ 31 := by
    simp only [Block.Contains, Ipv4.number]
    omega
  have hbenchmark : Block.Contains ⟨⟨198, 18, 0, 0⟩, 15⟩ x ↔ x.a = 198 ∧ (x.b = 18 ∨ x.b = 19) := by
    simp only [Block.Contains, Ipv4.number]
    omega
  have hhigh : Block.Contains ⟨⟨224, 0, 0, 0⟩, 4⟩ x ∨ Block.Contains ⟨⟨240, 0, 0, 0⟩, 4⟩ x ↔ 224 ≤ x.a := by
    simp only [Block.Contains, Ipv4.number]
    omega
  simp only [Ipv4.IsReserved, reservedBlocks, List.mem_cons, List.not_mem_nil, or_false, exists_eq_or_imp,
    exists_eq_left, contains_8 hb hc hd, contains_16 hb hc hd (by decide : 254 ≤ 255),
    contains_16 hb hc hd (by decide : 168 ≤ 255), contains_24 hb hc hd (by decide : 0 ≤ 255) (by decide : 0 ≤ 255),
    contains_24 hb hc hd (by decide : 0 ≤ 255) (by decide : 2 ≤ 255),
    contains_24 hb hc hd (by decide : 88 ≤ 255) (by decide : 99 ≤ 255),
    contains_24 hb hc hd (by decide : 51 ≤ 255) (by decide : 100 ≤ 255),
    contains_24 hb hc hd (by decide : 0 ≤ 255) (by decide : 113 ≤ 255), hshared, hprivate, hbenchmark, hhigh]

end Blocks

theorem isPublicOctets_iff (a b c : ℕ) : isPublicOctets a b c = true ↔
    ¬ (a = 0 ∨ a = 10 ∨ (a = 100 ∧ 64 ≤ b ∧ b ≤ 127) ∨ a = 127 ∨ (a = 169 ∧ b = 254) ∨
      (a = 172 ∧ 16 ≤ b ∧ b ≤ 31) ∨ (a = 192 ∧ b = 0 ∧ c = 0) ∨ (a = 192 ∧ b = 0 ∧ c = 2) ∨
      (a = 192 ∧ b = 88 ∧ c = 99) ∨ (a = 192 ∧ b = 168) ∨ (a = 198 ∧ (b = 18 ∨ b = 19)) ∨
      (a = 198 ∧ b = 51 ∧ c = 100) ∨ (a = 203 ∧ b = 0 ∧ c = 113) ∨ 224 ≤ a) := by
  simp only [isPublicOctets, Bool.or_eq_true, Bool.and_eq_true, decide_eq_true_eq, Bool.if_false_left,
    Bool.not_eq_true', decide_eq_false_iff_not, not_or, and_true, and_assoc]
  constructor
  all_goals
    rintro ⟨_, _, _, _, _, _, _, _, _, _, _, _, _, _⟩
    refine ⟨?_, ?_, ?_, ?_, ?_, ?_, ?_, ?_, ?_, ?_, ?_, ?_, ?_, ?_⟩ <;> assumption

/-- **For IPv4 the test is right.** -/
theorem isPublicIpv4_iff (h : parseIpv4 text = some x) : isPublicIpv4 text = true ↔ ¬ x.IsReserved := by
  obtain ⟨_, _, _, _, -, ha, hb, hc, hd⟩ := parseIpv4_eq_some h
  rw [isPublicIpv4_eq h, isPublicOctets_iff, isReserved_iff (octet_le hb) (octet_le hc) (octet_le hd) (octet_le ha)]

/-! ### IPv6 -/

theorem colon_not_mem_of_dotted (h : isDotted text = true) : ':' ∉ text ∧ '.' ∈ text := by
  unfold isDotted at h
  rw [Bool.and_eq_true, decide_eq_true_eq, List.all_eq_true] at h
  obtain ⟨hlength, hall⟩ := h
  constructor
  · intro hcolon
    rcases mem_splitOn '.' hcolon with hc | ⟨part, hpart, hc⟩
    · exact absurd hc (by decide)
    · have := hall part hpart
      rw [Bool.and_eq_true, List.all_eq_true] at this
      exact absurd (this.2 ':' hc) (by decide)
  · by_contra hdot
    rw [List.splitOn_eq_singleton hdot, List.length_singleton] at hlength
    cases hlength

theorem mappedIpv4_eq_some {d : Text} (h : mappedIpv4 text = some d) :
    isDotted d = true ∧ ∃ before, text = before ++ ':' :: ':' :: ("ffff".toList ++ ':' :: d) := by
  unfold mappedIpv4 at h
  rw [Option.map_eq_some_iff] at h
  obtain ⟨rest, hfind, rfl⟩ := h
  have hmem := List.mem_of_find?_eq_some hfind
  have htest := List.find?_some hfind
  rw [Bool.and_eq_true, List.isPrefixOf_iff_prefix] at htest
  obtain ⟨⟨after, rfl⟩, hdotted⟩ := htest
  obtain ⟨before, hbefore⟩ := (List.mem_tails _ _).mp hmem
  exact ⟨hdotted, before, hbefore.symm⟩

theorem hexDigit_lt {c : Char} (h : isHexDigit c = true) : hexDigit c < 16 := by
  unfold hexDigit
  simp only [isHexDigit, Char.isDigit, Bool.or_eq_true, Bool.and_eq_true, decide_eq_true_eq] at h
  split
  · rename_i hdigit
    simp only [Char.isDigit, Bool.and_eq_true, decide_eq_true_eq] at hdigit
    obtain ⟨h1, h2⟩ := hdigit
    have h2 : c.toNat ≤ 57 := h2
    omega
  · rename_i hnot
    rcases h with h | h
    · exact absurd (by simpa [Char.isDigit] using h) hnot
    · have h2 : c.toNat ≤ 102 := h.2
      omega

/-- A text that begins with a group from `2000` to `3fff` stands for an address in `2000::/3`. -/
theorem globalUnicast_of_startsGlobal (hstart : startsGlobal text = true) (h : parseIpv6 text = some groups) :
    IsGlobalUnicast groups := by
  unfold startsGlobal at hstart
  split at hstart
  · rename_i h₁ h₂ h₃ h₄ rest
    simp only [Bool.and_eq_true, Bool.or_eq_true, decide_eq_true_eq] at hstart
    obtain ⟨⟨⟨hfirst, hsecond⟩, hthird⟩, hfourth⟩ := hstart
    have hcolon : ':' ∉ [h₁, h₂, h₃, h₄] := by
      simp only [List.mem_cons, List.not_mem_nil, or_false, not_or]
      refine ⟨?_, ?_, ?_, ?_⟩
      · rcases hfirst with rfl | rfl <;> decide
      · rintro rfl
        exact absurd hsecond (by decide)
      · rintro rfl
        exact absurd hthird (by decide)
      · rintro rfl
        exact absurd hfourth (by decide)
    obtain ⟨g, gs, hg, rfl⟩ := parseIpv6_front hcolon (by simp) h
    have hvalue : g = ((hexDigit h₁ * 16 + hexDigit h₂) * 16 + hexDigit h₃) * 16 + hexDigit h₄ := by
      unfold hextet at hg
      split at hg
      · cases hg
        simp only [hexadecimal, List.foldl_cons, List.foldl_nil]
        omega
      · cases hg
    have := hexDigit_lt hsecond
    have := hexDigit_lt hthird
    have := hexDigit_lt hfourth
    have hdigit : hexDigit h₁ = 2 ∨ hexDigit h₁ = 3 := by
      rcases hfirst with rfl | rfl
      · exact .inl (by decide)
      · exact .inr (by decide)
    simp only [IsGlobalUnicast, group, List.getD_cons_zero]
    omega
  · cases hstart

/-- **What passes for IPv6.** -/
theorem groups_of_isPublicIpv6 (hpublic : isPublicIpv6 address = true)
    (h : parseIpv6 (normalizedIpv6 address) = some groups) :
    IsGlobalUnicast groups ∨ ¬ (ipv4Of (group groups 6) (group groups 7)).IsReserved := by
  unfold isPublicIpv6 at hpublic
  dsimp only at hpublic
  split at hpublic
  · rename_i mapped hmapped
    obtain ⟨hdotted, before, hbefore⟩ := mappedIpv4_eq_some hmapped
    obtain ⟨hcolon, hdot⟩ := colon_not_mem_of_dotted hdotted
    rw [hbefore] at h
    obtain ⟨gs, x, hx, hgroups⟩ := parseIpv6_back hcolon hdot h
    have hlength := parseIpv6_length h
    rw [hgroups, List.length_append] at hlength
    have hsix : gs.length = 6 := by simpa using hlength
    have h6 : group groups 6 = x.a * 256 + x.b := by
      rw [hgroups, group, List.getD_append_right _ _ _ _ (by omega), hsix]
      rfl
    have h7 : group groups 7 = x.c * 256 + x.d := by
      rw [hgroups, group, List.getD_append_right _ _ _ _ (by omega), hsix]
      rfl
    rw [h6, h7, ipv4Of_of_parse hx]
    exact .inr ((isPublicIpv4_iff hx).mp hpublic)
  · split_ifs at hpublic
    exact .inl (globalUnicast_of_startsGlobal hpublic h)

end OwnMinutes.Ark.PublicAddresses
