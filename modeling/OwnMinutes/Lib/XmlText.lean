import OwnMinutes.Lib.IpText
import OwnMinutes.Lib.Mentions

/-! # Flat XML documents as texts

A document is a row of nodes: fields that hold character data only, other tags, and character data between them.
Character data writes a text with references in place of some of its characters. The values between two tags, found
from the left as a lazy pattern finds them, are the values of the fields of that name (`between_write`), and what
stands between the tags of a block is its nodes (`between_blocks`). -/

namespace OwnMinutes.Lib.XmlText

abbrev Text := List Char

/-! ### Finding values in a text -/

/-- The first place where one of the words stands: the text before it and the text after it. -/
def splitAtFirst (words : List Text) : Text → Option (Text × Text)
  | [] => none
  | c :: cs =>
    match words.find? (fun word => word.isPrefixOf (c :: cs)) with
    | some word => some ([], (c :: cs).drop word.length)
    | none => (splitAtFirst words cs).map fun split => (c :: split.1, split.2)

/-- What stands between one of the first words and the next of the last words, again and again. Each value takes a
character at least, so the length of the text is fuel enough. -/
def between (openings closings : List Text) : ℕ → Text → List Text
  | 0, _ => []
  | fuel + 1, text =>
    match splitAtFirst openings text with
    | none => []
    | some (_, rest) =>
      match splitAtFirst closings rest with
      | none => []
      | some (value, rest) => value :: between openings closings fuel rest

/-! ### Documents -/

def tagged (name : Text) : Text := '<' :: (name ++ ['>'])

inductive Node
  /-- `<name>value</name>`. -/
  | field (name value : Text)
  | tag (name : Text)
  | data (text : Text)
  deriving DecidableEq

def Node.write : Node → Text
  | .field name value => tagged name ++ (value ++ tagged ('/' :: name))
  | .tag name => tagged name
  | .data text => text

def write (doc : List Node) : Text := doc.flatMap Node.write

/-- Angle brackets stand around the names of tags only. -/
def Node.Plain : Node → Prop
  | .field name value => '<' ∉ name ∧ '>' ∉ name ∧ '/' ∉ name ∧ '<' ∉ value
  | .tag name => '<' ∉ name ∧ '>' ∉ name
  | .data text => '<' ∉ text

/-- None of the names is the name of a tag of the node. -/
def Node.Avoids (names : List Text) : Node → Prop
  | .field name _ => name ∉ names ∧ '/' :: name ∉ names
  | .tag name => name ∉ names
  | .data _ => True

/-- The values of the fields of one name. -/
def fieldsOf (name : Text) (doc : List Node) : List Text :=
  doc.filterMap fun node =>
    match node with
    | .field other value => if other = name then some value else none
    | _ => none

/-- A row of nodes between a tag and its end, and the nodes up to the next block. -/
structure Block where
  kind : Text
  nodes : List Node
  gap : List Node

def Block.write (block : Block) : Text :=
  tagged block.kind ++ (XmlText.write block.nodes ++ (tagged ('/' :: block.kind) ++ XmlText.write block.gap))

/-- A block of one of some kinds, with no tag of these kinds in it or up to the next block. -/
structure Block.Plain (kinds : List Text) (block : Block) : Prop where
  kind : block.kind ∈ kinds
  plain : ∀ node ∈ block.nodes ++ block.gap, node.Plain
  nodes : ∀ node ∈ block.nodes, node.Avoids (kinds.map ('/' :: ·))
  gap : ∀ node ∈ block.gap, node.Avoids kinds

/-! ### References -/

inductive NamedReference : Text → Char → Prop
  | lt : NamedReference "lt".toList '<'
  | gt : NamedReference "gt".toList '>'
  | quot : NamedReference "quot".toList '"'
  | apos : NamedReference "apos".toList '\''
  | amp : NamedReference "amp".toList '&'

/-- Character data that writes a text. -/
inductive Written (refs : Text → Char → Prop) : Text → Text → Prop
  | nil : Written refs [] []
  | char {c : Char} {raw text : Text} (hlt : c ≠ '<') (hamp : c ≠ '&') (h : Written refs raw text) :
      Written refs (c :: raw) (c :: text)
  | reference {name : Text} {c : Char} {raw text : Text} (hname : refs name c) (h : Written refs raw text) :
      Written refs ('&' :: (name ++ ';' :: raw)) (c :: text)

/-- A text without special characters may be written as it is. -/
theorem written_self {refs : Text → Char → Prop} {text : Text} (h : ∀ c ∈ text, c ≠ '<' ∧ c ≠ '&') :
    Written refs text text := by
  induction text with
  | nil => exact .nil
  | cons c text ih =>
    have hc := h c List.mem_cons_self
    exact .char hc.1 hc.2 (ih fun x hx => h x (List.mem_cons_of_mem _ hx))

/-- Every character, or the reference that writes it. -/
def escapeChar (c : Char) : Text :=
  if c = '<' then "&lt;".toList else if c = '&' then "&amp;".toList else [c]

def escape (text : Text) : Text := text.flatMap escapeChar

theorem written_escape (text : Text) : Written NamedReference (escape text) text := by
  induction text with
  | nil => exact .nil
  | cons c text ih =>
    rw [escape, List.flatMap_cons, escapeChar]
    by_cases hlt : c = '<'
    · subst hlt
      exact .reference .lt ih
    · by_cases hamp : c = '&'
      · subst hamp
        exact .reference .amp ih
      · rw [if_neg hlt, if_neg hamp]
        exact .char hlt hamp ih

theorem lt_not_mem_escape (text : Text) : '<' ∉ escape text := by
  intro h
  obtain ⟨c, -, hc⟩ := List.mem_flatMap.mp h
  unfold escapeChar at hc
  split at hc
  · exact absurd hc (by decide)
  · rename_i hlt
    split at hc
    · exact absurd hc (by decide)
    · exact hlt (List.mem_singleton.mp hc).symm

/-! ### The fields of a document -/

theorem fieldsOf_append (name : Text) (first second : List Node) :
    fieldsOf name (first ++ second) = fieldsOf name first ++ fieldsOf name second :=
  List.filterMap_append

theorem fieldsOf_tag (name tag : Text) (doc : List Node) : fieldsOf name (.tag tag :: doc) = fieldsOf name doc := rfl

theorem fieldsOf_same (name value : Text) (doc : List Node) :
    fieldsOf name (.field name value :: doc) = value :: fieldsOf name doc := by
  simp [fieldsOf]

theorem fieldsOf_other {name other : Text} (h : other ≠ name) (value : Text) (doc : List Node) :
    fieldsOf name (.field other value :: doc) = fieldsOf name doc := by
  simp [fieldsOf, h]

variable {α : Type}

theorem fieldsOf_map (name : Text) (value : α → Text) (values : List α) :
    fieldsOf name (values.map fun x => .field name (value x)) = values.map value := by
  induction values with
  | nil => rfl
  | cons x values ih => rw [List.map_cons, fieldsOf_same, ih, List.map_cons]

theorem fieldsOf_map_other {name other : Text} (h : other ≠ name) (value : α → Text) (values : List α) :
    fieldsOf name (values.map fun x => .field other (value x)) = [] := by
  induction values with
  | nil => rfl
  | cons x values ih => rw [List.map_cons, fieldsOf_other h, ih]

/-! ### The first tag of a name -/

theorem tagged_isPrefixOf {m n : Text} (hm : '>' ∉ m) (hn : '>' ∉ n) (rest : Text) :
    (tagged m).isPrefixOf (tagged n ++ rest) = true ↔ m = n := by
  have hrest : ∀ {m n : Text}, '>' ∉ m → '>' ∉ n → (m ++ ['>'] <+: n ++ '>' :: rest ↔ m = n) := by
    intro m
    induction m with
    | nil =>
      intro n _ hn
      rcases n with _ | ⟨d, n⟩
      · simp
      · have hd : d ≠ '>' := fun h => hn (h ▸ List.mem_cons_self)
        simp [List.cons_prefix_cons, hd.symm]
    | cons c m ih =>
      intro n hm hn
      have hc : c ≠ '>' := fun h => hm (h ▸ List.mem_cons_self)
      rcases n with _ | ⟨d, n⟩
      · simp [List.cons_prefix_cons, hc]
      · have h := ih (fun h => hm (List.mem_cons_of_mem _ h)) (fun h : '>' ∈ n => hn (List.mem_cons_of_mem _ h))
        simp only [List.cons_append, List.cons_prefix_cons, h, List.cons.injEq]
  rw [List.isPrefixOf_iff_prefix, tagged, tagged, List.cons_append, List.cons_prefix_cons, List.append_assoc]
  simpa using hrest hm hn

variable {names : List Text}

/-- Splitting goes on behind a text in which no word starts. -/
def Skips (words : List Text) (front : Text) : Prop :=
  ∀ rest, splitAtFirst words (front ++ rest) = (splitAtFirst words rest).map fun split => (front ++ split.1, split.2)

theorem Skips.append {words : List Text} {front back : Text} (hfront : Skips words front) (hback : Skips words back) :
    Skips words (front ++ back) := by
  intro rest
  rw [List.append_assoc, hfront, hback, Option.map_map]
  congr 1
  funext split
  simp

theorem skips_nil (words : List Text) : Skips words [] := by
  intro rest
  simp

theorem skips_cons {words : List Text} {c : Char} {front : Text}
    (h : ∀ rest, words.find? (fun word => word.isPrefixOf (c :: (front ++ rest))) = none) (hfront : Skips words front) :
    Skips words (c :: front) := by
  intro rest
  rw [List.cons_append, splitAtFirst, h, hfront]
  simp [Function.comp_def]

theorem skips_data {text : Text} (h : '<' ∉ text) : Skips (names.map tagged) text := by
  induction text with
  | nil => exact skips_nil _
  | cons c text ih =>
    have hc : c ≠ '<' := fun he => h (he ▸ List.mem_cons_self)
    refine skips_cons (fun rest => ?_) (ih fun hmem => h (List.mem_cons_of_mem _ hmem))
    refine List.find?_eq_none.mpr fun word hword => ?_
    obtain ⟨name, _, rfl⟩ := List.mem_map.mp hword
    simp [tagged, List.isPrefixOf, hc.symm]

theorem skips_tag {name : Text} (hname : '<' ∉ name ∧ '>' ∉ name) (hnames : ∀ n ∈ names, '>' ∉ n)
    (h : name ∉ names) : Skips (names.map tagged) (tagged name) := by
  have hend : '<' ∉ name ++ ['>'] := by simp [hname.1]
  refine skips_cons (fun rest => List.find?_eq_none.mpr fun word hword => ?_) (skips_data hend)
  obtain ⟨n, hn, rfl⟩ := List.mem_map.mp hword
  intro hstart
  exact h ((tagged_isPrefixOf (hnames n hn) hname.2 rest).mp hstart ▸ hn)

theorem splitAtFirst_tag {name : Text} (hnames : ∀ n ∈ names, '>' ∉ n) (h : name ∈ names) (rest : Text) :
    splitAtFirst (names.map tagged) (tagged name ++ rest) = some ([], rest) := by
  obtain ⟨word, hword⟩ : ∃ word, (names.map tagged).find? (fun word => word.isPrefixOf (tagged name ++ rest)) =
      some word := by
    refine Option.isSome_iff_exists.mp (List.find?_isSome.mpr ⟨tagged name, List.mem_map_of_mem h, ?_⟩)
    exact (tagged_isPrefixOf (hnames _ h) (hnames _ h) rest).mpr rfl
  obtain ⟨n, hn, rfl⟩ := List.mem_map.mp (List.mem_of_find?_eq_some hword)
  have hstart := List.find?_some hword
  obtain rfl : n = name := (tagged_isPrefixOf (hnames n hn) (hnames _ h) rest).mp hstart
  rw [tagged, List.cons_append] at hword ⊢
  rw [splitAtFirst, hword]
  simp

theorem skips_node {node : Node} (hnames : ∀ n ∈ names, '>' ∉ n) (hplain : node.Plain) (h : node.Avoids names) :
    Skips (names.map tagged) node.write := by
  rcases node with ⟨name, value⟩ | name | text
  · obtain ⟨hlt, hgt, -, hvalue⟩ := hplain
    refine (skips_tag ⟨hlt, hgt⟩ hnames h.1).append ((skips_data hvalue).append (skips_tag ?_ hnames h.2))
    simp [hlt, hgt]
  · exact skips_tag hplain hnames h
  · exact skips_data hplain

theorem skips_write {nodes : List Node} (hnames : ∀ n ∈ names, '>' ∉ n) (hplain : ∀ node ∈ nodes, node.Plain)
    (h : ∀ node ∈ nodes, node.Avoids names) : Skips (names.map tagged) (write nodes) := by
  induction nodes with
  | nil => exact skips_nil _
  | cons node nodes ih =>
    exact (skips_node hnames (hplain _ List.mem_cons_self) (h _ List.mem_cons_self)).append
      (ih (fun n hn => hplain n (List.mem_cons_of_mem _ hn)) fun n hn => h n (List.mem_cons_of_mem _ hn))

/-! ### The values between tags -/

theorem between_skip {openings : List Text} {front : Text} (h : Skips openings front) (closings : List Text) (fuel : ℕ)
    (rest : Text) : between openings closings fuel (front ++ rest) = between openings closings fuel rest := by
  cases fuel with
  | zero => rfl
  | succ fuel =>
    rw [between, between, h]
    cases splitAtFirst openings rest <;> rfl

theorem between_nil (openings closings : List Text) (fuel : ℕ) : between openings closings fuel [] = [] := by
  cases fuel <;> rfl

theorem between_value {closings : List Text} {name closing value : Text} (hnames : ∀ n ∈ names, '>' ∉ n)
    (hname : name ∈ names) (hclosings : ∀ n ∈ closings, '>' ∉ n) (hclosing : closing ∈ closings)
    (hvalue : Skips (closings.map tagged) value) (fuel : ℕ) (rest : Text) :
    between (names.map tagged) (closings.map tagged) (fuel + 1) (tagged name ++ (value ++ (tagged closing ++ rest))) =
      value :: between (names.map tagged) (closings.map tagged) fuel rest := by
  rw [between, splitAtFirst_tag hnames hname]
  simp only [hvalue (tagged closing ++ rest), splitAtFirst_tag hclosings hclosing, Option.map_some, List.append_nil]

/-- The values of the fields of a name are what stands between its tags. -/
theorem between_write {name : Text} (hname : '>' ∉ name ∧ '/' ∉ name) {doc : List Node}
    (hplain : ∀ node ∈ doc, node.Plain) (hsole : .tag name ∉ doc) {fuel : ℕ} (hfuel : (write doc).length ≤ fuel) :
    between [tagged name] [tagged ('/' :: name)] fuel (write doc) = fieldsOf name doc := by
  have hopening : ∀ n ∈ [name], '>' ∉ n := by simpa using hname.1
  have hclosing : ∀ n ∈ ['/' :: name], '>' ∉ n := by simpa using hname.1
  induction doc generalizing fuel with
  | nil => exact between_nil _ _ fuel
  | cons node doc ih =>
    have hrest : ∀ {fuel}, (write doc).length ≤ fuel →
        between [tagged name] [tagged ('/' :: name)] fuel (write doc) = fieldsOf name doc :=
      ih (fun n hn => hplain n (List.mem_cons_of_mem _ hn)) fun h => hsole (List.mem_cons_of_mem _ h)
    have hnode := hplain node List.mem_cons_self
    have hlength : (write (node :: doc)).length = node.write.length + (write doc).length := List.length_append
    by_cases hfield : ∃ value, node = .field name value
    · obtain ⟨value, rfl⟩ := hfield
      obtain ⟨fuel, rfl⟩ : ∃ n, fuel = n + 1 := by
        refine Nat.exists_eq_succ_of_ne_zero fun hzero => ?_
        have : 0 < (Node.field name value).write.length := by simp [Node.write, tagged]
        omega
      have hvalue := between_value hopening (List.mem_singleton_self name) hclosing
        (List.mem_singleton_self ('/' :: name)) (skips_data hnode.2.2.2) fuel (write doc)
      have hbound : (write doc).length ≤ fuel := by
        have : 0 < (Node.field name value).write.length := by simp [Node.write, tagged]
        omega
      calc between [tagged name] [tagged ('/' :: name)] (fuel + 1) (write (.field name value :: doc))
          = value :: between [tagged name] [tagged ('/' :: name)] fuel (write doc) := by
            simpa [write, Node.write] using hvalue
        _ = fieldsOf name (.field name value :: doc) := by
            rw [hrest hbound]
            simp [fieldsOf]
    · have havoids : node.Avoids [name] := by
        rcases node with ⟨other, value⟩ | other | text
        · refine ⟨fun h => hfield ⟨value, by rw [List.mem_singleton.mp h]⟩, fun h => ?_⟩
          exact hname.2 (List.mem_singleton.mp h ▸ List.mem_cons_self)
        · exact fun h => hsole (List.mem_singleton.mp h ▸ List.mem_cons_self)
        · trivial
      calc between [tagged name] [tagged ('/' :: name)] fuel (write (node :: doc))
          = between [tagged name] [tagged ('/' :: name)] fuel (write doc) :=
            between_skip (skips_node hopening hnode havoids) _ fuel _
        _ = fieldsOf name doc := hrest (by omega)
        _ = fieldsOf name (node :: doc) := by
            rcases node with ⟨other, value⟩ | other | text
            · have hother : other ≠ name := fun h => hfield ⟨value, by rw [h]⟩
              simp [fieldsOf, hother]
            · rfl
            · rfl

/-- The blocks of some kinds are what stands between their tags. -/
theorem between_blocks {kinds : List Text} (hkinds : ∀ kind ∈ kinds, '>' ∉ kind) {head : List Node}
    (hhead : ∀ node ∈ head, node.Plain ∧ node.Avoids kinds) {blocks : List Block}
    (hblocks : ∀ block ∈ blocks, block.Plain kinds) {fuel : ℕ}
    (hfuel : (write head ++ blocks.flatMap Block.write).length ≤ fuel) :
    between (kinds.map tagged) ((kinds.map ('/' :: ·)).map tagged) fuel (write head ++ blocks.flatMap Block.write) =
      blocks.map fun block => write block.nodes := by
  have hclosings : ∀ n ∈ kinds.map ('/' :: ·), '>' ∉ n := by
    intro n hn
    obtain ⟨kind, hkind, rfl⟩ := List.mem_map.mp hn
    simpa using hkinds kind hkind
  rw [between_skip (skips_write hkinds (fun n hn => (hhead n hn).1) fun n hn => (hhead n hn).2)]
  have hlength : (blocks.flatMap Block.write).length ≤ fuel := by
    rw [List.length_append] at hfuel
    omega
  clear hfuel hhead
  induction blocks generalizing fuel with
  | nil => exact between_nil _ _ fuel
  | cons block blocks ih =>
    have hblock := hblocks block List.mem_cons_self
    have hpositive : 0 < block.write.length := by simp [Block.write, tagged]
    rw [List.flatMap_cons, List.length_append] at hlength
    obtain ⟨fuel, rfl⟩ := Nat.exists_eq_succ_of_ne_zero (show fuel ≠ 0 by omega)
    have hnodes : Skips ((kinds.map ('/' :: ·)).map tagged) (write block.nodes) :=
      skips_write hclosings (fun n hn => hblock.plain n (List.mem_append_left _ hn)) hblock.nodes
    have hgap : Skips (kinds.map tagged) (write block.gap) :=
      skips_write hkinds (fun n hn => hblock.plain n (List.mem_append_right _ hn)) hblock.gap
    have hvalue := between_value hkinds hblock.kind hclosings (List.mem_map_of_mem hblock.kind) hnodes fuel
      (write block.gap ++ blocks.flatMap Block.write)
    rw [between_skip hgap, ih (fun b hb => hblocks b (List.mem_cons_of_mem _ hb)) (by omega)] at hvalue
    simpa [Block.write] using hvalue

/-! ### Replacing references -/

/-- Character data in which only the references of some names are left. -/
inductive Partly (left : Text → Prop) : Text → Text → Prop
  | nil : Partly left [] []
  | char {c : Char} {raw text : Text} (hamp : c ≠ '&') (h : Partly left raw text) : Partly left (c :: raw) (c :: text)
  | reference {name : Text} {c : Char} {raw text : Text} (hname : NamedReference name c) (hleft : left name)
      (h : Partly left raw text) : Partly left ('&' :: (name ++ ';' :: raw)) (c :: text)

theorem Written.partly {raw text : Text} (h : Written NamedReference raw text) : Partly (fun _ => True) raw text := by
  induction h with
  | nil => exact .nil
  | char _ hamp _ ih => exact .char hamp ih
  | reference hname _ ih => exact .reference hname trivial ih

theorem NamedReference.name {name : Text} {c : Char} (h : NamedReference name c) : '&' ∉ name ∧ ';' ∉ name := by
  cases h <;> decide

theorem NamedReference.unique {name : Text} {c d : Char} (h : NamedReference name c) (h' : NamedReference name d) :
    c = d := by
  cases h <;> cases h' <;> rfl

def referenceText (name : Text) : Text := '&' :: (name ++ [';'])

theorem start_referenceText {name other : Text} (hname : ';' ∉ name) (hother : ';' ∉ other) (raw : Text) :
    referenceText name <+: '&' :: (other ++ ';' :: raw) ↔ name = other := by
  rw [referenceText, List.cons_prefix_cons]
  induction name generalizing other with
  | nil =>
    rcases other with _ | ⟨d, other⟩
    · simp
    · have hd : d ≠ ';' := fun h => hother (h ▸ List.mem_cons_self)
      simp [List.cons_prefix_cons, hd.symm]
  | cons c name ih =>
    have hc : c ≠ ';' := fun h => hname (h ▸ List.mem_cons_self)
    rcases other with _ | ⟨d, other⟩
    · simp [List.cons_prefix_cons, hc]
    · have h := ih (fun h => hname (List.mem_cons_of_mem _ h)) fun h : ';' ∈ other => hother (List.mem_cons_of_mem _ h)
      simp only [true_and] at h
      simp only [List.cons_append, List.cons_prefix_cons, h, List.cons.injEq, true_and]

open Mentions in
/-- One name is replaced everywhere, and no other reference is touched. -/
theorem Partly.replace {left : Text → Prop} {name : Text} {c : Char} (hname : NamedReference name c) (hc : c ≠ '&')
    {raw text : Text} (h : Partly left raw text) :
    Partly (fun n => left n ∧ n ≠ name) (replaceAll (referenceText name) [c] raw) text := by
  induction h with
  | nil => exact .nil
  | @char d raw text hamp _ ih =>
    rw [referenceText, replaceAll_other fun h => hamp (List.cons_prefix_cons.mp h).1.symm]
    exact .char hamp ih
  | @reference other d raw text hother hleft _ ih =>
    by_cases hsame : other = name
    · subst hsame
      have hreplaced := replaceAll_label '&' (other ++ [';']) [c] raw
      rw [List.append_assoc] at hreplaced
      rw [hother.unique hname, referenceText]
      exact (congrArg (Partly _ · _) hreplaced).mpr (.char hc ih)
    · have hskip : '&' ∉ other ++ [';'] := by simp [hother.name.1]
      have hkept : replaceAll (referenceText name) [c] ('&' :: (other ++ ';' :: raw)) =
          '&' :: (other ++ ';' :: replaceAll (referenceText name) [c] raw) := by
        rw [replaceAll_other fun h => hsame ((start_referenceText hname.name.2 hother.name.2 raw).mp h).symm]
        have hrest := @replaceAll_append _ _ '&' (name ++ [';']) [c] _ hskip raw
        simpa [referenceText] using hrest
      rw [hkept]
      exact .reference hother ⟨hleft, hsame⟩ ih

open Mentions in
/-- The last name writes the character that begins every reference. -/
theorem Partly.replaceLast {left : Text → Prop}
    (hleft : ∀ name c, NamedReference name c → left name → name = "amp".toList) {raw text : Text} (h : Partly left raw text) : replaceAll (referenceText "amp".toList) ['&'] raw = text := by
  induction h with
  | nil => rfl
  | @char d raw text hamp _ ih =>
    rw [referenceText, replaceAll_other fun h => hamp (List.cons_prefix_cons.mp h).1.symm]
    exact congrArg (d :: ·) ih
  | @reference other d raw text hother hname _ ih =>
    obtain rfl := hleft other d hother hname
    have hreplaced := replaceAll_label '&' ("amp".toList ++ [';']) ['&'] raw
    rw [List.append_assoc] at hreplaced
    rw [hother.unique .amp]
    exact hreplaced.trans (congrArg ('&' :: ·) ih)

end OwnMinutes.Lib.XmlText
