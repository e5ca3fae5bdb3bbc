import Mathlib.Data.List.Basic
import Mathlib.Logic.Function.Basic
import Mathlib.Tactic.Common

/-! # Labels in a text

A text is read from the left as mentions of labels, at each place the longest that is there, and other characters
(`tokens`). Replacing every mention by the new name of its label is one substitution (`render`); replacing one label
after the other, everywhere it is found, is another (`replaceEach`). They agree where each label, when its turn
comes, is found at its own mentions only (`replaceEach_eq`). -/

namespace OwnMinutes.Lib.Mentions

variable {α : Type*} [DecidableEq α]

inductive Token (α : Type*)
  | mention (label : List α)
  | other (char : α)
  deriving DecidableEq

/-- The longest label that the text begins with. -/
def longestAt (labels : List (List α)) (text : List α) : Option (List α) :=
  labels.foldl
    (fun longest label =>
      if label ≠ [] && label.isPrefixOf text && longest.all fun other => other.length < label.length then some label
      else longest)
    none

/-- The tokens of a text after some characters that belong to the token before. -/
def tokensFrom (labels : List (List α)) : ℕ → List α → List (Token α)
  | _, [] => []
  | skip + 1, _ :: text => tokensFrom labels skip text
  | 0, char :: text =>
    match longestAt labels (char :: text) with
    | some label => .mention label :: tokensFrom labels (label.length - 1) text
    | none => .other char :: tokensFrom labels 0 text

def tokens (labels : List (List α)) (text : List α) : List (Token α) := tokensFrom labels 0 text

/-- The text of tokens, with a name in place of each label. -/
def render (names : List α → List α) (tokens : List (Token α)) : List α :=
  tokens.flatMap fun token =>
    match token with
    | .mention label => names label
    | .other char => [char]

/-- A token with the new name of its label. -/
def Token.rename (names : List α → List α) : Token α → Token α
  | .mention label => .mention (names label)
  | .other char => .other char

/-- `text.split(label).join(name)`, after some characters of the occurrence before. -/
def replaceFrom (label name : List α) : ℕ → List α → List α
  | _, [] => []
  | skip + 1, _ :: text => replaceFrom label name skip text
  | 0, char :: text =>
    if label.isPrefixOf (char :: text) then name ++ replaceFrom label name (label.length - 1) text
    else char :: replaceFrom label name 0 text

def replaceAll (label name text : List α) : List α := replaceFrom label name 0 text

/-- One label after the other. -/
def replaceEach (entries : List (List α × List α)) (text : List α) : List α :=
  entries.foldl (fun current entry => replaceAll entry.1 entry.2 current) text

/-- The names that a list of entries gives. -/
def namesOf (entries : List (List α × List α)) (names : List α → List α) : List α → List α :=
  entries.foldl (fun names entry => Function.update names entry.1 entry.2) names

/-! ### Tokens -/

theorem longestAt_some {labels : List (List α)} {text label : List α} (h : longestAt labels text = some label) :
    label ∈ labels ∧ label ≠ [] ∧ label.isPrefixOf text = true := by
  have hfold : ∀ (rest : List (List α)) (longest : Option (List α)),
      (∀ l, longest = some l → l ∈ labels ∧ l ≠ [] ∧ l.isPrefixOf text = true) → (∀ l ∈ rest, l ∈ labels) →
      ∀ l, rest.foldl (fun longest label =>
        if label ≠ [] && label.isPrefixOf text && longest.all fun other => other.length < label.length then some label
        else longest) longest = some l → l ∈ labels ∧ l ≠ [] ∧ l.isPrefixOf text = true := by
    intro rest
    induction rest with
    | nil =>
      intro longest hlongest _ l hl
      exact hlongest l hl
    | cons first rest ih =>
      intro longest hlongest hmem
      rw [List.foldl_cons]
      refine ih _ ?_ fun l hl => hmem l (List.mem_cons_of_mem _ hl)
      intro l hl
      split_ifs at hl with hbetter
      · simp only [Option.some.injEq] at hl
        subst hl
        simp only [Bool.and_eq_true, decide_eq_true_eq] at hbetter
        exact ⟨hmem _ List.mem_cons_self, hbetter.1.1, hbetter.1.2⟩
      · exact hlongest l hl
  exact hfold labels none (by simp) (fun _ hl => hl) label h

theorem longestAt_single {label text : List α} (hlabel : label ≠ []) :
    longestAt [label] text = if label.isPrefixOf text then some label else none := by
  unfold longestAt
  simp [hlabel]

/-- The characters of a label, once for all: `skip` of them are still to be passed over. -/
theorem render_tokensFrom (labels : List (List α)) (text : List α) :
    ∀ skip, render (fun label => label) (tokensFrom labels skip text) = text.drop skip := by
  induction text with
  | nil => intro skip; rcases skip with _ | skip <;> rfl
  | cons char text ih =>
    intro skip
    rcases skip with _ | skip
    · rw [tokensFrom]
      rcases hlongest : longestAt labels (char :: text) with _ | label
      · simp only [render, List.flatMap_cons]
        exact congrArg (char :: ·) (ih 0)
      · obtain ⟨-, hne, hstart⟩ := longestAt_some hlongest
        obtain ⟨rest, hrest⟩ := List.isPrefixOf_iff_prefix.mp hstart
        have hdrop : text.drop (label.length - 1) = rest := by
          have hlength : label.length = label.length - 1 + 1 := by
            have := List.length_pos_iff.mpr hne
            omega
          have hcons : (char :: text).drop label.length = rest := by rw [← hrest, List.drop_left]
          rwa [hlength, List.drop_succ_cons] at hcons
        simp only [render, List.flatMap_cons]
        have htail := ih (label.length - 1)
        simp only [render] at htail
        rw [htail, hdrop]
        exact hrest
    · exact ih skip

/-- A text is its tokens, one after the other. -/
theorem render_tokens (labels : List (List α)) (text : List α) :
    render (fun label => label) (tokens labels text) = text :=
  render_tokensFrom labels text 0

theorem mention_mem (labels : List (List α)) (text : List α) {label : List α} :
    ∀ skip, Token.mention label ∈ tokensFrom labels skip text → label ∈ labels := by
  induction text with
  | nil => intro skip h; rcases skip with _ | skip <;> simp [tokensFrom] at h
  | cons char text ih =>
    intro skip h
    rcases skip with _ | skip
    · rw [tokensFrom] at h
      rcases hlongest : longestAt labels (char :: text) with _ | longest
      · simp only [hlongest, List.mem_cons, reduceCtorEq, false_or] at h
        exact ih 0 h
      · simp only [hlongest, List.mem_cons, Token.mention.injEq] at h
        rcases h with rfl | h
        · exact (longestAt_some hlongest).1
        · exact ih _ h
    · exact ih skip h

theorem label_of_mention {labels : List (List α)} {text label : List α} (h : .mention label ∈ tokens labels text) :
    label ∈ labels :=
  mention_mem labels text 0 h

omit [DecidableEq α] in
theorem render_congr {names names' : List α → List α} {tokens : List (Token α)}
    (h : ∀ label, .mention label ∈ tokens → names label = names' label) : render names tokens = render names' tokens := by
  unfold render
  refine List.flatMap_congr fun token htoken => ?_
  rcases token with label | char
  · exact h label htoken
  · rfl

omit [DecidableEq α] in
theorem render_rename (names names' : List α → List α) (tokens : List (Token α)) :
    render names' (tokens.map (Token.rename names)) = render (fun label => names' (names label)) tokens := by
  unfold render
  rw [List.flatMap_map]
  refine List.flatMap_congr fun token _ => ?_
  rcases token with label | char <;> rfl

/-! ### The occurrences of one label -/

theorem replaceAll_other {label name text : List α} {char : α} (h : ¬ label <+: char :: text) :
    replaceAll label name (char :: text) = char :: replaceAll label name text := by
  rw [replaceAll, replaceFrom, if_neg fun hstart => h (List.isPrefixOf_iff_prefix.mp hstart)]
  rfl

theorem replaceAll_append {first : α} {label name front : List α} (h : first ∉ front) (text : List α) :
    replaceAll (first :: label) name (front ++ text) = front ++ replaceAll (first :: label) name text := by
  induction front with
  | nil => rfl
  | cons char front ih =>
    have hchar : first ≠ char := fun he => h (he ▸ List.mem_cons_self)
    rw [List.cons_append, replaceAll_other fun hstart => hchar (List.cons_prefix_cons.mp hstart).1,
      ih fun hmem => h (List.mem_cons_of_mem _ hmem), List.cons_append]

theorem replaceFrom_append (label name front text : List α) :
    replaceFrom label name front.length (front ++ text) = replaceAll label name text := by
  induction front with
  | nil => rfl
  | cons char front ih => exact ih

theorem replaceAll_label (first : α) (label name text : List α) :
    replaceAll (first :: label) name (first :: (label ++ text)) = name ++ replaceAll (first :: label) name text := by
  have hstart : (first :: label).isPrefixOf (first :: (label ++ text)) = true :=
    List.isPrefixOf_iff_prefix.mpr ⟨text, rfl⟩
  rw [replaceAll, replaceFrom, if_pos hstart]
  exact congrArg (name ++ ·) (replaceFrom_append _ name label text)

/-! ### One label after the other -/

theorem replaceFrom_eq {label name : List α} (hlabel : label ≠ []) (text : List α) :
    ∀ skip, replaceFrom label name skip text = render (fun _ => name) (tokensFrom [label] skip text) := by
  induction text with
  | nil => intro skip; rcases skip with _ | skip <;> rfl
  | cons char text ih =>
    intro skip
    rcases skip with _ | skip
    · rw [replaceFrom, tokensFrom, longestAt_single hlabel]
      by_cases hstart : label.isPrefixOf (char :: text) = true
      · simp only [hstart, if_true, render, List.flatMap_cons]
        exact congrArg (name ++ ·) (ih _)
      · simp only [hstart, render]
        exact congrArg (char :: ·) (ih 0)
    · exact ih skip

theorem replaceAll_eq {label name : List α} (hlabel : label ≠ []) (text : List α) :
    replaceAll label name text = render (fun _ => name) (tokens [label] text) :=
  replaceFrom_eq hlabel text 0

/-- The text with names in place of some labels, where the mentions of one label are still told apart. -/
def marked (label : List α) (names : List α → List α) (tokens : List (Token α)) : List (Token α) :=
  tokens.flatMap fun token =>
    match token with
    | .mention other => if other = label then [.mention label] else (names other).map .other
    | .other char => [.other char]

omit [DecidableEq α] in
theorem render_append (names : List α → List α) (first second : List (Token α)) :
    render names (first ++ second) = render names first ++ render names second := List.flatMap_append

omit [DecidableEq α] in
theorem render_others (names : List α → List α) (text : List α) : render names (text.map .other) = text := by
  induction text with
  | nil => rfl
  | cons char text ih => exact congrArg (char :: ·) ih

theorem render_marked (label name : List α) (names : List α → List α) (tokens : List (Token α)) :
    render (fun _ => name) (marked label names tokens) = render (Function.update names label name) tokens := by
  induction tokens with
  | nil => rfl
  | cons token tokens ih =>
    rcases token with other | char
    · have hhead : render (fun _ => name) (if other = label then [.mention label] else (names other).map .other) =
          Function.update names label name other := by
        by_cases hother : other = label
        · subst hother
          simp [render]
        · rw [if_neg hother, Function.update_of_ne hother, render_others]
      have happend := render_append (fun _ => name)
        (if other = label then [.mention label] else (names other).map .other) (marked label names tokens)
      rw [hhead, ih] at happend
      exact happend
    · exact congrArg (char :: ·) ih

/-- Each label, when its turn comes, is found at its own mentions only: the labels before it have got their names. -/
def AtMentions (tokens : List (Token α)) : (List α → List α) → List (List α × List α) → Prop
  | _, [] => True
  | names, (label, name) :: rest =>
    Mentions.tokens [label] (render names tokens) = marked label names tokens ∧
      AtMentions tokens (Function.update names label name) rest

instance instDecidableAtMentions (tokens : List (Token α)) :
    (entries : List (List α × List α)) → (names : List α → List α) → Decidable (AtMentions tokens names entries)
  | [], _ => .isTrue trivial
  | (label, name) :: rest, names =>
    have := instDecidableAtMentions tokens rest (Function.update names label name)
    inferInstanceAs (Decidable (_ ∧ _))

variable {entries : List (List α × List α)}

theorem replaceEach_render {tokens : List (Token α)} (hentries : ∀ entry ∈ entries, entry.1 ≠ []) :
    ∀ {names : List α → List α}, AtMentions tokens names entries →
    replaceEach entries (render names tokens) = render (namesOf entries names) tokens := by
  induction entries with
  | nil => intro names _; rfl
  | cons entry rest ih =>
    intro names h
    obtain ⟨hfound, hrest⟩ := h
    have hone : replaceAll entry.1 entry.2 (render names tokens) = render (Function.update names entry.1 entry.2) tokens := by
      rw [replaceAll_eq (hentries entry List.mem_cons_self), hfound, render_marked]
    have htail := ih (fun other hother => hentries other (List.mem_cons_of_mem _ hother)) hrest
    simpa [replaceEach, namesOf, hone] using htail

/-- Where each label is found at its own mentions only, one after the other is all at once. -/
theorem replaceEach_eq {labels : List (List α)} {text : List α} (hentries : ∀ entry ∈ entries, entry.1 ≠ [])
    (h : AtMentions (tokens labels text) (fun label => label) entries) :
    replaceEach entries text = render (namesOf entries fun label => label) (tokens labels text) := by
  have hsame := replaceEach_render hentries h
  rwa [render_tokens] at hsame

/-! ### The names of a list of entries -/

theorem namesOf_of_not_mem {label : List α} :
    ∀ {names : List α → List α}, (∀ entry ∈ entries, entry.1 ≠ label) → namesOf entries names label = names label := by
  induction entries with
  | nil => intro names _; rfl
  | cons entry rest ih =>
    intro names h
    have hne := h entry List.mem_cons_self
    have hrest : namesOf rest (Function.update names entry.1 entry.2) label =
        Function.update names entry.1 entry.2 label :=
      ih fun other hother => h other (List.mem_cons_of_mem _ hother)
    rwa [Function.update_of_ne (Ne.symm hne)] at hrest

theorem namesOf_of_mem {label name : List α} :
    ∀ {names : List α → List α}, (entries.map Prod.fst).Nodup → (label, name) ∈ entries →
    namesOf entries names label = name := by
  induction entries with
  | nil => intro names _ h; simp at h
  | cons entry rest ih =>
    intro names hnodup h
    simp only [List.map_cons, List.nodup_cons] at hnodup
    rcases List.mem_cons.mp h with rfl | h
    · have hnot : ∀ other ∈ rest, other.1 ≠ label := by
        intro other hother heq
        have hmem : other.1 ∈ rest.map Prod.fst := List.mem_map.mpr ⟨other, hother, rfl⟩
        rw [heq] at hmem
        exact hnodup.1 hmem
      have hhead : namesOf rest (Function.update names label name) label = Function.update names label name label :=
        namesOf_of_not_mem hnot
      rwa [Function.update_self] at hhead
    · exact ih hnodup.2 h

end OwnMinutes.Lib.Mentions
