import OwnMinutes.VolcanoAsr.Transcript

/-! # Speakers of a transcript

Two utterances have the same label where the rests of their labels after the word `Speaker` are equal
(`label_eq`). For different ids that is so in the ways of `SharesWith` only. -/

namespace OwnMinutes.VolcanoAsr.Speakers

open OwnMinutes.Lib.JsText OwnMinutes.Lib.JsValues OwnMinutes.VolcanoAsr.Transcript

variable {Num : Type*} (numbers : Numbers Num) {shift : Bool} {a b : Text}

/-- The id of an utterance; an empty one is none. -/
def identified : Option Text → Option Text
  | some [] => none
  | speaker => speaker

/-- The ids of the utterances. -/
def speakers (raw : Json Num) : List (Option Text) := (rawSpeakers numbers raw).map identified

/-- What the label of an id has after the word `Speaker`. -/
def afterWord (shift : Bool) (id : Text) : Text :=
  if isNamed id then id.drop 7
  else
    match numeral numbers shift id with
    | some numeric => ' ' :: numeric
    | none => ' ' :: id

/-- An id that is neither named nor a number. -/
def isOther (shift : Bool) (id : Text) : Prop := isNamed id = false ∧ numeral numbers shift id = none

/-- The numeral of an id that is not named. -/
def IsNumeral (shift : Bool) (id numeric : Text) : Prop :=
  isNamed id = false ∧ numeral numbers shift id = some numeric

/-- The ways in which two ids get the same label. -/
inductive SharesWith (shift : Bool) (a b : Text) : Prop
  /-- They differ in the word before the blank only: `speaker 1` and `Speaker 1`. -/
  | named (ha : isNamed a = true) (hb : isNamed b = true) (hrest : a.drop 7 = b.drop 7)
  /-- Two texts of a number: `1` and `01`. -/
  | numerals {numeric : Text} (ha : IsNumeral numbers shift a numeric) (hb : IsNumeral numbers shift b numeric)
  /-- The name is the word and a number that is written so: `Speaker 1` and `1`, or `0` where ids are shifted. -/
  | namedNumeral {numeric : Text} (ha : isNamed a = true) (hb : IsNumeral numbers shift b numeric)
      (hrest : a.drop 7 = ' ' :: numeric)
  /-- The name is the word and the other id: `Speaker host` and `host`. -/
  | namedOther (ha : isNamed a = true) (hb : isOther numbers shift b) (hrest : a.drop 7 = ' ' :: b)
  /-- The other id is how the number is written. -/
  | numeralOther (ha : IsNumeral numbers shift a b) (hb : isOther numbers shift b)

/-- The ids of the label for utterances without id. -/
inductive SharesDefault (shift : Bool) (a : Text) : Prop
  | named (ha : isNamed a = true) (hrest : a.drop 7 = [' ', '1'])
  | numeral (ha : IsNumeral numbers shift a ['1'])
  | other (ha : isOther numbers shift a) (hrest : a = ['1'])

theorem trim_speaker {x : Text} (hnamed : isNamed (trim x) = true) :
    trim ("Speaker".toList ++ (trim x).drop 7) = "Speaker".toList ++ (trim x).drop 7 := by
  have hrest : (trim x).drop 7 ≠ [] := by
    intro hnil
    simp [isNamed, hnil] at hnamed
  have hlast : ∀ hne : trim x ≠ [], isWhiteSpace ((trim x).getLast hne) = false := by
    intro hne
    exact Bool.not_eq_true _ ▸ List.rdropWhile_last_not isWhiteSpace _ hne
  have hne : trim x ≠ [] := by
    intro hnil
    rw [hnil] at hrest
    exact hrest rfl
  have hend := hlast hne
  rw [← List.getLast_drop (i := 7) (h := hrest)] at hend
  unfold trim
  have hleft : ("Speaker".toList ++ (trim x).drop 7).dropWhile isWhiteSpace = "Speaker".toList ++ (trim x).drop 7 := rfl
  change (("Speaker".toList ++ (trim x).drop 7).dropWhile isWhiteSpace).rdropWhile isWhiteSpace = _
  rw [hleft]
  refine List.rdropWhile_eq_self_iff.mpr fun hl => ?_
  rw [List.getLast_append_of_ne_nil _ hrest, hend]
  exact Bool.false_ne_true

/-- **The label of an id.** -/
theorem label_eq {x : Text} (hne : trim x ≠ []) :
    normalizeSpeakerLabel numbers (some (trim x)) shift = "Speaker".toList ++ afterWord numbers shift (trim x) := by
  unfold normalizeSpeakerLabel afterWord
  cases hx : trim x with
  | nil => exact absurd hx hne
  | cons c id =>
    rw [← hx]
    by_cases hnamed : isNamed (trim x) = true
    · simp only [hnamed, if_true]
      exact trim_speaker hnamed
    · simp only [hnamed]
      cases numeral numbers shift (trim x) with
      | none | some numeric => rfl

theorem afterWord_named (h : isNamed a = true) : afterWord numbers shift a = a.drop 7 := if_pos h

theorem afterWord_numeral {numeric : Text} (h : IsNumeral numbers shift a numeric) :
    afterWord numbers shift a = ' ' :: numeric := by
  unfold afterWord
  rw [h.1, h.2]
  rfl

theorem afterWord_other (h : isOther numbers shift a) : afterWord numbers shift a = ' ' :: a := by
  unfold afterWord
  rw [h.1, h.2]
  rfl

theorem kinds (shift : Bool) (a : Text) :
    isNamed a = true ∨ (∃ numeric, IsNumeral numbers shift a numeric) ∨ isOther numbers shift a := by
  cases hnamed : isNamed a with
  | true => exact Or.inl rfl
  | false =>
    cases hnumeral : numeral numbers shift a with
    | some numeric => exact Or.inr (Or.inl ⟨numeric, hnamed, hnumeral⟩)
    | none => exact Or.inr (Or.inr ⟨hnamed, hnumeral⟩)

/-- Different ids have the same label in the ways of `SharesWith` only. -/
theorem afterWord_eq_iff (hne : a ≠ b) : afterWord numbers shift a = afterWord numbers shift b ↔
    SharesWith numbers shift a b ∨ SharesWith numbers shift b a := by
  constructor
  · intro h
    rcases kinds numbers shift a with ha | ⟨n, ha⟩ | ha <;> rcases kinds numbers shift b with hb | ⟨m, hb⟩ | hb
    · rw [afterWord_named numbers ha, afterWord_named numbers hb] at h
      exact Or.inl (.named ha hb h)
    · rw [afterWord_named numbers ha, afterWord_numeral numbers hb] at h
      exact Or.inl (.namedNumeral ha hb h)
    · rw [afterWord_named numbers ha, afterWord_other numbers hb] at h
      exact Or.inl (.namedOther ha hb h)
    · rw [afterWord_numeral numbers ha, afterWord_named numbers hb] at h
      exact Or.inr (.namedNumeral hb ha h.symm)
    · rw [afterWord_numeral numbers ha, afterWord_numeral numbers hb] at h
      have hnm := List.cons.inj h
      exact Or.inl (.numerals ha (hnm.2 ▸ hb))
    · rw [afterWord_numeral numbers ha, afterWord_other numbers hb] at h
      have hnb := (List.cons.inj h).2
      exact Or.inl (.numeralOther (hnb ▸ ha) hb)
    · rw [afterWord_other numbers ha, afterWord_named numbers hb] at h
      exact Or.inr (.namedOther hb ha h.symm)
    · rw [afterWord_other numbers ha, afterWord_numeral numbers hb] at h
      have hma := (List.cons.inj h).2
      exact Or.inr (.numeralOther (hma ▸ hb) ha)
    · rw [afterWord_other numbers ha, afterWord_other numbers hb] at h
      exact absurd (List.cons.inj h).2 hne
  · have hshares : ∀ {a b : Text}, SharesWith numbers shift a b →
        afterWord numbers shift a = afterWord numbers shift b := by
      rintro a b (⟨ha, hb, hrest⟩ | ⟨ha, hb⟩ | ⟨ha, hb, hrest⟩ | ⟨ha, hb, hrest⟩ | ⟨ha, hb⟩)
      · rw [afterWord_named numbers ha, afterWord_named numbers hb, hrest]
      · rw [afterWord_numeral numbers ha, afterWord_numeral numbers hb]
      · rw [afterWord_named numbers ha, afterWord_numeral numbers hb, hrest]
      · rw [afterWord_named numbers ha, afterWord_other numbers hb, hrest]
      · rw [afterWord_numeral numbers ha, afterWord_other numbers hb]
    rintro (h | h)
    · exact hshares h
    · exact (hshares h).symm

theorem afterWord_default_iff : afterWord numbers shift a = [' ', '1'] ↔ SharesDefault numbers shift a := by
  constructor
  · intro h
    rcases kinds numbers shift a with ha | ⟨n, ha⟩ | ha
    · exact .named ha ((afterWord_named numbers ha).symm.trans h)
    · have hn := (List.cons.inj ((afterWord_numeral numbers ha).symm.trans h)).2
      exact .numeral (hn ▸ ha)
    · exact .other ha (List.cons.inj ((afterWord_other numbers ha).symm.trans h)).2
  · rintro (⟨ha, hrest⟩ | ha | ⟨ha, hrest⟩)
    · exact (afterWord_named numbers ha).trans hrest
    · exact afterWord_numeral numbers ha
    · exact (afterWord_other numbers ha).trans (congrArg (' ' :: ·) hrest)

/-! ### The transcript -/

theorem readSpeaker_trim {row : List (Text × Json Num)} {x : Text} (h : readSpeaker numbers row = some x) :
    ∃ y, x = trim y := by
  unfold readSpeaker at h
  dsimp only at h
  split at h
  · cases h
  · cases h
  · cases h
  · rename_i value _ _
    exact ⟨_, (Option.some.inj h).symm⟩

variable {raw : Json Num} {i j : ℕ} {s t : TranscriptSegment}

/-- One segment for each utterance, in their order. -/
theorem getElem?_transcript (hne : utterancesOf raw ≠ []) (i : ℕ) :
    (normalizeVolcanoTranscript numbers raw)[i]? =
      (utterancesOf raw)[i]?.map fun item => segmentOf numbers (shiftsIds numbers raw) item i := by
  unfold normalizeVolcanoTranscript
  rw [if_pos hne, List.getElem?_mapIdx]

theorem speaker_of_segment (hne : utterancesOf raw ≠ []) {speaker : Option Text}
    (hspeaker : (speakers numbers raw)[i]? = some speaker) (hs : (normalizeVolcanoTranscript numbers raw)[i]? = some s) :
    ∃ x, identified x = speaker ∧ (∀ id, x = some id → ∃ y, id = trim y) ∧
      s.speaker = normalizeSpeakerLabel numbers x (shiftsIds numbers raw) := by
  unfold speakers rawSpeakers at hspeaker
  rw [List.map_map, List.getElem?_map, Option.map_eq_some_iff] at hspeaker
  obtain ⟨item, hitem, hx⟩ := hspeaker
  rw [getElem?_transcript numbers hne, hitem, Option.map_some, Option.some.injEq] at hs
  refine ⟨readSpeaker numbers (asRecord (some item)), hx, fun id hid => readSpeaker_trim numbers hid, ?_⟩
  rw [← hs]
  rfl

theorem segment_identified (hne : utterancesOf raw ≠ []) (hspeaker : (speakers numbers raw)[i]? = some (some a))
    (hs : (normalizeVolcanoTranscript numbers raw)[i]? = some s) :
    s.speaker = "Speaker".toList ++ afterWord numbers (shiftsIds numbers raw) a := by
  obtain ⟨x, hx, htrim, hlabel⟩ := speaker_of_segment numbers hne hspeaker hs
  cases x with
  | none => cases hx
  | some id =>
    cases id with
    | nil => cases hx
    | cons c id =>
      obtain ⟨y, hy⟩ := htrim _ rfl
      have ha : c :: id = a := Option.some.inj hx
      rw [hlabel, ← ha, hy, label_eq numbers (by rw [← hy]; simp)]

theorem segment_missing (hne : utterancesOf raw ≠ []) (hspeaker : (speakers numbers raw)[i]? = some none)
    (hs : (normalizeVolcanoTranscript numbers raw)[i]? = some s) : s.speaker = "Speaker".toList ++ [' ', '1'] := by
  obtain ⟨x, hx, -, hlabel⟩ := speaker_of_segment numbers hne hspeaker hs
  rw [hlabel]
  cases x with
  | none => rfl
  | some id =>
    cases id with
    | nil => rfl
    | cons c id => cases hx

theorem segment_exists (hne : utterancesOf raw ≠ []) {speaker : Option Text}
    (hspeaker : (speakers numbers raw)[i]? = some speaker) :
    ∃ s, (normalizeVolcanoTranscript numbers raw)[i]? = some s := by
  unfold speakers rawSpeakers at hspeaker
  rw [List.map_map, List.getElem?_map, Option.map_eq_some_iff] at hspeaker
  obtain ⟨item, hitem, -⟩ := hspeaker
  exact ⟨_, by rw [getElem?_transcript numbers hne, hitem]; rfl⟩

/-- At least two speakers are identified. -/
def ManySpeakers (raw : Json Num) : Prop :=
  ∃ a b : Text, some a ∈ speakers numbers raw ∧ some b ∈ speakers numbers raw ∧ a ≠ b

/-- Utterances have one label exactly where they have one id; those without id have a label of their own where at
least two speakers are identified. -/
structure SpeakersKept (raw : Json Num) : Prop where
  identified : ∀ (i j : ℕ) (a b : Text) (s t : TranscriptSegment),
    (speakers numbers raw)[i]? = some (some a) → (speakers numbers raw)[j]? = some (some b) →
    (normalizeVolcanoTranscript numbers raw)[i]? = some s → (normalizeVolcanoTranscript numbers raw)[j]? = some t →
    (s.speaker = t.speaker ↔ a = b)
  missing : ∀ (i j : ℕ) (s t : TranscriptSegment),
    (speakers numbers raw)[i]? = some none → (speakers numbers raw)[j]? = some none →
    (normalizeVolcanoTranscript numbers raw)[i]? = some s → (normalizeVolcanoTranscript numbers raw)[j]? = some t →
    s.speaker = t.speaker
  apart : ManySpeakers numbers raw → ∀ (i j : ℕ) (a : Text) (s t : TranscriptSegment),
    (speakers numbers raw)[i]? = some none → (speakers numbers raw)[j]? = some (some a) →
    (normalizeVolcanoTranscript numbers raw)[i]? = some s → (normalizeVolcanoTranscript numbers raw)[j]? = some t →
    s.speaker ≠ t.speaker

/-- No two ids of the answer share a label, and none has the default label of an utterance without id. -/
structure ToldApart (raw : Json Num) : Prop where
  ids : ∀ a b : Text, some a ∈ speakers numbers raw → some b ∈ speakers numbers raw → a ≠ b →
    ¬ SharesWith numbers (shiftsIds numbers raw) a b
  default : ManySpeakers numbers raw → none ∈ speakers numbers raw → ∀ a : Text, some a ∈ speakers numbers raw →
    ¬ SharesDefault numbers (shiftsIds numbers raw) a

/-- **When speakers are kept apart.** -/
theorem transcript_speakers (hne : utterancesOf raw ≠ []) :
    ((normalizeVolcanoTranscript numbers raw).length = (utterancesOf raw).length ∧
      ∀ i, (normalizeVolcanoTranscript numbers raw)[i]? =
        (utterancesOf raw)[i]?.map fun item => segmentOf numbers (shiftsIds numbers raw) item i) ∧
      (SpeakersKept numbers raw ↔ ToldApart numbers raw) := by
  have hlength : (normalizeVolcanoTranscript numbers raw).length = (utterancesOf raw).length := by
    unfold normalizeVolcanoTranscript
    rw [if_pos hne, List.length_mapIdx]
  refine ⟨⟨hlength, getElem?_transcript numbers hne⟩, fun h => ⟨?_, ?_⟩, fun h => ⟨?_, ?_, ?_⟩⟩
  · intro a b ha hb hab hshares
    obtain ⟨i, hi⟩ := List.mem_iff_getElem?.mp ha
    obtain ⟨j, hj⟩ := List.mem_iff_getElem?.mp hb
    obtain ⟨s, hs⟩ := segment_exists numbers hne hi
    obtain ⟨t, ht⟩ := segment_exists numbers hne hj
    refine hab ((h.identified i j a b s t hi hj hs ht).mp ?_)
    rw [segment_identified numbers hne hi hs, segment_identified numbers hne hj ht,
      (afterWord_eq_iff numbers hab).mpr (Or.inl hshares)]
  · intro hmany hnone a ha hdefault
    obtain ⟨i, hi⟩ := List.mem_iff_getElem?.mp hnone
    obtain ⟨j, hj⟩ := List.mem_iff_getElem?.mp ha
    obtain ⟨s, hs⟩ := segment_exists numbers hne hi
    obtain ⟨t, ht⟩ := segment_exists numbers hne hj
    refine h.apart hmany i j a s t hi hj hs ht ?_
    rw [segment_missing numbers hne hi hs, segment_identified numbers hne hj ht,
      (afterWord_default_iff numbers).mpr hdefault]
  · intro i j a b s t hi hj hs ht
    rw [segment_identified numbers hne hi hs, segment_identified numbers hne hj ht, List.append_cancel_left_eq]
    constructor
    · intro hlabel
      by_contra hab
      rcases (afterWord_eq_iff numbers hab).mp hlabel with hshares | hshares
      · exact h.ids a b (List.mem_of_getElem? hi) (List.mem_of_getElem? hj) hab hshares
      · exact h.ids b a (List.mem_of_getElem? hj) (List.mem_of_getElem? hi) (Ne.symm hab) hshares
    · rintro rfl
      rfl
  · intro i j s t hi hj hs ht
    rw [segment_missing numbers hne hi hs, segment_missing numbers hne hj ht]
  · intro hmany i j a s t hi hj hs ht hlabel
    rw [segment_missing numbers hne hi hs, segment_identified numbers hne hj ht, List.append_cancel_left_eq] at hlabel
    exact h.default hmany (List.mem_of_getElem? hi) a (List.mem_of_getElem? hj)
      ((afterWord_default_iff numbers).mp hlabel.symm)

/-- The whole numbers, with `none` for what is no number. -/
def wholeNumbers : Numbers (Option ℕ) where
  ofNat := some
  add x y := x.bind fun x => y.map fun y => x + y
  mul x y := x.bind fun x => y.map fun y => x * y
  div x y := x.bind fun x => y.map fun y => x / y
  rem x y := x.bind fun x => y.map fun y => x % y
  max x y := x.bind fun x => y.map fun y => Nat.max x y
  floor x := x
  isFinite x := x.isSome
  parse text := if text.all Char.isDigit then some (Nat.ofDigitChars 10 text 0) else none
  text x := x.elim "NaN".toList (Nat.toDigits 10)

def answerOf (speakers : List (Option String)) : Json (Option ℕ) :=
  .object [("utterances".toList, .array (speakers.map fun speaker =>
    .object (speaker.elim [] fun id => [("speaker".toList, .string id.toList)])))]

/-- An answer with ids of different kinds. -/
def mixedAnswer : Json (Option ℕ) := answerOf [some "host", some "1", some "Speaker 2", some "1"]

theorem transcript_speakers_mixed : SpeakersKept wholeNumbers mixedAnswer := by
  have hne : utterancesOf mixedAnswer ≠ [] := List.cons_ne_nil _ _
  have hlabels : ∀ a ∈ speakers wholeNumbers mixedAnswer, ∀ b ∈ speakers wholeNumbers mixedAnswer,
      a.map (afterWord wholeNumbers (shiftsIds wholeNumbers mixedAnswer)) =
        b.map (afterWord wholeNumbers (shiftsIds wholeNumbers mixedAnswer)) → a = b := by decide
  refine (transcript_speakers wholeNumbers hne).2.mpr ⟨fun a b ha hb hab hshares => ?_, fun _ hmissing => ?_⟩
  · have hsame := (afterWord_eq_iff wholeNumbers hab).mpr (.inl hshares)
    exact hab (Option.some.inj (hlabels _ ha _ hb (congrArg some hsame)))
  · exact absurd hmissing (by decide)

/-- Two speakers are identified, and the utterance without id has the label of the first. -/
theorem speakers_merged :
    utterancesOf (answerOf [some "Speaker 1", none, some "Speaker 2"]) ≠ [] ∧
      ¬ SpeakersKept wholeNumbers (answerOf [some "Speaker 1", none, some "Speaker 2"]) := by
  have hne : utterancesOf (answerOf [some "Speaker 1", none, some "Speaker 2"]) ≠ [] := List.cons_ne_nil _ _
  have hspeakers : speakers wholeNumbers (answerOf [some "Speaker 1", none, some "Speaker 2"]) =
      [some "Speaker 1".toList, none, some "Speaker 2".toList] := by decide
  refine ⟨hne, fun h => ?_⟩
  have hfirst : (speakers wholeNumbers (answerOf [some "Speaker 1", none, some "Speaker 2"]))[0]? =
      some (some "Speaker 1".toList) := by rw [hspeakers]; rfl
  have hmissing : (speakers wholeNumbers (answerOf [some "Speaker 1", none, some "Speaker 2"]))[1]? =
      some none := by rw [hspeakers]; rfl
  have hmany : ManySpeakers wholeNumbers (answerOf [some "Speaker 1", none, some "Speaker 2"]) := by
    refine ⟨"Speaker 1".toList, "Speaker 2".toList, ?_, ?_, by decide⟩
    · rw [hspeakers]
      simp
    · rw [hspeakers]
      simp
  obtain ⟨s, hs⟩ := segment_exists wholeNumbers hne hmissing
  obtain ⟨t, ht⟩ := segment_exists wholeNumbers hne hfirst
  refine h.apart hmany 1 0 _ s t hmissing hfirst hs ht ?_
  rw [segment_missing wholeNumbers hne hmissing hs, segment_identified wholeNumbers hne hfirst ht]
  decide

end OwnMinutes.VolcanoAsr.Speakers
