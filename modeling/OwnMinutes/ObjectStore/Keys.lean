import OwnMinutes.Lib.JsText
import OwnMinutes.Lib.Occurrences
import Mathlib.Data.List.Infix

/-! # Keys of the object store

A key is normalized before it is put under the key prefix of the deployment and again before each request. The
request names its key in the path of a URL, in which single dots are no segments. -/

namespace OwnMinutes.ObjectStore.Keys

open OwnMinutes.Lib.JsText OwnMinutes.Lib.Occurrences

abbrev Text := List Char

inductive Provider
  | r2
  | volcanoTos
  | s3
  deriving DecidableEq, Repr

/-! ### Segments -/

def joined (segments : List Text) : Text := ['/'].intercalate segments

/-- The segments of a key without the white space around them, those that are left. -/
def segments (key : Text) : List Text := ((key.splitOn '/').map trim).filter (· ≠ [])

/-- `none` where the source throws `Invalid meeting object key.` -/
def normalizeObjectKey (key : Text) : Option Text :=
  let normalized := joined (segments key)
  if normalized = [] ∨ "..".toList <:+: normalized then none else some normalized

/-- The parts of the configuration that the prefixes and the deletions read. -/
structure S3CompatibleConfig where
  provider : Provider
  /-- `OWNMINUTES_STORAGE_PREFIX`, normalized when it is there. -/
  keyPrefix : Text
  keyPrefix_normal : keyPrefix = [] ∨ normalizeObjectKey keyPrefix = some keyPrefix
  /-- `getObjectStoreDeleteConcurrency()`. -/
  deleteConcurrency : ℕ
  deleteConcurrency_range : 1 ≤ deleteConcurrency ∧ deleteConcurrency ≤ 32

def scopeObjectKey (config : S3CompatibleConfig) (key : Text) : Option Text := do
  let normalized ← normalizeObjectKey key
  pure (if config.keyPrefix ≠ [] then config.keyPrefix ++ '/' :: normalized else normalized)

/-- The segments of the path of a URL: a single dot is none, and at the end it leaves an empty one. -/
def withoutDots : List Text → List Text
  | [] => []
  | [segment] => if segment = ['.'] then [[]] else [segment]
  | segment :: rest => if segment = ['.'] then withoutDots rest else segment :: withoutDots rest

/-- The key that a request names. The segments stand percent-encoded in the path of the URL, which the service
decodes. -/
def requestedKey (key : Text) : Option Text :=
  if key = [] then some []
  else do
    let normalized ← normalizeObjectKey key
    pure (joined (withoutDots (normalized.splitOn '/')))

/-- A key is in normal form: its segments are neither blank nor single dots, have no white space around them, and two
dots stand nowhere. -/
def IsNormal (key : Text) : Prop := normalizeObjectKey key = some key ∧ ['.'] ∉ segments key

/-- A key under a prefix. -/
def Under (scopedPrefix key : Text) : Prop := scopedPrefix ++ ['/'] <+: key

instance (scopedPrefix key : Text) : Decidable (Under scopedPrefix key) :=
  inferInstanceAs (Decidable (_ <+: _))

/-- A text has a segment that a request keeps. -/
def Solid (rest : Text) : Prop := ∃ segment ∈ segments rest, segment ≠ ['.']

/-! ### Joining and splitting -/

theorem joined_append {first second : List Text} (hfirst : first ≠ []) (hsecond : second ≠ []) :
    joined (first ++ second) = joined first ++ '/' :: joined second := by
  induction first with
  | nil => exact absurd rfl hfirst
  | cons segment rest ih =>
    by_cases hrest : rest = []
    · subst hrest
      simp [joined, List.intercalate_cons_of_ne_nil hsecond, List.intercalate_singleton]
    · have h := ih hrest
      simp only [joined] at h ⊢
      rw [List.cons_append, List.intercalate_cons_of_ne_nil (by simp [hrest]),
        List.intercalate_cons_of_ne_nil hrest, h]
      simp

theorem slash_not_mem_splitOn {key segment : Text} (h : segment ∈ key.splitOn '/') : '/' ∉ segment := by
  induction key generalizing segment with
  | nil => simp_all [List.splitOn_nil]
  | cons c key ih =>
    rw [List.splitOn_cons_eq_if_modifyHead] at h
    split at h
    · rcases List.mem_cons.mp h with rfl | h
      · exact List.not_mem_nil
      · exact ih h
    · rename_i hc
      obtain ⟨first, rest, hsplit⟩ := List.exists_cons_of_ne_nil (List.splitOn_ne_nil '/' key)
      rw [hsplit, List.modifyHead_cons] at h
      have hmem : ∀ s ∈ first :: rest, '/' ∉ s := fun s hs => ih (hsplit ▸ hs)
      rcases List.mem_cons.mp h with rfl | h
      · have hne : '/' ≠ c := fun he => hc (by simp [he.symm])
        exact fun hslash => (List.mem_cons.mp hslash).elim hne (hmem first List.mem_cons_self)
      · exact hmem segment (List.mem_cons_of_mem _ h)

theorem infix_of_trim (text : Text) : trim text <:+: text := by
  rw [trim]
  exact (List.rdropWhile_prefix _ _).isInfix.trans (List.dropWhile_suffix _).isInfix

theorem trim_trim (text : Text) : trim (trim text) = trim text := by
  have hleft : (trim text).dropWhile isWhiteSpace = trim text := by
    refine List.dropWhile_eq_self_iff.mpr fun hne => ?_
    obtain ⟨back, hback⟩ : trim text <+: text.dropWhile isWhiteSpace := List.rdropWhile_prefix _ _
    have hne' : text.dropWhile isWhiteSpace ≠ [] := fun h => by simp [trim, h] at hne
    have hhead := List.head_dropWhile_not isWhiteSpace hne'
    have hget : (text.dropWhile isWhiteSpace).head hne' = (trim text)[0] := by
      simp only [← hback]
      rw [List.head_append_of_ne_nil (List.ne_nil_of_length_pos hne), List.head_eq_getElem]
    rw [hget] at hhead
    simp [hhead]
  rw [trim, hleft, trim, List.rdropWhile_idempotent]

theorem segment_of_mem {key segment : Text} (h : segment ∈ segments key) :
    '/' ∉ segment ∧ trim segment = segment ∧ segment ≠ [] := by
  obtain ⟨hmem, hne⟩ := List.mem_filter.mp h
  obtain ⟨part, hpart, rfl⟩ := List.mem_map.mp hmem
  exact ⟨fun hslash => slash_not_mem_splitOn hpart ((infix_of_trim part).subset hslash), trim_trim part, by simpa using hne⟩

variable {parts : List Text}

theorem splitOn_joined (hne : parts ≠ []) (h : ∀ part ∈ parts, '/' ∉ part) : (joined parts).splitOn '/' = parts :=
  List.splitOn_intercalate '/' h hne

theorem segments_joined (hne : parts ≠ []) (h : ∀ part ∈ parts, '/' ∉ part) :
    segments (joined parts) = (parts.map trim).filter (· ≠ []) := by
  rw [segments, splitOn_joined hne h]

theorem segments_joined_segments {key : Text} (hne : segments key ≠ []) : segments (joined (segments key)) = segments key := by
  rw [segments_joined hne fun part hpart => (segment_of_mem hpart).1]
  have hmap : (segments key).map trim = segments key :=
    (List.map_congr_left fun part hpart => (segment_of_mem hpart).2.1).trans (List.map_id _)
  rw [hmap]
  exact List.filter_eq_self.mpr fun part hpart => by simpa using (segment_of_mem hpart).2.2

theorem segments_append (first second : Text) :
    segments (first ++ '/' :: second) = segments first ++ segments second := by
  simp only [segments, List.splitOn_append_cons_self, List.map_append, List.filter_append]

theorem joined_ne_nil {key : Text} (h : joined (segments key) ≠ []) : segments key ≠ [] := by
  rintro hnil
  rw [hnil] at h
  exact h rfl

theorem normalize_eq_some {key normalized : Text} (h : normalizeObjectKey key = some normalized) :
    joined (segments key) = normalized ∧ segments key ≠ [] ∧ ¬ "..".toList <:+: normalized := by
  unfold normalizeObjectKey at h
  dsimp only at h
  split at h
  · cases h
  · rename_i hvalid
    obtain ⟨hne, hdots⟩ := not_or.mp hvalid
    cases h
    exact ⟨rfl, joined_ne_nil hne, hdots⟩

/-! ### Normal forms -/

theorem normalize_normalize {key normalized : Text} (h : normalizeObjectKey key = some normalized) :
    normalizeObjectKey normalized = some normalized := by
  obtain ⟨rfl, hne, hdots⟩ := normalize_eq_some h
  have hsame := segments_joined_segments hne
  have hvalid : ¬ (joined (segments key) = [] ∨ "..".toList <:+: joined (segments key)) := by
    rintro (hnil | h)
    · have : segments (joined (segments key)) = [] := by rw [hnil]; decide
      exact hne (hsame ▸ this)
    · exact hdots h
  unfold normalizeObjectKey
  dsimp only
  rw [hsame, if_neg hvalid]

theorem normalize_self {key : Text} (h : normalizeObjectKey key = some key) :
    joined (segments key) = key ∧ segments key ≠ [] ∧ key.splitOn '/' = segments key := by
  obtain ⟨hjoined, hne, -⟩ := normalize_eq_some h
  refine ⟨hjoined, hne, ?_⟩
  conv_lhs => rw [← hjoined]
  exact splitOn_joined hne fun part hpart => (segment_of_mem hpart).1

theorem normalize_scope {config : S3CompatibleConfig} {key target : Text} (h : scopeObjectKey config key = some target) :
    normalizeObjectKey target = some target := by
  obtain ⟨normalized, hnormalized, hscoped⟩ := Option.bind_eq_some_iff.mp h
  have hself := normalize_normalize hnormalized
  rcases config.keyPrefix_normal with hempty | hbase
  · rw [hempty] at hscoped
    obtain rfl : normalized = target := by simpa using hscoped
    exact hself
  · obtain ⟨hjoined, hne, -⟩ := normalize_self hself
    obtain ⟨hbaseJoined, hbaseNe, -⟩ := normalize_self hbase
    have hprefixed : config.keyPrefix ≠ [] := by
      rw [← hbaseJoined]
      intro hnil
      have : segments config.keyPrefix = [] := by
        rw [← hbaseJoined, hnil]
        decide
      exact hbaseNe this
    obtain rfl : config.keyPrefix ++ '/' :: normalized = target := by simpa [hprefixed] using hscoped
    have hwhole : joined (segments (config.keyPrefix ++ '/' :: normalized)) = config.keyPrefix ++ '/' :: normalized := by
      rw [segments_append, joined_append hbaseNe hne, hbaseJoined, hjoined]
    have hvalid : ¬ (config.keyPrefix ++ '/' :: normalized = [] ∨
        "..".toList <:+: config.keyPrefix ++ '/' :: normalized) := by
      rintro (hnil | hdots)
      · simp at hnil
      · rcases (infix_sep (by decide)).mp hdots with hdots | hdots
        · exact (normalize_eq_some hbase).2.2 hdots
        · exact (normalize_eq_some hself).2.2 hdots
    unfold normalizeObjectKey
    dsimp only
    rw [hwhole, if_neg hvalid]

/-! ### The key that a request names -/

theorem withoutDots_cons {segment : Text} {rest : List Text} (hrest : rest ≠ []) :
    withoutDots (segment :: rest) = if segment = ['.'] then withoutDots rest else segment :: withoutDots rest := by
  cases rest with
  | nil => exact absurd rfl hrest
  | cons next rest => rfl

theorem withoutDots_append {front back : List Text} (hfront : ['.'] ∉ front) (hback : back ≠ []) :
    withoutDots (front ++ back) = front ++ withoutDots back := by
  induction front with
  | nil => rfl
  | cons segment front ih =>
    have hsegment : segment ≠ ['.'] := fun h => hfront (h ▸ List.mem_cons_self)
    rw [List.cons_append, withoutDots_cons (by simp [hback]), if_neg hsegment,
      ih fun h => hfront (List.mem_cons_of_mem _ h), List.cons_append]

theorem withoutDots_eq_self (h : ['.'] ∉ parts) : withoutDots parts = parts := by
  induction parts with
  | nil => rfl
  | cons segment rest ih =>
    have hsegment : segment ≠ ['.'] := fun he => h (he ▸ List.mem_cons_self)
    by_cases hrest : rest = []
    · subst hrest
      rw [withoutDots, if_neg hsegment]
    · rw [withoutDots_cons hrest, if_neg hsegment, ih fun hmem => h (List.mem_cons_of_mem _ hmem)]

theorem mem_withoutDots {part : Text} (h : part ∈ parts) (hpart : part ≠ ['.']) : part ∈ withoutDots parts := by
  induction parts with
  | nil => cases h
  | cons segment rest ih =>
    by_cases hrest : rest = []
    · subst hrest
      obtain rfl := List.mem_singleton.mp h
      rw [withoutDots, if_neg hpart]
      exact h
    · rw [withoutDots_cons hrest]
      rcases List.mem_cons.mp h with rfl | h
      · rw [if_neg hpart]
        exact List.mem_cons_self
      · split
        · exact ih h
        · exact List.mem_cons_of_mem _ (ih h)

theorem of_mem_withoutDots {part : Text} (h : part ∈ withoutDots parts) : part ∈ parts ∨ part = [] := by
  induction parts with
  | nil => cases h
  | cons segment rest ih =>
    by_cases hrest : rest = []
    · subst hrest
      rw [withoutDots] at h
      split at h
      · exact Or.inr (List.mem_singleton.mp h)
      · exact Or.inl h
    · have hmem : part = segment ∨ part ∈ withoutDots rest := by
        rw [withoutDots_cons hrest] at h
        split at h
        · exact Or.inr h
        · exact List.mem_cons.mp h
      rcases hmem with rfl | hmem
      · exact Or.inl List.mem_cons_self
      · exact (ih hmem).imp_left fun h => List.mem_cons_of_mem _ h

/-- A key in normal form names itself. -/
theorem requestedKey_of_isNormal {key : Text} (h : IsNormal key) : requestedKey key = some key := by
  obtain ⟨hjoined, hne, hsplit⟩ := normalize_self h.1
  have hkey : key ≠ [] := by
    rintro rfl
    exact hne (by decide)
  rw [requestedKey, if_neg hkey, h.1]
  simp only [Option.pure_def, Option.bind_eq_bind, Option.bind_some, hsplit, withoutDots_eq_self h.2, hjoined]

/-- **A request for a key under a prefix in normal form** names a key under the prefix, when some segment of the key is
left behind the prefix. -/
theorem requestedKey_under {scopedPrefix rest named : Text} (hp : IsNormal scopedPrefix) (hrest : Solid rest)
    (h : requestedKey (scopedPrefix ++ '/' :: rest) = some named) :
    ∃ rest', named = scopedPrefix ++ '/' :: rest' ∧ Solid rest' := by
  obtain ⟨hjoined, hne, -⟩ := normalize_self hp.1
  obtain ⟨segment, hsegment, hdot⟩ := hrest
  have hrestNe : segments rest ≠ [] := List.ne_nil_of_mem hsegment
  rw [requestedKey, if_neg (by simp)] at h
  obtain ⟨normalized, hnormalized, hnamed⟩ := Option.bind_eq_some_iff.mp h
  obtain ⟨rfl, hwhole, -⟩ := normalize_eq_some hnormalized
  rw [splitOn_joined hwhole fun part hpart => (segment_of_mem hpart).1, segments_append,
    withoutDots_append hp.2 hrestNe] at hnamed
  have hkept : segment ∈ withoutDots (segments rest) := mem_withoutDots hsegment hdot
  have hkeptNe : withoutDots (segments rest) ≠ [] := List.ne_nil_of_mem hkept
  rw [joined_append hne hkeptNe, hjoined] at hnamed
  refine ⟨joined (withoutDots (segments rest)), by simpa using hnamed.symm, segment, ?_, hdot⟩
  have hslash : ∀ part ∈ withoutDots (segments rest), '/' ∉ part := by
    intro part hpart
    rcases of_mem_withoutDots hpart with hpart | rfl
    · exact (segment_of_mem hpart).1
    · exact List.not_mem_nil
  rw [segments_joined hkeptNe hslash]
  refine List.mem_filter.mpr ⟨List.mem_map.mpr ⟨segment, hkept, (segment_of_mem hsegment).2.1⟩, ?_⟩
  simpa using (segment_of_mem hsegment).2.2

/-- A key in normal form has a segment behind the prefix. -/
theorem solid_of_isNormal {scopedPrefix rest : Text} (hp : IsNormal scopedPrefix)
    (h : IsNormal (scopedPrefix ++ '/' :: rest)) : Solid rest := by
  obtain ⟨hjoined, -, -⟩ := normalize_self hp.1
  obtain ⟨hwhole, -, -⟩ := normalize_self h.1
  have hne : segments rest ≠ [] := by
    intro hnil
    rw [segments_append, hnil, List.append_nil, hjoined] at hwhole
    simp at hwhole
  obtain ⟨segment, hsegment⟩ := List.exists_mem_of_ne_nil _ hne
  refine ⟨segment, hsegment, fun hdot => h.2 ?_⟩
  rw [segments_append]
  exact List.mem_append_right _ (hdot ▸ hsegment)

/-! ### The keys of other meetings -/

theorem slash_not_mem_normalize {id normalized : Text} (hid : '/' ∉ id) (h : normalizeObjectKey id = some normalized) :
    '/' ∉ normalized := by
  obtain ⟨rfl, hne, -⟩ := normalize_eq_some h
  have hsegments : segments id = [trim id] := by
    have hsplit : segments id = [trim id].filter (· ≠ []) := by
      rw [segments, List.splitOn_eq_singleton hid, List.map_singleton]
    rw [hsplit] at hne ⊢
    exact List.filter_eq_self.mpr fun part hpart => by
      obtain ⟨other, hother⟩ := List.exists_mem_of_ne_nil _ hne
      obtain ⟨hmem, hkeep⟩ := List.mem_filter.mp hother
      rw [List.mem_singleton.mp hpart, ← List.mem_singleton.mp hmem]
      exact hkeep
  rw [hsegments, joined, List.intercalate_singleton]
  exact fun hslash => hid ((infix_of_trim id).subset hslash)

/-- No key is under the prefixes of two meetings, even where one id begins with the other. -/
theorem not_under_other {config : S3CompatibleConfig} {id id' target target' key : Text} (hid : '/' ∉ id)
    (hid' : '/' ∉ id') (h : scopeObjectKey config id = some target) (h' : scopeObjectKey config id' = some target')
    (hne : target ≠ target') (hkey : Under target' key) : ¬ Under target key := by
  obtain ⟨n, hn, hscoped⟩ := Option.bind_eq_some_iff.mp h
  obtain ⟨n', hn', hscoped'⟩ := Option.bind_eq_some_iff.mp h'
  have hslash := slash_not_mem_normalize hid hn
  have hslash' := slash_not_mem_normalize hid' hn'
  obtain ⟨base, rfl, rfl⟩ : ∃ base, base ++ n = target ∧ base ++ n' = target' := by
    by_cases hbase : config.keyPrefix = []
    · exact ⟨[], by simpa [hbase] using hscoped, by simpa [hbase] using hscoped'⟩
    · refine ⟨config.keyPrefix ++ ['/'], ?_, ?_⟩
      · simpa [hbase] using hscoped
      · simpa [hbase] using hscoped'
  have hends : ∀ {m m' : Text}, '/' ∉ m' → m ++ ['/'] <+: m' ++ ['/'] → m = m' := by
    intro m m' hm' hstart
    obtain ⟨rest, hrest⟩ := hstart
    rcases List.eq_nil_or_concat rest with rfl | ⟨front, last, rfl⟩
    · simpa using hrest
    · have hlast : m ++ ['/'] ++ front = m' := by
        rw [List.concat_eq_append, ← List.append_assoc] at hrest
        exact (List.append_inj' hrest rfl).1
      exact absurd (by rw [← hlast]; simp) hm'
  intro hunder
  simp only [Under, List.append_assoc] at hkey hunder
  rcases List.prefix_or_prefix_of_prefix hunder hkey with hstart | hstart
  · exact hne (congrArg (base ++ ·) (hends hslash' ((List.prefix_append_right_inj base).mp hstart)))
  · exact hne (congrArg (base ++ ·) (hends hslash ((List.prefix_append_right_inj base).mp hstart)).symm)

end OwnMinutes.ObjectStore.Keys
