import OwnMinutes.Speakers.Names

/-! # Renaming as a substitution

`renamed` is the result in which every label and every mention of a label has its new name, all at once. The labels
become that unless one is the name of an inherited property, the texts where each label is found at its own mentions
only (`AtOwnMentions`). With a map that can be undone, the inverse map then gives the result back
(`speakers_renamed_once`). -/

namespace OwnMinutes.Speakers.Renaming

open OwnMinutes.Auth.Records OwnMinutes.Lib.JsText OwnMinutes.Lib.Mentions OwnMinutes.Speakers.Names

variable {names : SpeakerNames} {result : MeetingResult Text} {input : List (Text × Text)}
  {buildMeetingMarkdown : MarkdownInput SpeakerName → Text} {manifest : AudioManifest} {userId : UserId}

/-! ### The map as a function -/

/-- The normalised map of a request for a result. -/
def namesFor (result : MeetingResult Text) (input : List (Text × Text)) : SpeakerNames :=
  normalizeSpeakerNames input (knownSpeakers result)

/-- The new name of a label: its own where it has none. -/
def newName (names : SpeakerNames) (label : Text) : Text := (names.get label).getD label

/-- The simultaneous substitution. -/
def renamed (result : MeetingResult Text) (names : SpeakerNames) : MeetingResult Text :=
  result.mapSpeakers (newName names) fun text => render (newName names) (tokens result.labels text)

theorem get_eq_some {key value : Text} : names.get key = some value ↔ (key, value) ∈ names.assigned := by
  unfold SpeakerNames.get
  constructor
  · intro h
    simp only [Option.map_eq_some_iff] at h
    obtain ⟨⟨key', value'⟩, hfind, rfl⟩ := h
    have hkey : key' = key := by simpa using List.find?_some hfind
    subst hkey
    exact List.mem_of_find?_eq_some hfind
  · intro h
    rcases hfind : names.assigned.find? fun entry => entry.1 = key with _ | ⟨key', value'⟩
    · rw [List.find?_eq_none] at hfind
      have habsent := hfind _ h
      simp at habsent
    · have hmem := List.mem_of_find?_eq_some hfind
      have hkey : key' = key := by simpa using List.find?_some hfind
      subst hkey
      have heq := List.inj_on_of_nodup_map names.nodup hmem h rfl
      simp only [Prod.mk.injEq, true_and] at heq
      rw [hfind, heq]
      rfl

theorem get_eq_none {key : Text} : names.get key = none ↔ ∀ entry ∈ names.assigned, entry.1 ≠ key := by
  unfold SpeakerNames.get
  simp

theorem sortedEntries_perm (names : SpeakerNames) : (sortedEntries names).Perm names.assigned := by
  have hsplit : (objectEntries names).Perm names.assigned :=
    ((List.perm_insertionSort _ _).append_right _).trans (List.filter_append_perm _ _)
  exact (List.perm_insertionSort _ _).trans hsplit

/-- The names that the entries give, one after the other, are those of the map. -/
theorem namesOf_sortedEntries (names : SpeakerNames) : namesOf (sortedEntries names) (fun label => label) = newName names := by
  have hperm := sortedEntries_perm names
  have hnodup : ((sortedEntries names).map Prod.fst).Nodup := (hperm.map Prod.fst).nodup_iff.mpr names.nodup
  funext label
  unfold newName
  rcases hget : names.get label with _ | name
  · refine namesOf_of_not_mem fun entry hentry => ?_
    exact get_eq_none.mp hget entry (hperm.mem_iff.mp hentry)
  · exact namesOf_of_mem hnodup (hperm.mem_iff.mpr (get_eq_some.mp hget))

/-! ### Normalised maps -/

/-- An entry that the normalisation keeps. -/
structure Kept (known : List Text) (entry : Text × Text) : Prop where
  known : entry.1 ∈ known
  label : entry.1 ≠ []
  name : entry.2 ≠ []
  system : entry.1 ≠ systemSpeaker
  changes : entry.1 ≠ entry.2

theorem mem_assign {key value : Text} {entry : Text × Text} (h : entry ∈ (names.assign key value).assigned) :
    entry = (key, value) ∨ entry ∈ names.assigned := by
  unfold SpeakerNames.assign at h
  split_ifs at h with hproto hkey
  · exact .inr h
  · obtain ⟨old, hold, rfl⟩ := List.mem_map.mp h
    by_cases hkey : old.1 = key
    · simp [hkey]
    · simp [hkey, hold]
  · rcases List.mem_append.mp h with h | h
    · exact .inr h
    · exact .inl (List.mem_singleton.mp h)

theorem kept_normalized {known : List Text} {entry : Text × Text}
    (h : entry ∈ (normalizeSpeakerNames input known).assigned) : Kept known entry := by
  have hfold : ∀ (rest : List (Text × Text)) (output : SpeakerNames), (∀ e ∈ output.assigned, Kept known e) →
      ∀ e ∈ (rest.foldl (fun output entry =>
        let speaker := normalizeSpeakerLabelInput entry.1
        let name := normalizeSpeakerLabelInput entry.2
        if speaker = [] || name = [] || speaker = systemSpeaker || speaker ∉ known then output
        else if speaker = name then output
        else output.assign speaker name) output).assigned, Kept known e := by
    intro rest
    induction rest with
    | nil => intro output hkept; exact hkept
    | cons first rest ih =>
      intro output hkept
      rw [List.foldl_cons]
      refine ih _ ?_
      dsimp only
      split_ifs with hskip hsame
      · exact hkept
      · exact hkept
      · intro e he
        simp only [Bool.or_eq_true, decide_eq_true_eq, not_or, not_not] at hskip
        rcases mem_assign he with rfl | he
        · exact ⟨hskip.2, hskip.1.1.1, hskip.1.1.2, hskip.1.2, hsame⟩
        · exact hkept e he
  exact hfold input .empty (by simp [SpeakerNames.empty]) entry h

theorem sortedEntries_ne_nil (hentry : ∀ entry ∈ names.assigned, entry.1 ≠ []) :
    ∀ entry ∈ sortedEntries names, entry.1 ≠ [] :=
  fun entry h => hentry entry ((sortedEntries_perm names).mem_iff.mp h)

/-! ### Results -/

theorem mapSpeakers_congr {L M : Type} {result : MeetingResult L} {f f' : L → M} {g g' : Text → Text}
    (hf : ∀ label ∈ result.labels, f label = f' label) (hg : ∀ text ∈ result.texts, g text = g' text) :
    result.mapSpeakers f g = result.mapSpeakers f' g' := by
  simp only [MeetingResult.labels, List.mem_append, List.mem_map] at hf
  simp only [MeetingResult.texts, List.mem_append, List.mem_map, List.mem_flatMap, List.mem_cons,
    List.not_mem_nil, or_false] at hg
  unfold MeetingResult.mapSpeakers
  congr 1
  · refine List.map_congr_left fun segment hsegment => ?_
    rw [hf _ (by grind), hg _ (by grind)]
  · congr 1
    · exact hg _ (by grind)
    · exact List.map_congr_left fun text htext => hg _ (by grind)
    · refine List.map_congr_left fun item hitem => ?_
      rw [hf _ (by grind), hg _ (by grind)]
    · refine List.map_congr_left fun item hitem => ?_
      rw [hg item.title (by grind), hg item.detail (by grind)]
    · refine List.map_congr_left fun item hitem => ?_
      rw [hf _ (by grind), hg item.task (by grind), hg item.due (by grind)]
    · exact List.map_congr_left fun text htext => hg _ (by grind)
    · exact List.map_congr_left fun text htext => hg _ (by grind)
    · exact List.map_congr_left fun text htext => hg _ (by grind)

theorem mapSpeakers_mapSpeakers {L M N : Type} (result : MeetingResult L) (f : L → M) (f' : M → N) (g g' : Text → Text) :
    (result.mapSpeakers f g).mapSpeakers f' g' = result.mapSpeakers (fun label => f' (f label)) fun text => g' (g text) := by
  simp [MeetingResult.mapSpeakers, Function.comp_def]

theorem mapSpeakers_id (result : MeetingResult Text) : (result.mapSpeakers (fun label => label) fun text => text) = result := by
  simp [MeetingResult.mapSpeakers]

theorem labels_mapSpeakers {L M : Type} (result : MeetingResult L) (f : L → M) (g : Text → Text) :
    (result.mapSpeakers f g).labels = result.labels.map f := by
  simp [MeetingResult.labels, MeetingResult.mapSpeakers, Function.comp_def]

/-! ### One replacement after the other -/

/-- No label without a new name is the name of an inherited property, and in each text each label with a new name is
found at its own mentions only, when its turn comes. -/
structure AtOwnMentions (result : MeetingResult Text) (names : SpeakerNames) : Prop where
  own : names.assigned ≠ [] → ∀ label ∈ result.labels, names.get label = none → label ∉ objectPrototype
  mentions : ∀ text ∈ result.texts, AtMentions (tokens result.labels text) (fun label => label) (sortedEntries names)

theorem newName_of_empty (h : names.assigned = []) (label : Text) : newName names label = label := by
  have hnone : names.get label = none := get_eq_none.mpr (by simp [h])
  simp [newName, hnone]

theorem renamed_of_empty (h : names.assigned = []) : renamed result names = result := by
  have hsame : renamed result names = result.mapSpeakers (fun label => label) fun text => text := by
    refine mapSpeakers_congr (fun label _ => newName_of_empty h label) fun text _ => ?_
    rw [render_congr fun label _ => newName_of_empty h label, render_tokens]
  rw [hsame, mapSpeakers_id]

theorem applySpeakerNames_eq (hnames : ∀ entry ∈ names.assigned, entry.1 ≠ [] ∧ entry.2 ≠ [])
    (h : AtOwnMentions result names) :
    applySpeakerNames result names = (renamed result names).mapSpeakers .text fun text => text := by
  unfold applySpeakerNames
  split_ifs with hempty
  · rw [renamed_of_empty hempty]
  · unfold renamed
    rw [mapSpeakers_mapSpeakers]
    refine mapSpeakers_congr (fun label hlabel => ?_) fun text htext => ?_
    · unfold SpeakerNames.label newName
      rcases hget : names.get label with _ | name
      · simp [h.own hempty label hlabel hget]
      · have hname := (hnames _ (get_eq_some.mp hget)).2
        simp only at hname
        simp [hname]
    · unfold replaceSpeakerLabels
      rw [replaceEach_eq (sortedEntries_ne_nil fun entry hentry => (hnames entry hentry).1) (h.mentions text htext),
        namesOf_sortedEntries]

/-- The user may change the result. -/
structure Accessible (manifest : AudioManifest) (userId : UserId) : Prop where
  chunks : manifest.chunks ≠ 0
  owner : manifest.ownerUserId = some userId
  userId : userId ≠ ""

theorem updateMeetingSpeakers_eq (haccess : Accessible manifest userId) :
    updateMeetingSpeakers buildMeetingMarkdown manifest userId (some result) input =
      .ok ((applySpeakerNames result (namesFor result input)).withMarkdown buildMeetingMarkdown) := by
  unfold updateMeetingSpeakers
  rw [if_neg haccess.chunks, if_neg (by simp [haccess.owner, haccess.userId])]
  rfl

/-! ### The inverse map -/

/-- The map can be undone: no two labels get one name, none gets the label of a speaker who keeps it, and in the
renamed texts the labels are where the renamed mentions are. -/
structure Undoable (result : MeetingResult Text) (names : SpeakerNames) : Prop where
  injective : (names.assigned.map Prod.snd).Nodup
  fresh : ∀ label ∈ result.labels, label ∈ names.assigned.map Prod.snd → label ∈ names.assigned.map Prod.fst
  untouched : ∀ text ∈ result.texts,
    tokens (renamed result names).labels (render (newName names) (tokens result.labels text)) =
      (tokens result.labels text).map (Token.rename (newName names))

/-- The labels and the new names stay as they are when they are normalised once more. -/
def Normal (names : SpeakerNames) : Prop :=
  ∀ entry ∈ names.assigned, normalizeSpeakerLabelInput entry.1 = entry.1 ∧
    normalizeSpeakerLabelInput entry.2 = entry.2 ∧ entry.2 ≠ systemSpeaker ∧ entry.2 ≠ "__proto__".toList

/-- The request that undoes another one. -/
def inverseInput (names : SpeakerNames) : List (Text × Text) := names.assigned.map Prod.swap

theorem assigned_of_new {key value : Text} (hproto : key ≠ "__proto__".toList)
    (hnew : key ∉ names.assigned.map Prod.fst) : (names.assign key value).assigned = names.assigned ++ [(key, value)] := by
  unfold SpeakerNames.assign
  rw [if_neg hproto, dif_neg hnew]

/-- Entries with keys of their own that pass every check are kept as they are. -/
theorem assigned_normalized {known : List Text} (hnodup : (input.map Prod.fst).Nodup)
    (hinput : ∀ entry ∈ input, Kept known entry ∧ normalizeSpeakerLabelInput entry.1 = entry.1 ∧
      normalizeSpeakerLabelInput entry.2 = entry.2 ∧ entry.1 ≠ "__proto__".toList) :
    (normalizeSpeakerNames input known).assigned = input := by
  have hfold : ∀ (rest : List (Text × Text)) (output : SpeakerNames), input = output.assigned ++ rest →
      (rest.foldl (fun output entry =>
        let speaker := normalizeSpeakerLabelInput entry.1
        let name := normalizeSpeakerLabelInput entry.2
        if speaker = [] || name = [] || speaker = systemSpeaker || speaker ∉ known then output
        else if speaker = name then output
        else output.assign speaker name) output).assigned = input := by
    intro rest
    induction rest with
    | nil => intro output houtput; simpa using houtput.symm
    | cons first rest ih =>
      intro output houtput
      rw [List.foldl_cons]
      obtain ⟨hkept, hlabel, hname, hproto⟩ := hinput first (by rw [houtput]; simp)
      have hnew : first.1 ∉ output.assigned.map Prod.fst := by
        rw [houtput, List.map_append, List.map_cons, List.nodup_append] at hnodup
        intro hmem
        exact hnodup.2.2 _ hmem _ List.mem_cons_self rfl
      simp only [hlabel, hname]
      rw [if_neg (by simp [hkept.label, hkept.name, hkept.system, hkept.known]), if_neg hkept.changes]
      refine ih _ ?_
      rw [assigned_of_new hproto hnew, houtput]
      simp
  exact hfold input .empty rfl

theorem mem_labels_renamed {label : Text} (h : label ∈ result.labels) :
    newName names label ∈ (renamed result names).labels := by
  unfold renamed
  rw [labels_mapSpeakers]
  exact List.mem_map_of_mem h

theorem newName_of_mem {label name : Text} (h : (label, name) ∈ names.assigned) : newName names label = name := by
  simp [newName, get_eq_some.mpr h]

theorem assigned_inverse (hnames : ∀ entry ∈ names.assigned, Kept (knownSpeakers result) entry) (hnormal : Normal names)
    (hinjective : (names.assigned.map Prod.snd).Nodup) :
    (namesFor (renamed result names) (inverseInput names)).assigned = inverseInput names := by
  refine assigned_normalized ?_ ?_
  · simpa [inverseInput, Function.comp_def] using hinjective
  · intro entry hentry
    obtain ⟨⟨label, name⟩, hmem, rfl⟩ := List.mem_map.mp hentry
    have hkept := hnames _ hmem
    obtain ⟨hlabel, hname, hsystem, hproto⟩ := hnormal _ hmem
    simp only [Prod.swap_prod_mk]
    have hknown := (List.mem_filter.mp hkept.known).1
    refine ⟨⟨?_, hkept.name, hkept.label, hsystem, hkept.changes.symm⟩, hname, hlabel, hproto⟩
    have hrenamed : newName names label ∈ (renamed result names).labels := mem_labels_renamed hknown
    rw [newName_of_mem hmem] at hrenamed
    exact List.mem_filter.mpr ⟨hrenamed, by simpa using ⟨hkept.name, hsystem⟩⟩

/-- Renamed twice, there and back, a result is as it was. -/
theorem renamed_renamed {back : SpeakerNames} (hback : back.assigned = inverseInput names)
    (hundo : Undoable result names) : renamed (renamed result names) back = result := by
  have hlabels : ∀ label ∈ result.labels, newName back (newName names label) = label := by
    intro label hlabel
    rcases hget : names.get label with _ | name
    · have hsame : newName names label = label := by simp [newName, hget]
      rw [hsame]
      have hnone : back.get label = none := by
        refine get_eq_none.mpr ?_
        rintro entry hentry rfl
        rw [hback] at hentry
        obtain ⟨⟨other, name⟩, hmem, rfl⟩ := List.mem_map.mp hentry
        obtain ⟨⟨key, value⟩, hkey, heq⟩ := List.mem_map.mp (hundo.fresh _ hlabel (List.mem_map.mpr ⟨_, hmem, rfl⟩))
        exact get_eq_none.mp hget _ hkey heq
      simp [newName, hnone]
    · have hmem := get_eq_some.mp hget
      rw [newName_of_mem hmem]
      refine newName_of_mem ?_
      rw [hback]
      exact List.mem_map.mpr ⟨_, hmem, rfl⟩
  have hsame : renamed (renamed result names) back = result.mapSpeakers (fun label => label) fun text => text := by
    rw [renamed]
    conv_lhs => rw [renamed]
    rw [mapSpeakers_mapSpeakers]
    refine mapSpeakers_congr hlabels fun text htext => ?_
    have huntouched := hundo.untouched text htext
    rw [renamed] at huntouched
    rw [huntouched, render_rename, render_congr fun label hlabel => hlabels label (label_of_mention hlabel), render_tokens]
  rw [hsame, mapSpeakers_id]

/-! ### The operation -/

/-- What the operation answers when every label and every mention has got its new name. -/
def answer (buildMeetingMarkdown : MarkdownInput SpeakerName → Text) (result : MeetingResult Text) :
    Except SpeakersError (MeetingResult SpeakerName) :=
  .ok ((result.mapSpeakers .text fun text => text).withMarkdown buildMeetingMarkdown)

theorem update_of_atOwnMentions (haccess : Accessible manifest userId)
    (h : AtOwnMentions result (namesFor result input)) :
    updateMeetingSpeakers buildMeetingMarkdown manifest userId (some result) input =
      answer buildMeetingMarkdown (renamed result (namesFor result input)) := by
  have hnames : ∀ entry ∈ (namesFor result input).assigned, entry.1 ≠ [] ∧ entry.2 ≠ [] := by
    intro entry hentry
    have hkept := kept_normalized hentry
    exact ⟨hkept.label, hkept.name⟩
  rw [updateMeetingSpeakers_eq haccess, applySpeakerNames_eq hnames h, answer]

/-- Every label and every mention gets its new name, all at once; undone, the result is as it was, with the Markdown of
its labels and texts. -/
theorem speakers_renamed_once (buildMeetingMarkdown : MarkdownInput SpeakerName → Text)
    (haccess : Accessible manifest userId) (h : AtOwnMentions result (namesFor result input)) :
    updateMeetingSpeakers buildMeetingMarkdown manifest userId (some result) input =
        answer buildMeetingMarkdown (renamed result (namesFor result input)) ∧
      ∀ stored : MeetingResult Text, (∃ markdown, stored =
          { renamed result (namesFor result input) with obsidianMarkdown := markdown }) →
        Undoable result (namesFor result input) → Normal (namesFor result input) →
        AtOwnMentions stored (namesFor stored (inverseInput (namesFor result input))) →
        updateMeetingSpeakers buildMeetingMarkdown manifest userId (some stored)
          (inverseInput (namesFor result input)) = answer buildMeetingMarkdown result := by
  refine ⟨update_of_atOwnMentions haccess h, ?_⟩
  rintro stored ⟨markdown, rfl⟩ hundo hnormal hback
  rw [update_of_atOwnMentions haccess hback]
  have hassigned : (namesFor (renamed result (namesFor result input)) (inverseInput (namesFor result input))).assigned =
      inverseInput (namesFor result input) :=
    assigned_inverse (fun entry hentry => kept_normalized hentry) hnormal hundo.injective
  have hsame := renamed_renamed hassigned hundo
  change answer buildMeetingMarkdown (renamed (renamed result (namesFor result input))
    (namesFor (renamed result (namesFor result input)) (inverseInput (namesFor result input)))) = _
  rw [hsame]

/-! ### Runs -/

def sampleSummary : MeetingSummary Text := ⟨[], [], [], [], [], [], [], []⟩

/-- A transcript of two speakers. -/
def sampleResult (first second : String) (text : String) : MeetingResult Text :=
  ⟨"m".toList, [], [⟨"1".toList, first.toList, [], text.toList⟩, ⟨"2".toList, second.toList, [], []⟩], sampleSummary, [],
    none⟩

def sampleManifest : AudioManifest := ⟨1, some "u"⟩

/-- Two new names, and the two of the transcript the other way round. -/
def newNames : List (Text × Text) := [("A".toList, "Ann".toList), ("B".toList, "Bob".toList)]

def swappedNames : List (Text × Text) := [("A".toList, "B".toList), ("B".toList, "A".toList)]

theorem speakers_renamed_once_sample :
    updateMeetingSpeakers (fun _ => []) sampleManifest "u" (some (sampleResult "A" "B" "A, B")) newNames =
      answer (fun _ => []) (sampleResult "Ann" "Bob" "Ann, Bob") ∧
    updateMeetingSpeakers (fun _ => []) sampleManifest "u" (some (sampleResult "Ann" "Bob" "Ann, Bob"))
      (inverseInput (namesFor (sampleResult "A" "B" "A, B") newNames)) =
      answer (fun _ => []) (sampleResult "A" "B" "A, B") := by
  have hown : AtOwnMentions (sampleResult "A" "B" "A, B") (namesFor (sampleResult "A" "B" "A, B") newNames) :=
    ⟨by decide, by decide⟩
  have hrenamed : renamed (sampleResult "A" "B" "A, B") (namesFor (sampleResult "A" "B" "A, B") newNames) =
      sampleResult "Ann" "Bob" "Ann, Bob" := by decide
  have hundo : Undoable (sampleResult "A" "B" "A, B") (namesFor (sampleResult "A" "B" "A, B") newNames) :=
    ⟨by decide, by decide, by decide⟩
  have hnormal : Normal (namesFor (sampleResult "A" "B" "A, B") newNames) := by
    unfold Normal
    decide
  have hback : AtOwnMentions (sampleResult "Ann" "Bob" "Ann, Bob")
      (namesFor (sampleResult "Ann" "Bob" "Ann, Bob") (inverseInput (namesFor (sampleResult "A" "B" "A, B") newNames))) :=
    ⟨by decide, by decide⟩
  obtain ⟨hthere, hagain⟩ := speakers_renamed_once (fun _ => [])
    (⟨by decide, rfl, by decide⟩ : Accessible sampleManifest "u") hown
  rw [hrenamed] at hthere hagain
  exact ⟨hthere, hagain _ ⟨[], rfl⟩ hundo hnormal hback⟩

/-- Two speakers that swap their names, a label inside a longer one, a chain of names, and a speaker whose name every
object has. -/
theorem speakers_renamed_wrongly :
    List.Forall (fun sample => updateMeetingSpeakers (fun _ => []) sampleManifest "u" (some sample.1) sample.2 ≠
        answer (fun _ => []) (renamed sample.1 (namesFor sample.1 sample.2)))
      [(sampleResult "A" "B" "A, B", swappedNames),
        (sampleResult "Speaker 1" "Speaker 10" "Speaker 10", [("Speaker 1".toList, "Ann".toList)]),
        (sampleResult "A" "B" "A, B", [("A".toList, "B".toList), ("B".toList, "C".toList)]),
        (sampleResult "A" "constructor" "A", [("A".toList, "Ann".toList)])] := by
  decide

end OwnMinutes.Speakers.Renaming
