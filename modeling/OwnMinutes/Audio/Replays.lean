import OwnMinutes.Audio.Changes

/-! # Replaying runs of the audio calls

Runs on a few meetings and parts, step by step: what a request brings along is checked against these only. -/

namespace OwnMinutes.Audio.Replays

open OwnMinutes.Auth.ProcessingRoute OwnMinutes.Auth.Records OwnMinutes.Lib.Runs
open OwnMinutes.Audio.Records OwnMinutes.Audio.Store OwnMinutes.Audio.Runs OwnMinutes.Audio.Sections
open OwnMinutes.Audio.Changes

/-! ### Worlds with a few meetings -/

/-- Only the meetings `meetingIds` have objects, and no upload a part from `parts` on. -/
structure Within (meetingIds : List MeetingId) (parts : ℕ) (s : AudioWorld) : Prop where
  others : ∀ meetingId ∉ meetingIds, s.meetings meetingId = {}
  parts : ∀ meetingId uploadId index, parts ≤ index →
    (s.meetings meetingId).uploadParts uploadId index = none

theorem within_empty (meetingIds : List MeetingId) (parts : ℕ) : Within meetingIds parts {} :=
  ⟨fun _ _ => rfl, fun _ _ _ _ => rfl⟩

/-- The world with the objects of one meeting. -/
def oneMeeting (o : MeetingObjects) : AudioWorld where
  meetings := Function.update (fun _ => {}) "meeting" o

theorem oneMeeting_self (o : MeetingObjects) : (oneMeeting o).meetings "meeting" = o := by
  simp only [oneMeeting, Function.update_self]

theorem within_oneMeeting {o : MeetingObjects} {parts : ℕ}
    (h : ∀ uploadId index, parts ≤ index → o.uploadParts uploadId index = none) :
    Within ["meeting"] parts (oneMeeting o) := by
  have hother : ∀ meetingId ≠ "meeting", (oneMeeting o).meetings meetingId = {} := by
    intro meetingId hne
    simp only [oneMeeting, Function.update_of_ne hne]
  refine ⟨fun meetingId hid => hother meetingId ?_, fun meetingId uploadId index hindex => ?_⟩
  · rwa [List.mem_singleton] at hid
  · by_cases hid : meetingId = "meeting"
    · rw [hid, oneMeeting_self]
      exact h uploadId index hindex
    · rw [hother meetingId hid]

instance (H : Hashing) (input : PartInput) : Decidable (PartInput.Accepted H input) :=
  decidable_of_iff
    (0 < input.metadata.totalBytes ∧ input.metadata.totalBytes ≤ MAX_SAFE_INTEGER ∧
      input.metadata.totalParts =
        (input.metadata.totalBytes + recordingUploadPartBytes - 1) / recordingUploadPartBytes ∧
      input.partIndex < input.metadata.totalParts ∧
      input.buffer.length = expectedRecordingPartBytes input.metadata input.partIndex ∧
      input.sha256 = H.sha256 input.buffer)
    ⟨fun ⟨a, b, c, d, e, f⟩ => ⟨a, b, c, d, e, f⟩, fun ⟨a, b, c, d, e, f⟩ => ⟨a, b, c, d, e, f⟩⟩

section Play

variable (H : Hashing) (policy : RecordingUploadResourcePolicy)
  (ok : AudioWorld → AudioEvent × Option Answer → AudioWorld → Prop) [∀ s e t, Decidable (ok s e t)]
  (meetingIds : List MeetingId) (parts : ℕ)

/-- `Admissible`, as far as `Within` leaves it open. -/
def AdmissibleHere (s : AudioWorld) : AudioEvent → Prop
  | .saveChunk input _ => 0 < input.sequence
  | .beginPart _ input discovered => PartInput.Accepted H input ∧
    ∀ meetingId ∈ meetingIds, (leaseOf s input.ownerUserId meetingId).isSome → meetingId ∈ discovered
  | .list callId listed =>
    match (s.calls callId).deletion? with
    | none => True
    | some deletion =>
      (((s.meetings deletion.meetingId).uploadManifests deletion.uploadId).isSome →
        .manifest ∈ listed) ∧
      ∀ index < parts, ((s.meetings deletion.meetingId).uploadParts deletion.uploadId index).isSome →
        .part index ∈ listed
  | .putPart callId =>
    match s.calls callId with
    | .storingPart input _ => input.partIndex < parts
    | _ => False
  | _ => True

instance (s : AudioWorld) (e : AudioEvent) : Decidable (AdmissibleHere H meetingIds parts s e) := by
  cases e <;> unfold AdmissibleHere <;> try infer_instance
  · dsimp only
    split <;> infer_instance
  · dsimp only
    split <;> infer_instance

/-- The step of an event; `none` where it is none, or not `ok`. -/
def play (s : AudioWorld) (e : AudioEvent) : Option ((AudioEvent × Option Answer) × AudioWorld) :=
  if AdmissibleHere H meetingIds parts s e ∧ (touched s e).all (meetingIds.contains ·) = true then
    (step H policy s e).bind fun (t, answer) =>
      if ok s (e, answer) t then some ((e, answer), t) else none
  else none

def playAll (s : AudioWorld) :
    List AudioEvent → Option (List (AudioEvent × Option Answer) × AudioWorld)
  | [] => some ([], s)
  | e :: es =>
    (play H policy ok meetingIds parts s e).bind fun (label, t) =>
      (playAll t es).map fun (labels, u) => (label :: labels, u)

end Play

variable {H : Hashing} {policy : RecordingUploadResourcePolicy}
  {ok : AudioWorld → AudioEvent × Option Answer → AudioWorld → Prop} [∀ s e t, Decidable (ok s e t)]
  {meetingIds : List MeetingId} {parts : ℕ}

theorem admissible_of_here {s : AudioWorld} {e : AudioEvent} (hs : Within meetingIds parts s)
    (h : AdmissibleHere H meetingIds parts s e) : Admissible H s e := by
  cases e with
  | saveChunk input stop => exact h
  | beginPart callId input discovered =>
    refine ⟨h.1, fun meetingId hlease => ?_⟩
    by_cases hid : meetingId ∈ meetingIds
    · exact h.2 meetingId hid hlease
    · unfold leaseOf at hlease
      rw [hs.others meetingId hid] at hlease
      cases hlease
  | list callId listed =>
    intro deletion hdeletion
    simp only [AdmissibleHere, hdeletion] at h
    refine ⟨h.1, fun index hindex => ?_⟩
    by_cases hlt : index < parts
    · exact h.2 index hlt hindex
    · rw [hs.parts _ _ index (not_lt.mp hlt)] at hindex
      cases hindex
  | _ => trivial

theorem parts_change {s : AudioWorld} {e : AudioEvent} {meetingId : MeetingId} {o : MeetingObjects}
    (h : ObjectsChange H e s meetingId o) (hs : Within meetingIds parts s)
    (hhere : AdmissibleHere H meetingIds parts s e) (uploadId : UploadId) (index : ℕ)
    (hindex : parts ≤ index) : o.uploadParts uploadId index = none := by
  have hnone := hs.parts meetingId uploadId index hindex
  cases h with
  | written h => rw [h.staged.2.1, hnone]
  | partManifest | recording | receipt => exact hnone
  | removed => rfl
  | @part callId input manifest hevent hphase =>
    subst hevent
    simp only [AdmissibleHere, hphase] at hhere
    rw [MeetingObjects.putUploadPart_uploadParts, if_neg, hnone]
    rintro ⟨-, rfl⟩
    omega
  | unstaged =>
    rw [removeStaged_uploadParts, hnone, ite_self]

theorem step_of_play {s t : AudioWorld} {e : AudioEvent} {label : AudioEvent × Option Answer}
    (h : play H policy ok meetingIds parts s e = some (label, t)) (hs : Within meetingIds parts s) :
    (AudioStep H policy s label t ∧ ok s label t) ∧ Within meetingIds parts t := by
  unfold play at h
  split_ifs at h with hc
  obtain ⟨⟨u, answer⟩, hstep, h⟩ := Option.bind_eq_some_iff.mp h
  dsimp only at h
  split_ifs at h with hok
  cases h
  have haudio : AudioStep H policy s (e, answer) t := ⟨admissible_of_here hs hc.1, hstep⟩
  refine ⟨⟨haudio, hok⟩, fun meetingId hid => ?_, fun meetingId uploadId index hindex => ?_⟩
  · rw [(step_objects haudio).others, hs.others meetingId hid]
    intro htouched
    have hmem := hc.2
    dsimp only at htouched
    rw [htouched, Option.all_some, List.contains_iff_mem] at hmem
    exact hid hmem
  · exact parts_change (step_meeting haudio meetingId) hs hc.1 uploadId index hindex

/-- **A replay is a run.** -/
theorem run_of_playAll {es : List AudioEvent} : ∀ {s t : AudioWorld}
    {labels : List (AudioEvent × Option Answer)},
    playAll H policy ok meetingIds parts s es = some (labels, t) → Within meetingIds parts s →
      Run (fun s e t => AudioStep H policy s e t ∧ ok s e t) s labels t := by
  induction es with
  | nil =>
    intro s t labels h _
    cases h
    exact Run.nil s
  | cons e es ih =>
    intro s t labels h hs
    obtain ⟨⟨label, u⟩, hplay, h⟩ := Option.bind_eq_some_iff.mp h
    obtain ⟨⟨labels', v⟩, hrest, heq⟩ := Option.map_eq_some_iff.mp h
    cases heq
    obtain ⟨hstep, hu⟩ := step_of_play hplay hs
    exact Run.cons hstep (ih hrest hu)

theorem within_of_playAll {es : List AudioEvent} : ∀ {s t : AudioWorld}
    {labels : List (AudioEvent × Option Answer)},
    playAll H policy ok meetingIds parts s es = some (labels, t) → Within meetingIds parts s →
      Within meetingIds parts t := by
  induction es with
  | nil =>
    intro s t labels h hs
    cases h
    exact hs
  | cons e es ih =>
    intro s t labels h hs
    obtain ⟨⟨label, u⟩, hplay, h⟩ := Option.bind_eq_some_iff.mp h
    obtain ⟨⟨labels', v⟩, hrest, heq⟩ := Option.map_eq_some_iff.mp h
    cases heq
    exact ih hrest (step_of_play hplay hs).2

theorem events_of_playAll {es : List AudioEvent} : ∀ {s t : AudioWorld}
    {labels : List (AudioEvent × Option Answer)},
    playAll H policy ok meetingIds parts s es = some (labels, t) → labels.map Prod.fst = es := by
  induction es with
  | nil =>
    intro s t labels h
    cases h
    rfl
  | cons e es ih =>
    intro s t labels h
    obtain ⟨⟨label, u⟩, hplay, h⟩ := Option.bind_eq_some_iff.mp h
    obtain ⟨⟨labels', v⟩, hrest, heq⟩ := Option.map_eq_some_iff.mp h
    cases heq
    unfold play at hplay
    split_ifs at hplay
    obtain ⟨⟨w, answer⟩, -, hlabel⟩ := Option.bind_eq_some_iff.mp hplay
    dsimp only at hlabel
    split_ifs at hlabel
    cases hlabel
    rw [List.map_cons, ih hrest]

/-- A replay that succeeds is a run with what is found at its end. -/
theorem exists_run (H : Hashing) (policy : RecordingUploadResourcePolicy)
    (ok : AudioWorld → AudioEvent × Option Answer → AudioWorld → Prop) [∀ s e t, Decidable (ok s e t)]
    (meetingIds : List MeetingId) (parts : ℕ) (s : AudioWorld) (es : List AudioEvent)
    (P : List (AudioEvent × Option Answer) → AudioWorld → Bool) (hs : Within meetingIds parts s)
    (h : ((playAll H policy ok meetingIds parts s es).map fun r => P r.1 r.2) = some true) :
    ∃ labels t, labels.map Prod.fst = es ∧
      Run (fun s e t => AudioStep H policy s e t ∧ ok s e t) s labels t ∧ P labels t = true := by
  obtain ⟨⟨labels, t⟩, hplay, hP⟩ := Option.map_eq_some_iff.mp h
  exact ⟨labels, t, events_of_playAll hplay, run_of_playAll hplay hs, hP⟩

/-- Two replays, one after the other. -/
theorem exists_runs (H : Hashing) (policy : RecordingUploadResourcePolicy)
    (ok : AudioWorld → AudioEvent × Option Answer → AudioWorld → Prop) [∀ s e t, Decidable (ok s e t)]
    (meetingIds : List MeetingId) (parts : ℕ) (s : AudioWorld) (es es' : List AudioEvent)
    (P : AudioWorld → List (AudioEvent × Option Answer) → AudioWorld → Bool)
    (hs : Within meetingIds parts s)
    (h : ((playAll H policy ok meetingIds parts s es).bind fun r =>
      (playAll H policy ok meetingIds parts r.2 es').map fun r' => P r.2 r'.1 r'.2) = some true) :
    ∃ labels a labels' t, labels.map Prod.fst = es ∧ labels'.map Prod.fst = es' ∧
      Run (fun s e t => AudioStep H policy s e t ∧ ok s e t) s labels a ∧
      Run (fun s e t => AudioStep H policy s e t ∧ ok s e t) a labels' t ∧ P a labels' t = true := by
  obtain ⟨⟨labels, a⟩, hplay, h⟩ := Option.bind_eq_some_iff.mp h
  obtain ⟨⟨labels', t⟩, hplay', hP⟩ := Option.map_eq_some_iff.mp h
  exact ⟨labels, a, labels', t, events_of_playAll hplay, events_of_playAll hplay',
    run_of_playAll hplay hs, run_of_playAll hplay' (within_of_playAll hplay hs), hP⟩

/-! ### A recording of one byte -/

/-- Digests that are texts of what they are of. -/
def textHashing : Hashing where
  sha256 content := String.ofList (content.map fun byte => Char.ofNat byte.toNat)
  audioState state := String.join (state.chunks.map fun chunk =>
    match chunk.sha256 with
    | .sha256 digest => digest
    | .legacy .. => "legacy")

theorem toNat_ofNat_byte (byte : UInt8) : (Char.ofNat byte.toNat).toNat = byte.toNat := by
  have hvalid : byte.toNat.isValidChar := .inl (by have hlt := byte.toNat_lt; omega)
  unfold Char.ofNat
  rw [dif_pos hvalid]
  rfl

theorem textHashing_injective : Function.Injective textHashing.sha256 := by
  intro content content' h
  refine List.map_injective_iff.mpr (fun byte byte' hchar => ?_) (String.ofList_injective h)
  have hnat := congrArg Char.toNat hchar
  rw [toNat_ofNat_byte, toNat_ofNat_byte] at hnat
  exact UInt8.toNat_inj.mp hnat

/-- The only part of the recording. -/
def onePart (uploadId : UploadId) : PartInput where
  buffer := [82]
  meetingId := "meeting"
  metadata :=
    { consent := .legacyUnknown, durationMs := 1000, mimeType := "audio/webm", recordedAt := 0,
      totalBytes := 1, totalParts := 1, uploadId }
  ownerUserId := "user"
  partIndex := 0
  sha256 := "R"

/-- The part is stored and published. -/
def wholeUpload : List AudioEvent :=
  [.beginPart "call" (onePart "upload") [], .sweepNext "call", .reserve "call" none, .stage "call",
   .putPart "call", .putPartManifest "call", .publishPart "call" none]

end OwnMinutes.Audio.Replays
