import Mathlib.Algebra.BigOperators.Group.List.Basic
import OwnMinutes.Audio.Replays
import OwnMinutes.Audio.Staging

/-! # Uploads whose parts were received

A part that a client was told is received is listed until the list is removed, and what is listed is stored
(`Staging`); so the recording can be assembled once each of its parts was answered. -/

namespace OwnMinutes.Audio.StagedUploads

open OwnMinutes.Auth.ProcessingRoute OwnMinutes.Auth.Records OwnMinutes.Lib.Crash OwnMinutes.Lib.Runs
open OwnMinutes.Lib.Outcome OwnMinutes.Audio.Records OwnMinutes.Audio.Store OwnMinutes.Audio.Runs
open OwnMinutes.Audio.Sections OwnMinutes.Audio.Changes OwnMinutes.Audio.Phases OwnMinutes.Audio.Replays
open OwnMinutes.Audio.Staging

variable {H : Hashing} {policy : RecordingUploadResourcePolicy} {s t : AudioWorld}

/-! ### Assembling a recording -/

/-- The parts of a recording make up its bytes. -/
theorem sum_expectedBytes (metadata : RecordingUploadMetadata) (n : ℕ) :
    ((List.range n).map (expectedRecordingPartBytes metadata)).sum =
      min metadata.totalBytes (n * recordingUploadPartBytes) := by
  induction n with
  | zero => simp
  | succ n ih =>
    rw [List.range_succ, List.map_append, List.sum_append, ih, List.map_singleton, List.sum_singleton]
    unfold expectedRecordingPartBytes recordingUploadPartBytes
    omega

/-- A staging manifest as saves leave it. -/
structure Proper (manifest : RecordingUploadManifest) : Prop where
  totalParts : manifest.totalParts =
    (manifest.totalBytes + recordingUploadPartBytes - 1) / recordingUploadPartBytes
  parts : ∀ part ∈ manifest.parts, part.index < manifest.totalParts ∧
    part.bytes = expectedRecordingPartBytes manifest.toRecordingUploadMetadata part.index
  nodup : (manifest.parts.map (·.index)).Nodup

/-- Every part of the recording is listed. -/
def Complete (manifest : RecordingUploadManifest) : Prop :=
  ∀ index < manifest.totalParts, ∃ part ∈ manifest.parts, part.index = index

variable {manifest : RecordingUploadManifest}

theorem Proper.sum_bytes (h : Proper manifest) :
    ((List.range manifest.totalParts).map
      (expectedRecordingPartBytes manifest.toRecordingUploadMetadata)).sum = manifest.totalBytes := by
  rw [sum_expectedBytes, h.totalParts]
  unfold recordingUploadPartBytes
  omega

theorem Proper.length (h : Proper manifest) (hcomplete : Complete manifest) :
    manifest.parts.length = manifest.totalParts := by
  have hperm : (manifest.parts.map (·.index)).Perm (List.range manifest.totalParts) := by
    refine (List.perm_ext_iff_of_nodup h.nodup List.nodup_range).mpr fun index => ?_
    rw [List.mem_map, List.mem_range]
    constructor
    · rintro ⟨part, hpart, rfl⟩
      exact (h.parts part hpart).1
    · exact hcomplete index
  have hlength := hperm.length_eq
  rwa [List.length_map, List.length_range] at hlength

/-- A part that is listed and stored is read for the assembly. -/
theorem readUploadPart_ok {o : MeetingObjects} {uploadId : UploadId} {index : ℕ}
    (hstored : ∀ part ∈ manifest.parts, PartStored H (o.uploadParts uploadId) part)
    (hlisted : ∃ part ∈ manifest.parts, part.index = index) :
    ∃ buffer part, part ∈ manifest.parts ∧ part.index = index ∧ buffer.length = part.bytes ∧
      readUploadPart H o manifest uploadId index = .ok buffer := by
  obtain ⟨listed, hmem, hindex⟩ := hlisted
  have hsome : (manifest.part? index).isSome := by
    rw [Option.isSome_iff_ne_none]
    exact fun hnone => part?_eq_none.mp hnone listed hmem hindex
  obtain ⟨part, hpart⟩ := Option.isSome_iff_exists.mp hsome
  have hmem := List.mem_of_find?_eq_some hpart
  have hindex : part.index = index := by
    have hfound := List.find?_some hpart
    exact eq_of_beq hfound
  obtain ⟨buffer, hbuffer, hlength, hsha⟩ := hstored part hmem
  refine ⟨buffer, part, hmem, hindex, hlength, ?_⟩
  unfold readUploadPart
  rw [hpart]
  dsimp only
  rw [← hindex, hbuffer]
  dsimp only
  rw [if_neg]
  rintro (hne | hne)
  · exact hne hlength
  · exact hne hsha

/-- A recording of which every part is listed and stored can be assembled. -/
theorem assemble_ok {o : MeetingObjects} {uploadId : UploadId} (hreceipt : o.uploadReceipts uploadId = none)
    (hmanifest : o.uploadManifests uploadId = some manifest) (hproper : Proper manifest)
    (hcomplete : Complete manifest) (hstored : ∀ part ∈ manifest.parts, PartStored H (o.uploadParts uploadId) part) :
    ∃ content maxBufferedBytes, content.length = manifest.totalBytes ∧
      assembleRecordingUpload H manifest.ownerUserId uploadId o =
        .ok (.prepared manifest content maxBufferedBytes) := by
  have hread : ∀ index ∈ List.range manifest.totalParts, ∃ buffer,
      readUploadPart H o manifest uploadId index = .ok buffer ∧
        buffer.length = expectedRecordingPartBytes manifest.toRecordingUploadMetadata index := by
    intro index hindex
    obtain ⟨buffer, part, hpart, rfl, hlength, hok⟩ :=
      readUploadPart_ok hstored (hcomplete index (List.mem_range.mp hindex))
    exact ⟨buffer, hok, hlength.trans (hproper.parts part hpart).2⟩
  obtain ⟨parts, hparts, hlengths⟩ := exists_mapM_eq_ok hread
  have hlength : parts.flatten.length = manifest.totalBytes := by
    have hsame : List.Forall₂ Eq ((List.range manifest.totalParts).map
        (expectedRecordingPartBytes manifest.toRecordingUploadMetadata)) (parts.map List.length) :=
      List.forall₂_map_left_iff.mpr (List.forall₂_map_right_iff.mpr (hlengths.imp fun _ _ h => h.symm))
    rw [List.forall₂_eq_eq_eq] at hsame
    rw [List.length_flatten, ← hsame, hproper.sum_bytes]
  refine ⟨parts.flatten, (parts.map List.length).foldl max 0, hlength, ?_⟩
  unfold assembleRecordingUpload
  rw [readState_of_no_receipt hreceipt, hmanifest]
  dsimp only
  rw [if_neg (not_not.mpr rfl), if_neg (not_not.mpr (hproper.length hcomplete)), hparts, ok_bind,
    if_neg (not_not.mpr hlength)]

/-! ### Parts that were answered -/

section Upload

variable (H : Hashing) (meetingId : MeetingId) (uploadId : UploadId)

/-- The staging manifest is not removed. -/
def ListKept (s : AudioWorld) : AudioEvent → Prop
  | .remove callId .manifest => ∀ deletion, (s.calls callId).deletion? = some deletion →
    deletion.meetingId = meetingId → deletion.uploadId ≠ uploadId
  | .removeMeeting id => id ≠ meetingId
  | _ => True

/-- A part of an upload is listed as it was sent, or the upload is committed. -/
def Received (s : AudioWorld) (input : PartInput) : Prop :=
  ((s.meetings meetingId).uploadReceipts uploadId).isSome ∨
    ∃ manifest, stagingManifest meetingId uploadId s = some manifest ∧
      manifest.toRecordingUploadMetadata = input.metadata ∧ manifest.ownerUserId = input.ownerUserId ∧
      ∃ part ∈ manifest.parts, part.index = input.partIndex

/-- What holds for an upload between two steps. -/
structure UploadsInv (s : AudioWorld) : Prop extends StagingInv H meetingId uploadId s where
  proper : ∀ manifest, stagingManifest meetingId uploadId s = some manifest → Proper manifest
  saved : ∀ callId input next, Phase.save? (s.calls callId) = some (input, next) →
    input.meetingId = meetingId → input.metadata.uploadId = uploadId → Proper next

/-- A part is received when its call is about to answer so. -/
def Answers (s : AudioWorld) : Prop :=
  ∀ callId input result, s.calls callId = .publishingPart input result → input.meetingId = meetingId →
    input.metadata.uploadId = uploadId → Received meetingId uploadId s input

end Upload

variable {input : PartInput} {es : List (AudioEvent × Option Answer)}

section Steps

variable {meetingId : MeetingId} {uploadId : UploadId} {e : AudioEvent × Option Answer}

theorem proper_withPart {now : Timestamp} {before : RecordingUploadManifest} (haccepted : PartInput.Accepted H input)
    (hproper : Proper before) (hmetadata : before.toRecordingUploadMetadata = input.metadata)
    (hparts : ∀ part ∈ before.parts, part.index ≠ input.partIndex) : Proper (withPart now input before) := by
  refine ⟨hproper.totalParts, fun part hpart => ?_, ?_⟩
  · have hpart : part ∈ before.parts ++ [{ bytes := input.buffer.length, index := input.partIndex
                                           receivedAt := now, sha256 := input.sha256 }] := hpart
    rw [List.mem_append, List.mem_singleton] at hpart
    rcases hpart with hpart | rfl
    · exact hproper.parts part hpart
    · change input.partIndex < before.totalParts ∧
        input.buffer.length = expectedRecordingPartBytes before.toRecordingUploadMetadata input.partIndex
      rw [hmetadata]
      exact ⟨haccepted.partIndex, haccepted.length⟩
  · change (List.map (·.index) (before.parts ++ [_])).Nodup
    rw [List.map_append, List.map_singleton, List.nodup_append]
    refine ⟨hproper.nodup, List.nodup_singleton _, fun index hindex index' hindex' => ?_⟩
    obtain ⟨part, hpart, rfl⟩ := List.mem_map.mp hindex
    rw [List.mem_singleton.mp hindex']
    exact hparts part hpart

theorem proper_new {now : Timestamp} (h : PartInput.Accepted H input) : Proper (newUploadManifest now input) :=
  ⟨h.totalParts, fun part hpart => (by cases hpart), List.nodup_nil⟩

theorem proper_step (hs : UploadsInv H meetingId uploadId s) (hstep : AudioStep H policy s e t)
    (manifest : RecordingUploadManifest) (hlisted : stagingManifest meetingId uploadId t = some manifest) :
    Proper manifest := by
  have hchange : StagedChange meetingId uploadId s e.1 (t.meetings meetingId) :=
    staged_change hstep hs.sound
  cases hchange with
  | same hmanifest | part _ _ _ hmanifest | removed _ _ _ _ hmanifest =>
    exact hs.proper manifest (hmanifest.symm.trans hlisted)
  | @manifest callId input next _ hphase hkey hmanifest =>
    cases hmanifest.symm.trans hlisted
    rw [hphase] at hkey
    cases hkey
    exact hs.saved callId input _ (by rw [hphase]; rfl) rfl rfl
  | unlisted _ _ _ _ hmanifest | cleared _ hmanifest =>
    cases hmanifest.symm.trans hlisted

theorem saved_step (hs : UploadsInv H meetingId uploadId s) (hstep : AudioStep H policy s e t)
    (callId : CallId) (input : PartInput) (next : RecordingUploadManifest)
    (hsave : Phase.save? (t.calls callId) = some (input, next)) (hmeeting : input.meetingId = meetingId)
    (hupload : input.metadata.uploadId = uploadId) : Proper next := by
  rcases save_step hstep hsave with ⟨hsave, -⟩ | ⟨-, hphase, hplan⟩
  · exact hs.saved callId input next hsave hmeeting hupload
  · have haccepted : PhaseSound H (.staging input) := hphase ▸ hs.sound callId
    obtain ⟨-, before, hbefore, hmetadata, -, hparts, rfl⟩ := plan_store hplan
    refine proper_withPart haccepted ?_ hmetadata hparts
    subst hmeeting hupload
    cases hlisted : (s.meetings input.meetingId).uploadManifests input.metadata.uploadId with
    | none =>
      rw [← hbefore, hlisted]
      exact proper_new haccepted
    | some manifest =>
      rw [← hbefore, hlisted]
      exact hs.proper manifest hlisted

/-- What a step keeps. -/
theorem uploadsInv_step (hs : UploadsInv H meetingId uploadId s) (hstep : AudioStep H policy s e t)
    (hkept : PartsKept meetingId uploadId s e.1) : UploadsInv H meetingId uploadId t :=
  ⟨stagingInv_step hs.toStagingInv hstep hkept, proper_step hs hstep, saved_step hs hstep⟩

/-- A receipt stays, unless its meeting is removed. -/
theorem receipt_step (hstep : AudioStep H policy s e t) (hkept : ListKept meetingId uploadId s e.1)
    (h : ((s.meetings meetingId).uploadReceipts uploadId).isSome) :
    ((t.meetings meetingId).uploadReceipts uploadId).isSome := by
  have hchange := step_meeting hstep meetingId
  generalize t.meetings meetingId = o at hchange ⊢
  cases hchange with
  | written h' => rw [h'.staged.2.2]; exact h
  | part | partManifest | recording => exact h
  | @receipt callId input receipt =>
    by_cases hid : uploadId = receipt.uploadId
    · have hput : ((s.meetings meetingId).putReceipt receipt).uploadReceipts uploadId = some receipt := by
        rw [hid]
        exact Function.update_self _ _ _
      rw [hput]
      rfl
    · have hput : ((s.meetings meetingId).putReceipt receipt).uploadReceipts uploadId =
          (s.meetings meetingId).uploadReceipts uploadId := Function.update_of_ne hid _ _
      rw [hput]
      exact h
  | @unstaged callId deletion key => cases key <;> exact h
  | removed hevent =>
    rw [hevent] at hkept
    exact absurd rfl hkept

/-- A part that is received stays so. -/
theorem received_step (hs : UploadsInv H meetingId uploadId s) (hstep : AudioStep H policy s e t)
    (hkept : ListKept meetingId uploadId s e.1) (h : Received meetingId uploadId s input) :
    Received meetingId uploadId t input := by
  rcases h with hreceipt | ⟨manifest, hlisted, hmetadata, howner, hpart⟩
  · exact .inl (receipt_step hstep hkept hreceipt)
  have hchange : StagedChange meetingId uploadId s e.1 (t.meetings meetingId) :=
    staged_change hstep hs.sound
  cases hchange with
  | same hmanifest | part _ _ _ hmanifest | removed _ _ _ _ hmanifest =>
    exact .inr ⟨manifest, hmanifest.trans hlisted, hmetadata, howner, hpart⟩
  | @manifest callId saved next _ hphase hkey hmanifest =>
    rw [hphase] at hkey
    cases hkey
    have hcontinues := hs.before callId saved next manifest (by rw [hphase]; rfl) rfl rfl hlisted
    obtain ⟨part, hmem, hindex⟩ := hpart
    exact .inr ⟨next, hmanifest, hcontinues.metadata.trans hmetadata, hcontinues.owner.trans howner,
      part, (mem_otherParts.mp (hcontinues.parts hmem)).1, hindex⟩
  | unlisted hevent hdeletion hmeeting hupload =>
    rw [hevent] at hkept
    exact absurd hupload (hkept _ hdeletion hmeeting)
  | cleared hevent =>
    rw [hevent] at hkept
    exact absurd rfl hkept

/-- What is answered without a write was received before. -/
theorem plan_answer {now : Timestamp} {result : PartResult}
    (h : planRecordingUploadPart now input (s.meetings input.meetingId) = .ok (.answer result)) :
    Received input.meetingId input.metadata.uploadId s input := by
  unfold planRecordingUploadPart at h
  cases hreceipt : (s.meetings input.meetingId).uploadReceipts input.metadata.uploadId with
  | some receipt => exact .inl (by rw [hreceipt]; rfl)
  | none =>
    rw [readState_of_no_receipt hreceipt] at h
    dsimp only at h
    split_ifs at h with howner hmetadata
    split at h
    · rename_i existing hpart
      split_ifs at h
      cases hlisted : (s.meetings input.meetingId).uploadManifests input.metadata.uploadId with
      | none =>
        rw [hlisted] at hpart
        cases hpart
      | some manifest =>
        rw [hlisted, Option.getD_some] at hpart howner hmetadata
        have hindex := List.find?_some hpart
        exact .inr ⟨manifest, hlisted, not_not.mp hmetadata, not_not.mp howner, existing,
          List.mem_of_find?_eq_some hpart, eq_of_beq hindex⟩
    · cases h

/-- What a save wrote last lists its part. -/
theorem received_storedManifest {callId : CallId} {answer : Option Answer} {next : RecordingUploadManifest}
    (hsound : CallsSound H s) (hstep : AudioStep H policy s (.putPartManifest callId, answer) t)
    (hphase : s.calls callId = .storingManifest input next) :
    Received input.meetingId input.metadata.uploadId t input := by
  have hplanned : PhaseSound H (.storingManifest input next) := hphase ▸ hsound callId
  obtain ⟨-, hplanned⟩ := hplanned
  have hput := hstep.2
  simp only [step, hphase] at hput
  have hlisted : stagingManifest input.meetingId input.metadata.uploadId t = some next := by
    rw [world_of_some hput, ← hplanned.metadata]
    unfold stagingManifest stepPutPartManifest MeetingObjects.putUploadManifest
    rw [AudioWorld.setPhase_meetings, AudioWorld.unlockUpload_meetings, AudioWorld.setObjects_meetings,
      Function.update_self]
    exact Function.update_self _ _ _
  obtain ⟨receivedAt, hparts⟩ := hplanned.parts
  have hmem : ({ bytes := input.buffer.length, index := input.partIndex, receivedAt
                 sha256 := input.sha256 } : RecordingUploadPart) ∈ next.parts := by
    rw [hparts]
    exact List.mem_append_right _ (List.mem_singleton.mpr rfl)
  exact .inr ⟨next, hlisted, hplanned.metadata, hplanned.owner, _, hmem, rfl⟩

theorem answers_step (hs : UploadsInv H meetingId uploadId s) (ha : Answers meetingId uploadId s)
    (hstep : AudioStep H policy s e t) (hkept : ListKept meetingId uploadId s e.1) :
    Answers meetingId uploadId t := by
  intro callId input result hphase' hmeeting hupload
  have hsame : t.calls callId = s.calls callId → Received meetingId uploadId t input := by
    intro hsame
    exact received_step hs hstep hkept (ha callId input result (hsame ▸ hphase') hmeeting hupload)
  rcases step_calls hstep with ⟨-, hcalls⟩ | ⟨moved, -, hmove⟩
  · exact hsame (by rw [hcalls.calls])
  by_cases hid : callId = moved
  swap
  · exact hsame (hmove.others callId hid)
  subst hid
  obtain ⟨event, answer⟩ := e
  have hphase := hmove.phase
  dsimp only at hphase
  generalize hbefore : s.calls callId = phase at hphase
  generalize hafter : t.calls callId = phase' at hphase hphase'
  cases hphase with
  | answers hplan =>
    cases hphase'
    subst hmeeting hupload
    exact received_step hs hstep hkept (plan_answer hplan)
  | storedManifest =>
    cases hphase'
    subst hmeeting hupload
    exact received_storedManifest hs.sound hstep hbefore
  | @lists phase deletion listed h | @removes phase deletion listed h =>
    cases phase with
    | sweepingStaged | deleting => cases hphase'
    | _ => cases h
  | looks =>
    have huser := congrArg Phase.user? hphase'
    rw [(sweepNext_locks _ _ _ _).1] at huser
    cases huser
  | _ => cases hphase'

end Steps

/-! ### Runs -/

section Runs

variable (H : Hashing) (policy : RecordingUploadResourcePolicy) (meetingId : MeetingId)
  (uploadId : UploadId)

/-- A step that keeps what is listed stored. -/
def KeepsParts (s : AudioWorld) (e : AudioEvent × Option Answer) (t : AudioWorld) : Prop :=
  AudioStep H policy s e t ∧ PartsKept meetingId uploadId s e.1

/-- One that keeps the list, too. -/
def KeepsList (s : AudioWorld) (e : AudioEvent × Option Answer) (t : AudioWorld) : Prop :=
  KeepsParts H policy meetingId uploadId s e t ∧ ListKept meetingId uploadId s e.1

/-- No call is under way, and what is staged is as saves leave it. -/
structure Settled (s : AudioWorld) : Prop extends Quiet s where
  listed : ListedStored H meetingId uploadId s
  proper : ∀ manifest, stagingManifest meetingId uploadId s = some manifest → Proper manifest

/-- In the course of a run, a call answers that it received a part. -/
def Acknowledged (s : AudioWorld) (es : List (AudioEvent × Option Answer)) (t : AudioWorld)
    (input : PartInput) : Prop :=
  ∃ callId stop result pre post a, es = pre ++ (.publishPart callId stop, some (.part result)) :: post ∧
    Run (KeepsList H policy meetingId uploadId) s pre a ∧
    Run (KeepsList H policy meetingId uploadId) a
      ((.publishPart callId stop, some (.part result)) :: post) t ∧
    a.calls callId = .publishingPart input result

variable {H policy meetingId uploadId}

theorem Settled.uploadsInv (h : Settled H meetingId uploadId s) : UploadsInv H meetingId uploadId s := by
  refine ⟨Quiet.stagingInv h.toQuiet h.listed, h.proper, fun callId _ _ hsave => ?_⟩
  rw [h.idle callId] at hsave
  cases hsave

theorem Settled.answers (h : Settled H meetingId uploadId s) : Answers meetingId uploadId s := by
  intro callId _ _ hphase
  rw [h.idle callId] at hphase
  cases hphase

/-- What a run keeps. -/
theorem uploads_run (hs : UploadsInv H meetingId uploadId s)
    (hrun : Run (KeepsParts H policy meetingId uploadId) s es t) : UploadsInv H meetingId uploadId t :=
  hrun.invariant (I := UploadsInv H meetingId uploadId)
    (fun _ _ _ hinv hstep => uploadsInv_step hinv hstep.1 hstep.2) hs

theorem answers_run (hs : UploadsInv H meetingId uploadId s ∧ Answers meetingId uploadId s)
    (hrun : Run (KeepsList H policy meetingId uploadId) s es t) :
    UploadsInv H meetingId uploadId t ∧ Answers meetingId uploadId t :=
  hrun.invariant (I := fun s => UploadsInv H meetingId uploadId s ∧ Answers meetingId uploadId s)
    (fun _ _ _ hinv hstep => ⟨uploadsInv_step hinv.1 hstep.1.1 hstep.1.2,
      answers_step hinv.1 hinv.2 hstep.1.1 hstep.2⟩) hs

theorem received_run (hs : UploadsInv H meetingId uploadId s) (h : Received meetingId uploadId s input)
    (hrun : Run (KeepsList H policy meetingId uploadId) s es t) : Received meetingId uploadId t input :=
  (hrun.invariant
    (I := fun s => UploadsInv H meetingId uploadId s ∧ Received meetingId uploadId s input)
    (fun _ _ _ hinv hstep => ⟨uploadsInv_step hinv.1 hstep.1.1 hstep.1.2,
      received_step hinv.1 hstep.1.1 hstep.2 hinv.2⟩) ⟨hs, h⟩).2

/-- A part that was answered is received to the end of the run. -/
theorem received_of_acknowledged (hs : Settled H meetingId uploadId s)
    (h : Acknowledged H policy meetingId uploadId s es t input) (hmeeting : input.meetingId = meetingId)
    (hupload : input.metadata.uploadId = uploadId) : Received meetingId uploadId t input := by
  obtain ⟨callId, stop, result, pre, post, a, -, hpre, hpost, hphase⟩ := h
  obtain ⟨hinv, hanswers⟩ := answers_run ⟨hs.uploadsInv, hs.answers⟩ hpre
  exact received_run hinv (hanswers callId input result hphase hmeeting hupload) hpost

/-- **A part that is listed is stored** wherever no call is under way, in every run that keeps what is listed;
and an upload of which every part was answered can be assembled, as long as its list is not removed. -/
theorem received_parts_stored (hs : Settled H meetingId uploadId s) :
    (∀ es t, Run (KeepsParts H policy meetingId uploadId) s es t →
      (∀ callId, t.calls callId = .idle) → ListedStored H meetingId uploadId t) ∧
    ∀ es t userId metadata, Run (KeepsList H policy meetingId uploadId) s es t →
      (∀ callId, t.calls callId = .idle) → metadata.uploadId = uploadId → 0 < metadata.totalParts →
      (∀ index < metadata.totalParts, ∃ input, Acknowledged H policy meetingId uploadId s es t input ∧
        input.meetingId = meetingId ∧ input.metadata = metadata ∧ input.ownerUserId = userId ∧
        input.partIndex = index) →
      ((t.meetings meetingId).uploadReceipts uploadId).isSome ∨
        ∃ manifest content maxBufferedBytes, content.length = metadata.totalBytes ∧
          assembleRecordingUpload H userId uploadId (t.meetings meetingId) =
            .ok (.prepared manifest content maxBufferedBytes) := by
  constructor
  · intro es t hrun hidle
    exact (uploads_run hs.uploadsInv hrun).listedStored hidle
  · rintro es t userId metadata hrun hidle rfl hpos hanswered
    have hinv := uploads_run hs.uploadsInv (hrun.mono fun _ _ _ h => h.1)
    cases hreceipt : (t.meetings meetingId).uploadReceipts metadata.uploadId with
    | some receipt => exact .inl rfl
    | none =>
      have hreceived : ∀ index < metadata.totalParts, ∃ manifest,
          stagingManifest meetingId metadata.uploadId t = some manifest ∧
          manifest.toRecordingUploadMetadata = metadata ∧ manifest.ownerUserId = userId ∧
          ∃ part ∈ manifest.parts, part.index = index := by
        intro index hindex
        obtain ⟨input, hack, hmeeting, rfl, rfl, rfl⟩ := hanswered index hindex
        rcases received_of_acknowledged hs hack hmeeting rfl with hcommitted | hlisted
        · rw [hreceipt] at hcommitted
          cases hcommitted
        · exact hlisted
      obtain ⟨manifest, hlisted, hmetadata, howner, -⟩ := hreceived 0 hpos
      have hcomplete : Complete manifest := by
        intro index hindex
        have htotal : manifest.totalParts = metadata.totalParts :=
          congrArg RecordingUploadMetadata.totalParts hmetadata
        obtain ⟨manifest', hlisted', -, -, hpart⟩ := hreceived index (htotal ▸ hindex)
        cases hlisted.symm.trans hlisted'
        exact hpart
      obtain ⟨content, maxBufferedBytes, hlength, hok⟩ := assemble_ok hreceipt hlisted
        (hinv.proper manifest hlisted) hcomplete (hinv.listedStored hidle manifest hlisted)
      refine .inr ⟨manifest, content, maxBufferedBytes, ?_, howner ▸ hok⟩
      exact hlength.trans (congrArg RecordingUploadMetadata.totalBytes hmetadata)

end Runs

/-- The conditions on steps, where nothing is removed and a save begins an upload. -/
def KeptHere (s : AudioWorld) : AudioEvent → Bool
  | .stage _ => (stagingManifest "meeting" "upload" s).isNone
  | .list _ _ | .remove _ _ | .endDeletion _ | .crash _ | .removeMeeting _ => false
  | _ => true

theorem keepsList_of_here {e : AudioEvent × Option Answer} (hstep : AudioStep H policy s e t)
    (h : KeptHere s e.1 = true) : KeepsList H policy "meeting" "upload" s e t := by
  obtain ⟨event, answer⟩ := e
  cases event with
  | stage callId =>
    refine ⟨⟨hstep, fun _ _ _ _ manifest hstored => ?_⟩, trivial⟩
    rw [Option.isNone_iff_eq_none.mp h] at hstored
    cases hstored
  | list | remove | endDeletion | crash | removeMeeting => cases h
  | _ => exact ⟨⟨hstep, trivial⟩, trivial⟩

theorem settled_empty : Settled H meetingId uploadId {} :=
  ⟨quiet_empty, fun _ h => (by cases h), fun _ h => by cases h⟩

/-- The calls are over at the end of a run in which one was made. -/
theorem idle_of_run {R : AudioWorld → AudioEvent × Option Answer → AudioWorld → Prop}
    (hR : ∀ s e t, R s e t → AudioStep H policy s e t) (callIds : List CallId) (hs : Quiet s) (hrun : Run R s es t)
    (hcalls : ∀ e ∈ es.map Prod.fst, ∀ callId, callOf e = some callId → callId ∈ callIds)
    (hidle : ∀ callId ∈ callIds, t.calls callId = .idle) (callId : CallId) : t.calls callId = .idle := by
  by_cases hmem : callId ∈ callIds
  · exact hidle callId hmem
  · rw [calls_run hR hrun fun e he heq => hmem (hcalls e.1 (List.mem_map_of_mem he) callId heq)]
    exact hs.idle callId

/-- Is `labels` the answer to the part that the call has stored? -/
def answersPart (a : AudioWorld) (labels : List (AudioEvent × Option Answer)) : Bool :=
  match labels with
  | [(.publishPart "call" none, some (.part result))] =>
    decide (a.calls "call" = .publishingPart (onePart "upload") result)
  | _ => false

theorem answersPart_eq {a : AudioWorld} {labels : List (AudioEvent × Option Answer)}
    (h : answersPart a labels = true) : ∃ result,
      labels = [(.publishPart "call" none, some (.part result))] ∧
        a.calls "call" = .publishingPart (onePart "upload") result := by
  unfold answersPart at h
  split at h
  · rename_i result
    exact ⟨result, rfl, of_decide_eq_true h⟩
  · cases h

theorem received_parts_stored_one : ∃ es t, Run (AudioStep textHashing {}) {} es t ∧
    es.map Prod.fst = wholeUpload ∧ ListedStored textHashing "meeting" "upload" t ∧
    ∃ manifest content maxBufferedBytes, content.length = 1 ∧
      assembleRecordingUpload textHashing "user" "upload" (t.meetings "meeting") =
        .ok (.prepared manifest content maxBufferedBytes) := by
  obtain ⟨pre, a, post, t, hpre, hpost, hfirst, hlast, hend⟩ := exists_runs textHashing {}
    (fun s e _ => KeptHere s e.1 = true) ["meeting"] 1 {} wholeUpload.dropLast
    [.publishPart "call" none]
    (fun a labels t => answersPart a labels && decide (t.calls "call" = .idle) &&
      ((t.meetings "meeting").uploadReceipts "upload").isNone)
    (within_empty _ _) (by decide)
  rw [Bool.and_eq_true, Bool.and_eq_true] at hend
  obtain ⟨⟨hanswers, hcall⟩, hreceipt⟩ := hend
  have hfirst := hfirst.mono fun _ _ _ h => keepsList_of_here h.1 h.2
  have hlast := hlast.mono fun _ _ _ h => keepsList_of_here h.1 h.2
  have hrun := Run.append_iff.mpr ⟨a, hfirst, hlast⟩
  have hevents : (pre ++ post).map Prod.fst = wholeUpload := by
    rw [List.map_append, hpre, hpost]
    rfl
  have hidle : ∀ callId, t.calls callId = .idle := by
    refine idle_of_run (fun _ _ _ h => h.1.1) ["call"] quiet_empty hrun ?_ ?_
    · rw [hevents]
      decide
    · intro callId hmem
      rw [List.mem_singleton.mp hmem]
      exact of_decide_eq_true hcall
  have hsettled : Settled textHashing "meeting" "upload" {} := settled_empty
  obtain ⟨hstored, hcommit⟩ := received_parts_stored hsettled
  refine ⟨pre ++ post, t, hrun.mono fun _ _ _ h => h.1.1, hevents,
    hstored _ t (hrun.mono fun _ _ _ h => h.1) hidle, ?_⟩
  obtain ⟨result, rfl, hphase⟩ := answersPart_eq hanswers
  have hcommitted := hcommit _ t "user" (onePart "upload").metadata hrun hidle rfl (by decide)
    fun index hindex => ⟨onePart "upload", ⟨"call", none, result, pre, [], a, rfl, hfirst, hlast, hphase⟩,
      rfl, rfl, rfl, (Nat.lt_one_iff.mp hindex).symm⟩
  rcases hcommitted with hsome | hassembled
  · rw [Option.isNone_iff_eq_none.mp hreceipt] at hsome
    cases hsome
  · exact hassembled

/-- A status read finds the upload stale and deletes its objects, the manifest first; before the part is
removed, the client has sent it again. -/
def racedDeletion : List AudioEvent :=
  wholeUpload ++
  [.tick 259200000, .readStatus "status" ⟨"meeting", "user", "upload"⟩ none,
   .list "status" [.manifest, .part 0], .remove "status" .manifest,
   .beginPart "again" (onePart "upload") [], .sweepNext "again", .reserve "again" none, .stage "again",
   .putPart "again", .putPartManifest "again", .remove "status" (.part 0), .endDeletion "status",
   .publishPart "again" none]

/-- The part was answered, is listed and is not stored when all calls are over. -/
theorem raced_deletion_loses_part : ∃ es t, es.map Prod.fst = racedDeletion ∧
    Run (AudioStep textHashing {}) {} es t ∧ (∀ callId, t.calls callId = .idle) ∧
    ¬ ListedStored textHashing "meeting" "upload" t ∧
    assembleRecordingUpload textHashing "user" "upload" (t.meetings "meeting") =
      .error uploadPartMissing := by
  obtain ⟨es, t, hes, hrun, hend⟩ := exists_run textHashing {} (fun _ _ _ => True) ["meeting"] 1 {}
    racedDeletion
    (fun _ t => decide (t.calls "call" = .idle) && decide (t.calls "status" = .idle) &&
      decide (t.calls "again" = .idle) &&
      (stagingManifest "meeting" "upload" t).any (fun manifest =>
        manifest.parts.any fun part => (t.meetings "meeting").uploadParts "upload" part.index == none) &&
      decide (assembleRecordingUpload textHashing "user" "upload" (t.meetings "meeting") =
        .error uploadPartMissing))
    (within_empty _ _) (by decide)
  rw [Bool.and_eq_true, Bool.and_eq_true, Bool.and_eq_true, Bool.and_eq_true] at hend
  obtain ⟨⟨⟨⟨hcall, hstatus⟩, hagain⟩, hlost⟩, hassemble⟩ := hend
  have hrun := hrun.mono fun _ _ _ h => h.1
  refine ⟨es, t, hes, hrun, ?_, fun hstored => ?_, of_decide_eq_true hassemble⟩
  · refine idle_of_run (fun _ _ _ h => h) ["call", "status", "again"] quiet_empty hrun ?_ ?_
    · rw [hes]
      decide
    · intro callId hmem
      rcases List.mem_cons.mp hmem with rfl | hmem
      · exact of_decide_eq_true hcall
      · rcases List.mem_pair.mp hmem with rfl | rfl
        · exact of_decide_eq_true hstatus
        · exact of_decide_eq_true hagain
  · obtain ⟨manifest, hlisted, hlost⟩ := (Option.any_eq_true _ _).mp hlost
    obtain ⟨part, hpart, hnone⟩ := List.any_eq_true.mp hlost
    obtain ⟨buffer, hbuffer, -⟩ := hstored manifest hlisted part hpart
    rw [hbuffer] at hnone
    cases hnone

end OwnMinutes.Audio.StagedUploads
