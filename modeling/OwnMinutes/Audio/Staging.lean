import OwnMinutes.Audio.Phases

/-! # Staged parts

The staged objects of one upload: its parts, and the manifest that lists them. A save puts its part and then
the manifest, under the lock of the upload; a deletion of the prefix takes no lock. What a save relies on
stays stored, and what the manifest lists is gone only while a deletion has still to remove the manifest, as
long as saves and deletions do not come between each other (`PartsKept`). -/

namespace OwnMinutes.Audio.Staging

open OwnMinutes.Auth.ProcessingRoute OwnMinutes.Auth.Records OwnMinutes.Lib.Crash OwnMinutes.Lib.Runs
open OwnMinutes.Lib.Locks OwnMinutes.Audio.Records OwnMinutes.Audio.Store OwnMinutes.Audio.Runs
open OwnMinutes.Audio.Sections OwnMinutes.Audio.Changes OwnMinutes.Audio.Phases

/-! ### Parts that are stored -/

/-- The object of a part is what the manifest says it is. -/
def PartStored (H : Hashing) (parts : ℕ → Option Bytes) (part : RecordingUploadPart) : Prop :=
  ∃ buffer, parts part.index = some buffer ∧ buffer.length = part.bytes ∧ H.sha256 buffer = part.sha256

variable {H : Hashing} {policy : RecordingUploadResourcePolicy} {s t : AudioWorld}

theorem partStored_of_ne {parts : ℕ → Option Bytes} {part : RecordingUploadPart} {index : ℕ}
    {buffer : Option Bytes} (hne : part.index ≠ index) (h : PartStored H parts part) :
    PartStored H (Function.update parts index buffer) part := by
  unfold PartStored
  rw [Function.update_of_ne hne]
  exact h

/-- The parts besides its own that a save lists. -/
def otherParts (input : PartInput) (manifest : RecordingUploadManifest) : List RecordingUploadPart :=
  manifest.parts.filter (·.index ≠ input.partIndex)

/-- The parts that a save takes to be stored. -/
def Phase.reliesOn : Phase → List RecordingUploadPart
  | .storingPart input manifest => otherParts input manifest
  | .storingManifest _ manifest => manifest.parts
  | _ => []

/-- What a save stores: its part, and the manifest after it. -/
def Phase.save? : Phase → Option (PartInput × RecordingUploadManifest)
  | .storingPart input manifest | .storingManifest input manifest => some (input, manifest)
  | _ => none

/-- A manifest goes on from the one before it with the part of a save. -/
structure Continues (input : PartInput) (manifest next : RecordingUploadManifest) : Prop where
  metadata : next.toRecordingUploadMetadata = manifest.toRecordingUploadMetadata
  owner : next.ownerUserId = manifest.ownerUserId
  parts : manifest.parts ⊆ otherParts input next

/-- The manifest that a save writes lists its part after those that were there. -/
structure Planned (input : PartInput) (manifest : RecordingUploadManifest) : Prop where
  metadata : manifest.toRecordingUploadMetadata = input.metadata
  owner : manifest.ownerUserId = input.ownerUserId
  parts : ∃ receivedAt, manifest.parts = otherParts input manifest ++
    [{ bytes := input.buffer.length, index := input.partIndex, receivedAt, sha256 := input.sha256 }]

/-- What a call carries along was checked. -/
def PhaseSound (H : Hashing) : Phase → Prop
  | .sweeping input _ _ | .sweepingLease input _ _ _ | .sweepingStaged input _ _ _
  | .reserving input _ | .staging input => PartInput.Accepted H input
  | .storingPart input manifest | .storingManifest input manifest =>
    PartInput.Accepted H input ∧ Planned input manifest
  | _ => True

variable {manifest : RecordingUploadManifest} {now : Timestamp} {input : PartInput} {callId : CallId}

theorem part?_eq_none {index : ℕ} : manifest.part? index = none ↔ ∀ part ∈ manifest.parts, part.index ≠ index := by
  unfold RecordingUploadManifest.part?
  rw [List.find?_eq_none]
  simp only [beq_iff_eq]

/-- What a save plans to store, from the state of the upload. -/
theorem plan_store {o : MeetingObjects} (h : planRecordingUploadPart now input o = .ok (.store manifest)) :
    o.uploadReceipts input.metadata.uploadId = none ∧
      ∃ before, (o.uploadManifests input.metadata.uploadId).getD (newUploadManifest now input) = before ∧
        before.toRecordingUploadMetadata = input.metadata ∧ before.ownerUserId = input.ownerUserId ∧
        (∀ part ∈ before.parts, part.index ≠ input.partIndex) ∧ manifest = withPart now input before := by
  unfold planRecordingUploadPart at h
  cases hreceipt : o.uploadReceipts input.metadata.uploadId with
  | some receipt =>
    have hstate : (readRecordingUploadState o input.metadata.uploadId).receipt = some receipt := hreceipt
    dsimp only at h
    rw [hstate] at h
    dsimp only at h
    split_ifs at h
    cases h
  | none =>
    rw [readState_of_no_receipt hreceipt] at h
    dsimp only at h
    split_ifs at h with howner hmetadata
    · split at h
      · split_ifs at h
        cases h
      · rename_i hpart
        cases h
        exact ⟨rfl, _, rfl, not_not.mp hmetadata, not_not.mp howner, part?_eq_none.mp hpart, rfl⟩

theorem otherParts_withPart {before : RecordingUploadManifest}
    (h : ∀ part ∈ before.parts, part.index ≠ input.partIndex) :
    otherParts input (withPart now input before) = before.parts := by
  unfold otherParts withPart
  rw [List.filter_append, List.filter_eq_self.mpr fun part hpart => decide_eq_true (h part hpart)]
  simp

theorem planned_withPart {before : RecordingUploadManifest}
    (hmetadata : before.toRecordingUploadMetadata = input.metadata) (howner : before.ownerUserId = input.ownerUserId)
    (h : ∀ part ∈ before.parts, part.index ≠ input.partIndex) : Planned input (withPart now input before) := by
  refine ⟨hmetadata, howner, now, ?_⟩
  rw [otherParts_withPart h]
  rfl

/-! ### What calls carry along -/

theorem phaseSound_withDeletion {phase : Phase} (deletion : Deletion) (h : PhaseSound H phase) :
    PhaseSound H (phase.withDeletion deletion) := by
  cases phase <;> exact h

theorem phaseSound_move {e : AudioEvent} {phase phase' : Phase} (h : PhaseMove H policy s callId e phase phase')
    (hadmissible : Admissible H s e) (hsound : PhaseSound H phase) : PhaseSound H phase' := by
  cases h with
  | sweeping | reserving => exact hadmissible.1
  | @looks input meetingIds usage =>
    unfold stepSweepNext
    cases meetingIds with
    | nil =>
      rw [AudioWorld.setPhase_calls, Function.update_self]
      exact hsound
    | cons meetingId meetingIds =>
      dsimp only
      split
      · split_ifs <;> rw [AudioWorld.setPhase_calls, Function.update_self] <;> exact hsound
      · rw [AudioWorld.setPhase_calls, Function.update_self]
        exact hsound
  | swept | sweepsStaged | reserved | storedPart | leaves => exact hsound
  | stores h =>
    obtain ⟨-, before, -, hmetadata, howner, hparts, rfl⟩ := plan_store h
    exact ⟨hsound, planned_withPart hmetadata howner hparts⟩
  | lists | removes => exact phaseSound_withDeletion _ hsound
  | _ => trivial

/-- The inputs of all calls were checked. -/
def CallsSound (H : Hashing) (s : AudioWorld) : Prop := ∀ callId, PhaseSound H (s.calls callId)

theorem callsSound_step {e : AudioEvent × Option Answer} (hstep : AudioStep H policy s e t)
    (h : CallsSound H s) : CallsSound H t := by
  intro callId
  rcases step_calls hstep with ⟨-, hsame⟩ | ⟨moved, -, hmove⟩
  · rw [hsame.calls]
    exact h callId
  · by_cases hid : callId = moved
    · subst hid
      exact phaseSound_move hmove.phase hstep.1 (h callId)
    · rw [hmove.others callId hid]
      exact h callId

/-! ### What a step does to the staged objects -/

section Upload

variable (meetingId : MeetingId) (uploadId : UploadId)

/-- What an event does to the staged objects of an upload. -/
inductive StagedChange (s : AudioWorld) (e : AudioEvent) (o : MeetingObjects) : Prop
  | same (hmanifest : o.uploadManifests uploadId = (s.meetings meetingId).uploadManifests uploadId)
      (hparts : o.uploadParts uploadId = (s.meetings meetingId).uploadParts uploadId) :
      StagedChange s e o
  | part {callId : CallId} {input : PartInput} {manifest : RecordingUploadManifest}
      (hevent : e = .putPart callId) (hphase : s.calls callId = .storingPart input manifest)
      (hkey : (s.calls callId).upload? = some (meetingId, uploadId))
      (hmanifest : o.uploadManifests uploadId = (s.meetings meetingId).uploadManifests uploadId)
      (hparts : o.uploadParts uploadId = Function.update ((s.meetings meetingId).uploadParts uploadId)
        input.partIndex (some input.buffer)) : StagedChange s e o
  | manifest {callId : CallId} {input : PartInput} {manifest : RecordingUploadManifest}
      (hevent : e = .putPartManifest callId) (hphase : s.calls callId = .storingManifest input manifest)
      (hkey : (s.calls callId).upload? = some (meetingId, uploadId))
      (hmanifest : o.uploadManifests uploadId = some manifest)
      (hparts : o.uploadParts uploadId = (s.meetings meetingId).uploadParts uploadId) :
      StagedChange s e o
  | unlisted {callId : CallId} {deletion : Deletion} (hevent : e = .remove callId .manifest)
      (hdeletion : (s.calls callId).deletion? = some deletion) (hmeeting : deletion.meetingId = meetingId)
      (hupload : deletion.uploadId = uploadId) (hmanifest : o.uploadManifests uploadId = none)
      (hparts : o.uploadParts uploadId = (s.meetings meetingId).uploadParts uploadId) :
      StagedChange s e o
  | removed {callId : CallId} {deletion : Deletion} {index : ℕ} (hevent : e = .remove callId (.part index))
      (hdeletion : (s.calls callId).deletion? = some deletion) (hmeeting : deletion.meetingId = meetingId)
      (hupload : deletion.uploadId = uploadId)
      (hmanifest : o.uploadManifests uploadId = (s.meetings meetingId).uploadManifests uploadId)
      (hparts : o.uploadParts uploadId =
        Function.update ((s.meetings meetingId).uploadParts uploadId) index none) : StagedChange s e o
  | cleared (hevent : e = .removeMeeting meetingId) (hmanifest : o.uploadManifests uploadId = none) :
      StagedChange s e o

variable {meetingId uploadId}

theorem staged_change {e : AudioEvent × Option Answer} (hstep : AudioStep H policy s e t)
    (hsound : CallsSound H s) : StagedChange meetingId uploadId s e.1 (t.meetings meetingId) := by
  have hobjects := step_objects hstep
  by_cases htouched : touched s e.1 = some meetingId
  swap
  · rw [hobjects.others htouched]
    exact .same rfl rfl
  have hchange := hobjects.touched htouched
  obtain ⟨event, answer⟩ := e
  dsimp only at htouched hchange ⊢
  generalize t.meetings meetingId = o at hchange ⊢
  cases hchange with
  | written h => exact .same (by rw [h.staged.1]) (by rw [h.staged.2.1])
  | @part callId input manifest hevent hphase =>
    subst hevent
    simp only [touched, hphase, Option.some.injEq] at htouched
    by_cases hid : input.metadata.uploadId = uploadId
    · refine .part rfl hphase ?_ rfl ?_
      · rw [hphase, ← htouched, ← hid]
        rfl
      · rw [← hid]
        exact Function.update_self _ _ _
    · exact .same rfl (Function.update_of_ne (Ne.symm hid) _ _)
  | @partManifest callId input manifest hevent hphase =>
    subst hevent
    simp only [touched, hphase, Option.some.injEq] at htouched
    have hplanned : PhaseSound H (.storingManifest input manifest) := hphase ▸ hsound callId
    have hsame : manifest.uploadId = input.metadata.uploadId :=
      congrArg RecordingUploadMetadata.uploadId hplanned.2.metadata
    by_cases hid : input.metadata.uploadId = uploadId
    · refine .manifest rfl hphase ?_ ?_ rfl
      · rw [hphase, ← htouched, ← hid]
        rfl
      · rw [← hid, ← hsame]
        exact Function.update_self _ _ _
    · exact .same (Function.update_of_ne (fun heq => hid (hsame.symm.trans heq.symm)) _ _) rfl
  | recording | receipt => exact .same rfl rfl
  | @unstaged callId deletion key hevent hdeletion =>
    subst hevent
    simp only [touched, hdeletion, Option.map_some, Option.some.injEq] at htouched
    by_cases hid : deletion.uploadId = uploadId
    · cases key with
      | manifest =>
        refine .unlisted rfl hdeletion htouched hid ?_ rfl
        rw [← hid]
        exact Function.update_self _ _ _
      | part index =>
        refine .removed rfl hdeletion htouched hid rfl ?_
        rw [← hid]
        exact Function.update_self _ _ _
    · cases key with
      | manifest => exact .same (Function.update_of_ne (Ne.symm hid) _ _) rfl
      | part index => exact .same rfl (Function.update_of_ne (Ne.symm hid) _ _)
  | removed hevent => exact .cleared hevent rfl

end Upload

/-! ### Parts that stay stored -/

section Parts

variable (H : Hashing) (meetingId : MeetingId) (uploadId : UploadId)

/-- The staging manifest of the upload. -/
def stagingManifest (s : AudioWorld) : Option RecordingUploadManifest :=
  (s.meetings meetingId).uploadManifests uploadId

/-- Each of the parts is stored. -/
def AllStored (s : AudioWorld) (parts : List RecordingUploadPart) : Prop :=
  ∀ part ∈ parts, PartStored H ((s.meetings meetingId).uploadParts uploadId) part

/-- Each part that the staging manifest lists is stored. -/
def ListedStored (s : AudioWorld) : Prop :=
  ∀ manifest, stagingManifest meetingId uploadId s = some manifest →
    AllStored H meetingId uploadId s manifest.parts

/-- A deletion of the staged objects that is done with a part and has still to remove the manifest. -/
def PastPart (phase : Phase) (index : ℕ) : Prop :=
  ∃ deletion listed, phase.deletion? = some deletion ∧ deletion.meetingId = meetingId ∧
    deletion.uploadId = uploadId ∧ deletion.listed = some listed ∧ .manifest ∈ listed ∧
    .part index ∉ listed

/-- A save begins, and a deletion stops, only where no deletion with the manifest still before it is past a
part that the manifest lists; a part is removed only where no save relies on it, and before the manifest that
lists it; and a listing names parts that are there. -/
def PartsKept (s : AudioWorld) : AudioEvent → Prop
  | .stage callId => ∀ input, s.calls callId = .staging input → input.meetingId = meetingId →
    input.metadata.uploadId = uploadId → ∀ manifest, stagingManifest meetingId uploadId s = some manifest →
    ∀ part ∈ manifest.parts, ∀ other, ¬PastPart meetingId uploadId (s.calls other) part.index
  | .list callId listed => ∀ deletion, (s.calls callId).deletion? = some deletion →
    deletion.meetingId = meetingId → deletion.uploadId = uploadId → ∀ index, .part index ∈ listed →
    ((s.meetings meetingId).uploadParts uploadId index).isSome
  | .remove callId (.part index) => ∀ deletion listed, (s.calls callId).deletion? = some deletion →
    deletion.meetingId = meetingId → deletion.uploadId = uploadId → deletion.listed = some listed →
    (∀ other, (s.calls other).upload? = some (meetingId, uploadId) →
      ∀ part ∈ Phase.reliesOn (s.calls other), part.index ≠ index) ∧
    ∀ manifest, stagingManifest meetingId uploadId s = some manifest →
      (∃ part ∈ manifest.parts, part.index = index) →
      (.manifest ∈ listed ∧ .part index ∉ listed.erase (.part index)) ∨
        ∃ other ≠ callId, PastPart meetingId uploadId (s.calls other) index
  | .endDeletion callId | .crash callId => ∀ manifest, stagingManifest meetingId uploadId s = some manifest →
    ∀ part ∈ manifest.parts, PastPart meetingId uploadId (s.calls callId) part.index →
    ∃ other ≠ callId, PastPart meetingId uploadId (s.calls other) part.index
  | .removeMeeting id => id = meetingId → ∀ callId, (s.calls callId).upload? = some (meetingId, uploadId) →
    Phase.reliesOn (s.calls callId) = []
  | _ => True

/-- What holds for the staged objects between two steps. -/
structure StagingInv (s : AudioWorld) : Prop where
  held : UploadsHeld s
  sound : CallsSound H s
  relied : ∀ callId, (s.calls callId).upload? = some (meetingId, uploadId) →
    AllStored H meetingId uploadId s (Phase.reliesOn (s.calls callId))
  before : ∀ callId input next manifest, Phase.save? (s.calls callId) = some (input, next) →
    input.meetingId = meetingId → input.metadata.uploadId = uploadId →
    stagingManifest meetingId uploadId s = some manifest → Continues input manifest next
  /-- What the manifest lists is stored, or gone while a deletion has still to remove the manifest. -/
  listed : ∀ manifest, stagingManifest meetingId uploadId s = some manifest → ∀ part ∈ manifest.parts,
    PartStored H ((s.meetings meetingId).uploadParts uploadId) part ∨
      (s.meetings meetingId).uploadParts uploadId part.index = none ∧
        ∃ callId, PastPart meetingId uploadId (s.calls callId) part.index

end Parts

section Steps

variable {meetingId : MeetingId} {uploadId : UploadId} {e : AudioEvent × Option Answer}

variable {deletion : Deletion}

theorem deletion?_withDeletion {phase : Phase} {deletion' : Deletion} (h : phase.deletion? = some deletion) :
    (phase.withDeletion deletion').deletion? = some deletion' := by
  cases phase with
  | sweepingStaged | deleting => rfl
  | _ => cases h

theorem upload?_of_deletion {phase : Phase} (h : phase.deletion? = some deletion) : phase.upload? = none := by
  cases phase with
  | sweepingStaged | deleting => rfl
  | _ => cases h

theorem pastPart_deletion {phase : Phase} {listed : List StagingKey} {index : ℕ}
    (hdeletion : phase.deletion? = some deletion) (hmeeting : deletion.meetingId = meetingId)
    (hupload : deletion.uploadId = uploadId) (hmanifest : .manifest ∈ listed) (hpart : .part index ∉ listed) :
    PastPart meetingId uploadId (phase.withDeletion { deletion with listed := some listed }) index :=
  ⟨_, listed, deletion?_withDeletion hdeletion, hmeeting, hupload, rfl, hmanifest, hpart⟩

/-- A deletion that is past a part stays so until it removes the manifest, or leaves it to another one. -/
theorem pastPart_step {part : RecordingUploadPart} (hstep : AudioStep H policy s e t)
    (hkept : PartsKept meetingId uploadId s e.1) (hbefore : stagingManifest meetingId uploadId s = some manifest)
    (hpart : part ∈ manifest.parts) (hafter : stagingManifest meetingId uploadId t ≠ none)
    (hgone : (s.meetings meetingId).uploadParts uploadId part.index = none)
    (h : ∃ callId, PastPart meetingId uploadId (s.calls callId) part.index) :
    ∃ callId, PastPart meetingId uploadId (t.calls callId) part.index := by
  obtain ⟨event, answer⟩ := e
  obtain ⟨callId, hpast⟩ := h
  rcases step_calls hstep with ⟨-, hsame⟩ | ⟨moved, hevent, hmove⟩
  · exact ⟨callId, hsame.calls ▸ hpast⟩
  by_cases hid : callId = moved
  swap
  · exact ⟨callId, hmove.others callId hid ▸ hpast⟩
  subst hid
  -- a deletion that stops leaves the part to another one
  have hstops : (∃ other ≠ callId, PastPart meetingId uploadId (s.calls other) part.index) →
      ∃ other, PastPart meetingId uploadId (t.calls other) part.index := by
    rintro ⟨other, hne, hother⟩
    exact ⟨other, hmove.others other hne ▸ hother⟩
  have hphase := hmove.phase
  obtain ⟨deletion, listed, hdeletion, hmeeting, hupload, hlisted, hmanifest, hnot⟩ := hpast
  have hpast : PastPart meetingId uploadId (s.calls callId) part.index :=
    ⟨deletion, listed, hdeletion, hmeeting, hupload, hlisted, hmanifest, hnot⟩
  dsimp only at hphase hkept
  generalize hphaseBefore : s.calls callId = phase at hphase hdeletion
  generalize hphaseAfter : t.calls callId = phase' at hphase
  cases hphase with
  | ends hnone =>
    rw [hnone] at hdeletion
    cases hdeletion
  | crashes | leaves | deleted => exact hstops (hkept manifest hbefore part hpart hpast)
  | @lists _ deletion' listed' h =>
    rw [h] at hdeletion
    cases hdeletion
    have hcomplete := (hstep.1 deletion (hphaseBefore ▸ h)).1
    have hthere := hkept deletion (hphaseBefore ▸ h) hmeeting hupload part.index
    rw [hmeeting, hupload] at hcomplete
    refine ⟨callId, hphaseAfter ▸ pastPart_deletion h hmeeting hupload
      (hcomplete (Option.isSome_iff_exists.mpr ⟨manifest, hbefore⟩)) fun hmem => ?_⟩
    have hsome := hthere hmem
    rw [hgone] at hsome
    cases hsome
  | @removes _ deletion' key h =>
    rw [h] at hdeletion
    cases hdeletion
    cases key with
    | manifest =>
      refine absurd ?_ hafter
      have hremoves := hstep.2
      simp only [step, hphaseBefore, h] at hremoves
      split_ifs at hremoves
      rw [world_of_some hremoves, ← hmeeting, ← hupload]
      unfold stagingManifest stepRemove removeStaged
      rw [AudioWorld.setPhase_meetings, AudioWorld.setObjects_meetings, Function.update_self]
      exact Function.update_self _ _ _
    | part index =>
      refine ⟨callId, hphaseAfter ▸ ?_⟩
      rw [hlisted]
      exact pastPart_deletion h hmeeting hupload
        ((List.mem_erase_of_ne fun heq => by cases heq).mpr hmanifest)
        (fun hmem => hnot (List.mem_of_mem_erase hmem))
  | _ => cases hdeletion

theorem mem_otherParts {part : RecordingUploadPart} :
    part ∈ otherParts input manifest ↔ part ∈ manifest.parts ∧ part.index ≠ input.partIndex := by
  unfold otherParts
  rw [List.mem_filter, decide_eq_true_iff]

/-- After a part was removed, the deletion that removed it is past it, or another one is. -/
theorem pastPart_removed {index : ℕ} {answer : Option Answer}
    (hstep : AudioStep H policy s (.remove callId (.part index), answer) t)
    (hkept : PartsKept meetingId uploadId s (.remove callId (.part index)))
    (hdeletion : (s.calls callId).deletion? = some deletion) (hmeeting : deletion.meetingId = meetingId)
    (hupload : deletion.uploadId = uploadId) (hlisted : stagingManifest meetingId uploadId s = some manifest)
    (hpart : ∃ part ∈ manifest.parts, part.index = index) :
    ∃ other, PastPart meetingId uploadId (t.calls other) index := by
  have hremoves := hstep.2
  simp only [step, hdeletion] at hremoves
  split_ifs at hremoves with hcontains
  obtain ⟨listed, hsome, -⟩ := (Option.any_eq_true _ _).mp hcontains
  have hcalls : t.calls = Function.update s.calls callId
      ((s.calls callId).withDeletion { deletion with listed := some (listed.erase (.part index)) }) := by
    rw [world_of_some hremoves, stepRemove, AudioWorld.setPhase_calls, hsome]
    rfl
  rcases (hkept deletion listed hdeletion hmeeting hupload hsome).2 manifest hlisted hpart with
    ⟨hmanifest, hnot⟩ | ⟨other, hne, hpast⟩
  · refine ⟨callId, ?_⟩
    rw [hcalls, Function.update_self]
    exact pastPart_deletion hdeletion hmeeting hupload
      ((List.mem_erase_of_ne fun heq => by cases heq).mpr hmanifest) hnot
  · refine ⟨other, ?_⟩
    rw [hcalls, Function.update_of_ne hne]
    exact hpast

/-- What is listed stays stored, or a deletion that has removed it has still to remove the list. -/
theorem listed_step (hs : StagingInv H meetingId uploadId s) (hstep : AudioStep H policy s e t)
    (hkept : PartsKept meetingId uploadId s e.1) (manifest : RecordingUploadManifest)
    (hafter : stagingManifest meetingId uploadId t = some manifest) (part : RecordingUploadPart)
    (hpart : part ∈ manifest.parts) :
    PartStored H ((t.meetings meetingId).uploadParts uploadId) part ∨
      (t.meetings meetingId).uploadParts uploadId part.index = none ∧
        ∃ callId, PastPart meetingId uploadId (t.calls callId) part.index := by
  have hpast : stagingManifest meetingId uploadId s = some manifest →
      (s.meetings meetingId).uploadParts uploadId part.index = none →
      (∃ callId, PastPart meetingId uploadId (s.calls callId) part.index) →
      ∃ callId, PastPart meetingId uploadId (t.calls callId) part.index := fun hbefore hgone h =>
    pastPart_step hstep hkept hbefore hpart (by rw [hafter]; simp) hgone h
  have hchange : StagedChange meetingId uploadId s e.1 (t.meetings meetingId) :=
    staged_change hstep hs.sound
  cases hchange with
  | same hmanifest hparts =>
    have hbefore : stagingManifest meetingId uploadId s = some manifest := hmanifest.symm.trans hafter
    rw [hparts]
    exact (hs.listed manifest hbefore part hpart).imp_right fun h => ⟨h.1, hpast hbefore h.1 h.2⟩
  | @part callId input next _ hphase hkey hmanifest hparts =>
    have hbefore : stagingManifest meetingId uploadId s = some manifest := hmanifest.symm.trans hafter
    rw [hphase] at hkey
    cases hkey
    have hsave : Phase.save? (s.calls callId) = some (input, next) := by
      rw [hphase]
      rfl
    have hother := (hs.before callId input next manifest hsave rfl rfl hbefore).parts hpart
    have hne := (mem_otherParts.mp hother).2
    rw [hparts, Function.update_of_ne hne]
    exact (hs.listed manifest hbefore part hpart).imp (partStored_of_ne hne)
      fun h => ⟨h.1, hpast hbefore h.1 h.2⟩
  | @manifest callId input next _ hphase hkey hmanifest hparts =>
    have hrelied := hs.relied callId hkey
    rw [hphase] at hrelied
    cases hmanifest.symm.trans hafter
    rw [hparts]
    exact .inl (hrelied part hpart)
  | unlisted _ _ _ _ hmanifest | cleared _ hmanifest => cases hmanifest.symm.trans hafter
  | @removed callId deletion index hevent hdeletion hmeeting hupload hmanifest hparts =>
    obtain ⟨event, answer⟩ := e
    dsimp only at hevent hkept
    subst hevent
    have hbefore : stagingManifest meetingId uploadId s = some manifest := hmanifest.symm.trans hafter
    rw [hparts]
    by_cases hindex : part.index = index
    · refine .inr ⟨by rw [hindex, Function.update_self], hindex ▸ ?_⟩
      exact pastPart_removed hstep hkept hdeletion hmeeting hupload hbefore ⟨part, hpart, hindex⟩
    · rw [Function.update_of_ne hindex]
      exact (hs.listed manifest hbefore part hpart).imp (partStored_of_ne hindex)
        fun h => ⟨h.1, hpast hbefore h.1 h.2⟩

theorem listed_of_removed {key : StagingKey} (hstep : AudioStep H policy s e t) (hevent : e.1 = .remove callId key)
    (hdeletion : (s.calls callId).deletion? = some deletion) : ∃ listed, deletion.listed = some listed := by
  have hremoves := hstep.2
  rw [hevent] at hremoves
  simp only [step, hdeletion] at hremoves
  split_ifs at hremoves with hcontains
  obtain ⟨listed, hsome, -⟩ := (Option.any_eq_true _ _).mp hcontains
  exact ⟨listed, hsome⟩

/-- A save finds the parts that it relies on as they were. -/
theorem relied_same (hs : StagingInv H meetingId uploadId s) (hstep : AudioStep H policy s e t)
    (hkept : PartsKept meetingId uploadId s e.1) (hkey : (s.calls callId).upload? = some (meetingId, uploadId))
    (hmoved : callOf e.1 ≠ some callId) : AllStored H meetingId uploadId t (Phase.reliesOn (s.calls callId)) := by
  intro part hpart
  have hbefore := hs.relied callId hkey part hpart
  have hchange : StagedChange meetingId uploadId s e.1 (t.meetings meetingId) :=
    staged_change hstep hs.sound
  cases hchange with
  | same _ hparts | manifest _ _ _ _ hparts | unlisted _ _ _ _ _ hparts =>
    rw [hparts]
    exact hbefore
  | part hevent _ hother =>
    refine absurd ?_ hmoved
    rw [hevent, hs.held.unique hkey hother]
    rfl
  | removed hevent hdeletion hmeeting hupload _ hparts =>
    rw [hevent] at hkept
    obtain ⟨listed, hlisted⟩ := listed_of_removed hstep hevent hdeletion
    rw [hparts]
    exact partStored_of_ne ((hkept _ listed hdeletion hmeeting hupload hlisted).1 callId hkey part hpart)
      hbefore
  | cleared hevent =>
    rw [hevent] at hkept
    rw [hkept rfl callId hkey] at hpart
    cases hpart

/-- A save that begins relies on what is listed. -/
theorem relied_stores (hs : StagingInv H meetingId uploadId s)
    (hkept : PartsKept meetingId uploadId s (.stage callId)) (hphase : s.calls callId = .staging input)
    (hmeeting : input.meetingId = meetingId) (hupload : input.metadata.uploadId = uploadId)
    (hplan : planRecordingUploadPart s.now input (s.meetings input.meetingId) = .ok (.store manifest)) :
    AllStored H meetingId uploadId s (otherParts input manifest) := by
  obtain ⟨-, before, hbefore, -, -, hparts, rfl⟩ := plan_store hplan
  rw [otherParts_withPart hparts]
  have hpast := hkept input hphase hmeeting hupload
  subst hmeeting hupload
  unfold stagingManifest at hpast
  cases hlisted : (s.meetings input.meetingId).uploadManifests input.metadata.uploadId with
  | none =>
    rw [hlisted] at hbefore
    rw [← hbefore]
    intro part hpart
    cases hpart
  | some stored =>
    rw [hlisted] at hbefore
    rw [← hbefore]
    intro part hpart
    -- a part that is gone has a deletion that is past it
    rcases hs.listed stored hlisted part hpart with hstored | ⟨-, other, hother⟩
    · exact hstored
    · exact absurd hother (hpast stored hlisted part hpart other)

/-- The part of a save is stored as the manifest of the save lists it. -/
theorem relied_storedPart {answer : Option Answer} (hs : StagingInv H meetingId uploadId s)
    (hstep : AudioStep H policy s (.putPart callId, answer) t)
    (hphase : s.calls callId = .storingPart input manifest) (hmeeting : input.meetingId = meetingId)
    (hupload : input.metadata.uploadId = uploadId) : AllStored H meetingId uploadId t manifest.parts := by
  subst hmeeting hupload
  have hput := hstep.2
  simp only [step, hphase] at hput
  have hparts : (t.meetings input.meetingId).uploadParts input.metadata.uploadId =
      Function.update ((s.meetings input.meetingId).uploadParts input.metadata.uploadId) input.partIndex
        (some input.buffer) := by
    rw [world_of_some hput]
    unfold stepPutPart MeetingObjects.putUploadPart
    rw [AudioWorld.setPhase_meetings, AudioWorld.setObjects_meetings, Function.update_self]
    exact Function.update_self _ _ _
  have hsound : PhaseSound H (.storingPart input manifest) := hphase ▸ hs.sound callId
  obtain ⟨haccepted, hplanned⟩ := hsound
  obtain ⟨receivedAt, hlisted⟩ := hplanned.parts
  have hrelied := hs.relied callId (by rw [hphase]; rfl)
  rw [hphase] at hrelied
  intro part hpart
  rw [hparts]
  rw [hlisted, List.mem_append, List.mem_singleton] at hpart
  rcases hpart with hother | rfl
  · exact partStored_of_ne (mem_otherParts.mp hother).2 (hrelied part hother)
  · exact ⟨input.buffer, Function.update_self _ _ _, rfl, haccepted.sha256.symm⟩

theorem relied_step (hs : StagingInv H meetingId uploadId s) (hstep : AudioStep H policy s e t)
    (hkept : PartsKept meetingId uploadId s e.1) (callId : CallId)
    (hkey : (t.calls callId).upload? = some (meetingId, uploadId)) :
    AllStored H meetingId uploadId t (Phase.reliesOn (t.calls callId)) := by
  rcases step_calls hstep with ⟨hevent, hsame⟩ | ⟨moved, hevent, hmove⟩
  · rw [hsame.calls] at hkey ⊢
    refine relied_same hs hstep hkept hkey ?_
    rw [hevent]
    exact fun heq => by cases heq
  by_cases hid : callId = moved
  swap
  · rw [hmove.others callId hid] at hkey ⊢
    refine relied_same hs hstep hkept hkey ?_
    rw [hevent]
    exact fun heq => hid (Option.some.inj heq).symm
  subst hid
  obtain ⟨event, answer⟩ := e
  have hphase := hmove.phase
  dsimp only at hphase hkept
  generalize hbefore : s.calls callId = phase at hphase
  generalize t.calls callId = phase' at hphase hkey
  cases hphase with
  | @stores input manifest hplan =>
    have hmeeting' : t.meetings meetingId = s.meetings meetingId :=
      (step_objects hstep).others (fun heq => by cases heq)
    cases hkey
    unfold AllStored
    rw [hmeeting']
    exact relied_stores hs hkept hbefore rfl rfl hplan
  | @storedPart input manifest =>
    cases hkey
    exact relied_storedPart hs hstep hbefore rfl rfl
  | lists h | removes h =>
    rw [upload?_withDeletion, upload?_of_deletion h] at hkey
    cases hkey
  | looks =>
    rw [(sweepNext_locks _ _ _ _).2] at hkey
    cases hkey
  | _ => cases hkey

theorem upload?_of_save {phase : Phase} {next : RecordingUploadManifest} (h : Phase.save? phase = some (input, next)) :
    phase.upload? = some (input.meetingId, input.metadata.uploadId) := by
  cases phase with
  | storingPart | storingManifest =>
    cases h
    rfl
  | _ => cases h

/-- The manifest that a save goes on from is the one that is stored. -/
theorem before_same {next : RecordingUploadManifest} (hs : StagingInv H meetingId uploadId s)
    (hstep : AudioStep H policy s e t) (hsave : Phase.save? (s.calls callId) = some (input, next))
    (hmeeting : input.meetingId = meetingId) (hupload : input.metadata.uploadId = uploadId)
    (hmoved : callOf e.1 ≠ some callId) (hlisted : stagingManifest meetingId uploadId t = some manifest) :
    Continues input manifest next := by
  have hchange : StagedChange meetingId uploadId s e.1 (t.meetings meetingId) :=
    staged_change hstep hs.sound
  cases hchange with
  | same hmanifest | part _ _ _ hmanifest | removed _ _ _ _ hmanifest =>
    exact hs.before callId input next manifest hsave hmeeting hupload (hmanifest.symm.trans hlisted)
  | manifest hevent _ hother =>
    refine absurd ?_ hmoved
    have hkey := upload?_of_save hsave
    rw [hmeeting, hupload] at hkey
    rw [hevent, hs.held.unique hkey hother]
    rfl
  | unlisted _ _ _ _ hmanifest | cleared _ hmanifest =>
    cases hmanifest.symm.trans hlisted

theorem continues_withPart {before : RecordingUploadManifest}
    (h : ∀ part ∈ before.parts, part.index ≠ input.partIndex) :
    Continues input before (withPart now input before) := by
  refine ⟨rfl, rfl, ?_⟩
  rw [otherParts_withPart h]
  exact fun _ hpart => hpart

/-- The saves of a step are those before it, or one that begins. -/
theorem save_step {next : RecordingUploadManifest} (hstep : AudioStep H policy s e t)
    (hsave : Phase.save? (t.calls callId) = some (input, next)) :
    Phase.save? (s.calls callId) = some (input, next) ∧
        (callOf e.1 ≠ some callId ∨ e.1 = .putPart callId) ∨
      e.1 = .stage callId ∧ s.calls callId = .staging input ∧
        planRecordingUploadPart s.now input (s.meetings input.meetingId) = .ok (.store next) := by
  rcases step_calls hstep with ⟨hevent, hsame⟩ | ⟨moved, hevent, hmove⟩
  · refine .inl ⟨hsame.calls ▸ hsave, .inl ?_⟩
    rw [hevent]
    exact fun heq => by cases heq
  by_cases hid : callId = moved
  swap
  · refine .inl ⟨hmove.others callId hid ▸ hsave, .inl ?_⟩
    rw [hevent]
    exact fun heq => hid (Option.some.inj heq).symm
  subst hid
  obtain ⟨event, answer⟩ := e
  have hphase := hmove.phase
  dsimp only at hphase ⊢
  generalize s.calls callId = phase at hphase
  generalize t.calls callId = phase' at hphase hsave
  cases hphase with
  | stores hplan =>
    cases hsave
    exact .inr ⟨rfl, rfl, hplan⟩
  | storedPart => exact .inl ⟨hsave, .inr rfl⟩
  | lists h | removes h =>
    have hkey := upload?_of_save hsave
    rw [upload?_withDeletion, upload?_of_deletion h] at hkey
    cases hkey
  | looks =>
    have hkey := upload?_of_save hsave
    rw [(sweepNext_locks _ _ _ _).2] at hkey
    cases hkey
  | _ => cases hsave

theorem stagingManifest_putPart {answer : Option Answer} (hstep : AudioStep H policy s (.putPart callId, answer) t) :
    stagingManifest meetingId uploadId t = stagingManifest meetingId uploadId s := by
  have hput := hstep.2
  simp only [step] at hput
  split at hput
  · rename_i input manifest hphase
    rw [world_of_some hput]
    unfold stagingManifest stepPutPart
    rw [AudioWorld.setPhase_meetings, AudioWorld.setObjects_meetings]
    by_cases hmeeting : meetingId = input.meetingId
    · rw [hmeeting, Function.update_self]
      rfl
    · rw [Function.update_of_ne hmeeting]
  · cases hput

theorem before_step (hs : StagingInv H meetingId uploadId s) (hstep : AudioStep H policy s e t)
    (callId : CallId) (input : PartInput) (next manifest : RecordingUploadManifest)
    (hsave : Phase.save? (t.calls callId) = some (input, next)) (hmeeting : input.meetingId = meetingId)
    (hupload : input.metadata.uploadId = uploadId)
    (hlisted : stagingManifest meetingId uploadId t = some manifest) : Continues input manifest next := by
  obtain ⟨event, answer⟩ := e
  rcases save_step hstep hsave with ⟨hsave, hmoved | hevent⟩ | ⟨hevent, -, hplan⟩
  · exact before_same hs hstep hsave hmeeting hupload hmoved hlisted
  · dsimp only at hevent
    subst hevent
    rw [stagingManifest_putPart hstep] at hlisted
    exact hs.before callId input next manifest hsave hmeeting hupload hlisted
  · dsimp only at hevent
    subst hevent hmeeting hupload
    have hsame : t.meetings input.meetingId = s.meetings input.meetingId :=
      (step_objects hstep).others (fun heq => by cases heq)
    obtain ⟨-, before, hbefore, -, -, hparts, rfl⟩ := plan_store hplan
    unfold stagingManifest at hlisted
    rw [hsame] at hlisted
    rw [hlisted, Option.getD_some] at hbefore
    rw [hbefore]
    exact continues_withPart hparts

/-- What a step keeps. -/
theorem stagingInv_step (hs : StagingInv H meetingId uploadId s) (hstep : AudioStep H policy s e t)
    (hkept : PartsKept meetingId uploadId s e.1) : StagingInv H meetingId uploadId t :=
  ⟨uploadsHeld_step hstep hs.held, callsSound_step hstep hs.sound, relied_step hs hstep hkept,
    before_step hs hstep, listed_step hs hstep hkept⟩

theorem Quiet.stagingInv (h : Quiet s) (hlisted : ListedStored H meetingId uploadId s) :
    StagingInv H meetingId uploadId s := by
  have hnone : ∀ callId, (s.calls callId).upload? = none := by
    intro callId
    rw [h.idle callId]
    rfl
  refine ⟨h.uploadsHeld, fun callId => ?_, fun callId hkey => ?_, fun callId _ _ _ hsave => ?_,
    fun manifest hstored part hpart => .inl (hlisted manifest hstored part hpart)⟩
  · rw [h.idle callId]
    trivial
  · rw [hnone callId] at hkey
    cases hkey
  · rw [h.idle callId] at hsave
    cases hsave

/-- Where no call is under way, every listed part is stored. -/
theorem StagingInv.listedStored (h : StagingInv H meetingId uploadId s)
    (hidle : ∀ callId, s.calls callId = .idle) : ListedStored H meetingId uploadId s := by
  intro manifest hstored part hpart
  rcases h.listed manifest hstored part hpart with hkept | ⟨-, callId, deletion, listed, hdeletion, -⟩
  · exact hkept
  · rw [hidle callId] at hdeletion
    cases hdeletion

end Steps

end OwnMinutes.Audio.Staging
