import OwnMinutes.Audio.Commits

/-! # Receipts of committed recordings

A receipt that is stored, or that a call carries along, is for the recording that the meeting holds
(`Committed`): an invariant of the runs in which each commit publishes its recording alone
(`RecordingKept`). -/

namespace OwnMinutes.Audio.Receipts

open OwnMinutes.Auth.ProcessingRoute OwnMinutes.Auth.Records OwnMinutes.Finalizer.Records
open OwnMinutes.Lib.Crash OwnMinutes.Lib.Runs OwnMinutes.Lib.Outcome OwnMinutes.Audio.Records
open OwnMinutes.Audio.Store OwnMinutes.Audio.Runs OwnMinutes.Audio.Sections OwnMinutes.Audio.Changes
open OwnMinutes.Audio.Phases OwnMinutes.Audio.Replays OwnMinutes.Audio.Seals OwnMinutes.Audio.IntactAudio
open OwnMinutes.Audio.Staging OwnMinutes.Audio.Commits

variable {H : Hashing} {policy : RecordingUploadResourcePolicy} {s t : AudioWorld}

section Upload

variable (H : Hashing) (policy : RecordingUploadResourcePolicy) (meetingId : MeetingId)
  (uploadId : UploadId) (A : RecordingUploadManifest → Bytes → Prop)

/-- The stored receipt of the upload. -/
def receiptAt (s : AudioWorld) : Option RecordingUploadReceipt :=
  (s.meetings meetingId).uploadReceipts uploadId

/-- A receipt of the upload is stored, or on its way. -/
def Published (s : AudioWorld) : Prop :=
  (receiptAt meetingId uploadId s).isSome ∨
    ∃ callId receipt, Phase.receipt? (s.calls callId) = some ((meetingId, uploadId), receipt)

/-- A commit publishes its recording alone, and no chunk is saved after that; the objects of recordings do not
get over one another, and the meeting is not removed. -/
def RecordingKept (s : AudioWorld) : AudioEvent → Prop
  | .saveChunk input _ => input.meetingId = meetingId → ¬ Published meetingId uploadId s
  | .publishCommit callId _ => ∀ input prepared, s.calls callId = .publishing input prepared →
    input.meetingId = meetingId → Sole (s.meetings meetingId) prepared
  | e => AudioKept H meetingId s e

/-- A step that keeps the recordings of the meeting. -/
def KeepsRecording (s : AudioWorld) (e : AudioEvent × Option Answer) (t : AudioWorld) : Prop :=
  AudioStep H policy s e t ∧ RecordingKept H meetingId uploadId s e.1

/-- A receipt is for the recording that the meeting holds, which was assembled as `A` says. -/
structure Committed (o : MeetingObjects) (receipt : RecordingUploadReceipt)
    (manifest : RecordingUploadManifest) (content : Bytes) : Prop where
  assembled : A manifest content
  holds : Holds H o content
  length : content.length = manifest.totalBytes
  sized : Sized manifest.totalBytes
  metadata : receipt.uploadMetadata = manifest.toRecordingUploadMetadata
  totalBytes : receipt.totalBytes = manifest.totalBytes
  audioRevision : receipt.audioRevision = some (revision H o)

/-- What holds between two steps. -/
structure ReceiptsInv (s : AudioWorld) : Prop where
  sound : CallsSound H s
  tidy : Tidy (stored s meetingId)
  staged : ∀ uploadId manifest, stagingManifest meetingId uploadId s = some manifest →
    Sized manifest.totalBytes
  prepared : ∀ callId input prepared, Phase.prepared? (s.calls callId) = some (input, prepared) →
    prepared.content.length = prepared.manifest.totalBytes ∧ (input.meetingId = meetingId →
      Sized prepared.manifest.totalBytes ∧
        (input.uploadId = uploadId → A prepared.manifest prepared.content))
  named : ∀ callId input receipt, s.calls callId = .storingReceipt input receipt →
    receipt.uploadId = input.uploadId
  receipts : ∀ receipt, receiptAt meetingId uploadId s = some receipt →
    ∃ manifest content, Committed H A (s.meetings meetingId) receipt manifest content
  pending : ∀ callId receipt, Phase.receipt? (s.calls callId) = some ((meetingId, uploadId), receipt) →
    (∃ manifest content, Committed H A (s.meetings meetingId) receipt manifest content) ∧
      ((∃ input, s.calls callId = .storingReceipt input receipt) ∨
        (receiptAt meetingId uploadId s).isSome)

end Upload

section Steps

variable {meetingId : MeetingId} {uploadId : UploadId} {A : RecordingUploadManifest → Bytes → Prop}
  {e : AudioEvent × Option Answer}

theorem RecordingKept.audioKept (h : RecordingKept H meetingId uploadId s e.1) :
    AudioKept H meetingId s e.1 := by
  obtain ⟨event, answer⟩ := e
  cases event with
  | saveChunk => trivial
  | publishCommit callId stop =>
    exact fun input prepared hphase hmeeting => (h input prepared hphase hmeeting).publishable
  | _ => exact h

theorem ReceiptsInv.preparedSound (hs : ReceiptsInv H meetingId uploadId A s) : PreparedSound s :=
  fun callId input prepared h => (hs.prepared callId input prepared h).1

/-! ### The recording that the meeting holds -/

/-- **A step leaves the recording that a meeting holds**, once a receipt is on its way. -/
theorem holds_step {content : Bytes} (hinj : Function.Injective H.sha256)
    (hs : ReceiptsInv H meetingId uploadId A s) (hstep : KeepsRecording H policy meetingId uploadId s e t)
    (hpublished : Published meetingId uploadId s) (h : Holds H (s.meetings meetingId) content)
    (hsized : Sized content.length) :
    Holds H (t.meetings meetingId) content ∧
      revision H (t.meetings meetingId) = revision H (s.meetings meetingId) := by
  obtain ⟨hstep, hkept⟩ := hstep
  by_cases htouched : touched s e.1 = some meetingId
  swap
  · rw [(step_objects hstep).others htouched]
    exact ⟨h, rfl⟩
  have hchange := (step_objects hstep).touched htouched
  obtain ⟨event, answer⟩ := e
  dsimp only at hkept htouched hchange
  by_cases hpublish : ∃ callId stop, event = .publishCommit callId stop
  · obtain ⟨callId, stop, rfl⟩ := hpublish
    rcases @objects_publishCommit _ _ _ _ meetingId _ _ _ hstep with
      hsame | ⟨input, prepared, m, hphase, hmeeting, hfrom, heq⟩
    · rw [hsame]
      exact ⟨h, rfl⟩
    · have hsole := hkept input prepared hphase hmeeting
      obtain ⟨hlength, hmine⟩ := hs.prepared callId input prepared (by rw [hphase]; rfl)
      obtain ⟨hsame, hrevision⟩ := @revision_publish _ _ _ _ s.now input _ hsole hfrom h
      rw [heq, ← hsame]
      exact ⟨(holds_publish hsole hfrom hlength (hmine hmeeting).1).1, hrevision⟩
  generalize t.meetings meetingId = o at hchange
  cases hchange with
  | written hwritten =>
    refine holds_written h hsized hwritten (fun hw => ?_) fun hw => ?_
    · cases event with
      | saveChunk input stop =>
        simp only [touched, Option.some.injEq] at htouched
        exact hkept htouched hpublished
      | readStatus | beginCommit | answerReceipt =>
        simp only [writerOf, receiptWriter] at hw
        split at hw <;> cases hw
      | _ => cases hw
    · cases event with
      | publishCommit callId stop => exact hpublish ⟨callId, stop, rfl⟩
      | readStatus | beginCommit | answerReceipt =>
        simp only [writerOf, receiptWriter] at hw
        split at hw <;> cases hw
      | _ => cases hw
  | part | partManifest | receipt => exact h.congr rfl (.refl _)
  | unstaged =>
    refine h.congr (removeStaged_chunks _ _ _) ?_
    rw [listing_of_manifest (removeStaged_manifest _ _ _)]
    exact .refl _
  | @recording callId input prepared hevent hphase =>
    subst hevent
    have hmeeting : input.meetingId = meetingId := by
      simpa only [touched, hphase, Option.some.injEq] using htouched
    exact ⟨holds_put hinj h (hkept input prepared hphase hmeeting), rfl⟩
  | removed hevent =>
    subst hevent
    exact absurd rfl hkept

variable {receipt : RecordingUploadReceipt}

theorem committed_step {manifest : RecordingUploadManifest} {content : Bytes} (hinj : Function.Injective H.sha256)
    (hs : ReceiptsInv H meetingId uploadId A s) (hstep : KeepsRecording H policy meetingId uploadId s e t)
    (hpublished : Published meetingId uploadId s) (h : Committed H A (s.meetings meetingId) receipt manifest content) :
    Committed H A (t.meetings meetingId) receipt manifest content := by
  obtain ⟨hholds, hrevision⟩ := holds_step hinj hs hstep hpublished h.holds (h.length ▸ h.sized)
  exact { h with holds := hholds, audioRevision := hrevision ▸ h.audioRevision }

/-! ### Receipts -/

/-- A receipt is stored by the call that carries it, and never removed. -/
theorem receiptAt_step (hstep : KeepsRecording H policy meetingId uploadId s e t) :
    receiptAt meetingId uploadId t = receiptAt meetingId uploadId s ∨
      ∃ callId input receipt, e.1 = .putReceipt callId ∧ s.calls callId = .storingReceipt input receipt ∧
        input.meetingId = meetingId ∧ receipt.uploadId = uploadId ∧
        receiptAt meetingId uploadId t = some receipt := by
  obtain ⟨hstep, hkept⟩ := hstep
  by_cases htouched : touched s e.1 = some meetingId
  swap
  · refine .inl ?_
    unfold receiptAt
    rw [(step_objects hstep).others htouched]
  have hchange := (step_objects hstep).touched htouched
  obtain ⟨event, answer⟩ := e
  dsimp only at hkept htouched hchange ⊢
  unfold receiptAt
  generalize t.meetings meetingId = o at hchange ⊢
  cases hchange with
  | written h => exact .inl (by rw [h.staged.2.2])
  | part | partManifest | recording => exact .inl rfl
  | @unstaged callId deletion key => cases key <;> exact .inl rfl
  | removed hevent =>
    subst hevent
    exact absurd rfl hkept
  | @receipt callId input receipt hevent hphase =>
    subst hevent
    simp only [touched, hphase, Option.some.injEq] at htouched
    by_cases hid : receipt.uploadId = uploadId
    · refine .inr ⟨callId, input, receipt, rfl, hphase, htouched, hid, ?_⟩
      rw [← hid]
      exact Function.update_self _ _ _
    · exact .inl (Function.update_of_ne (Ne.symm hid) _ _)

theorem receiptAt_stays (hstep : KeepsRecording H policy meetingId uploadId s e t)
    (h : (receiptAt meetingId uploadId s).isSome) : (receiptAt meetingId uploadId t).isSome := by
  rcases receiptAt_step hstep with hsame | ⟨-, -, receipt, -, -, -, -, hput⟩
  · rw [hsame]
    exact h
  · rw [hput]
    rfl

theorem receiptAt_put {callId : CallId} {answer : Option Answer} {input : UploadInput}
    (hstep : AudioStep H policy s (.putReceipt callId, answer) t)
    (hphase : s.calls callId = .storingReceipt input receipt) (hnamed : receipt.uploadId = input.uploadId) :
    receiptAt input.meetingId input.uploadId t = some receipt := by
  have hput := hstep.2
  simp only [step, hphase] at hput
  rw [world_of_some hput]
  unfold receiptAt stepPutReceipt
  rw [AudioWorld.setPhase_meetings, AudioWorld.setObjects_meetings, Function.update_self, ← hnamed]
  exact Function.update_self _ _ _

theorem staged_step (hs : ReceiptsInv H meetingId uploadId A s) (hstep : AudioStep H policy s e t)
    (stagedId : UploadId) (manifest : RecordingUploadManifest)
    (hstaged : stagingManifest meetingId stagedId t = some manifest) : Sized manifest.totalBytes := by
  have hchange : StagedChange meetingId stagedId s e.1 (t.meetings meetingId) :=
    staged_change hstep hs.sound
  cases hchange with
  | same hmanifest | part _ _ _ hmanifest | removed _ _ _ _ hmanifest =>
    exact hs.staged stagedId manifest (hmanifest.symm.trans hstaged)
  | @manifest callId input next _ hphase _ hmanifest =>
    cases hmanifest.symm.trans hstaged
    have hsound : PhaseSound H (.storingManifest input manifest) := hphase ▸ hs.sound callId
    have htotal : manifest.totalBytes = input.metadata.totalBytes :=
      congrArg RecordingUploadMetadata.totalBytes hsound.2.metadata
    rw [htotal]
    exact ⟨hsound.1.totalBytes, hsound.1.safe⟩
  | unlisted _ _ _ _ hmanifest | cleared _ hmanifest =>
    cases hmanifest.symm.trans hstaged

/-- A recording is assembled for the upload in a step. -/
structure AssembledAt (H : Hashing) (meetingId : MeetingId) (uploadId : UploadId) (s : AudioWorld)
    (e : AudioEvent) (manifest : RecordingUploadManifest) (content : Bytes) : Prop where
  event : ∃ callId durationMs input, e = .assemble callId durationMs ∧
    s.calls callId = .assembling input ∧ input.meetingId = meetingId ∧ input.uploadId = uploadId
  staged : stagingManifest meetingId uploadId s = some manifest
  length : content.length = manifest.totalBytes
  parts : ∃ parts, content = parts.flatten ∧ List.Forall₂
    (fun index part => readUploadPart H (s.meetings meetingId) manifest uploadId index = .ok part)
    (List.range manifest.totalParts) parts

/-- A receipt that is found in place of a recording is the stored one. -/
theorem assemble_committed {o : MeetingObjects} {ownerUserId : UserId}
    (h : assembleRecordingUpload H ownerUserId uploadId o = .ok (.alreadyCommitted receipt)) :
    o.uploadReceipts uploadId = some receipt := by
  unfold assembleRecordingUpload at h
  cases hreceipt : o.uploadReceipts uploadId with
  | some stored =>
    have hstate : (readRecordingUploadState o uploadId).receipt = some stored := hreceipt
    dsimp only at h
    rw [hstate] at h
    obtain ⟨-, h⟩ := guard_eq_ok.mp h
    cases h
    rfl
  | none =>
    rw [readState_of_no_receipt hreceipt] at h
    dsimp only at h
    split at h
    · rename_i heq
      cases heq
    · cases h
    · obtain ⟨-, h⟩ := guard_eq_ok.mp h
      obtain ⟨-, h⟩ := guard_eq_ok.mp h
      obtain ⟨parts, -, h⟩ := bind_eq_ok.mp h
      obtain ⟨-, h⟩ := guard_eq_ok.mp h
      cases h

theorem prepared_assembled (hs : ReceiptsInv H meetingId uploadId A s) (hstep : AudioStep H policy s e t)
    (hA : ∀ manifest content, AssembledAt H meetingId uploadId s e.1 manifest content →
      A manifest content) (callId : CallId) (input : UploadInput) (prepared : PreparedCommit)
    (h : Phase.prepared? (t.calls callId) = some (input, prepared)) :
    prepared.content.length = prepared.manifest.totalBytes ∧ (input.meetingId = meetingId →
      Sized prepared.manifest.totalBytes ∧
        (input.uploadId = uploadId → A prepared.manifest prepared.content)) := by
  rcases prepared_step hstep h with hbefore | ⟨durationMs, hevent, hphase, hassembled⟩
  · exact hs.prepared callId input prepared hbefore
  · obtain ⟨-, hmanifest, hlength, hparts⟩ := assemble_prepared hassembled
    refine ⟨hlength, ?_⟩
    rintro rfl
    refine ⟨hs.staged input.uploadId prepared.manifest hmanifest, ?_⟩
    rintro rfl
    exact hA _ _ ⟨⟨callId, durationMs, input, hevent, hphase, rfl, rfl⟩, hmanifest, hlength, hparts⟩

theorem named_step (hs : ReceiptsInv H meetingId uploadId A s) (hstep : AudioStep H policy s e t)
    (callId : CallId) (input : UploadInput) (receipt : RecordingUploadReceipt)
    (h : t.calls callId = .storingReceipt input receipt) : receipt.uploadId = input.uploadId := by
  rcases step_calls hstep with ⟨-, hsame⟩ | ⟨moved, -, hmove⟩
  · exact hs.named callId input receipt (by rw [← hsame.calls]; exact h)
  by_cases hid : callId = moved
  swap
  · exact hs.named callId input receipt (by rw [← hmove.others callId hid]; exact h)
  subst hid
  obtain ⟨event, answer⟩ := e
  have hphase := hmove.phase
  dsimp only at hphase
  generalize s.calls callId = phase at hphase
  rw [h] at hphase
  generalize hafter : Phase.storingReceipt input receipt = phase' at hphase
  cases hphase with
  | publishes =>
    cases hafter
    rfl
  | @lists phase deletion listed hdeletion | @removes phase deletion key hdeletion =>
    cases phase with
    | sweepingStaged | deleting => cases hafter
    | _ => cases hdeletion
  | looks =>
    have huser := congrArg Phase.user? hafter
    rw [(sweepNext_locks _ _ _ _).1] at huser
    cases huser
  | _ => cases hafter

/-- The receipt of a publication is for what the meeting then holds. -/
theorem committed_publish {callId : CallId} {stop : Option ℕ} {answer : Option Answer} {input : UploadInput}
    {prepared : PreparedCommit} (hs : ReceiptsInv H meetingId uploadId A s)
    (hstep : KeepsRecording H policy meetingId uploadId s (.publishCommit callId stop, answer) t)
    (hphase : s.calls callId = .publishing input prepared) (hnext : t.calls callId = .storingReceipt input receipt)
    (hmeeting : input.meetingId = meetingId) (hupload : input.uploadId = uploadId) :
    Committed H A (t.meetings meetingId) receipt prepared.manifest prepared.content := by
  obtain ⟨published, rfl, hreturns⟩ := publishCommit_returns hstep.1 hphase hnext
  have hsole := hstep.2 input prepared hphase hmeeting
  obtain ⟨hlength, hmine⟩ := hs.prepared callId input prepared (by rw [hphase]; rfl)
  obtain ⟨hsized, hassembled⟩ := hmine hmeeting
  obtain ⟨m, hfrom, heq, hby⟩ := wp_publishCommit.post hreturns
  subst hmeeting
  obtain ⟨hholds, -, htotal⟩ := @holds_publish _ _ _ s.now input _ hsole hfrom hlength hsized
  rw [heq]
  exact
    { assembled := hassembled hupload
      holds := hholds
      length := hlength
      sized := hsized
      metadata := rfl
      totalBytes := hby.totalBytes.trans htotal
      audioRevision := congrArg some (hby.revision.trans ((sameAudio_normalize _).revision H).symm) }

theorem published_of_receipt (h : receiptAt meetingId uploadId s = some receipt) : Published meetingId uploadId s :=
  .inl (by rw [h]; rfl)

theorem published_of_call {callId : CallId}
    (h : Phase.receipt? (s.calls callId) = some ((meetingId, uploadId), receipt)) :
    Published meetingId uploadId s := .inr ⟨callId, receipt, h⟩

theorem receipts_step (hinj : Function.Injective H.sha256) (hs : ReceiptsInv H meetingId uploadId A s)
    (hstep : KeepsRecording H policy meetingId uploadId s e t) (receipt : RecordingUploadReceipt)
    (h : receiptAt meetingId uploadId t = some receipt) :
    ∃ manifest content, Committed H A (t.meetings meetingId) receipt manifest content := by
  rcases receiptAt_step hstep with hsame | ⟨callId, input, stored, hevent, hphase, rfl, hid, hput⟩
  · rw [hsame] at h
    obtain ⟨manifest, content, hcommitted⟩ := hs.receipts receipt h
    exact ⟨manifest, content, committed_step hinj hs hstep (published_of_receipt h) hcommitted⟩
  · rw [h] at hput
    cases hput
    have hcall : Phase.receipt? (s.calls callId) = some ((input.meetingId, uploadId), receipt) := by
      rw [hphase, ← hid, hs.named callId input receipt hphase]
      rfl
    obtain ⟨⟨manifest, content, hcommitted⟩, -⟩ := hs.pending callId receipt hcall
    exact ⟨manifest, content, committed_step hinj hs hstep (published_of_call hcall) hcommitted⟩

theorem pending_step (hinj : Function.Injective H.sha256) (hs : ReceiptsInv H meetingId uploadId A s)
    (hstep : KeepsRecording H policy meetingId uploadId s e t) (callId : CallId)
    (receipt : RecordingUploadReceipt)
    (h : Phase.receipt? (t.calls callId) = some ((meetingId, uploadId), receipt)) :
    (∃ manifest content, Committed H A (t.meetings meetingId) receipt manifest content) ∧
      ((∃ input, t.calls callId = .storingReceipt input receipt) ∨
        (receiptAt meetingId uploadId t).isSome) := by
  -- what a call carried before the step is still for the same recording
  have hcarried : Phase.receipt? (s.calls callId) = some ((meetingId, uploadId), receipt) →
      ∃ manifest content, Committed H A (t.meetings meetingId) receipt manifest content := by
    intro hcall
    obtain ⟨⟨manifest, content, hcommitted⟩, -⟩ := hs.pending callId receipt hcall
    exact ⟨manifest, content, committed_step hinj hs hstep (published_of_call hcall) hcommitted⟩
  obtain ⟨event, answer⟩ := e
  have hreceipt : ReceiptStep H s t event callId (meetingId, uploadId) receipt := receiptStep hstep.1 h
  cases hreceipt with
  | stays hsame =>
    rw [hsame] at h ⊢
    exact ⟨hcarried h, (hs.pending callId receipt h).2.imp_right (receiptAt_stays hstep)⟩
  | carries hcall hnot =>
    refine ⟨hcarried hcall, .inr (receiptAt_stays hstep ?_)⟩
    rcases (hs.pending callId receipt hcall).2 with ⟨input, hphase⟩ | hstored
    · exact absurd hphase (hnot input receipt)
    · exact hstored
  | puts hevent hphase hkey =>
    subst hevent
    cases hkey
    refine ⟨hcarried (by rw [hphase]; rfl), .inr ?_⟩
    rw [receiptAt_put hstep.1 hphase (hs.named callId _ receipt hphase)]
    rfl
  | @finds input durationMs hevent hphase hkey hassembled =>
    cases hkey
    have hfound : receiptAt input.meetingId input.uploadId s = some receipt := assemble_committed hassembled
    obtain ⟨manifest, content, hcommitted⟩ := hs.receipts receipt hfound
    refine ⟨⟨manifest, content, committed_step hinj hs hstep (published_of_receipt hfound) hcommitted⟩,
      .inr (receiptAt_stays hstep ?_)⟩
    rw [hfound]
    rfl
  | publishes hevent hphase hnext hkey =>
    subst hevent
    cases hkey
    exact ⟨⟨_, _, committed_publish hs hstep hphase hnext rfl rfl⟩, .inl ⟨_, hnext⟩⟩

/-- What a step keeps. -/
theorem receiptsInv_step (hinj : Function.Injective H.sha256) (hs : ReceiptsInv H meetingId uploadId A s)
    (hstep : KeepsRecording H policy meetingId uploadId s e t)
    (hA : ∀ manifest content, AssembledAt H meetingId uploadId s e.1 manifest content →
      A manifest content) : ReceiptsInv H meetingId uploadId A t where
  sound := callsSound_step hstep.1 hs.sound
  tidy := (intact_step hinj hstep.1 hstep.2.audioKept hs.preparedSound hs.tidy).tidy
  staged := staged_step hs hstep.1
  prepared := prepared_assembled hs hstep.1 hA
  named := named_step hs hstep.1
  receipts := receipts_step hinj hs hstep
  pending := pending_step hinj hs hstep

end Steps

end OwnMinutes.Audio.Receipts
