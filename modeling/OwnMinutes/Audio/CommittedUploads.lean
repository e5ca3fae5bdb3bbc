import OwnMinutes.Audio.Receipts

/-! # A committed recording is the uploaded one

Whenever a commit, or the status of an upload, answers with a receipt, the meeting holds the recording that
was assembled from the parts of the upload, and its audio revision is that of the receipt. -/

namespace OwnMinutes.Audio.CommittedUploads

open OwnMinutes.Auth.ProcessingRoute OwnMinutes.Auth.Records OwnMinutes.Finalizer.Records
open OwnMinutes.Lib.Crash OwnMinutes.Lib.Runs OwnMinutes.Lib.Outcome OwnMinutes.Audio.Records
open OwnMinutes.Audio.Store OwnMinutes.Audio.Runs OwnMinutes.Audio.Sections OwnMinutes.Audio.Changes
open OwnMinutes.Audio.Phases OwnMinutes.Audio.Replays OwnMinutes.Audio.Seals OwnMinutes.Audio.IntactAudio
open OwnMinutes.Audio.Staging OwnMinutes.Audio.Commits OwnMinutes.Audio.Receipts

variable {H : Hashing} {policy : RecordingUploadResourcePolicy} {s t u v w : AudioWorld}
  {o : MeetingObjects} {content : Bytes} {receipt : RecordingUploadReceipt} {input : UploadInput}
  {now : Timestamp}

/-! ### Receipts that are sealed again -/

/-- The receipt as it is answered, with the revision of what the meeting holds. -/
def sealedReceipt (H : Hashing) (o : MeetingObjects) (receipt : RecordingUploadReceipt) :
    RecordingUploadReceipt :=
  { receipt with audioRevision := some (revision H o), «sealed» := true }

theorem wp_seal (h : Holds H o content) {input : SealInput} :
    Wp (fun _ => True) (sealMeetingAudioUnsafe H now input)
      (fun audioSeal _ => audioSeal.audioRevision = revision H o) o := by
  have hcurrent := sameAudio_current input.meetingId now o
  unfold sealMeetingAudioUnsafe
  simp only [wp_bind, wp_readManifest, wp_require, wp_lift, wp_read]
  refine ⟨trivial, fun _ => ⟨trivial, fun _ => ⟨trivial, trivial, fun _ => ⟨trivial, fun _ =>
    ⟨trivial, trivial, fun m hm => ?_⟩⟩⟩⟩⟩
  cases (backfill_holds h hcurrent.chunks).symm.trans hm
  have hrevision := hcurrent.revision H
  cases hseal : currentSeal H input (currentManifest input.meetingId now o) with
  | some audioSeal =>
    have hcounts := Option.filter_eq_some_iff.mp hseal
    rw [Bool.and_eq_true, Bool.and_eq_true, beq_iff_eq] at hcounts
    exact wp_pure.mpr ⟨trivial, hcounts.2.1.1.trans hrevision⟩
  | none =>
    simp only [wp_bind, wp_persistMeetingManifest, wp_pure]
    exact ⟨trivial, trivial, trivial, hrevision⟩

theorem wp_sealReceipt (h : Holds H o content) :
    Wp (fun _ => True) (sealCommittedRecordingUploadReceiptUnsafe H now input receipt)
      (fun receipt' _ => receipt' = sealedReceipt H o receipt) o := by
  unfold sealCommittedRecordingUploadReceiptUnsafe
  rw [wp_bind]
  refine (wp_seal h).mono (fun _ h => h) fun audioSeal _ heq => wp_pure.mpr ⟨trivial, ?_⟩
  unfold sealedReceipt
  rw [heq]

theorem wp_answerReceipt (h : Holds H o content) :
    Wp (fun _ => True) (answerReceiptUnsafe H now input receipt)
      (fun receipt' _ => receipt' = sealedReceipt H o receipt) o := by
  unfold answerReceiptUnsafe
  rw [wp_bind]
  refine (wp_sealReceipt h).mono (fun _ h => h) fun receipt' t heq => ?_
  rw [wp_bind]
  exact ⟨fun _ => trivial, fun _ => wp_pure.mpr ⟨trivial, heq⟩⟩

theorem chunks_of_keeps {o' : MeetingObjects} (h : Written H .others o o') : o'.chunks = o.chunks := by
  induction h with
  | refl => rfl
  | tail _ hwrite ih =>
    cases hwrite with
    | keep => exact ih

theorem wp_preflightCommit {stored : RecordingUploadReceipt} (h : Holds H o content)
    (hstored : o.uploadReceipts input.uploadId = some stored) :
    Wp (fun _ => True) (preflightCommitUnsafe H now input)
      (fun answer _ => answer = some (sealedReceipt H o stored)) o := by
  unfold preflightCommitUnsafe
  rw [wp_bind]
  refine (written_claimOwner (H := H) (w := .others)).mono (fun _ _ => trivial) fun _ t ht => ?_
  obtain ⟨hholds, hrevision⟩ := h.congr (chunks_of_keeps ht.1) ht.2
  have hreceipt : (readRecordingUploadState t input.uploadId).receipt = some stored := by
    rw [← hstored]
    exact congrFun ht.1.staged.2.2 _
  simp only [wp_bind, wp_read, wp_require, hreceipt]
  refine ⟨trivial, trivial, fun _ => wp_map ?_⟩
  refine (wp_answerReceipt hholds).mono (fun _ h => h) fun receipt' _ heq => ?_
  unfold sealedReceipt at heq ⊢
  rw [heq, hrevision]

theorem wp_readStatus {stored : RecordingUploadReceipt} (h : Holds H o content)
    (hstored : o.uploadReceipts input.uploadId = some stored) :
    Wp (fun _ => True) (readMeetingRecordingUploadStatusUnsafe H policy now input)
      (fun status _ => status.receipt = some (sealedReceipt H o stored)) o := by
  unfold readMeetingRecordingUploadStatusUnsafe
  simp only [wp_bind, wp_readExistingManifest, wp_require, wp_read]
  refine ⟨trivial, trivial, fun _ => ⟨trivial, trivial, fun _ => ?_⟩⟩
  have hreceipt : (readRecordingUploadState o input.uploadId).receipt = some stored := hstored
  cases hm : o.manifest.map normalizeManifest with
  | none =>
    -- a meeting that holds a recording has a manifest
    obtain ⟨chunk, hchunks, -⟩ := h.chunk
    unfold listing currentManifest at hchunks
    rw [hm] at hchunks
    cases hchunks
  | some m =>
    have hrelease := keeps_withoutLease (keeps_existing hm) now
    unfold uploadStatusOf
    dsimp only
    rw [hreceipt]
    simp only [wp_bind]
    refine (written_persistIf (H := H) (w := .others) hrelease).mono (fun _ _ => trivial) fun _ t ht => ?_
    obtain ⟨hholds, hrevision⟩ := h.congr (chunks_of_keeps ht.1)
      (hrelease.toSameAudio.trans ht.2.toSameAudio.symm)
    rw [wp_bind]
    refine (wp_sealReceipt hholds).mono (fun _ h => h) fun receipt' _ heq => wp_pure.mpr ⟨trivial, ?_⟩
    unfold sealedReceipt at heq ⊢
    rw [heq, hrevision]

/-! ### Answers without a receipt -/

theorem wp_preflight_none (hnone : o.uploadReceipts input.uploadId = none) :
    Wp (fun _ => True) (preflightCommitUnsafe H now input) (fun answer _ => answer = none) o := by
  unfold preflightCommitUnsafe
  rw [wp_bind]
  refine (written_claimOwner (H := H) (w := .others)).mono (fun _ _ => trivial) fun _ t ht => ?_
  have hreceipt : (readRecordingUploadState t input.uploadId).receipt = none := by
    rw [← hnone]
    exact congrFun ht.1.staged.2.2 _
  simp only [wp_bind, wp_read, wp_require, hreceipt, wp_pure]
  exact ⟨trivial, trivial, fun _ => ⟨trivial, trivial⟩⟩

theorem wp_uploadStatus_none {m : AudioManifest} {state : RecordingUploadState}
    (hnone : state.receipt = none) :
    Wp (fun _ => True) (uploadStatusOf H policy now input m state)
      (fun status _ => status.receipt = none) o := by
  unfold uploadStatusOf
  dsimp only
  rw [hnone]
  cases state.manifest with
  | none =>
    dsimp only
    rw [wp_bind]
    exact ⟨fun _ => trivial, fun _ => wp_pure.mpr ⟨trivial, hnone⟩⟩
  | some upload =>
    dsimp only
    rw [wp_bind, wp_require]
    refine ⟨trivial, fun _ => ?_⟩
    split_ifs
    · rw [wp_bind]
      exact ⟨fun _ => trivial, fun _ => wp_pure.mpr ⟨trivial, rfl⟩⟩
    · split
      · exact wp_pure.mpr ⟨trivial, hnone⟩
      · rw [wp_bind]
        exact ⟨fun _ => trivial, fun _ => wp_pure.mpr ⟨trivial, hnone⟩⟩

theorem wp_readStatus_none (hnone : o.uploadReceipts input.uploadId = none) :
    Wp (fun _ => True) (readMeetingRecordingUploadStatusUnsafe H policy now input)
      (fun status _ => status.receipt = none) o := by
  unfold readMeetingRecordingUploadStatusUnsafe
  simp only [wp_bind, wp_readExistingManifest, wp_require, wp_read]
  refine ⟨trivial, trivial, fun _ => ⟨trivial, trivial, fun _ => ?_⟩⟩
  cases o.manifest.map normalizeManifest with
  | none => exact wp_pure.mpr ⟨trivial, hnone⟩
  | some m => exact wp_uploadStatus_none hnone

/-! ### Answers with a receipt -/

section Upload

variable (meetingId : MeetingId) (uploadId : UploadId)

/-- A commit of the upload, or its status, answers with a receipt. -/
inductive Answered (s : AudioWorld) :
    AudioEvent × Option Answer → RecordingUploadReceipt → Prop
  | found {callId : CallId} {ownerUserId : UserId} {stop : Option ℕ} {receipt : RecordingUploadReceipt} :
      Answered s (.beginCommit callId { meetingId, ownerUserId, uploadId } stop, some (.receipt receipt))
        receipt
  | again {callId : CallId} {input : UploadInput} {stop : Option ℕ}
      {stored receipt : RecordingUploadReceipt} (hphase : s.calls callId = .answeringReceipt input stored)
      (hmeeting : input.meetingId = meetingId) (hupload : input.uploadId = uploadId) :
      Answered s (.answerReceipt callId stop, some (.receipt receipt)) receipt
  | committed {callId : CallId} {deletion : Deletion} {stored : Option RecordingUploadReceipt}
      {receipt : RecordingUploadReceipt} (hphase : s.calls callId = .deleting deletion stored)
      (hmeeting : deletion.meetingId = meetingId) (hupload : deletion.uploadId = uploadId) :
      Answered s (.endDeletion callId, some (.receipt receipt)) receipt
  | status {callId : CallId} {ownerUserId : UserId} {stop : Option ℕ} {status : UploadStatus}
      {receipt : RecordingUploadReceipt} (hreceipt : status.receipt = some receipt) :
      Answered s (.readStatus callId { meetingId, ownerUserId, uploadId } stop, some (.status status))
        receipt

end Upload

variable {meetingId : MeetingId} {uploadId : UploadId} {A : RecordingUploadManifest → Bytes → Prop}
  {e e' : AudioEvent × Option Answer}

/-- What a section returned when its call answers. -/
theorem answer_of_continue {α : Type} {r : AudioWorld × Option (Except AudioError α)}
    {leave : AudioWorld → AudioWorld} {next : AudioWorld → α → AudioWorld × Option Answer}
    {answer : Option Answer} (h : some (continueWith r leave next) = some (u, answer))
    (herror : ∀ error, answer ≠ some (.error error)) (hsome : answer.isSome) :
    ∃ a, r.2 = some (.ok a) ∧ (next r.1 a).2 = answer := by
  have heq := Option.some.inj h
  unfold continueWith at heq
  split at heq
  · cases heq
    cases hsome
  · cases heq
    exact absurd rfl (herror _)
  · rename_i a ha
    exact ⟨a, ha, congrArg Prod.snd heq⟩

/-- A stored receipt is answered as it is sealed again. -/
theorem found_receipt {callId : CallId} {stop : Option ℕ}
    (hs : ReceiptsInv H input.meetingId input.uploadId A t)
    (hstep : AudioStep H policy t (.beginCommit callId input stop, some (.receipt receipt)) u) :
    ∃ stored, receiptAt input.meetingId input.uploadId t = some stored ∧
      receipt = sealedReceipt H (t.meetings input.meetingId) stored := by
  have hstep := hstep.2
  simp only [step] at hstep
  split_ifs at hstep
  obtain ⟨answer, hok, hanswer⟩ := answer_of_continue hstep (fun _ h => by cases h) rfl
  obtain ⟨-, o, hreturns, -⟩ := userSection_ok hok
  cases hstored : receiptAt input.meetingId input.uploadId t with
  | none =>
    cases (wp_preflight_none hstored).post hreturns
    cases hanswer
  | some stored =>
    obtain ⟨manifest, content, hcommitted⟩ := hs.receipts stored hstored
    cases (wp_preflightCommit hcommitted.holds hstored).post hreturns
    cases hanswer
    exact ⟨stored, rfl, rfl⟩

theorem status_receipt {callId : CallId} {stop : Option ℕ} {status : UploadStatus}
    (hs : ReceiptsInv H input.meetingId input.uploadId A t)
    (hstep : AudioStep H policy t (.readStatus callId input stop, some (.status status)) u)
    (hreceipt : status.receipt = some receipt) :
    ∃ stored, receiptAt input.meetingId input.uploadId t = some stored ∧
      receipt = sealedReceipt H (t.meetings input.meetingId) stored := by
  have hstep := hstep.2
  simp only [step] at hstep
  split_ifs at hstep
  obtain ⟨answer, hok, hanswer⟩ := answer_of_continue hstep (fun _ h => by cases h) rfl
  obtain ⟨-, o, hreturns, -⟩ := fenced_ok hok
  have hsame : answer = status := by
    split at hanswer <;> cases hanswer <;> rfl
  subst hsame
  cases hstored : receiptAt input.meetingId input.uploadId t with
  | none =>
    rw [(wp_readStatus_none hstored).post hreturns] at hreceipt
    cases hreceipt
  | some stored =>
    obtain ⟨manifest, content, hcommitted⟩ := hs.receipts stored hstored
    rw [(wp_readStatus hcommitted.holds hstored).post hreturns] at hreceipt
    cases hreceipt
    exact ⟨stored, rfl, rfl⟩

/-- **A receipt that is answered** is stored, and is for what the meeting holds. -/
theorem answered_receipt (hs : ReceiptsInv H meetingId uploadId A t) (hstep : AudioStep H policy t e u)
    (hanswer : Answered meetingId uploadId t e receipt) :
    (receiptAt meetingId uploadId t).isSome ∧
      ∃ manifest content, Committed H A (t.meetings meetingId) receipt manifest content := by
  have hagain : ∀ {stored manifest content}, Committed H A (t.meetings meetingId) stored manifest content →
      Committed H A (t.meetings meetingId) (sealedReceipt H (t.meetings meetingId) stored) manifest
        content := fun h => { h with audioRevision := rfl }
  cases hanswer with
  | found =>
    obtain ⟨stored, hstored, rfl⟩ := found_receipt hs hstep
    obtain ⟨manifest, content, hcommitted⟩ := hs.receipts stored hstored
    exact ⟨by rw [hstored]; rfl, manifest, content, hagain hcommitted⟩
  | status hreceipt =>
    obtain ⟨stored, hstored, rfl⟩ := status_receipt hs hstep hreceipt
    obtain ⟨manifest, content, hcommitted⟩ := hs.receipts stored hstored
    exact ⟨by rw [hstored]; rfl, manifest, content, hagain hcommitted⟩
  | @again callId input stop stored _ hphase hmeeting hupload =>
    subst hmeeting hupload
    obtain ⟨⟨manifest, content, hcommitted⟩, hwritten⟩ := hs.pending callId stored (by rw [hphase]; rfl)
    have hanswers := hstep.2
    simp only [step, hphase] at hanswers
    split_ifs at hanswers
    obtain ⟨answer, hok, hanswer⟩ := answer_of_continue hanswers (fun _ h => by cases h) rfl
    obtain ⟨-, o, hreturns, -⟩ := userSection_ok hok
    cases (wp_answerReceipt hcommitted.holds).post hreturns
    cases hanswer
    refine ⟨?_, manifest, content, hagain hcommitted⟩
    rcases hwritten with ⟨input', hphase'⟩ | hstored
    · rw [hphase] at hphase'
      cases hphase'
    · exact hstored
  | @committed callId deletion stored _ hphase hmeeting hupload =>
    subst hmeeting hupload
    have hanswers := hstep.2
    simp only [step, stepEndDeletion, hphase] at hanswers
    cases stored with
    | none => cases hanswers
    | some stored =>
      cases hanswers
      obtain ⟨⟨manifest, content, hcommitted⟩, hwritten⟩ := hs.pending callId receipt (by rw [hphase]; rfl)
      refine ⟨?_, manifest, content, hcommitted⟩
      rcases hwritten with ⟨input', hphase'⟩ | hstored
      · rw [hphase] at hphase'
        cases hphase'
      · exact hstored

/-! ### Runs -/

/-- A quiet state of the meeting before the upload is committed: its chunks are listed in order, and what is
staged has a size that the route accepts. -/
structure Uncommitted (meetingId : MeetingId) (uploadId : UploadId) (s : AudioWorld) : Prop
    extends Quiet s where
  tidy : Tidy (stored s meetingId)
  staged : ∀ uploadId manifest, stagingManifest meetingId uploadId s = some manifest →
    Sized manifest.totalBytes
  receipt : receiptAt meetingId uploadId s = none

theorem Uncommitted.receiptsInv (h : Uncommitted meetingId uploadId s) :
    ReceiptsInv H meetingId uploadId A s where
  sound callId := by
    rw [h.idle callId]
    trivial
  tidy := h.tidy
  staged := h.staged
  prepared callId _ _ hprepared := by
    rw [h.idle callId] at hprepared
    cases hprepared
  named callId _ _ hphase := by
    rw [h.idle callId] at hphase
    cases hphase
  receipts _ hstored := by
    rw [h.receipt] at hstored
    cases hstored
  pending callId _ hreceipt := by
    rw [h.idle callId] at hreceipt
    cases hreceipt

/-- What a run keeps, with the recordings that were assembled in its course. -/
theorem receiptsInv_run {es : List (AudioEvent × Option Answer)} (hinj : Function.Injective H.sha256)
    (hs : Uncommitted meetingId uploadId s)
    (hrun : Run (KeepsRecording H policy meetingId uploadId) s es t) :
    ReceiptsInv H meetingId uploadId (fun manifest content => ∃ pre e post a b,
      es = pre ++ e :: post ∧ Run (KeepsRecording H policy meetingId uploadId) s pre a ∧
        KeepsRecording H policy meetingId uploadId a e b ∧
        AssembledAt H meetingId uploadId a e.1 manifest content) t := by
  refine hrun.located.invariant (I := ReceiptsInv H meetingId uploadId _) ?_ hs.receiptsInv
  rintro a e b ha ⟨hstep, pre, post, hes, hpre⟩
  exact receiptsInv_step hinj ha hstep fun manifest content hassembled =>
    ⟨pre, e, post, a, b, hes, hpre, hstep, hassembled⟩

/-- The audio revision stays, once a receipt is stored. -/
theorem revision_run {es : List (AudioEvent × Option Answer)} (hinj : Function.Injective H.sha256)
    (hrun : Run (KeepsRecording H policy meetingId uploadId) u es v)
    (hu : ReceiptsInv H meetingId uploadId (fun _ _ => True) u)
    (hstored : (receiptAt meetingId uploadId u).isSome) :
    ReceiptsInv H meetingId uploadId (fun _ _ => True) v ∧
      revision H (v.meetings meetingId) = revision H (u.meetings meetingId) := by
  induction hrun with
  | nil => exact ⟨hu, rfl⟩
  | @cons a b c e es hstep hrest ih =>
    have hb := receiptsInv_step hinj hu hstep fun _ _ _ => trivial
    obtain ⟨hlast, hrevision⟩ := ih hb (receiptAt_stays hstep hstored)
    obtain ⟨receipt, hreceipt⟩ := Option.isSome_iff_exists.mp hstored
    obtain ⟨manifest, content, hcommitted⟩ := hu.receipts receipt hreceipt
    have hsame := (holds_step hinj hu hstep (.inl hstored) hcommitted.holds
      (hcommitted.length ▸ hcommitted.sized)).2
    exact ⟨hlast, hrevision.trans hsame⟩

theorem ReceiptsInv.forget (h : ReceiptsInv H meetingId uploadId A s) :
    ReceiptsInv H meetingId uploadId (fun _ _ => True) s where
  sound := h.sound
  tidy := h.tidy
  staged := h.staged
  prepared callId input prepared hprepared :=
    ⟨(h.prepared callId input prepared hprepared).1, fun hmeeting =>
      ⟨((h.prepared callId input prepared hprepared).2 hmeeting).1, fun _ => trivial⟩⟩
  named := h.named
  receipts receipt hstored := by
    obtain ⟨manifest, content, hcommitted⟩ := h.receipts receipt hstored
    exact ⟨manifest, content, { hcommitted with assembled := trivial }⟩
  pending callId receipt hreceipt := by
    obtain ⟨⟨manifest, content, hcommitted⟩, hwritten⟩ := h.pending callId receipt hreceipt
    exact ⟨⟨manifest, content, { hcommitted with assembled := trivial }⟩, hwritten⟩

/-- **A committed recording is the uploaded one**: a receipt is answered where the meeting is sealed and its
audio is the parts of the upload, one after the other, as a commit of the run assembled them. Each later
answer has the same audio revision. -/
theorem committed_recording {es : List (AudioEvent × Option Answer)} (hinj : Function.Injective H.sha256)
    (hs : Uncommitted meetingId uploadId s)
    (hrun : Run (KeepsRecording H policy meetingId uploadId) s es t)
    (hstep : KeepsRecording H policy meetingId uploadId t e u)
    (hanswer : Answered meetingId uploadId t e receipt) :
    (∃ audio, meetingAudioMetadataFromManifest H (stored u meetingId) = some audio ∧
      audio.isSealed = true) ∧
    (∃ pre e' post a b manifest content, es = pre ++ e' :: post ∧
      Run (KeepsRecording H policy meetingId uploadId) s pre a ∧
      KeepsRecording H policy meetingId uploadId a e' b ∧
      AssembledAt H meetingId uploadId a e'.1 manifest content ∧
      assembleMeetingAudioFile H (u.meetings meetingId) (stored u meetingId) = .ok content ∧
      content.length = receipt.totalBytes ∧
      receipt.uploadMetadata = manifest.toRecordingUploadMetadata) ∧
    ∀ es' v e' w receipt', Run (KeepsRecording H policy meetingId uploadId) u es' v →
      KeepsRecording H policy meetingId uploadId v e' w → Answered meetingId uploadId v e' receipt' →
      receipt'.audioRevision = receipt.audioRevision := by
  have ht := receiptsInv_run hinj hs hrun
  obtain ⟨hstored, manifest, content, hcommitted⟩ := answered_receipt ht hstep.1 hanswer
  obtain ⟨hholds, hrevision⟩ := holds_step hinj ht hstep (.inl hstored) hcommitted.holds
    (hcommitted.length ▸ hcommitted.sized)
  refine ⟨hholds.metadata, ?_, ?_⟩
  · obtain ⟨pre, e', post, a, b, hes, hpre, he', hassembled⟩ := hcommitted.assembled
    exact ⟨pre, e', post, a, b, manifest, content, hes, hpre, he', hassembled, hholds.assemble,
      hcommitted.length.trans hcommitted.totalBytes.symm, hcommitted.metadata⟩
  · intro es' v e' w receipt' hrun' hstep' hanswer'
    have hu := receiptsInv_step hinj (ReceiptsInv.forget ht) hstep fun _ _ _ => trivial
    obtain ⟨hv, hsame⟩ := revision_run hinj hrun' hu (receiptAt_stays hstep hstored)
    obtain ⟨-, manifest', content', hcommitted'⟩ := answered_receipt hv hstep'.1 hanswer'
    rw [hcommitted'.audioRevision, hcommitted.audioRevision, hsame, hrevision]

/-- The conditions on steps, where no chunk is listed when the recording is put and published. -/
def KeptHere (s : AudioWorld) : AudioEvent → Bool
  | .saveChunk _ _ | .removeMeeting _ => false
  | .putRecording _ => (stored s "meeting").chunks == []
  | .publishCommit callId _ =>
    match s.calls callId with
    | .publishing _ prepared => (stored s "meeting").chunks == [] &&
      (s.meetings "meeting").chunks prepared.fileName == some prepared.content
    | _ => true
  | _ => true

theorem keepsRecording_of_here (hstep : AudioStep H policy s e t) (h : KeptHere s e.1 = true) :
    KeepsRecording H policy "meeting" "upload" s e t := by
  obtain ⟨event, answer⟩ := e
  refine ⟨hstep, ?_⟩
  cases event with
  | saveChunk | removeMeeting => cases h
  | putRecording callId =>
    intro input prepared _ _ chunk hmem
    rw [eq_of_beq h] at hmem
    cases hmem
  | publishCommit callId stop =>
    intro input prepared hphase _
    simp only [KeptHere, hphase, Bool.and_eq_true] at h
    exact .inl ⟨eq_of_beq h.1, eq_of_beq h.2⟩
  | _ => trivial

theorem uncommitted_empty : Uncommitted meetingId uploadId {} :=
  ⟨quiet_empty, tidy_empty, fun _ _ h => (by cases h), rfl⟩

/-- The commit after its publication, until it answers. -/
def settlement : List AudioEvent :=
  [.putReceipt "commit", .recheck "commit" none, .list "commit" [.manifest, .part 0],
   .remove "commit" .manifest, .remove "commit" (.part 0)]

/-- Are `labels` the answer of the commit and that of a status read after it? -/
def answersTwice (a : AudioWorld) (labels : List (AudioEvent × Option Answer)) : Bool :=
  match labels with
  | [(.endDeletion "commit", some (.receipt _)),
     (.readStatus "status" ⟨"meeting", "user", "upload"⟩ none, some (.status status))] =>
    status.receipt.isSome && match a.calls "commit" with
      | .deleting deletion _ => deletion.meetingId == "meeting" && deletion.uploadId == "upload"
      | _ => false
  | _ => false

theorem answersTwice_eq {a : AudioWorld} {labels : List (AudioEvent × Option Answer)}
    (h : answersTwice a labels = true) : ∃ first second e e', labels = [e, e'] ∧
      touched a e.1 = none ∧ Answered "meeting" "upload" a e first ∧
      ∀ b, Answered "meeting" "upload" b e' second := by
  unfold answersTwice at h
  split at h
  · rename_i first status
    rw [Bool.and_eq_true] at h
    obtain ⟨hstatus, hphase⟩ := h
    obtain ⟨second, hsecond⟩ := Option.isSome_iff_exists.mp hstatus
    split at hphase
    · rename_i deletion receipt hcall
      rw [Bool.and_eq_true, beq_iff_eq, beq_iff_eq] at hphase
      exact ⟨first, second, _, _, rfl, rfl, .committed hcall hphase.1 hphase.2, fun _ => .status hsecond⟩
    · cases hphase
  · cases h

theorem committed_recording_one : ∃ es a e b e' t first second,
    es.map Prod.fst = wholeUpload ++ publication ++ settlement ∧
    Run (AudioStep textHashing {}) {} es a ∧ AudioStep textHashing {} a e b ∧
    AudioStep textHashing {} b e' t ∧ Answered "meeting" "upload" a e first ∧
    Answered "meeting" "upload" b e' second ∧
    isSealed textHashing (stored b "meeting") = true ∧
    assembleMeetingAudioFile textHashing (b.meetings "meeting") (stored b "meeting") = .ok [82] ∧
    second.audioRevision = first.audioRevision := by
  obtain ⟨es, a, labels, t, hes, -, hfirst, hlast, hend⟩ := exists_runs textHashing {}
    (fun s e _ => KeptHere s e.1 = true) ["meeting"] 1 {} (wholeUpload ++ publication ++ settlement)
    [.endDeletion "commit", .readStatus "status" ⟨"meeting", "user", "upload"⟩ none]
    (fun a labels _ => answersTwice a labels && assembles a (.ok [82]))
    (within_empty _ _) (by decide)
  rw [Bool.and_eq_true] at hend
  obtain ⟨hanswers, hassembled⟩ := hend
  obtain ⟨first, second, e, e', rfl, huntouched, hanswer, hanswer'⟩ := answersTwice_eq hanswers
  obtain ⟨b, hstep, hrest⟩ := Run.cons_iff.mp hlast
  obtain ⟨c, hstep', hnil⟩ := Run.cons_iff.mp hrest
  cases Run.nil_iff.mp hnil
  have hrun := hfirst.mono fun _ _ _ h => keepsRecording_of_here h.1 h.2
  have hkeeps := keepsRecording_of_here hstep.1 hstep.2
  have hkeeps' := keepsRecording_of_here hstep'.1 hstep'.2
  have huncommitted : Uncommitted "meeting" "upload" {} := uncommitted_empty
  obtain ⟨⟨audio, haudio, hsealed⟩, -, hlater⟩ :=
    committed_recording textHashing_injective huncommitted hrun hkeeps hanswer
  have hsame : b.meetings "meeting" = a.meetings "meeting" :=
    (step_objects hkeeps.1).others (by rw [huntouched]; exact fun h => by cases h)
  refine ⟨es, a, e, b, e', t, first, second, hes, hrun.mono fun _ _ _ h => h.1, hkeeps.1, hkeeps'.1, hanswer,
    hanswer' b, ?_, ?_, hlater [] b e' t second (Run.nil b) hkeeps' (hanswer' b)⟩
  · unfold meetingAudioMetadataFromManifest at haudio
    split_ifs at haudio
    cases haudio
    exact hsealed
  · unfold stored
    rw [hsame]
    exact of_decide_eq_true hassembled

/-- Is the answer a sealed receipt? -/
def answersSealed (label : AudioEvent × Option Answer) : Bool :=
  match label.2 with
  | some (.receipt receipt) => receipt.sealed
  | _ => false

/-- **A commit seals what was streamed into the recording**: a chunk of the meeting was streamed before. The
commit answers with a sealed receipt, and the meeting is not sealed; the next commit answers so, and the
meeting is sealed with both. -/
theorem committed_recording_with_streamed_chunk : ∃ es a es' t,
    es.map Prod.fst = .saveChunk (streamedChunk 2 [65]) none :: wholeUpload ++ publication ++ settlement ∧
    es'.map Prod.fst = [.endDeletion "commit", .beginCommit "again" ⟨"meeting", "user", "upload"⟩ none] ∧
    Run (AudioStep textHashing {}) {} es a ∧ Run (AudioStep textHashing {}) a es' t ∧
    isSealed textHashing (stored a "meeting") = false ∧ es'.all answersSealed = true ∧
    isSealed textHashing (stored t "meeting") = true ∧
    assembleMeetingAudioFile textHashing (t.meetings "meeting") (stored t "meeting") = .ok [82, 65] := by
  obtain ⟨es, a, es', t, hes, hes', hbefore, hrun, hend⟩ := exists_runs textHashing {}
    (fun _ _ _ => True) ["meeting"] 1 {}
    (.saveChunk (streamedChunk 2 [65]) none :: wholeUpload ++ publication ++ settlement)
    [.endDeletion "commit", .beginCommit "again" ⟨"meeting", "user", "upload"⟩ none]
    (fun a labels t => !isSealed textHashing (stored a "meeting") && labels.all answersSealed &&
      isSealed textHashing (stored t "meeting") && assembles t (.ok [82, 65]))
    (within_empty _ _) (by decide)
  rw [Bool.and_eq_true, Bool.and_eq_true, Bool.and_eq_true, Bool.not_eq_true'] at hend
  obtain ⟨⟨⟨hunsealed, hanswers⟩, hsealed⟩, hassembled⟩ := hend
  exact ⟨es, a, es', t, hes, hes', hbefore.mono fun _ _ _ h => h.1, hrun.mono fun _ _ _ h => h.1, hunsealed,
    hanswers, hsealed, of_decide_eq_true hassembled⟩

end OwnMinutes.Audio.CommittedUploads
