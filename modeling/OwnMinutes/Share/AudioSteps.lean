import OwnMinutes.Audio.Changes
import OwnMinutes.Audio.Seals

/-! # What the calls on audio leave of a publication

A section on the audio of a meeting leaves its owner, its share and its review as they are, with the same
chunks, or it withdraws share and review together (`Leaves`); nothing else happens to them until the meeting is
deleted. -/

namespace OwnMinutes.Share.AudioSteps

open OwnMinutes.Auth.ProcessingRoute OwnMinutes.Auth.Records OwnMinutes.Lib.Crash
open OwnMinutes.Audio.Records OwnMinutes.Audio.Store OwnMinutes.Audio.Runs OwnMinutes.Audio.Sections
open OwnMinutes.Audio.Seals OwnMinutes.Audio.Changes

variable {H : Hashing} {policy : RecordingUploadResourcePolicy} {o o' : MeetingObjects}
  {m m' : AudioManifest}

/-! ### Manifests -/

/-- What readers are let in by is the same. -/
structure Undisturbed (m m' : AudioManifest) : Prop where
  owner : m.ownerUserId = none ∨ m'.ownerUserId = m.ownerUserId
  share : m'.share = m.share
  review : m'.reviewConfirmation = m.reviewConfirmation
  keys : keys m'.chunks = keys m.chunks

theorem Undisturbed.refl (m : AudioManifest) : Undisturbed m m := ⟨.inr rfl, rfl, rfl, rfl⟩

theorem Undisturbed.trans {a b c : AudioManifest} (h : Undisturbed a b) (h' : Undisturbed b c) : Undisturbed a c := by
  refine ⟨?_, h'.share.trans h.share, h'.review.trans h.review, h'.keys.trans h.keys⟩
  rcases h.owner with hnone | heq
  · exact .inl hnone
  · rcases h'.owner with hnone | heq'
    · exact .inl (heq ▸ hnone)
    · exact .inr (heq'.trans heq)

/-- Nobody is let in. -/
structure Withdrawn (m : AudioManifest) : Prop where
  share : m.share.visibility = .private
  review : m.reviewConfirmation = none

def Leaves (m m' : AudioManifest) : Prop := Undisturbed m m' ∨ Withdrawn m'

theorem Leaves.refl (m : AudioManifest) : Leaves m m := .inl (.refl m)

theorem Leaves.trans {a b c : AudioManifest} (h : Leaves a b) (h' : Leaves b c) : Leaves a c := by
  rcases h' with h' | h'
  · rcases h with h | h
    · exact .inl (h.trans h')
    · refine .inr ⟨?_, ?_⟩
      · rw [h'.share]
        exact h.share
      · rw [h'.review]
        exact h.review
  · exact .inr h'

theorem revokeMeetingShare_private (now : Timestamp) (m : AudioManifest) :
    (revokeMeetingShare now m).share.visibility = .private := by
  unfold revokeMeetingShare
  split_ifs with h
  · cases hv : m.share.visibility with
    | «private» => rfl
    | «public» => exact absurd hv h
  · rfl

theorem revokeMeetingShare_review (now : Timestamp) (m : AudioManifest) :
    (revokeMeetingShare now m).reviewConfirmation = m.reviewConfirmation := by
  obtain ⟨share, h⟩ := revokeMeetingShare_eq now m
  rw [h]

theorem withdrawn_addChunk (now : Timestamp) (input : AudioChunkInput) (m : AudioManifest) :
    Withdrawn (addChunk H now input m) :=
  ⟨revokeMeetingShare_private now _, revokeMeetingShare_review now _⟩

theorem withdrawn_publishManifest (now : Timestamp) (input : UploadInput) (prepared : PreparedCommit)
    (existing : Option AudioChunk) (m : AudioManifest) : Withdrawn (publishManifest H now input prepared existing m) :=
  ⟨revokeMeetingShare_private now _, revokeMeetingShare_review now _⟩

theorem undisturbed_current (meetingId : MeetingId) (now : Timestamp) (o : MeetingObjects) :
    Undisturbed (listing o) (currentManifest meetingId now o) := by
  unfold listing currentManifest
  cases o.manifest with
  | none => exact ⟨.inr rfl, rfl, rfl, rfl⟩
  | some m => exact .refl _

theorem undisturbed_consent {incoming : RecordingConsentMetadata}
    (h : assertAndSetRecordingConsent m incoming = .ok m') : Undisturbed m m' := by
  obtain ⟨consent, rfl⟩ := assertAndSetRecordingConsent_ok h
  exact ⟨.inr rfl, rfl, rfl, rfl⟩

theorem undisturbed_owner {ownerUserId : UserId} (h : ownedBy m ownerUserId = true) (updatedAt : Timestamp) :
    Undisturbed m { m with ownerUserId := some ownerUserId, updatedAt := updatedAt } :=
  ⟨(keeps_owner h updatedAt).owner, rfl, rfl, rfl⟩

variable {now : Timestamp} {meetingId : MeetingId}

theorem undisturbed_withLease {input : PartInput} (h : ownedBy m input.ownerUserId = true) (stagedBytes : ℕ) :
    Undisturbed m (withLease now input stagedBytes m) :=
  ⟨(keeps_owner h now).owner, rfl, rfl, rfl⟩

theorem undisturbed_backfill (h : backfillManifestChunkDigests H o m = .ok m') : Undisturbed m m' := by
  have hkeys := keys_backfill h
  obtain ⟨chunks, -, hm⟩ := Lib.Outcome.bind_eq_ok.mp h
  cases hm
  exact ⟨.inr rfl, rfl, rfl, hkeys⟩

/-! ### Sections -/

section Sections

/-- A section that is only found where share and review are as they were, or withdrawn. -/
def Careful {α : Type} (o : MeetingObjects) (x : Fenced α) : Prop :=
  Wp (fun t => Leaves (listing o) (listing t)) x (fun _ t => Leaves (listing o) (listing t)) o

theorem leaves_put (hm : Undisturbed (listing o) m) : Leaves (listing o) (listing (o'.putManifest m)) :=
  .inl (hm.trans ⟨.inr rfl, rfl, rfl, rfl⟩)

theorem leaves_withdrawn (hm : Withdrawn m) : Leaves (listing o) (listing (o'.putManifest m)) := .inr ⟨hm.1, hm.2⟩

theorem Careful.after {α : Type} {x : Fenced α} (hx : Careful o' x) (h : Leaves (listing o) (listing o')) :
    Wp (fun t => Leaves (listing o) (listing t)) x (fun _ t => Leaves (listing o) (listing t)) o' :=
  hx.mono (fun _ ht => h.trans ht) fun _ _ ht => h.trans ht

theorem leaves_persistIf {c : Bool} (ho : Leaves (listing o) (listing o')) (hm : Undisturbed (listing o) m) :
    Wp (fun t => Leaves (listing o) (listing t)) (persistIf c m)
      (fun _ t => Leaves (listing o) (listing t)) o' := by
  rw [wp_persistIf]
  refine ⟨ho, ?_⟩
  cases c with
  | true => exact ⟨leaves_put hm, leaves_put hm⟩
  | false => exact ho

theorem careful_storeAudioChunk {input : AudioChunkInput} : Careful o (storeAudioChunk H now input m) := by
  have hsame : Leaves (listing o) (listing o) := .refl _
  unfold Careful storeAudioChunk
  cases findChunk m input.sequence with
  | some existing =>
    simp only [wp_bind, wp_read, wp_lift, wp_require, wp_persistChunk, wp_pure]
    exact ⟨hsame, hsame, fun _ _ => ⟨hsame, fun _ => ⟨hsame, hsame, hsame, hsame⟩⟩⟩
  | none =>
    simp only [wp_bind, wp_persistChunk, wp_persistMeetingManifest, wp_pure]
    have hadd : Leaves (listing o) (listing ((o.putChunk input.fileName input.buffer).putManifest
        (addChunk H now input m))) := leaves_withdrawn (withdrawn_addChunk now input m)
    exact ⟨hsame, hsame, hsame, hadd, hadd, hadd⟩

theorem careful_saveChunk {input : AudioChunkInput} : Careful o (saveMeetingAudioChunkUnsafe H now input) := by
  have hsame : Leaves (listing o) (listing o) := .refl _
  unfold Careful saveMeetingAudioChunkUnsafe
  simp only [wp_bind, wp_readManifest, wp_require, wp_lift]
  refine ⟨hsame, hsame, fun howner => ⟨hsame, fun m hm => ?_⟩⟩
  have hkept : Undisturbed (listing o) m :=
    ((undisturbed_current input.meetingId now o).trans (undisturbed_owner howner _)).trans (undisturbed_consent hm)
  exact (leaves_persistIf hsame hkept).mono (fun _ h => h) fun _ _ ht => careful_storeAudioChunk.after ht

theorem careful_seal {input : SealInput} : Careful o (sealMeetingAudioUnsafe H now input) := by
  have hsame : Leaves (listing o) (listing o) := .refl _
  unfold Careful sealMeetingAudioUnsafe
  simp only [wp_bind, wp_readManifest, wp_require, wp_lift, wp_read]
  refine ⟨hsame, fun _ => ⟨hsame, fun _ => ⟨hsame, hsame, fun _ => ⟨hsame, fun _ =>
    ⟨hsame, hsame, fun m hm => ?_⟩⟩⟩⟩⟩
  cases currentSeal H input m with
  | some audioSeal => exact wp_pure.mpr ⟨hsame, hsame⟩
  | none =>
    have hkept := (undisturbed_current input.meetingId now o).trans (undisturbed_backfill hm)
    have hput : Leaves (listing o) (listing (o.putManifest
        { m with audioSeal := some (newSeal H now input m), updatedAt := now })) :=
      leaves_put ⟨hkept.owner, hkept.share, hkept.review, hkept.keys⟩
    simp only [wp_bind, wp_persistMeetingManifest, wp_pure]
    exact ⟨hsame, hput, hput, hput⟩

theorem undisturbed_existing (h : o.manifest.map normalizeManifest = some m) : Undisturbed (listing o) m := by
  unfold listing currentManifest
  rw [h]
  exact .refl m

theorem undisturbed_withoutLease (h : Undisturbed (listing o) m) (now : Timestamp) :
    Undisturbed (listing o) (withoutLease now m) := ⟨h.owner, h.share, h.review, h.keys⟩

theorem careful_clearLease {uploadId : UploadId} : Careful o (clearRecordingUploadLease now uploadId) := by
  have hsame : Leaves (listing o) (listing o) := .refl _
  unfold Careful clearRecordingUploadLease
  simp only [wp_bind, wp_readExistingManifest]
  refine ⟨hsame, ?_⟩
  cases hm : o.manifest.map normalizeManifest with
  | none => exact wp_pure.mpr ⟨hsame, hsame⟩
  | some m => exact leaves_persistIf hsame (undisturbed_withoutLease (undisturbed_existing hm) now)

theorem careful_claimOwner {ownerUserId : UserId} : Careful o (claimMeetingOwner now meetingId ownerUserId) := by
  have hsame : Leaves (listing o) (listing o) := .refl _
  unfold Careful claimMeetingOwner
  simp only [wp_bind, wp_readManifest, wp_require]
  exact ⟨hsame, hsame, fun howner => leaves_persistIf hsame
    ((undisturbed_current meetingId now o).trans (undisturbed_owner howner now))⟩

theorem careful_reservePart {usage : Option UploadUsage} {input : PartInput} :
    Careful o (reservePartUnsafe policy now usage input) := by
  have hsame : Leaves (listing o) (listing o) := .refl _
  unfold Careful reservePartUnsafe
  simp only [wp_bind, wp_readManifest, wp_require, wp_lift]
  refine ⟨hsame, hsame, fun howner => ⟨hsame, fun _ => ⟨hsame, fun _ _ => ?_⟩⟩⟩
  refine (leaves_persistIf hsame ((undisturbed_current input.meetingId now o).trans
    (undisturbed_withLease howner 0))).mono (fun _ h => h) fun _ _ h => ?_
  exact wp_pure.mpr ⟨h, h⟩

theorem careful_publishPart {input : PartInput} {result : PartResult} :
    Careful o (publishPartUnsafe now input result) := by
  have hsame : Leaves (listing o) (listing o) := .refl _
  unfold Careful publishPartUnsafe
  simp only [wp_bind, wp_readManifest, wp_require]
  refine ⟨hsame, hsame, fun howner => ⟨hsame, fun _ => ?_⟩⟩
  refine careful_claimOwner.mono (fun _ h => h) fun _ t ht => ?_
  rw [wp_bind]
  refine (leaves_persistIf ht ((undisturbed_current input.meetingId now o).trans
    (undisturbed_withLease howner _))).mono (fun _ h => h) fun _ _ h => ?_
  exact wp_pure.mpr ⟨h, h⟩

theorem careful_sweepLease : Careful o (sweepLeaseUnsafe policy now) := by
  have hsame : Leaves (listing o) (listing o) := .refl _
  unfold Careful sweepLeaseUnsafe
  simp only [wp_bind, wp_readExistingManifest]
  refine ⟨hsame, ?_⟩
  cases hm : o.manifest.map normalizeManifest with
  | none => exact wp_pure.mpr ⟨hsame, hsame⟩
  | some m =>
    rw [Option.bind_some]
    cases m.recordingUpload with
    | none => exact wp_pure.mpr ⟨hsame, hsame⟩
    | some lease =>
      dsimp only
      split_ifs
      · have hput : Leaves (listing o) (listing (o.putManifest (withoutLease now m))) :=
          leaves_put (undisturbed_withoutLease (undisturbed_existing hm) now)
        simp only [wp_bind, wp_persistMeetingManifest, wp_pure]
        exact ⟨hsame, hput, hput, hput⟩
      · exact wp_pure.mpr ⟨hsame, hsame⟩

variable {input : UploadInput}

theorem careful_sealReceipt {receipt : RecordingUploadReceipt} :
    Careful o (sealCommittedRecordingUploadReceiptUnsafe H now input receipt) := by
  unfold Careful sealCommittedRecordingUploadReceiptUnsafe
  rw [wp_bind]
  refine careful_seal.mono (fun _ h => h) fun _ _ h => ?_
  exact wp_pure.mpr ⟨h, h⟩

theorem careful_answerReceipt {receipt : RecordingUploadReceipt} :
    Careful o (answerReceiptUnsafe H now input receipt) := by
  unfold Careful answerReceiptUnsafe
  simp only [wp_bind]
  refine careful_sealReceipt.mono (fun _ h => h) fun receipt t ht => ?_
  rw [wp_bind]
  refine (careful_clearLease.after ht).mono (fun _ h => h) fun _ _ h => ?_
  exact wp_pure.mpr ⟨h, h⟩

theorem careful_preflightCommit : Careful o (preflightCommitUnsafe H now input) := by
  unfold Careful preflightCommitUnsafe
  rw [wp_bind]
  refine careful_claimOwner.mono (fun _ h => h) fun _ t ht => ?_
  simp only [wp_bind, wp_read, wp_require]
  refine ⟨ht, ht, fun _ => ?_⟩
  cases (readRecordingUploadState t input.uploadId).receipt with
  | none => exact wp_pure.mpr ⟨ht, ht⟩
  | some receipt => exact wp_map (careful_answerReceipt.after ht)

theorem careful_publishCommit {prepared : PreparedCommit} : Careful o (publishCommitUnsafe H now input prepared) := by
  have hsame : Leaves (listing o) (listing o) := .refl _
  unfold Careful publishCommitUnsafe publishPreparedRecordingCommitUnsafe
  simp only [wp_bind, wp_read, wp_require, wp_readManifest, wp_lift]
  refine ⟨hsame, hsame, fun _ => ⟨hsame, hsame, fun _ => ⟨hsame, fun m _ => ⟨hsame, fun _ => ?_⟩⟩⟩⟩
  have hput : Leaves (listing o) (listing (o.putManifest
      (publishManifest H now input prepared (findChunk m 1) m))) := leaves_withdrawn (withdrawn_publishManifest _ _ _ _ _)
  exact wp_persistMeetingManifest.mpr ⟨hsame, hput, wp_pure.mpr ⟨hput, hput⟩⟩

theorem careful_recheckCommit {receipt : RecordingUploadReceipt} :
    Careful o (recheckCommitUnsafe H now input receipt) := by
  have hsame : Leaves (listing o) (listing o) := .refl _
  unfold Careful recheckCommitUnsafe
  simp only [wp_bind, wp_readManifest]
  refine ⟨hsame, ?_⟩
  cases meetingAudioMetadataFromManifest H (currentManifest input.meetingId now o) with
  | none => exact wp_fail.mpr hsame
  | some audio =>
    simp only [wp_bind, wp_require, wp_pure]
    exact ⟨hsame, fun _ => ⟨hsame, hsame⟩⟩

theorem careful_uploadStatus {state : RecordingUploadState} (hm : Undisturbed (listing o) m) :
    Careful o (uploadStatusOf H policy now input m state) := by
  have hsame : Leaves (listing o) (listing o) := .refl _
  have hrelease := undisturbed_withoutLease hm now
  unfold Careful uploadStatusOf
  dsimp only
  cases state.receipt with
  | some receipt =>
    simp only [wp_bind]
    refine (leaves_persistIf hsame hrelease).mono (fun _ h => h) fun _ t ht => ?_
    rw [wp_bind]
    refine (careful_sealReceipt.after ht).mono (fun _ h => h) fun _ _ h => ?_
    exact wp_pure.mpr ⟨h, h⟩
  | none =>
    cases state.manifest with
    | none =>
      simp only [wp_bind]
      refine (leaves_persistIf hsame hrelease).mono (fun _ h => h) fun _ _ h => ?_
      exact wp_pure.mpr ⟨h, h⟩
    | some upload =>
      simp only [wp_bind, wp_require]
      refine ⟨hsame, fun _ => ?_⟩
      split_ifs
      · have hput : Leaves (listing o) (listing (o.putManifest (withoutLease now m))) := leaves_put hrelease
        simp only [wp_bind, wp_persistMeetingManifest, wp_pure]
        exact ⟨hsame, hput, hput, hput⟩
      · split
        · exact wp_pure.mpr ⟨hsame, hsame⟩
        · rename_i lease _
          have hput : Leaves (listing o)
              (listing (o.putManifest { m with recordingUpload := some lease, updatedAt := now })) :=
            leaves_put ⟨hm.owner, hm.share, hm.review, hm.keys⟩
          simp only [wp_bind, wp_persistMeetingManifest, wp_pure]
          exact ⟨hsame, hput, hput, hput⟩

theorem careful_readStatus : Careful o (readMeetingRecordingUploadStatusUnsafe H policy now input) := by
  have hsame : Leaves (listing o) (listing o) := .refl _
  unfold Careful readMeetingRecordingUploadStatusUnsafe
  simp only [wp_bind, wp_readExistingManifest, wp_require, wp_read]
  refine ⟨hsame, hsame, fun _ => ⟨hsame, hsame, fun _ => ?_⟩⟩
  cases hm : o.manifest.map normalizeManifest with
  | none => exact wp_pure.mpr ⟨hsame, hsame⟩
  | some m => exact careful_uploadStatus (undisturbed_existing hm)

end Sections

/-- A chunk that was not there before is answered when nobody is let in any more. -/
theorem withdrawn_saveChunk {input : AudioChunkInput} :
    Wp (fun _ => True) (saveMeetingAudioChunkUnsafe H now input)
      (fun saved t => saved.idempotent = false → Withdrawn (listing t)) o := by
  unfold saveMeetingAudioChunkUnsafe
  simp only [wp_bind, wp_readManifest, wp_require, wp_lift]
  refine ⟨trivial, trivial, fun _ => ⟨trivial, fun m _ => ?_⟩⟩
  refine ⟨fun _ => trivial, fun {t} _ _ => ?_⟩
  unfold storeAudioChunk
  cases findChunk m input.sequence with
  | some existing =>
    simp only [wp_bind, wp_read, wp_lift, wp_require, wp_persistChunk, wp_pure]
    exact ⟨trivial, trivial, fun _ _ => ⟨trivial, fun _ => ⟨trivial, trivial, trivial, fun h => by cases h⟩⟩⟩
  | none =>
    simp only [wp_bind, wp_persistChunk, wp_persistMeetingManifest, wp_pure]
    have hadd := withdrawn_addChunk (H := H) now input m
    exact ⟨trivial, trivial, trivial, trivial, trivial, fun _ => ⟨hadd.1, hadd.2⟩⟩

/-! ### Steps -/

section Steps

variable {s t : AudioWorld}

/-- What a step leaves of the publication of every meeting that is not deleted, which lasts. -/
structure Unpublishes (s t : AudioWorld) : Prop where
  deleted {meetingId : MeetingId} (h : s.deletedMeetings meetingId = true) : t.deletedMeetings meetingId = true
  leaves (meetingId : MeetingId) : t.deletedMeetings meetingId = true ∨
    Leaves (listing (s.meetings meetingId)) (listing (t.meetings meetingId))

theorem unpublishes_same (h : t.meetings = s.meetings) (hdeleted : t.deletedMeetings = s.deletedMeetings) :
    Unpublishes s t := by
  refine ⟨fun hs => by rwa [hdeleted], fun meetingId => ?_⟩
  rw [h]
  exact .inr (.refl _)

theorem unpublishes_update (h : t.meetings = Function.update s.meetings meetingId o)
    (hdeleted : t.deletedMeetings = s.deletedMeetings) (ho : Leaves (listing (s.meetings meetingId)) (listing o)) :
    Unpublishes s t := by
  refine ⟨fun hs => by rwa [hdeleted], fun id => ?_⟩
  rw [h]
  by_cases hid : id = meetingId
  · subst hid
    rw [Function.update_self]
    exact .inr ho
  · rw [Function.update_of_ne hid]
    exact .inr (.refl _)

/-- What is put beside the manifest changes no publication. -/
theorem unpublishes_beside (h : t.meetings = Function.update s.meetings meetingId o)
    (hdeleted : t.deletedMeetings = s.deletedMeetings) (ho : o.manifest = (s.meetings meetingId).manifest) :
    Unpublishes s t :=
  unpublishes_update h hdeleted (listing_of_manifest ho ▸ .refl _)

/-- A function between worlds that leaves the meetings and the tombstones as they are. -/
def Spares (f : AudioWorld → AudioWorld) : Prop :=
  ∀ s, (f s).meetings = s.meetings ∧ (f s).deletedMeetings = s.deletedMeetings

theorem spares_id : Spares id := fun _ => ⟨rfl, rfl⟩

theorem spares_setPhase (callId : CallId) (phase : Phase) : Spares (·.setPhase callId phase) := fun _ => ⟨rfl, rfl⟩

theorem spares_finish (callId : CallId) : Spares (·.finish callId) := by
  refine fun s => ⟨finish_meetings callId, ?_⟩
  dsimp only
  unfold AudioWorld.finish
  cases (s.calls callId).user? <;> cases (s.calls callId).upload? <;> rfl

theorem spares_sweepNext (callId : CallId) (input : PartInput) (usage : UploadUsage) (meetingIds : List MeetingId) :
    (stepSweepNext policy s callId input usage meetingIds).deletedMeetings = s.deletedMeetings := by
  unfold stepSweepNext
  cases meetingIds with
  | nil => rfl
  | cons meetingId meetingIds =>
    dsimp only
    split
    · split_ifs <;> rfl
    · rfl

theorem unpublishes_fenced {α : Type} {x : Fenced α} {stop : Option ℕ} {leave : AudioWorld → AudioWorld}
    {next : AudioWorld → α → AudioWorld × Option Answer} (hx : Careful (s.meetings meetingId) x)
    (hleave : Spares leave) (hnext : ∀ a, Spares fun s => (next s a).1) :
    Unpublishes s (continueWith (fenced s meetingId stop x) leave next).1 := by
  have hmeetings := continueWith_field AudioWorld.meetings (r := fenced s meetingId stop x)
    (fun s => (hleave s).1) fun s a => (hnext a s).1
  have hdeleted : (continueWith (fenced s meetingId stop x) leave next).1.deletedMeetings = s.deletedMeetings := by
    rw [continueWith_field AudioWorld.deletedMeetings (fun s => (hleave s).2) fun s a => (hnext a s).2]
    unfold fenced
    split_ifs <;> rfl
  rcases fenced_meetings s meetingId stop x with h | h
  · exact unpublishes_same (hmeetings.trans h) hdeleted
  · exact unpublishes_update (hmeetings.trans h) hdeleted (hx.crash (visits_run x stop _))

theorem unpublishes_section {α : Type} {x : Fenced α} {userId : UserId} {stop : Option ℕ}
    {leave : AudioWorld → AudioWorld} {next : AudioWorld → α → AudioWorld × Option Answer}
    (hx : Careful (s.meetings meetingId) x) (hleave : Spares leave) (hnext : ∀ a, Spares fun s => (next s a).1) :
    Unpublishes s (continueWith (userSection s userId meetingId stop x) leave next).1 := by
  unfold userSection
  split_ifs
  · exact unpublishes_same (hleave s).1 (hleave s).2
  · exact unpublishes_fenced hx hleave hnext

/-- **What a step of a call on audio leaves of the publications.** -/
theorem audio_step {e : AudioEvent × Option Answer} (hstep : step H policy s e.1 = some (t, e.2)) :
    Unpublishes s t := by
  obtain ⟨event, answer⟩ := e
  dsimp only at hstep
  cases event with
  | tick | deleteUser =>
    cases hstep
    exact unpublishes_same rfl rfl
  | deleteMeeting meetingId =>
    cases hstep
    refine ⟨fun {id} hs => ?_, fun _ => .inr (.refl _)⟩
    by_cases hid : id = meetingId
    · exact hid ▸ Function.update_self _ _ _
    · exact (Function.update_of_ne hid _ _).trans hs
  | removeMeeting meetingId =>
    simp only [step] at hstep
    split_ifs at hstep with hdeleted
    cases hstep
    refine ⟨fun h => h, fun id => ?_⟩
    by_cases hid : id = meetingId
    · exact .inl (hid ▸ hdeleted)
    · refine .inr ?_
      rw [show (s.setObjects meetingId {}).meetings id = s.meetings id from Function.update_of_ne hid _ _]
      exact .refl _
  | saveChunk input stop =>
    simp only [step] at hstep
    split_ifs at hstep
    rw [world_of_some hstep]
    exact unpublishes_section careful_saveChunk spares_id fun _ => spares_id
  | sealAudio input stop =>
    simp only [step] at hstep
    split_ifs at hstep
    rw [world_of_some hstep]
    unfold stepSealAudio
    split_ifs
    · exact unpublishes_same rfl rfl
    · exact unpublishes_fenced careful_seal spares_id fun _ => spares_id
  | readStatus callId input stop =>
    simp only [step] at hstep
    split_ifs at hstep
    rw [world_of_some hstep]
    refine unpublishes_fenced careful_readStatus spares_id fun status s => ?_
    dsimp only
    split <;> exact ⟨rfl, rfl⟩
  | beginPart callId input meetingIds =>
    simp only [step] at hstep
    split_ifs at hstep
    rw [world_of_some hstep]
    unfold stepBeginPart
    split_ifs <;> exact unpublishes_same rfl rfl
  | sweepNext callId =>
    simp only [step] at hstep
    split at hstep
    · rw [world_of_some hstep]
      exact unpublishes_same (sweepNext_meetings _ _ _ _) (spares_sweepNext _ _ _ _)
    · cases hstep
  | sweepLease callId stop =>
    simp only [step] at hstep
    split at hstep
    · rw [world_of_some hstep]
      refine unpublishes_fenced careful_sweepLease (spares_finish _) fun swept s => ?_
      cases swept <;> exact ⟨rfl, rfl⟩
    · cases hstep
  | reserve callId stop =>
    simp only [step] at hstep
    split at hstep
    · rw [world_of_some hstep]
      exact unpublishes_fenced careful_reservePart (spares_finish _) fun _ _ => ⟨rfl, rfl⟩
    · cases hstep
  | stage callId =>
    simp only [step] at hstep
    split at hstep
    · split_ifs at hstep
      rw [world_of_some hstep]
      unfold stepStage
      split <;> exact unpublishes_same rfl rfl
    · cases hstep
  | putPart callId | putPartManifest callId | putRecording callId | putReceipt callId =>
    simp only [step] at hstep
    split at hstep
    · rw [world_of_some hstep]
      exact unpublishes_beside rfl rfl rfl
    · cases hstep
  | publishPart callId stop =>
    simp only [step] at hstep
    split at hstep
    · split_ifs at hstep
      rw [world_of_some hstep]
      exact unpublishes_section careful_publishPart (spares_setPhase _ _) fun _ => spares_setPhase _ _
    · cases hstep
  | beginCommit callId input stop =>
    simp only [step] at hstep
    split_ifs at hstep
    rw [world_of_some hstep]
    refine unpublishes_section careful_preflightCommit spares_id fun receipt s => ?_
    cases receipt <;> exact ⟨rfl, rfl⟩
  | assemble callId durationMs =>
    simp only [step] at hstep
    split at hstep
    · split_ifs at hstep
      rw [world_of_some hstep]
      unfold stepAssemble
      split <;> exact unpublishes_same rfl rfl
    · cases hstep
  | answerReceipt callId stop =>
    simp only [step] at hstep
    split at hstep
    · split_ifs at hstep
      rw [world_of_some hstep]
      exact unpublishes_section careful_answerReceipt (spares_setPhase _ _) fun _ => spares_setPhase _ _
    · cases hstep
  | intend callId =>
    simp only [step] at hstep
    split at hstep
    · split_ifs at hstep
      rw [world_of_some hstep]
      exact unpublishes_section (wp_pure.mpr ⟨.refl _, .refl _⟩) (spares_setPhase _ _) fun _ => spares_setPhase _ _
    · cases hstep
  | publishCommit callId stop =>
    simp only [step] at hstep
    split at hstep
    · split_ifs at hstep
      rw [world_of_some hstep]
      exact unpublishes_section careful_publishCommit (spares_setPhase _ _) fun _ => spares_setPhase _ _
    · cases hstep
  | recheck callId stop =>
    simp only [step] at hstep
    split at hstep
    · split_ifs at hstep
      rw [world_of_some hstep]
      exact unpublishes_section careful_recheckCommit (spares_setPhase _ _) fun _ => spares_setPhase _ _
    · cases hstep
  | list callId listed =>
    simp only [step] at hstep
    split at hstep
    · rw [world_of_some hstep]
      exact unpublishes_same rfl rfl
    · cases hstep
  | remove callId key =>
    simp only [step] at hstep
    split at hstep
    · rename_i deletion _
      split_ifs at hstep
      rw [world_of_some hstep]
      exact unpublishes_beside rfl rfl (removeStaged_manifest deletion.uploadId key _)
    · cases hstep
  | endDeletion callId =>
    simp only [step, stepEndDeletion] at hstep
    split at hstep
    · rw [world_of_some hstep]
      exact unpublishes_same rfl rfl
    · rw [world_of_some hstep]
      exact unpublishes_same rfl rfl
    · cases hstep
  | crash callId =>
    rw [world_of_some hstep]
    exact unpublishes_same (finish_meetings callId) (spares_finish callId s).2

/-- A new chunk that is answered has withdrawn the publication of its meeting. -/
theorem saved_withdraws {input : AudioChunkInput} {stop : Option ℕ} {saved : SavedChunk}
    (hstep : step H policy s (.saveChunk input stop) = some (t, some (.saved saved)))
    (hnew : saved.idempotent = false) : Withdrawn (listing (t.meetings input.meetingId)) := by
  simp only [step] at hstep
  split_ifs at hstep
  have hstep := Option.some.inj hstep
  unfold stepSaveChunk continueWith at hstep
  split at hstep
  · cases congrArg Prod.snd hstep
  · cases congrArg Prod.snd hstep
  · rename_i a ha
    obtain ⟨-, o, hreturns, hworld⟩ := userSection_ok ha
    cases congrArg Prod.snd hstep
    have ht : s.setObjects input.meetingId o = t := hworld ▸ congrArg Prod.fst hstep
    rw [← ht, show (s.setObjects input.meetingId o).meetings input.meetingId = o from Function.update_self _ _ _]
    exact withdrawn_saveChunk.post hreturns hnew

end Steps

end OwnMinutes.Share.AudioSteps
