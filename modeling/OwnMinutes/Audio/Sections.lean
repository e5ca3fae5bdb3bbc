import Mathlib.Logic.Relation
import OwnMinutes.Audio.Store
import OwnMinutes.Lib.Outcome

/-! # What the sections write

Every write of a section to the manifest or the chunks of a meeting is one of seven (`AudioWrite`): a
manifest with the same audio, and perhaps a new lease, the content of a listed chunk again, the object of a
new chunk, the manifest that lists it, a seal, the recording of an upload. Each kind of call makes only some
(`Writer`). A section that stops anywhere has made a sequence of them
(`Written`). -/

namespace OwnMinutes.Audio.Sections

open OwnMinutes.Auth.ProcessingRoute OwnMinutes.Auth.Records OwnMinutes.Lib.Crash
open OwnMinutes.Lib.Outcome OwnMinutes.Audio.Records OwnMinutes.Audio.Store

/-! ### The manifest as it is read -/

/-- The manifest of a meeting as sections read it, up to the identity and the time of an empty one. -/
def listing (o : MeetingObjects) : AudioManifest := currentManifest "" 0 o

/-- The audio that two manifests list, with the seal, is the same. -/
structure SameAudio (m m' : AudioManifest) : Prop where
  chunks : m'.chunks = m.chunks
  totalBytes : m'.totalBytes = m.totalBytes
  audioSeal : normalizeAudioSeal m'.audioSeal = normalizeAudioSeal m.audioSeal

theorem SameAudio.refl (m : AudioManifest) : SameAudio m m := ⟨rfl, rfl, rfl⟩

theorem SameAudio.trans {a b c : AudioManifest} (h : SameAudio a b) (h' : SameAudio b c) :
    SameAudio a c :=
  ⟨h'.chunks.trans h.chunks, h'.totalBytes.trans h.totalBytes, h'.audioSeal.trans h.audioSeal⟩

variable {m' : AudioManifest}

theorem SameAudio.symm {m : AudioManifest} (h : SameAudio m m') : SameAudio m' m :=
  ⟨h.chunks.symm, h.totalBytes.symm, h.audioSeal.symm⟩

@[simp] theorem normalizeAudioSeal_idem (audioSeal : Option AudioSeal) :
    normalizeAudioSeal (normalizeAudioSeal audioSeal) = normalizeAudioSeal audioSeal := by
  unfold normalizeAudioSeal
  rw [Option.filter_filter]
  congr 1
  funext x
  exact Bool.and_self _

theorem sameAudio_normalize (m : AudioManifest) : SameAudio m (normalizeManifest m) :=
  ⟨rfl, rfl, normalizeAudioSeal_idem _⟩

@[simp] theorem listing_putManifest (o : MeetingObjects) (m : AudioManifest) :
    listing (o.putManifest m) = normalizeManifest m := rfl

theorem listing_of_manifest {o o' : MeetingObjects} (h : o'.manifest = o.manifest) :
    listing o' = listing o := by
  unfold listing currentManifest
  rw [h]

theorem sameAudio_current (meetingId : MeetingId) (now : Timestamp) (o : MeetingObjects) :
    SameAudio (listing o) (currentManifest meetingId now o) := by
  unfold listing currentManifest
  cases o.manifest with
  | none => exact ⟨rfl, rfl, rfl⟩
  | some m => exact SameAudio.refl _

theorem normalizeAudioSeal_listing (o : MeetingObjects) :
    normalizeAudioSeal (listing o).audioSeal = (listing o).audioSeal := by
  unfold listing currentManifest
  cases o.manifest with
  | none => rfl
  | some m => exact normalizeAudioSeal_idem m.audioSeal

theorem findChunk_congr {m : AudioManifest} (h : m'.chunks = m.chunks) (sequence : ℕ) :
    findChunk m' sequence = findChunk m sequence := by
  unfold findChunk
  rw [h]

theorem SameAudio.revision {m : AudioManifest} (h : SameAudio m m') (H : Hashing) :
    deriveMeetingAudioRevision H m' = deriveMeetingAudioRevision H m := by
  unfold deriveMeetingAudioRevision audioState
  rw [h.chunks, h.totalBytes]

/-- The manifest lists the same audio under the same owner, if there was one, and with no other lease. -/
structure Keeps (m m' : AudioManifest) : Prop extends SameAudio m m' where
  lease : m'.recordingUpload = none ∨ m'.recordingUpload = m.recordingUpload
  owner : m.ownerUserId = none ∨ m'.ownerUserId = m.ownerUserId

theorem Keeps.refl (m : AudioManifest) : Keeps m m := ⟨SameAudio.refl m, .inr rfl, .inr rfl⟩

theorem Keeps.trans {a b c : AudioManifest} (h : Keeps a b) (h' : Keeps b c) : Keeps a c := by
  refine ⟨h.toSameAudio.trans h'.toSameAudio, ?_, ?_⟩
  · rcases h'.lease with hnone | heq
    · exact .inl hnone
    · rw [heq]
      exact h.lease
  · rcases h.owner with hnone | heq
    · exact .inl hnone
    · rcases h'.owner with hnone | heq'
      · exact .inl (heq ▸ hnone)
      · exact .inr (heq'.trans heq)

theorem keeps_normalize (m : AudioManifest) : Keeps m (normalizeManifest m) := by
  refine ⟨sameAudio_normalize m, ?_, .inr rfl⟩
  unfold normalizeManifest normalizeRecordingUploadLease
  cases m.recordingUpload with
  | none => exact .inl rfl
  | some lease =>
    dsimp only
    rw [Option.filter_some]
    split_ifs
    · exact .inr rfl
    · exact .inl rfl

theorem keeps_current (meetingId : MeetingId) (now : Timestamp) (o : MeetingObjects) :
    Keeps (listing o) (currentManifest meetingId now o) := by
  unfold listing currentManifest
  cases o.manifest with
  | none => exact ⟨⟨rfl, rfl, rfl⟩, .inr rfl, .inr rfl⟩
  | some m => exact Keeps.refl _

theorem normalizeLease_listing (o : MeetingObjects) :
    normalizeRecordingUploadLease (listing o).recordingUpload = (listing o).recordingUpload := by
  unfold listing currentManifest
  cases o.manifest with
  | none => rfl
  | some m =>
    change normalizeRecordingUploadLease (normalizeRecordingUploadLease m.recordingUpload) = _
    unfold normalizeRecordingUploadLease
    rw [Option.filter_filter]
    congr 1
    funext lease
    exact Bool.and_self _

/-- A manifest is read back with the lease that was kept. -/
theorem Keeps.stored {o : MeetingObjects} {m : AudioManifest} (h : Keeps (listing o) m) :
    Keeps (normalizeManifest m) m := by
  refine ⟨(sameAudio_normalize m).symm, ?_, .inr rfl⟩
  rcases h.lease with hnone | heq
  · exact .inl hnone
  · refine .inr ?_
    change _ = normalizeRecordingUploadLease m.recordingUpload
    rw [heq, normalizeLease_listing]

/-! ### Manifests with a new chunk -/

section NewChunks

variable (H : Hashing) (now : Timestamp)

/-- The chunk that a call adds. -/
def newChunk (input : AudioChunkInput) : AudioChunk where
  sequence := input.sequence
  fileName := input.fileName
  bytes := input.buffer.length
  mimeType := input.mimeType
  recordedAt := input.recordedAt
  durationMs := input.durationMs
  receivedAt := now
  sha256 := some (H.sha256 input.buffer)

theorem addChunk_audio (input : AudioChunkInput) (m : AudioManifest) :
    (addChunk H now input m).chunks = pushChunk m.chunks (newChunk H now input) ∧
      (addChunk H now input m).totalBytes =
        chunkBytes (pushChunk m.chunks (newChunk H now input)) ∧
      (addChunk H now input m).audioSeal = none := by
  unfold addChunk
  obtain ⟨share, hshare⟩ := revokeMeetingShare_eq now { m with
    chunks := pushChunk m.chunks (newChunk H now input)
    totalBytes := chunkBytes (pushChunk m.chunks (newChunk H now input))
    audioSeal := none
    reviewConfirmation := none }
  refine ⟨?_, ?_, ?_⟩
  · exact congrArg AudioManifest.chunks hshare
  · exact congrArg AudioManifest.totalBytes hshare
  · exact congrArg AudioManifest.audioSeal hshare

variable (input : UploadInput) (prepared : PreparedCommit) (existing : Option AudioChunk)
  (m : AudioManifest)

/-- A publication lists the recording and seals it as chunk `1`. -/
theorem publishManifest_audio :
    (publishManifest H now input prepared existing m).chunks =
        publishChunks H now prepared m.chunks existing ∧
      (publishManifest H now input prepared existing m).totalBytes =
        chunkBytes (publishChunks H now prepared m.chunks existing) ∧
      (publishManifest H now input prepared existing m).audioSeal = some
        { audioRevision := deriveMeetingAudioRevision H
            (publishManifest H now input prepared existing m)
          lastSequence := 1
          totalBytes := chunkBytes (publishChunks H now prepared m.chunks existing)
          sealedAt := now } := by
  unfold publishManifest
  obtain ⟨share, hshare⟩ := revokeMeetingShare_eq now { m with
    chunks := publishChunks H now prepared m.chunks existing
    ownerUserId := some input.ownerUserId
    totalBytes := chunkBytes (publishChunks H now prepared m.chunks existing)
    reviewConfirmation := none
    recordingUpload := m.recordingUpload.filter (·.uploadId ≠ input.uploadId) }
  dsimp only
  rw [hshare]
  exact ⟨rfl, rfl, rfl⟩

end NewChunks

/-! ### Writes -/

/-- What is written: a lease, chunks, a seal of so many chunks, a recording, or none of these. -/
inductive Writer
  | others
  | leases
  | chunks
  | seals (lastSequence totalBytes : ℕ)
  | recordings
  deriving DecidableEq, Repr

/-- The writers that may leave a seal that was not there. -/
def Writer.Sealing : Writer → Prop
  | .seals _ _ | .recordings => True
  | .others | .leases | .chunks => False

variable (H : Hashing)

inductive AudioWrite (o : MeetingObjects) : Writer → MeetingObjects → Prop
  | keep {w : Writer} {m : AudioManifest} (h : Keeps (listing o) m) : AudioWrite o w (o.putManifest m)
  | lease {m : AudioManifest} (h : SameAudio (listing o) m) : AudioWrite o .leases (o.putManifest m)
  | rewrite {sequence : ℕ} {existing : AudioChunk} {content : Bytes}
      (hfind : findChunk (listing o) sequence = some existing)
      (hsha : existingSha256 H o existing = .ok (H.sha256 content)) :
      AudioWrite o .chunks (o.putChunk existing.fileName content)
  | putNew {input : AudioChunkInput} (hfind : findChunk (listing o) input.sequence = none) :
      AudioWrite o .chunks (o.putChunk input.fileName input.buffer)
  | add {now : Timestamp} {input : AudioChunkInput} {m : AudioManifest} (hpos : 0 < input.sequence)
      (hfind : findChunk (listing o) input.sequence = none)
      (hput : o.chunks input.fileName = some input.buffer) (hm : Keeps (listing o) m) :
      AudioWrite o .chunks (o.putManifest (addChunk H now input m))
  | sealed {now : Timestamp} {last total : ℕ} {m m' : AudioManifest} (hlast : 0 < last)
      (hm : Keeps (listing o) m) (hcomplete : completeSequence m.chunks last = true)
      (hback : backfillManifestChunkDigests H o m = .ok m') (htotal : m'.totalBytes = total) :
      AudioWrite o (.seals last total) (o.putManifest
        { m' with
          audioSeal := some
            { audioRevision := deriveMeetingAudioRevision H m'
              lastSequence := last
              totalBytes := total
              sealedAt := now }
          updatedAt := now })
  | publish {now : Timestamp} {input : UploadInput} {prepared : PreparedCommit} {m : AudioManifest}
      (hm : Keeps (listing o) m) (howner : ownedBy m input.ownerUserId = true)
      (hsha : ((findChunk m 1).bind (·.sha256)).all (· == H.sha256 prepared.content) = true) :
      AudioWrite o .recordings (o.putManifest (publishManifest H now input prepared (findChunk m 1) m))

/-- What a section has written when it is found in `o'`. -/
abbrev Written (w : Writer) : MeetingObjects → MeetingObjects → Prop :=
  Relation.ReflTransGen fun o => AudioWrite H o w

/-- What is staged is written outside of the fence. -/
theorem Written.staged {w : Writer} {o o' : MeetingObjects} (h : Written H w o o') :
    o'.uploadManifests = o.uploadManifests ∧ o'.uploadParts = o.uploadParts ∧
      o'.uploadReceipts = o.uploadReceipts := by
  induction h with
  | refl => exact ⟨rfl, rfl, rfl⟩
  | tail _ hwrite ih =>
    obtain ⟨hmanifests, hparts, hreceipts⟩ := ih
    rw [← hmanifests, ← hparts, ← hreceipts]
    cases hwrite <;> exact ⟨rfl, rfl, rfl⟩

/-- A receipt that is found is sealed again. -/
def receiptWriter (w : Writer) (receipt : Option RecordingUploadReceipt) : Writer :=
  match receipt with
  | none => w
  | some receipt => .seals receipt.totalChunks receipt.totalBytes

/-! ### Sections as sequences of writes -/

section Sections

variable {H} {w : Writer} {C : MeetingObjects → Prop} {o : MeetingObjects}

theorem wp_readManifest {meetingId : MeetingId} {now : Timestamp}
    {Q : AudioManifest → MeetingObjects → Prop} :
    Wp C (readManifest meetingId now) Q o ↔ C o ∧ Q (currentManifest meetingId now o) o := by
  unfold readManifest
  rw [wp_bind, wp_read, wp_pure]
  exact ⟨fun h => h.2, fun h => ⟨h.1, h⟩⟩

theorem wp_readExistingManifest {Q : Option AudioManifest → MeetingObjects → Prop} :
    Wp C readExistingManifest Q o ↔ C o ∧ Q (o.manifest.map normalizeManifest) o := by
  unfold readExistingManifest
  rw [wp_bind, wp_read, wp_pure]
  exact ⟨fun h => h.2, fun h => ⟨h.1, h⟩⟩

theorem wp_persistMeetingManifest {m : AudioManifest} {Q : Unit → MeetingObjects → Prop} :
    Wp C (persistMeetingManifest m) Q o ↔ C o ∧ C (o.putManifest m) ∧ Q () (o.putManifest m) :=
  wp_write

theorem wp_persistChunk {fileName : ChunkFileName} {content : Bytes}
    {Q : Unit → MeetingObjects → Prop} :
    Wp C (persistChunk fileName content) Q o ↔
      C o ∧ C (o.putChunk fileName content) ∧ Q () (o.putChunk fileName content) :=
  wp_write

theorem wp_persistIf {c : Bool} {m : AudioManifest} {Q : Unit → MeetingObjects → Prop} :
    Wp C (persistIf c m) Q o ↔
      C o ∧ if c then C (o.putManifest m) ∧ Q () (o.putManifest m) else Q () o := by
  unfold persistIf
  cases c with
  | true => exact wp_persistMeetingManifest
  | false => exact wp_pure

/-- A section is only found where its writes lead, if it is where any value is returned. -/
theorem written_storeAudioChunk {now : Timestamp} {input : AudioChunkInput} {m : AudioManifest}
    (hpos : 0 < input.sequence) (hm : Keeps (listing o) m) :
    Wp (Written H .chunks o) (storeAudioChunk H now input m)
      (fun _ t => Written H .chunks o t) o := by
  have hfind := findChunk_congr hm.chunks input.sequence
  unfold storeAudioChunk
  cases hfound : findChunk m input.sequence with
  | some existing =>
    simp only [wp_bind, wp_read, wp_lift, wp_require, wp_persistChunk, wp_pure]
    refine ⟨.refl, .refl, fun digest hdigest => ⟨.refl, fun heq => ?_⟩⟩
    have hwrite : Written H .chunks o (o.putChunk existing.fileName input.buffer) :=
      .single (.rewrite (hfind ▸ hfound) (heq ▸ hdigest))
    exact ⟨.refl, hwrite, hwrite, hwrite⟩
  | none =>
    simp only [wp_bind, wp_persistChunk, wp_persistMeetingManifest, wp_pure]
    have hput : Written H .chunks o (o.putChunk input.fileName input.buffer) :=
      .single (.putNew (hfind ▸ hfound))
    have hadd : Written H .chunks o ((o.putChunk input.fileName input.buffer).putManifest
        (addChunk H now input m)) :=
      hput.tail (.add hpos (hfind ▸ hfound) (Function.update_self _ _ _) hm)
    exact ⟨.refl, hput, hput, hadd, hadd, hadd⟩

theorem Written.wp {α : Type} {o' : MeetingObjects} {x : Fenced α} (h : Written H w o o')
    (hx : Wp (Written H w o') x (fun _ t => Written H w o' t) o') :
    Wp (Written H w o) x (fun _ t => Written H w o t) o' :=
  hx.mono (fun _ ht => h.trans ht) fun _ _ ht => h.trans ht

theorem written_persist {m : AudioManifest} (hm : Keeps (listing o) m) :
    Written H w o (o.putManifest m) := .single (.keep hm)

theorem written_persistIf {c : Bool} {m : AudioManifest} (hm : Keeps (listing o) m) :
    Wp (Written H w o) (persistIf c m) (fun _ t => Written H w o t ∧ Keeps (listing t) m) o := by
  rw [wp_persistIf]
  have hput := written_persist (H := H) (w := w) hm
  refine ⟨.refl, ?_⟩
  cases c with
  | true => exact ⟨hput, hput, hm.stored⟩
  | false => exact ⟨.refl, hm⟩

theorem written_persistLease {c : Bool} {m : AudioManifest} (hm : SameAudio (listing o) m) :
    Wp (Written H .leases o) (persistIf c m) (fun _ t => Written H .leases o t) o := by
  rw [wp_persistIf]
  have hput : Written H .leases o (o.putManifest m) := .single (.lease hm)
  refine ⟨.refl, ?_⟩
  cases c with
  | true => exact ⟨hput, hput⟩
  | false => exact .refl

theorem keeps_consent {m : AudioManifest} {incoming : RecordingConsentMetadata}
    (h : assertAndSetRecordingConsent m incoming = .ok m') : Keeps m m' ∧ m'.ownerUserId = m.ownerUserId := by
  obtain ⟨consent, rfl⟩ := assertAndSetRecordingConsent_ok h
  exact ⟨⟨⟨rfl, rfl, rfl⟩, .inr rfl, .inr rfl⟩, rfl⟩

/-- An owner is set where there was none, or the same. -/
theorem keeps_owner {m : AudioManifest} {ownerUserId : UserId} (h : ownedBy m ownerUserId = true)
    (updatedAt : Timestamp) :
    Keeps m { m with ownerUserId := some ownerUserId, updatedAt := updatedAt } := by
  refine ⟨⟨rfl, rfl, rfl⟩, .inr rfl, ?_⟩
  unfold ownedBy at h
  cases howner : m.ownerUserId with
  | none => exact .inl rfl
  | some owner =>
    rw [howner, Option.all_some, beq_iff_eq] at h
    exact .inr (congrArg some h.symm)

theorem written_saveChunk {now : Timestamp} {input : AudioChunkInput} (hpos : 0 < input.sequence) :
    Wp (Written H .chunks o) (saveMeetingAudioChunkUnsafe H now input)
      (fun _ t => Written H .chunks o t) o := by
  unfold saveMeetingAudioChunkUnsafe
  simp only [wp_bind, wp_readManifest, wp_require, wp_lift]
  refine ⟨.refl, .refl, fun howner => ⟨.refl, fun m hm => ?_⟩⟩
  have hkeeps : Keeps (listing o) m :=
    ((keeps_current input.meetingId now o).trans (keeps_owner howner _)).trans (keeps_consent hm).1
  exact (written_persistIf hkeeps).mono (fun _ h => h) fun _ t ht =>
    ht.1.wp (written_storeAudioChunk hpos ht.2)

theorem sameAudio_backfill {m : AudioManifest} (h : backfillManifestChunkDigests H o m = .ok m') :
    m'.totalBytes = m.totalBytes ∧ m'.audioSeal = m.audioSeal := by
  obtain ⟨chunks, -, hm⟩ := bind_eq_ok.mp h
  cases hm
  exact ⟨rfl, rfl⟩

/-- What is returned is a seal of the audio as it is stored. -/
theorem written_seal {now : Timestamp} {input : SealInput} :
    Wp (Written H (.seals input.expectedLastSequence input.totalBytes) o)
      (sealMeetingAudioUnsafe H now input)
      (fun _ t => Written H (.seals input.expectedLastSequence input.totalBytes) o t) o := by
  unfold sealMeetingAudioUnsafe
  simp only [wp_bind, wp_readManifest, wp_require, wp_lift, wp_read]
  refine ⟨.refl, fun hlast => ⟨.refl, fun _ => ⟨.refl, .refl, fun _ => ⟨.refl, fun hcomplete =>
    ⟨.refl, .refl, fun m hm => ?_⟩⟩⟩⟩⟩
  cases hseal : currentSeal H input m with
  | some audioSeal => exact wp_pure.mpr ⟨.refl, .refl⟩
  | none =>
    simp only [wp_bind, wp_persistMeetingManifest, wp_pure]
    have hput : Written H (.seals input.expectedLastSequence input.totalBytes) o (o.putManifest
        { m with audioSeal := some (newSeal H now input m), updatedAt := now }) :=
      .single (.sealed hlast (keeps_current input.meetingId now o) hcomplete.1 hm
        ((sameAudio_backfill hm).1.trans hcomplete.2))
    exact ⟨.refl, hput, hput, hput⟩

theorem keeps_existing {m : AudioManifest} (h : o.manifest.map normalizeManifest = some m) :
    Keeps (listing o) m := by
  unfold listing currentManifest
  rw [h]
  exact Keeps.refl m

theorem keeps_withoutLease {m : AudioManifest} (h : Keeps (listing o) m) (now : Timestamp) :
    Keeps (listing o) (withoutLease now m) :=
  ⟨⟨h.chunks, h.totalBytes, h.audioSeal⟩, .inl rfl, h.owner⟩

theorem written_clearLease {now : Timestamp} {uploadId : UploadId} :
    Wp (Written H w o) (clearRecordingUploadLease now uploadId) (fun _ t => Written H w o t) o := by
  unfold clearRecordingUploadLease
  simp only [wp_bind, wp_readExistingManifest]
  refine ⟨.refl, ?_⟩
  cases hm : o.manifest.map normalizeManifest with
  | none => exact wp_pure.mpr ⟨.refl, .refl⟩
  | some m =>
    exact (written_persistIf (keeps_withoutLease (keeps_existing hm) now)).mono (fun _ h => h)
      fun _ _ h => h.1

theorem written_claimOwner {now : Timestamp} {meetingId : MeetingId} {ownerUserId : UserId} :
    Wp (Written H w o) (claimMeetingOwner now meetingId ownerUserId)
      (fun _ t => Written H w o t ∧ SameAudio (listing o) (listing t)) o := by
  unfold claimMeetingOwner
  simp only [wp_bind, wp_readManifest, wp_require]
  refine ⟨.refl, .refl, fun howner => ?_⟩
  have hclaimed := (keeps_current meetingId now o).trans (keeps_owner howner now)
  exact (written_persistIf hclaimed).mono (fun _ h => h) fun _ _ h =>
    ⟨h.1, hclaimed.toSameAudio.trans h.2.toSameAudio.symm⟩

variable {policy : RecordingUploadResourcePolicy}

theorem written_reservePart {now : Timestamp} {usage : Option UploadUsage} {input : PartInput} :
    Wp (Written H .leases o) (reservePartUnsafe policy now usage input)
      (fun _ t => Written H .leases o t) o := by
  unfold reservePartUnsafe
  simp only [wp_bind, wp_readManifest, wp_require, wp_lift]
  refine ⟨.refl, .refl, fun _ => ⟨.refl, fun _ => ⟨.refl, fun _ _ => ?_⟩⟩⟩
  have hsame := sameAudio_current input.meetingId now o
  have hlease : SameAudio (listing o) (withLease now input 0 (currentManifest input.meetingId now o)) :=
    ⟨hsame.chunks, hsame.totalBytes, hsame.audioSeal⟩
  refine (written_persistLease hlease).mono (fun _ h => h) fun _ _ h => ?_
  exact wp_pure.mpr ⟨h, h⟩

theorem written_publishPart {now : Timestamp} {input : PartInput} {result : PartResult} :
    Wp (Written H .leases o) (publishPartUnsafe now input result)
      (fun _ t => Written H .leases o t) o := by
  unfold publishPartUnsafe
  simp only [wp_bind, wp_readManifest, wp_require]
  refine ⟨.refl, .refl, fun _ => ⟨.refl, fun _ => ?_⟩⟩
  refine written_claimOwner.mono (fun _ h => h) fun _ t ht => ?_
  have hsame := ht.2.symm.trans (sameAudio_current input.meetingId now o)
  have hlease : SameAudio (listing t)
      (withLease now input result.stagedBytes (currentManifest input.meetingId now o)) :=
    ⟨hsame.chunks, hsame.totalBytes, hsame.audioSeal⟩
  have hpersist := ht.1.wp (written_persistLease (c := !result.committed) hlease)
  rw [wp_bind]
  refine hpersist.mono (fun _ h => h) fun _ _ h => ?_
  exact wp_pure.mpr ⟨h, h⟩

theorem written_sweepLease {now : Timestamp} :
    Wp (Written H w o) (sweepLeaseUnsafe policy now) (fun _ t => Written H w o t) o := by
  unfold sweepLeaseUnsafe
  simp only [wp_bind, wp_readExistingManifest]
  refine ⟨.refl, ?_⟩
  cases hm : o.manifest.map normalizeManifest with
  | none => exact wp_pure.mpr ⟨.refl, .refl⟩
  | some m =>
    cases hlease : m.recordingUpload with
    | none =>
      rw [Option.bind_some, hlease]
      exact wp_pure.mpr ⟨.refl, .refl⟩
    | some lease =>
      rw [Option.bind_some, hlease]
      dsimp only
      split_ifs
      · have hput : Written H w o (o.putManifest (withoutLease now m)) :=
          written_persist (keeps_withoutLease (keeps_existing hm) now)
        simp only [wp_bind, wp_persistMeetingManifest, wp_pure]
        exact ⟨.refl, hput, hput, hput⟩
      · exact wp_pure.mpr ⟨.refl, .refl⟩

theorem written_sealReceipt {now : Timestamp} {input : UploadInput}
    {receipt : RecordingUploadReceipt} :
    Wp (Written H (receiptWriter w (some receipt)) o)
      (sealCommittedRecordingUploadReceiptUnsafe H now input receipt)
      (fun _ t => Written H (receiptWriter w (some receipt)) o t) o := by
  unfold sealCommittedRecordingUploadReceiptUnsafe
  rw [wp_bind]
  refine written_seal.mono (fun _ h => h) fun _ _ h => ?_
  exact wp_pure.mpr ⟨h, h⟩

theorem written_answerReceipt {now : Timestamp} {input : UploadInput}
    {receipt : RecordingUploadReceipt} :
    Wp (Written H (receiptWriter w (some receipt)) o) (answerReceiptUnsafe H now input receipt)
      (fun _ t => Written H (receiptWriter w (some receipt)) o t) o := by
  unfold answerReceiptUnsafe
  simp only [wp_bind]
  refine (written_sealReceipt (w := w)).mono (fun _ h => h) fun receipt t ht => ?_
  rw [wp_bind]
  refine (ht.wp written_clearLease).mono (fun _ h => h) fun _ _ h => ?_
  exact wp_pure.mpr ⟨h, h⟩

theorem written_preflightCommit {now : Timestamp} {input : UploadInput} :
    Wp (Written H (receiptWriter .others (o.uploadReceipts input.uploadId)) o)
      (preflightCommitUnsafe H now input)
      (fun _ t => Written H (receiptWriter .others (o.uploadReceipts input.uploadId)) o t) o := by
  unfold preflightCommitUnsafe
  rw [wp_bind]
  refine written_claimOwner.mono (fun _ h => h) fun _ t ht => ?_
  simp only [wp_bind, wp_read, wp_require]
  refine ⟨ht.1, ht.1, fun _ => ?_⟩
  have hreceipt : (readRecordingUploadState t input.uploadId).receipt = o.uploadReceipts input.uploadId :=
    congrFun ht.1.staged.2.2 _
  rw [hreceipt] at *
  cases hfound : o.uploadReceipts input.uploadId with
  | none =>
    rw [hfound] at ht
    exact wp_pure.mpr ⟨ht.1, ht.1⟩
  | some receipt =>
    rw [hfound] at ht
    exact wp_map (ht.1.wp written_answerReceipt)

theorem written_publishCommit {now : Timestamp} {input : UploadInput} {prepared : PreparedCommit} :
    Wp (Written H .recordings o) (publishCommitUnsafe H now input prepared)
      (fun _ t => Written H .recordings o t) o := by
  unfold publishCommitUnsafe publishPreparedRecordingCommitUnsafe
  simp only [wp_bind, wp_read, wp_require, wp_readManifest, wp_lift]
  refine ⟨.refl, .refl, fun _ => ⟨.refl, .refl, fun howner => ⟨.refl, fun m hm => ⟨.refl, fun hsha => ?_⟩⟩⟩⟩
  have hkeeps := (keeps_current input.meetingId now o).trans (keeps_consent hm).1
  have howned : ownedBy m input.ownerUserId = true := by
    unfold ownedBy at howner ⊢
    rwa [(keeps_consent hm).2]
  have hput : Written H .recordings o (o.putManifest
      (publishManifest H now input prepared (findChunk m 1) m)) := .single (.publish hkeeps howned hsha)
  exact wp_persistMeetingManifest.mpr ⟨.refl, hput, wp_pure.mpr ⟨hput, hput⟩⟩

theorem written_recheckCommit {now : Timestamp} {input : UploadInput}
    {receipt : RecordingUploadReceipt} :
    Wp (Written H w o) (recheckCommitUnsafe H now input receipt) (fun _ t => Written H w o t) o := by
  unfold recheckCommitUnsafe
  simp only [wp_bind, wp_readManifest]
  refine ⟨.refl, ?_⟩
  cases meetingAudioMetadataFromManifest H (currentManifest input.meetingId now o) with
  | none => exact wp_fail.mpr .refl
  | some audio =>
    simp only [wp_bind, wp_require, wp_pure]
    exact ⟨.refl, fun _ => ⟨.refl, .refl⟩⟩

theorem written_uploadStatus {now : Timestamp} {input : UploadInput} {m : AudioManifest}
    {state : RecordingUploadState} (hm : Keeps (listing o) m) :
    Wp (Written H (receiptWriter .leases state.receipt) o) (uploadStatusOf H policy now input m state)
      (fun _ t => Written H (receiptWriter .leases state.receipt) o t) o := by
  have hrelease := keeps_withoutLease hm now
  unfold uploadStatusOf
  dsimp only
  cases state.receipt with
  | some receipt =>
    simp only [wp_bind]
    refine (written_persistIf hrelease).mono (fun _ h => h) fun _ t ht => ?_
    rw [wp_bind]
    refine (ht.1.wp written_sealReceipt).mono (fun _ h => h) fun _ _ h => ?_
    exact wp_pure.mpr ⟨h, h⟩
  | none =>
    cases state.manifest with
    | none =>
      simp only [wp_bind]
      refine (written_persistIf hrelease).mono (fun _ h => h) fun _ _ h => ?_
      exact wp_pure.mpr ⟨h.1, h.1⟩
    | some upload =>
      simp only [wp_bind, wp_require]
      refine ⟨.refl, fun _ => ?_⟩
      split_ifs
      · have hput : Written H .leases o (o.putManifest (withoutLease now m)) := written_persist hrelease
        simp only [wp_bind, wp_persistMeetingManifest, wp_pure]
        exact ⟨.refl, hput, hput, hput⟩
      · split
        · exact wp_pure.mpr ⟨.refl, .refl⟩
        · rename_i lease _
          have hput : Written H .leases o
              (o.putManifest { m with recordingUpload := some lease, updatedAt := now }) :=
            .single (.lease ⟨hm.chunks, hm.totalBytes, hm.audioSeal⟩)
          simp only [wp_bind, wp_persistMeetingManifest, wp_pure]
          exact ⟨.refl, hput, hput, hput⟩

theorem written_readStatus {now : Timestamp} {input : UploadInput} :
    Wp (Written H (receiptWriter .leases (o.uploadReceipts input.uploadId)) o)
      (readMeetingRecordingUploadStatusUnsafe H policy now input)
      (fun _ t => Written H (receiptWriter .leases (o.uploadReceipts input.uploadId)) o t) o := by
  unfold readMeetingRecordingUploadStatusUnsafe
  simp only [wp_bind, wp_readExistingManifest, wp_require, wp_read]
  refine ⟨.refl, .refl, fun _ => ⟨.refl, .refl, fun _ => ?_⟩⟩
  cases hm : o.manifest.map normalizeManifest with
  | none => exact wp_pure.mpr ⟨.refl, .refl⟩
  | some m =>
    have hreceipt : (readRecordingUploadState o input.uploadId).receipt =
      o.uploadReceipts input.uploadId := rfl
    rw [← hreceipt]
    exact written_uploadStatus (keeps_existing hm)

end Sections

end OwnMinutes.Audio.Sections
