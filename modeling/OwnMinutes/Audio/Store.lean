import Mathlib.Logic.Function.Basic
import OwnMinutes.Audio.Records
import OwnMinutes.Lib.Crash

/-! # The objects of a meeting and the sections that change them

The functions of `meeting-audio-store.ts` that run under the fence of a meeting, as `Durable` computations
on its objects, and those of `recording-upload-store.ts`, which run outside of it. A section reads the
stored manifest through `normalizeManifest`; the catalog that `persistMeetingManifest` also updates is not
part of these objects. `now` is the time of a section. -/

namespace OwnMinutes.Audio.Store

open OwnMinutes.Auth.ProcessingRoute OwnMinutes.Auth.Records OwnMinutes.Finalizer.Records
open OwnMinutes.Lib.Crash OwnMinutes.Lib.Crash.Durable OwnMinutes.Audio.Records

/-! ### The objects of a meeting -/

structure MeetingObjects where
  /-- `manifest.json` -/
  manifest : Option AudioManifest := none
  /-- `chunks/{fileName}` -/
  chunks : ChunkFileName → Option Bytes := fun _ => none
  /-- `uploads/{uploadId}/manifest.json` -/
  uploadManifests : UploadId → Option RecordingUploadManifest := fun _ => none
  /-- `uploads/{uploadId}/parts/part-{index}.bin` -/
  uploadParts : UploadId → ℕ → Option Bytes := fun _ _ => none
  /-- `upload-receipts/{uploadId}.json` -/
  uploadReceipts : UploadId → Option RecordingUploadReceipt := fun _ => none

namespace MeetingObjects

variable (s : MeetingObjects)

def putManifest (manifest : AudioManifest) : MeetingObjects := { s with manifest := some manifest }

def putChunk (fileName : ChunkFileName) (content : Bytes) : MeetingObjects :=
  { s with chunks := Function.update s.chunks fileName (some content) }

def putUploadManifest (manifest : RecordingUploadManifest) : MeetingObjects :=
  { s with uploadManifests := Function.update s.uploadManifests manifest.uploadId (some manifest) }

def putUploadPart (uploadId : UploadId) (index : ℕ) (content : Bytes) : MeetingObjects :=
  { s with
    uploadParts := Function.update s.uploadParts uploadId
      (Function.update (s.uploadParts uploadId) index (some content)) }

def putReceipt (receipt : RecordingUploadReceipt) : MeetingObjects :=
  { s with uploadReceipts := Function.update s.uploadReceipts receipt.uploadId (some receipt) }

@[simp] theorem putChunk_chunks (fileName : ChunkFileName) (content : Bytes) :
    (s.putChunk fileName content).chunks = Function.update s.chunks fileName (some content) := rfl

theorem putUploadPart_uploadParts (uploadId uploadId' : UploadId) (index index' : ℕ) (content : Bytes) :
    (s.putUploadPart uploadId index content).uploadParts uploadId' index' =
      if uploadId' = uploadId ∧ index' = index then some content
      else s.uploadParts uploadId' index' := by
  unfold putUploadPart
  dsimp only
  by_cases hid : uploadId' = uploadId
  · subst hid
    rw [Function.update_self]
    by_cases hindex : index' = index
    · subst hindex
      rw [Function.update_self, if_pos ⟨rfl, rfl⟩]
    · rw [Function.update_of_ne hindex, if_neg fun h => hindex h.2]
  · rw [Function.update_of_ne hid, if_neg fun h => hid h.1]

end MeetingObjects

/-- A section under the fence of a meeting. -/
abbrev Fenced (α : Type) := Durable MeetingObjects AudioError α

def readExistingManifest : Fenced (Option AudioManifest) := do
  let s ← read
  pure (s.manifest.map normalizeManifest)

/-- The manifest of a meeting as a section reads it. -/
def currentManifest (meetingId : MeetingId) (now : Timestamp) (s : MeetingObjects) : AudioManifest :=
  (s.manifest.map normalizeManifest).getD (emptyManifest meetingId now)

def readManifest (meetingId : MeetingId) (now : Timestamp) : Fenced AudioManifest := do
  let s ← read
  pure (currentManifest meetingId now s)

def persistMeetingManifest (manifest : AudioManifest) : Fenced Unit :=
  write fun s => s.putManifest manifest

def persistIf (condition : Bool) (manifest : AudioManifest) : Fenced Unit :=
  if condition then persistMeetingManifest manifest else pure ()

def persistChunk (fileName : ChunkFileName) (content : Bytes) : Fenced Unit :=
  write fun s => s.putChunk fileName content

def getChunk (s : MeetingObjects) (fileName : ChunkFileName) : Except AudioError Bytes :=
  match s.chunks fileName with
  | none => .error objectMissing
  | some content => .ok content

def ownedBy (manifest : AudioManifest) (ownerUserId : UserId) : Bool :=
  manifest.ownerUserId.all (· == ownerUserId)

variable (H : Hashing)

/-! ### Chunks -/

structure AudioChunkInput where
  meetingId : MeetingId
  ownerUserId : UserId
  sequence : ℕ
  buffer : Bytes
  mimeType : String
  recordedAt : ℚ
  durationMs : ℚ
  recordingConsent : Option RecordingConsentMetadata := none
  deriving DecidableEq, Repr

structure SavedChunk where
  savedBytes : ℕ
  totalChunks : ℕ
  totalBytes : ℕ
  receivedAt : Timestamp
  idempotent : Bool
  deriving DecidableEq, Repr

def AudioChunkInput.fileName (input : AudioChunkInput) : ChunkFileName :=
  chunkFileName input.sequence input.mimeType

/-- The digest of a listed chunk; a chunk of an older version is read for it. -/
def existingSha256 (s : MeetingObjects) (chunk : AudioChunk) : Except AudioError Digest :=
  match chunk.sha256 with
  | some digest => .ok digest
  | none => (getChunk s chunk.fileName).map H.sha256

/-- A new chunk ends the seal, the review and the share of what was there before. -/
def addChunk (now : Timestamp) (input : AudioChunkInput) (manifest : AudioManifest) : AudioManifest :=
  let chunks := pushChunk manifest.chunks
    { sequence := input.sequence
      fileName := input.fileName
      bytes := input.buffer.length
      mimeType := input.mimeType
      recordedAt := input.recordedAt
      durationMs := input.durationMs
      receivedAt := now
      sha256 := some (H.sha256 input.buffer) }
  { revokeMeetingShare now { manifest with
      chunks
      totalBytes := chunkBytes chunks
      audioSeal := none
      reviewConfirmation := none } with updatedAt := now }

/-- A chunk that is listed is compared and stored again; any other is stored and listed. -/
def storeAudioChunk (now : Timestamp) (input : AudioChunkInput) (manifest : AudioManifest) :
    Fenced SavedChunk :=
  match findChunk manifest input.sequence with
  | some existing => do
    let s ← read
    let digest ← lift (existingSha256 H s existing)
    require (digest = H.sha256 input.buffer) chunkContentConflict
    persistChunk existing.fileName input.buffer
    pure
      { savedBytes := existing.bytes
        totalChunks := manifest.chunks.length
        totalBytes := manifest.totalBytes
        receivedAt := existing.receivedAt
        idempotent := true }
  | none => do
    persistChunk input.fileName input.buffer
    persistMeetingManifest (addChunk H now input manifest)
    pure
      { savedBytes := input.buffer.length
        totalChunks := (addChunk H now input manifest).chunks.length
        totalBytes := (addChunk H now input manifest).totalBytes
        receivedAt := now
        idempotent := false }

/-- `saveMeetingAudioObjectUnsafe` with a buffer to persist. The owner of a new meeting is claimed before
the first chunk is stored. -/
def saveMeetingAudioChunkUnsafe (now : Timestamp) (input : AudioChunkInput) : Fenced SavedChunk := do
  let manifest ← readManifest input.meetingId now
  require (ownedBy manifest input.ownerUserId) otherOwner
  let ownerClaimRequired := manifest.ownerUserId.isNone
  let manifest ← lift (assertAndSetRecordingConsent
    { manifest with
      ownerUserId := some input.ownerUserId
      updatedAt := if ownerClaimRequired then now else manifest.updatedAt }
    (input.recordingConsent.getD .legacyUnknown))
  persistIf ownerClaimRequired manifest
  storeAudioChunk H now input manifest

/-! ### The seal -/

/-- A number that is not a positive integer is refused like `0`. -/
structure SealInput where
  meetingId : MeetingId
  ownerUserId : UserId
  expectedLastSequence : ℕ
  totalBytes : ℕ
  deriving DecidableEq, Repr

/-- The chunks are `1` to `lastSequence`, in this order. -/
def completeSequence (chunks : List AudioChunk) (lastSequence : ℕ) : Bool :=
  chunks.map (·.sequence) == List.range' 1 lastSequence

def backfillChunkDigest (s : MeetingObjects) (chunk : AudioChunk) : Except AudioError AudioChunk :=
  match chunk.sha256 with
  | some _ => .ok chunk
  | none => do
    let content ← getChunk s chunk.fileName
    if content.length ≠ chunk.bytes then .error storedLengthMismatch
    else .ok { chunk with sha256 := some (H.sha256 content) }

def backfillManifestChunkDigests (s : MeetingObjects) (manifest : AudioManifest) :
    Except AudioError AudioManifest := do
  let chunks ← manifest.chunks.mapM (backfillChunkDigest H s)
  .ok { manifest with chunks }

def newSeal (now : Timestamp) (input : SealInput) (manifest : AudioManifest) : AudioSeal where
  audioRevision := deriveMeetingAudioRevision H manifest
  lastSequence := input.expectedLastSequence
  totalBytes := input.totalBytes
  sealedAt := now

/-- The stored seal, where it says what a new one would. -/
def currentSeal (input : SealInput) (manifest : AudioManifest) : Option AudioSeal :=
  manifest.audioSeal.filter fun audioSeal =>
    audioSeal.audioRevision == deriveMeetingAudioRevision H manifest &&
      audioSeal.lastSequence == input.expectedLastSequence && audioSeal.totalBytes == input.totalBytes

def sealMeetingAudioUnsafe (now : Timestamp) (input : SealInput) : Fenced AudioSeal := do
  require (0 < input.expectedLastSequence) invalidLastSequence
  require (0 < input.totalBytes ∧ input.totalBytes ≤ MAX_SAFE_INTEGER) invalidTotalBytes
  let manifest ← readManifest input.meetingId now
  require (manifest.ownerUserId = some input.ownerUserId) noAccess
  require (completeSequence manifest.chunks input.expectedLastSequence ∧
    manifest.totalBytes = input.totalBytes) meetingAudioIncomplete
  let s ← read
  let manifest ← lift (backfillManifestChunkDigests H s manifest)
  match currentSeal H input manifest with
  | some audioSeal => pure audioSeal
  | none => do
    persistMeetingManifest
      { manifest with audioSeal := some (newSeal H now input manifest), updatedAt := now }
    pure (newSeal H now input manifest)

/-! ### Leases and owners -/

def withoutLease (now : Timestamp) (manifest : AudioManifest) : AudioManifest :=
  { manifest with recordingUpload := none, updatedAt := now }

def clearRecordingUploadLease (now : Timestamp) (uploadId : UploadId) : Fenced Unit := do
  match ← readExistingManifest with
  | none => pure ()
  | some manifest =>
    persistIf (manifest.recordingUpload.any (·.uploadId == uploadId)) (withoutLease now manifest)

def claimMeetingOwner (now : Timestamp) (meetingId : MeetingId) (ownerUserId : UserId) :
    Fenced Unit := do
  let manifest ← readManifest meetingId now
  require (ownedBy manifest ownerUserId) otherOwner
  persistIf manifest.ownerUserId.isNone
    { manifest with ownerUserId := some ownerUserId, updatedAt := now }

/-! ### The upload store -/

structure RecordingUploadState where
  manifest : Option RecordingUploadManifest
  receipt : Option RecordingUploadReceipt
  deriving DecidableEq, Repr

def readRecordingUploadState (s : MeetingObjects) (uploadId : UploadId) : RecordingUploadState where
  receipt := s.uploadReceipts uploadId
  manifest := if (s.uploadReceipts uploadId).isSome then none else s.uploadManifests uploadId

theorem readState_of_no_receipt {s : MeetingObjects} {uploadId : UploadId}
    (h : s.uploadReceipts uploadId = none) :
    readRecordingUploadState s uploadId = ⟨s.uploadManifests uploadId, none⟩ := by
  unfold readRecordingUploadState
  rw [h]
  rfl

def RecordingUploadState.owner (state : RecordingUploadState) : Option UserId :=
  state.receipt.map (·.ownerUserId) <|> state.manifest.map (·.ownerUserId)

structure PartInput where
  buffer : Bytes
  meetingId : MeetingId
  metadata : RecordingUploadMetadata
  ownerUserId : UserId
  partIndex : ℕ
  sha256 : Digest
  deriving DecidableEq, Repr

structure PartResult where
  committed : Bool
  duplicate : Bool
  receivedParts : List ℕ
  receipt : Option RecordingUploadReceipt := none
  stagedBytes : ℕ
  deriving DecidableEq, Repr

/-- What `putRecordingUploadPart` does after it has read the state of the upload. -/
inductive PartPlan
  | answer (result : PartResult)
  /-- write the part, and then this manifest -/
  | store (manifest : RecordingUploadManifest)
  deriving DecidableEq, Repr

def newUploadManifest (now : Timestamp) (input : PartInput) : RecordingUploadManifest :=
  { input.metadata with
    createdAt := now
    meetingId := input.meetingId
    ownerUserId := input.ownerUserId
    updatedAt := now }

def withPart (now : Timestamp) (input : PartInput) (manifest : RecordingUploadManifest) :
    RecordingUploadManifest :=
  { manifest with
    parts := manifest.parts ++
      [{ bytes := input.buffer.length, index := input.partIndex, receivedAt := now
         sha256 := input.sha256 }]
    updatedAt := now }

def partStored (manifest : RecordingUploadManifest) (duplicate : Bool) : PartResult where
  committed := false
  duplicate
  receivedParts := receivedParts manifest
  stagedBytes := recordingUploadStagedBytes manifest

def planRecordingUploadPart (now : Timestamp) (input : PartInput) (s : MeetingObjects) :
    Except AudioError PartPlan :=
  let state := readRecordingUploadState s input.metadata.uploadId
  match state.receipt with
  | some receipt =>
    if receipt.ownerUserId ≠ input.ownerUserId then .error uploadForbidden
    else .ok (.answer
      { committed := true, duplicate := true, receivedParts := [], receipt := some receipt
        stagedBytes := 0 })
  | none =>
    let manifest := state.manifest.getD (newUploadManifest now input)
    if manifest.ownerUserId ≠ input.ownerUserId then .error uploadForbidden
    else if manifest.toRecordingUploadMetadata ≠ input.metadata then .error uploadMetadataConflict
    else
      match manifest.part? input.partIndex with
      | some existing =>
        if existing.bytes ≠ input.buffer.length ∨ existing.sha256 ≠ input.sha256 then
          .error partConflict
        else .ok (.answer (partStored manifest true))
      | none => .ok (.store (withPart now input manifest))

inductive Assembled
  | alreadyCommitted (receipt : RecordingUploadReceipt)
  | prepared (manifest : RecordingUploadManifest) (content : Bytes) (maxBufferedBytes : ℕ)
  deriving DecidableEq, Repr

/-- A part of the upload as the assembly reads it. -/
def readUploadPart (s : MeetingObjects) (manifest : RecordingUploadManifest) (uploadId : UploadId)
    (index : ℕ) : Except AudioError Bytes :=
  match manifest.part? index with
  | none => .error uploadIncomplete
  | some part =>
    match s.uploadParts uploadId index with
    | none => .error uploadPartMissing
    | some buffer =>
      if buffer.length ≠ part.bytes ∨ H.sha256 buffer ≠ part.sha256 then .error uploadCorrupt
      else .ok buffer

def assembleRecordingUpload (ownerUserId : UserId) (uploadId : UploadId) (s : MeetingObjects) :
    Except AudioError Assembled :=
  let state := readRecordingUploadState s uploadId
  match state.receipt, state.manifest with
  | some receipt, _ =>
    if receipt.ownerUserId ≠ ownerUserId then .error uploadForbidden
    else .ok (.alreadyCommitted receipt)
  | none, none => .error uploadNotFound
  | none, some manifest =>
    if manifest.ownerUserId ≠ ownerUserId then .error uploadForbidden
    else if manifest.parts.length ≠ manifest.totalParts then .error uploadIncomplete
    else do
      let parts ← (List.range manifest.totalParts).mapM (readUploadPart H s manifest uploadId)
      if parts.flatten.length ≠ manifest.totalBytes then .error uploadLengthMismatch
      else .ok (.prepared manifest parts.flatten ((parts.map List.length).foldl max 0))

/-! ### Sections of `saveMeetingRecordingUploadPart` -/

/-- The leases counted by a sweep, with their bytes. -/
abbrev UploadUsage := List ((MeetingId × UploadId) × ℕ)

/-- `uploads.set(key, bytes)`. -/
def UploadUsage.set (usage : UploadUsage) (key : MeetingId × UploadId) (bytes : ℕ) : UploadUsage :=
  (key, bytes) :: usage.filter (·.1 ≠ key)

def UploadUsage.get? (usage : UploadUsage) (key : MeetingId × UploadId) : Option ℕ :=
  (usage.find? (·.1 == key)).map (·.2)

def UploadUsage.reservedBytes (usage : UploadUsage) : ℕ := (usage.map (·.2)).sum

def assertRecordingUploadBudget (policy : RecordingUploadResourcePolicy) (usage : Option UploadUsage)
    (input : PartInput) : Except AudioError Unit :=
  match usage with
  | none => .ok ()
  | some usage =>
    let counted := usage.get? (input.meetingId, input.metadata.uploadId)
    let projected : RecordingUploadUsage :=
      { activeUploads := usage.length + if counted.isSome then 0 else 1
        stagedBytes := usage.reservedBytes - counted.getD 0 + input.metadata.totalBytes }
    match recordingUploadResourceViolation policy projected with
    | some error => .error error
    | none => .ok ()

/-- `manifest.recordingUpload && manifest.recordingUpload.uploadId !== uploadId`. -/
def leasedToOther (manifest : AudioManifest) (uploadId : UploadId) : Bool :=
  manifest.recordingUpload.any (·.uploadId != uploadId)

/-- The first look at the manifest decides whether the budget is measured. -/
def needsNewLeaseBudget (policy : RecordingUploadResourcePolicy) (now : Timestamp) (input : PartInput)
    (s : MeetingObjects) : Bool :=
  let observedUpload := ((s.manifest.map normalizeManifest).filter fun manifest =>
    manifest.ownerUserId == some input.ownerUserId).bind (·.recordingUpload)
  match observedUpload with
  | none => true
  | some lease =>
    lease.uploadId == input.metadata.uploadId && isRecordingUploadStale policy now lease.updatedAt

/-- The manifest with the lease of an upload. -/
def withLease (now : Timestamp) (input : PartInput) (stagedBytes : ℕ) (manifest : AudioManifest) :
    AudioManifest :=
  { manifest with
    ownerUserId := some input.ownerUserId
    recordingUpload := some
      { stagedBytes
        totalBytes := input.metadata.totalBytes
        updatedAt := now
        uploadId := input.metadata.uploadId }
    updatedAt := now }

/-- The fence of `validateShortPhase`; `true` where the lease is created. -/
def reservePartUnsafe (policy : RecordingUploadResourcePolicy) (now : Timestamp)
    (usage : Option UploadUsage) (input : PartInput) : Fenced Bool := do
  let manifest ← readManifest input.meetingId now
  require (ownedBy manifest input.ownerUserId) otherOwner
  require (!leasedToOther manifest input.metadata.uploadId) uploadAlreadyActive
  lift (assertRecordingUploadBudget policy usage input)
  persistIf manifest.recordingUpload.isNone (withLease now input 0 manifest)
  pure manifest.recordingUpload.isNone

/-- The fence after the part is stored. -/
def publishPartUnsafe (now : Timestamp) (input : PartInput) (result : PartResult) :
    Fenced PartResult := do
  let manifest ← readManifest input.meetingId now
  require (ownedBy manifest input.ownerUserId) otherOwner
  require (!leasedToOther manifest input.metadata.uploadId) uploadAlreadyActivePart
  claimMeetingOwner now input.meetingId input.ownerUserId
  persistIf (!result.committed) (withLease now input result.stagedBytes manifest)
  pure result

/-- The section of a sweep that removes a stale lease; it returns its upload. -/
def sweepLeaseUnsafe (policy : RecordingUploadResourcePolicy) (now : Timestamp) :
    Fenced (Option UploadId) := do
  let current ← readExistingManifest
  match current, current.bind (·.recordingUpload) with
  | some manifest, some lease =>
    if isRecordingUploadStale policy now lease.updatedAt then
      persistMeetingManifest (withoutLease now manifest)
      pure (some lease.uploadId)
    else pure none
  | _, _ => pure none

/-! ### Sections of `commitMeetingRecordingUpload` -/

structure UploadInput where
  meetingId : MeetingId
  ownerUserId : UserId
  uploadId : UploadId
  deriving DecidableEq, Repr

def sealCommittedRecordingUploadReceiptUnsafe (now : Timestamp) (input : UploadInput)
    (receipt : RecordingUploadReceipt) : Fenced RecordingUploadReceipt := do
  let audioSeal ← sealMeetingAudioUnsafe H now
    { meetingId := input.meetingId
      ownerUserId := input.ownerUserId
      expectedLastSequence := receipt.totalChunks
      totalBytes := receipt.totalBytes }
  pure { receipt with audioRevision := some audioSeal.audioRevision, sealed := true }

/-- A receipt that is there already is sealed again and answered. -/
def answerReceiptUnsafe (now : Timestamp) (input : UploadInput) (receipt : RecordingUploadReceipt) :
    Fenced RecordingUploadReceipt := do
  let receipt ← sealCommittedRecordingUploadReceiptUnsafe H now input receipt
  clearRecordingUploadLease now input.uploadId
  pure receipt

/-- `shortPreflight`. -/
def preflightCommitUnsafe (now : Timestamp) (input : UploadInput) :
    Fenced (Option RecordingUploadReceipt) := do
  claimMeetingOwner now input.meetingId input.ownerUserId
  let s ← read
  let state := readRecordingUploadState s input.uploadId
  require (state.owner.all (· == input.ownerUserId)) otherOwner
  match state.receipt with
  | some receipt => some <$> answerReceiptUnsafe H now input receipt
  | none => pure none

/-- The recording that a commit publishes as chunk `1`. -/
structure PreparedCommit where
  manifest : RecordingUploadManifest
  content : Bytes
  durationMs : ℚ
  maxBufferedBytes : ℕ
  deriving DecidableEq, Repr

def PreparedCommit.fileName (prepared : PreparedCommit) : ChunkFileName :=
  chunkFileName 1 prepared.manifest.mimeType

def PreparedCommit.chunk (now : Timestamp) (prepared : PreparedCommit) : AudioChunk where
  sequence := 1
  fileName := prepared.fileName
  bytes := prepared.manifest.totalBytes
  mimeType := prepared.manifest.mimeType
  recordedAt := prepared.manifest.recordedAt
  durationMs := prepared.durationMs
  receivedAt := now
  sha256 := some (H.sha256 prepared.content)

structure Published where
  audioSeal : AudioSeal
  saved : SavedChunk
  deriving DecidableEq, Repr

/-- `existing.sha256 = sha256` for the chunk that `findChunk` returns. -/
def setChunkDigest (sequence : ℕ) (digest : Digest) : List AudioChunk → List AudioChunk
  | [] => []
  | chunk :: chunks =>
    if chunk.sequence = sequence then { chunk with sha256 := some digest } :: chunks
    else chunk :: setChunkDigest sequence digest chunks

/-- The chunks with the recording among them. -/
def publishChunks (now : Timestamp) (prepared : PreparedCommit) (chunks : List AudioChunk) :
    Option AudioChunk → List AudioChunk
  | none => pushChunk chunks (prepared.chunk H now)
  | some existing =>
    if existing.sha256.isSome then chunks
    else setChunkDigest 1 (H.sha256 prepared.content) chunks

/-- The manifest that publishes the recording, sealed as it stands. -/
def publishManifest (now : Timestamp) (input : UploadInput) (prepared : PreparedCommit)
    (existing : Option AudioChunk) (manifest : AudioManifest) : AudioManifest :=
  let chunks := publishChunks H now prepared manifest.chunks existing
  let manifest := revokeMeetingShare now { manifest with
    chunks
    ownerUserId := some input.ownerUserId
    totalBytes := chunkBytes chunks
    reviewConfirmation := none
    recordingUpload := manifest.recordingUpload.filter (·.uploadId ≠ input.uploadId) }
  { manifest with
    audioSeal := some
      { audioRevision := deriveMeetingAudioRevision H manifest
        lastSequence := 1
        totalBytes := manifest.totalBytes
        sealedAt := now }
    updatedAt := now }

def publishPreparedRecordingCommitUnsafe (now : Timestamp) (input : UploadInput)
    (prepared : PreparedCommit) : Fenced Published := do
  let manifest ← readManifest input.meetingId now
  require (ownedBy manifest input.ownerUserId) otherOwner
  let manifest ← lift (assertAndSetRecordingConsent manifest prepared.manifest.consent)
  let existing := findChunk manifest 1
  require ((existing.bind (·.sha256)).all (· == H.sha256 prepared.content)) chunkContentConflict
  let published := publishManifest H now input prepared existing manifest
  persistMeetingManifest published
  pure
    { audioSeal :=
        { audioRevision := deriveMeetingAudioRevision H published
          lastSequence := 1
          totalBytes := published.totalBytes
          sealedAt := now }
      saved :=
        { savedBytes := (existing.map (·.bytes)).getD prepared.manifest.totalBytes
          totalChunks := published.chunks.length
          totalBytes := published.totalBytes
          receivedAt := (existing.map (·.receivedAt)).getD now
          idempotent := existing.isSome } }

def publishCommitUnsafe (now : Timestamp) (input : UploadInput) (prepared : PreparedCommit) :
    Fenced Published := do
  let s ← read
  let state := readRecordingUploadState s input.uploadId
  require (state.manifest.isSome ∨ state.receipt.isSome) uploadGone
  publishPreparedRecordingCommitUnsafe H now input prepared

/-- `finalizeRecordingUpload` builds the receipt that is stored outside of the fence. -/
def receiptOf (input : UploadInput) (prepared : PreparedCommit) (published : Published) :
    RecordingUploadReceipt where
  assemblyMaxBufferedBytes := some prepared.maxBufferedBytes
  audioRevision := some published.audioSeal.audioRevision
  durationMs := prepared.durationMs
  meetingId := input.meetingId
  ownerUserId := input.ownerUserId
  receivedAt := published.saved.receivedAt
  savedBytes := published.saved.savedBytes
  sealed := true
  totalBytes := published.saved.totalBytes
  totalChunks := published.saved.totalChunks
  uploadMetadata := prepared.manifest.toRecordingUploadMetadata
  uploadId := input.uploadId

/-- The last look, after the receipt is stored. -/
def recheckCommitUnsafe (now : Timestamp) (input : UploadInput) (receipt : RecordingUploadReceipt) :
    Fenced RecordingUploadReceipt := do
  let manifest ← readManifest input.meetingId now
  match meetingAudioMetadataFromManifest H manifest with
  | none => fail noAudioChunks
  | some audio =>
    require (some audio.audioRevision = receipt.audioRevision) audioRevisionChanged
    pure receipt

/-! ### The status of an upload -/

structure UploadStatus where
  committed : Bool
  manifest : Option RecordingUploadManifest
  receipt : Option RecordingUploadReceipt
  staleCleanupUploadId : Option UploadId := none
  deriving DecidableEq, Repr

def RecordingUploadState.status (state : RecordingUploadState) : UploadStatus where
  committed := state.receipt.isSome
  manifest := state.manifest
  receipt := state.receipt

/-- The lease that the staging manifest calls for, where the stored one says otherwise. -/
def renewedLease (manifest : AudioManifest) (upload : RecordingUploadManifest) (uploadId : UploadId)
    (updatedAt : Timestamp) : Option RecordingUploadLease :=
  let stagedBytes := recordingUploadStagedBytes upload
  if manifest.recordingUpload.any fun lease =>
      lease.stagedBytes == stagedBytes && lease.totalBytes == upload.totalBytes then none
  else some { stagedBytes, totalBytes := upload.totalBytes, updatedAt, uploadId }

/-- The status of an upload of a meeting that has a manifest. -/
def uploadStatusOf (policy : RecordingUploadResourcePolicy) (now : Timestamp) (input : UploadInput)
    (manifest : AudioManifest) (state : RecordingUploadState) : Fenced UploadStatus :=
  let leased := manifest.recordingUpload.any (·.uploadId == input.uploadId)
  match state.receipt, state.manifest with
  | some receipt, _ => do
    persistIf leased (withoutLease now manifest)
    let receipt ← sealCommittedRecordingUploadReceiptUnsafe H now input receipt
    pure { state.status with receipt := some receipt }
  | none, none => do
    persistIf leased (withoutLease now manifest)
    pure state.status
  | none, some upload => do
    require (!leasedToOther manifest input.uploadId) uploadAlreadyActiveStatus
    let updatedAt := (manifest.recordingUpload.map (·.updatedAt)).getD upload.updatedAt
    if isRecordingUploadStale policy now updatedAt then do
      persistMeetingManifest (withoutLease now manifest)
      pure
        { committed := false, manifest := none, receipt := none
          staleCleanupUploadId := some input.uploadId }
    else
      match renewedLease manifest upload input.uploadId updatedAt with
      | none => pure state.status
      | some lease => do
        persistMeetingManifest { manifest with recordingUpload := some lease, updatedAt := now }
        pure state.status

def readMeetingRecordingUploadStatusUnsafe (policy : RecordingUploadResourcePolicy) (now : Timestamp)
    (input : UploadInput) : Fenced UploadStatus := do
  let existing ← readExistingManifest
  require (existing.all (ownedBy · input.ownerUserId)) otherOwner
  let s ← read
  let state := readRecordingUploadState s input.uploadId
  require (state.owner.all (· == input.ownerUserId)) otherOwner
  match existing with
  | none => pure state.status
  | some manifest => uploadStatusOf H policy now input manifest state

/-! ### Assembling the audio of a meeting -/

def readListedChunk (s : MeetingObjects) (chunk : AudioChunk) : Except AudioError Bytes := do
  let content ← getChunk s chunk.fileName
  if content.length ≠ chunk.bytes then .error storedLengthMismatch
  else if chunk.sha256.any (· != H.sha256 content) then .error storedDigestMismatch
  else .ok content

def assembleMeetingAudioFile (s : MeetingObjects) (manifest : AudioManifest) :
    Except AudioError Bytes := do
  let parts ← manifest.chunks.mapM (readListedChunk H s)
  if parts.flatten.length ≠ manifest.totalBytes then .error assemblyLengthInconsistent
  else .ok parts.flatten

end OwnMinutes.Audio.Store
