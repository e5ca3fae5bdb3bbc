import Mathlib.Data.List.Infix
import Mathlib.Data.List.Sort
import OwnMinutes.Finalizer.Records

/-! # Meeting audio: the manifest and the upload records

The records of `meeting-audio-store.ts` and `recording-upload-store.ts`, and the pure functions on them. A
recording consent is kept as `normalizeStoredRecordingConsentMetadata` returns it, and a digest of a chunk
as `normalizeAudioSha256` does. The digests of `node:crypto` are the functions of a `Hashing`. -/

namespace OwnMinutes.Audio.Records

open OwnMinutes.Auth.ProcessingRoute OwnMinutes.Auth.Records OwnMinutes.Finalizer.Records

abbrev Bytes := List UInt8
abbrev Digest := String
abbrev AudioRevision := String
abbrev UploadId := String

/-- `Number.MAX_SAFE_INTEGER`. -/
def MAX_SAFE_INTEGER : ℕ := 2 ^ 53 - 1

/-! ### Chunks -/

inductive AudioExtension
  | wav | mp3 | webm | ogg | m4a
  deriving DecidableEq, Repr

def extensionForMimeType (mimeType : String) : AudioExtension :=
  let normalized := mimeType.toList.map Char.toLower
  let includes (part : String) : Bool := decide (part.toList <:+: normalized)
  if includes "wav" then .wav
  else if includes "mpeg" || includes "mp3" then .mp3
  else if includes "webm" then .webm
  else if includes "ogg" || includes "opus" then .ogg
  else if includes "mp4" || includes "m4a" || includes "aac" then .m4a
  else .webm

/-- `chunk-000001.webm`: six digits or more, so that the name determines the sequence. -/
structure ChunkFileName where
  sequence : ℕ
  extension : AudioExtension
  deriving DecidableEq, Repr

def chunkFileName (sequence : ℕ) (mimeType : String) : ChunkFileName :=
  ⟨sequence, extensionForMimeType mimeType⟩

structure AudioChunk where
  sequence : ℕ
  fileName : ChunkFileName
  bytes : ℕ
  mimeType : String
  recordedAt : ℚ
  durationMs : ℚ
  receivedAt : Timestamp
  /-- not there for chunks of older versions -/
  sha256 : Option Digest := none
  deriving DecidableEq, Repr

/-- `left.sequence - right.sequence` of the sorts. -/
def AudioChunk.upTo (left right : AudioChunk) : Bool := left.sequence ≤ right.sequence

/-! ### The manifest -/

inductive RecordingConsentMetadata
  | legacyUnknown
  | inAppConfirmation (consentConfirmedAt : Timestamp) (consentPolicyVersion : String)
  deriving DecidableEq, Repr

structure MeetingMetadata where
  participants : List String := []
  project : Option String := none
  tags : List String := []
  title : Option String := none
  updatedAt : Option Timestamp := none
  deriving DecidableEq, Repr

inductive ShareVisibility
  | «private» | «public»
  deriving DecidableEq, Repr

structure MeetingShare where
  visibility : ShareVisibility := .private
  includeTranscript : Bool := false
  expiresAt : Option Timestamp := none
  updatedAt : Option Timestamp := none
  deriving DecidableEq, Repr

structure MeetingReviewConfirmation where
  confirmedAt : Timestamp
  resultFingerprint : Digest
  deriving DecidableEq, Repr

/-- The lease of an upload. -/
structure RecordingUploadLease where
  stagedBytes : ℕ
  totalBytes : ℕ
  updatedAt : Timestamp
  uploadId : UploadId
  deriving DecidableEq, Repr

structure AudioSeal where
  audioRevision : AudioRevision
  lastSequence : ℕ
  totalBytes : ℕ
  sealedAt : Timestamp
  deriving DecidableEq, Repr

structure AudioManifest where
  meetingId : MeetingId
  ownerUserId : Option UserId := none
  metadata : MeetingMetadata := {}
  share : MeetingShare := {}
  recordingConsent : Option RecordingConsentMetadata := none
  reviewConfirmation : Option MeetingReviewConfirmation := none
  chunks : List AudioChunk := []
  recordingUpload : Option RecordingUploadLease := none
  audioSeal : Option AudioSeal := none
  totalBytes : ℕ := 0
  updatedAt : Timestamp
  deriving DecidableEq, Repr

def emptyManifest (meetingId : MeetingId) (now : Timestamp) : AudioManifest where
  meetingId
  updatedAt := now

def AudioSeal.valid (audioSeal : AudioSeal) : Bool :=
  0 < audioSeal.lastSequence && 0 < audioSeal.totalBytes && audioSeal.totalBytes ≤ MAX_SAFE_INTEGER

def RecordingUploadLease.valid (lease : RecordingUploadLease) : Bool :=
  0 < lease.totalBytes && lease.totalBytes ≤ MAX_SAFE_INTEGER && lease.stagedBytes ≤ lease.totalBytes

def normalizeAudioSeal (audioSeal : Option AudioSeal) : Option AudioSeal :=
  audioSeal.filter AudioSeal.valid

def normalizeRecordingUploadLease (lease : Option RecordingUploadLease) : Option RecordingUploadLease :=
  lease.filter RecordingUploadLease.valid

def normalizeManifest (manifest : AudioManifest) : AudioManifest :=
  { manifest with
    audioSeal := normalizeAudioSeal manifest.audioSeal
    recordingUpload := normalizeRecordingUploadLease manifest.recordingUpload }

def revokeMeetingShare (now : Timestamp) (manifest : AudioManifest) : AudioManifest :=
  if manifest.share.visibility ≠ .public then manifest
  else { manifest with share := { updatedAt := some now } }

/-- Only the share is revoked. -/
theorem revokeMeetingShare_eq (now : Timestamp) (manifest : AudioManifest) :
    ∃ share, revokeMeetingShare now manifest = { manifest with share := share } := by
  unfold revokeMeetingShare
  split_ifs
  · exact ⟨_, rfl⟩
  · exact ⟨_, rfl⟩

/-- `manifest.chunks.reduce((sum, chunk) => sum + chunk.bytes, 0)`. -/
def chunkBytes (chunks : List AudioChunk) : ℕ := (chunks.map (·.bytes)).sum

def findChunk (manifest : AudioManifest) (sequence : ℕ) : Option AudioChunk :=
  manifest.chunks.find? (·.sequence == sequence)

/-- `chunks.push(chunk)` and the sort after it. -/
def pushChunk (chunks : List AudioChunk) (chunk : AudioChunk) : List AudioChunk :=
  (chunks ++ [chunk]).insertionSort fun left right => left.upTo right

/-! ### The audio revision -/

/-- The text that stands for the content of a chunk: its digest, or
`legacy:${fileName}:${bytes}:${mimeType}:${recordedAt}:${durationMs}`. -/
inductive ChunkContent
  | sha256 (digest : Digest)
  | legacy (fileName : ChunkFileName) (bytes : ℕ) (mimeType : String) (recordedAt durationMs : ℚ)
  deriving DecidableEq, Repr

structure ChunkState where
  sequence : ℕ
  bytes : ℕ
  sha256 : ChunkContent
  deriving DecidableEq, Repr

/-- What the audio revision is the digest of. -/
structure AudioState where
  chunks : List ChunkState
  totalBytes : ℕ
  deriving DecidableEq, Repr

structure Hashing where
  sha256 : Bytes → Digest
  /-- the digest of the JSON text of an audio state -/
  audioState : AudioState → AudioRevision

def AudioChunk.content (chunk : AudioChunk) : ChunkContent :=
  match chunk.sha256 with
  | some digest => .sha256 digest
  | none => .legacy chunk.fileName chunk.bytes chunk.mimeType chunk.recordedAt chunk.durationMs

def AudioChunk.state (chunk : AudioChunk) : ChunkState where
  sequence := chunk.sequence
  bytes := chunk.bytes
  sha256 := chunk.content

def audioState (manifest : AudioManifest) : AudioState where
  chunks := (manifest.chunks.insertionSort fun left right => left.upTo right).map (·.state)
  totalBytes := manifest.totalBytes

def deriveMeetingAudioRevision (H : Hashing) (manifest : AudioManifest) : AudioRevision :=
  H.audioState (audioState manifest)

/-- The seal is that of the audio as it is. -/
def isSealed (H : Hashing) (manifest : AudioManifest) : Bool :=
  manifest.audioSeal.any fun audioSeal =>
    audioSeal.audioRevision == deriveMeetingAudioRevision H manifest &&
      some audioSeal.lastSequence == (manifest.chunks.getLast?.map (·.sequence)) &&
      audioSeal.totalBytes == manifest.totalBytes

/-- `none` where it throws, for a meeting without audio. -/
def meetingAudioMetadataFromManifest (H : Hashing) (manifest : AudioManifest) : Option ManifestAudio :=
  if manifest.chunks = [] then none
  else some
    { audioRevision := deriveMeetingAudioRevision H manifest
      audioUpdatedAt := ((manifest.chunks.map (·.receivedAt)).max?).getD 0
      durationMs := (manifest.chunks.map (·.durationMs)).sum
      isSealed := isSealed H manifest }

/-! ### Errors -/

/-- A `MeetingAccessError` or a `RecordingUploadConflictError`; status 500 is an `Error`. -/
structure AudioError where
  status : ℕ
  code : Option String := none
  message : String
  deriving DecidableEq, Repr

def accountDeleted : AudioError :=
  { status := 410, message := "This account was deleted and cannot accept more audio." }
def accountDeletedSeal : AudioError :=
  { status := 410, message := "This account was deleted and cannot seal audio." }
def meetingDeleted : AudioError :=
  { status := 410, code := some "meeting_deleted"
    message := "This meeting was deleted and cannot accept more writes." }
def otherOwner : AudioError := { status := 403, message := "This meeting belongs to another user." }
def noAccess : AudioError := { status := 403, message := "You do not have access to this meeting." }
def consentNotRecorded : AudioError :=
  { status := 409, code := some "recording_consent_conflict"
    message := "已有录音缺少同一份知情确认记录，不能把新的确认信息追溯写入旧音频。" }
def consentConflict : AudioError :=
  { status := 409, code := some "recording_consent_conflict"
    message := "本地录音与已保存的知情确认记录不一致，请保留录音并重新开始同步。" }
def chunkContentConflict : AudioError :=
  { status := 409, code := some "audio_chunk_content_conflict"
    message := "同一录音分片序号已保存了不同内容，请保留本地录音并重新同步整场会议。" }
def invalidLastSequence : AudioError :=
  { status := 400, code := some "invalid_audio_seal", message := "录音结束序号无效，请完成本地同步后重试。" }
def invalidTotalBytes : AudioError :=
  { status := 400, code := some "invalid_audio_seal"
    message := "录音总字节数无效，请完成本地同步后重试。" }
def meetingAudioIncomplete : AudioError :=
  { status := 409, code := some "meeting_audio_incomplete"
    message := "录音仍有分片尚未同步，已保留本地录音，请同步完整后再生成纪要。" }
def audioRevisionChanged : AudioError :=
  { status := 409, code := some "audio_revision_changed"
    message := "Meeting audio changed before upload commit publication completed." }
def objectMissing : AudioError := { status := 500, message := "ENOENT" }
def storedLengthMismatch : AudioError :=
  { status := 500, message := "Stored meeting audio length does not match its manifest." }
def storedDigestMismatch : AudioError :=
  { status := 500, message := "Stored meeting audio digest does not match its manifest." }
def assemblyLengthInconsistent : AudioError :=
  { status := 500, message := "Stored meeting audio assembly length is inconsistent." }
def noAudioChunks : AudioError := { status := 500, message := "No audio chunks found for this meeting." }

/-! ### Consent -/

def assertAndSetRecordingConsent (manifest : AudioManifest) (incoming : RecordingConsentMetadata) :
    Except AudioError AudioManifest :=
  match manifest.recordingConsent with
  | none =>
    if manifest.chunks ≠ [] ∧ incoming ≠ .legacyUnknown then .error consentNotRecorded
    else .ok { manifest with recordingConsent := some incoming }
  | some existing => if existing ≠ incoming then .error consentConflict else .ok manifest

/-- Only the consent is set. -/
theorem assertAndSetRecordingConsent_ok {manifest result : AudioManifest}
    {incoming : RecordingConsentMetadata}
    (h : assertAndSetRecordingConsent manifest incoming = .ok result) :
    ∃ consent, result = { manifest with recordingConsent := consent } := by
  unfold assertAndSetRecordingConsent at h
  split at h
  · split_ifs at h
    cases h
    exact ⟨_, rfl⟩
  · split_ifs at h
    cases h
    exact ⟨_, rfl⟩

/-! ### Resumable uploads -/

structure RecordingUploadMetadata where
  consent : RecordingConsentMetadata
  durationMs : ℚ
  mimeType : String
  recordedAt : ℚ
  totalBytes : ℕ
  totalParts : ℕ
  uploadId : UploadId
  deriving DecidableEq, Repr

structure RecordingUploadPart where
  bytes : ℕ
  index : ℕ
  receivedAt : Timestamp
  sha256 : Digest
  deriving DecidableEq, Repr

structure RecordingUploadManifest extends RecordingUploadMetadata where
  createdAt : Timestamp
  meetingId : MeetingId
  ownerUserId : UserId
  parts : List RecordingUploadPart := []
  updatedAt : Timestamp
  deriving DecidableEq, Repr

structure RecordingUploadReceipt where
  assemblyMaxBufferedBytes : Option ℕ := none
  audioRevision : Option AudioRevision := none
  durationMs : ℚ
  meetingId : MeetingId
  ownerUserId : UserId
  receivedAt : Timestamp
  savedBytes : ℕ
  sealed : Bool := false
  totalBytes : ℕ
  totalChunks : ℕ
  uploadMetadata : RecordingUploadMetadata
  uploadId : UploadId
  deriving DecidableEq, Repr

def RecordingUploadManifest.part? (manifest : RecordingUploadManifest) (index : ℕ) :
    Option RecordingUploadPart :=
  manifest.parts.find? (·.index == index)

def recordingUploadStagedBytes (manifest : RecordingUploadManifest) : ℕ :=
  (manifest.parts.map (·.bytes)).sum

def receivedParts (manifest : RecordingUploadManifest) : List ℕ :=
  (manifest.parts.map (·.index)).insertionSort (· ≤ ·)

def uploadForbidden : AudioError :=
  { status := 403, code := some "RECORDING_UPLOAD_FORBIDDEN", message := "该录音上传属于其他账号。" }
def uploadMetadataConflict : AudioError :=
  { status := 409, code := some "RECORDING_UPLOAD_METADATA_CONFLICT"
    message := "本地录音与已上传进度不一致，请重新开始上传。" }
def partConflict : AudioError :=
  { status := 409, code := some "RECORDING_PART_CONFLICT"
    message := "已上传分片与本地录音不一致，请重新开始上传。" }
def uploadNotFound : AudioError :=
  { status := 404, code := some "RECORDING_UPLOAD_NOT_FOUND"
    message := "未找到可恢复的录音上传，请重新开始。" }
def uploadGone : AudioError :=
  { status := 409, code := some "RECORDING_UPLOAD_NOT_FOUND"
    message := "录音上传已失效，请从本地录音重新同步。" }
def uploadIncomplete : AudioError :=
  { status := 409, code := some "RECORDING_UPLOAD_INCOMPLETE"
    message := "录音仍有分片未上传完成，请继续同步。" }
def uploadPartMissing : AudioError :=
  { status := 422, code := some "RECORDING_UPLOAD_CORRUPT"
    message := "服务端录音分片缺失，请重新上传当前会议。" }
def uploadCorrupt : AudioError :=
  { status := 422, code := some "RECORDING_UPLOAD_CORRUPT"
    message := "服务端录音分片校验失败，请重新上传当前会议。" }
def uploadLengthMismatch : AudioError :=
  { status := 422, code := some "RECORDING_UPLOAD_LENGTH_MISMATCH"
    message := "录音重组长度不一致，请重新上传。" }
def uploadAlreadyActive : AudioError :=
  { status := 409, code := some "RECORDING_UPLOAD_ALREADY_ACTIVE"
    message := "该会议已有录音正在同步，请等待完成或稍后重试。" }
def uploadAlreadyActivePart : AudioError :=
  { status := 409, code := some "RECORDING_UPLOAD_ALREADY_ACTIVE", message := "该会议已有另一段录音正在同步。" }
def uploadAlreadyActiveStatus : AudioError :=
  { status := 409, code := some "RECORDING_UPLOAD_ALREADY_ACTIVE"
    message := "该会议已有另一段录音正在同步，请先完成当前上传。" }
def uploadStorageLimit : AudioError :=
  { status := 429, code := some "RECORDING_UPLOAD_STORAGE_LIMIT"
    message := "当前账号等待同步的录音较多，请先完成已有上传。本地录音仍会保留。" }
def uploadActiveLimit (maxActiveUploadsPerUser : ℕ) : AudioError :=
  { status := 429, code := some "RECORDING_UPLOAD_ACTIVE_LIMIT"
    message := "当前账号已有 " ++ toString maxActiveUploadsPerUser ++
      " 场录音等待同步，请先完成已有上传。" }

/-! ### The resource policy of uploads -/

structure RecordingUploadResourcePolicy where
  maxActiveUploadsPerUser : ℕ := 4
  maxStagedBytesPerUser : ℕ := 256 * 1024 * 1024
  staleAfterMs : ℕ := 72 * 60 * 60 * 1000
  deriving DecidableEq, Repr

def isRecordingUploadStale (policy : RecordingUploadResourcePolicy) (now updatedAt : Timestamp) : Bool :=
  updatedAt + policy.staleAfterMs ≤ now

/-- A stale upload stays stale. -/
theorem isRecordingUploadStale_mono {policy : RecordingUploadResourcePolicy}
    {now now' updatedAt : Timestamp} (hle : now ≤ now')
    (h : isRecordingUploadStale policy now updatedAt = true) :
    isRecordingUploadStale policy now' updatedAt = true := by
  unfold isRecordingUploadStale at h ⊢
  rw [decide_eq_true_eq] at h ⊢
  exact h.trans hle

structure RecordingUploadUsage where
  activeUploads : ℕ
  stagedBytes : ℕ
  deriving DecidableEq, Repr

def recordingUploadResourceViolation (policy : RecordingUploadResourcePolicy)
    (usage : RecordingUploadUsage) : Option AudioError :=
  if policy.maxActiveUploadsPerUser < usage.activeUploads then
    some (uploadActiveLimit policy.maxActiveUploadsPerUser)
  else if policy.maxStagedBytesPerUser < usage.stagedBytes then some uploadStorageLimit
  else none

end OwnMinutes.Audio.Records
