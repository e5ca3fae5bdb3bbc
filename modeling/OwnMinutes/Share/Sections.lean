import OwnMinutes.Audio.Store
import OwnMinutes.Share.Results

/-! # The sections that publish a meeting and change its result

The functions of `meeting-audio-store.ts` under the fence of a meeting that write its share, its review, its
metadata or its result. A result is stored before the manifest that revokes the share of the one before it. The
catalog and the counts of views are not part of these objects. -/

namespace OwnMinutes.Share.Sections

open OwnMinutes.Auth.ProcessingRoute OwnMinutes.Auth.Records OwnMinutes.Lib.Crash OwnMinutes.Lib.Crash.Durable
open OwnMinutes.Audio.Records OwnMinutes.Audio.Store OwnMinutes.Share.Results

variable {C : Type}

/-! ### The objects -/

/-- `result.json` and `obsidian.md`. -/
structure StoredResult (C : Type) where
  result : Option (MeetingResult C) := none
  obsidianMarkdown : Option String := none
  deriving DecidableEq, Repr

structure SharedObjects (C : Type) where
  objects : MeetingObjects := {}
  stored : StoredResult C := {}

namespace SharedObjects

variable (s : SharedObjects C)

def putManifest (manifest : AudioManifest) : SharedObjects C := { s with objects := s.objects.putManifest manifest }

def putResult (result : MeetingResult C) : SharedObjects C :=
  { s with stored := { s.stored with result := some result } }

def putMarkdown (markdown : String) : SharedObjects C :=
  { s with stored := { s.stored with obsidianMarkdown := some markdown } }

end SharedObjects

/-- A section under the fence of a meeting. -/
abbrev Shared (C α : Type) := Durable (SharedObjects C) AudioError α

def readManifest (meetingId : MeetingId) (now : Timestamp) : Shared C AudioManifest := do
  let s ← read
  pure (currentManifest meetingId now s.objects)

def persistMeetingManifest (manifest : AudioManifest) : Shared C Unit := write fun s => s.putManifest manifest

def readMeetingResult : Shared C (Option (MeetingResult C)) := do
  let s ← read
  pure s.stored.result

section Sections

variable (H : Hashing) (F : ResultFunctions C)

def saveMeetingResultUnsafe (result : MeetingResult C) : Shared C Unit := do
  write fun s => s.putResult result
  write fun s => s.putMarkdown (F.obsidianMarkdown result.content)

/-! ### Errors -/

def audioNotFound : AudioError := { status := 404, message := "Meeting audio was not found." }
def resultNotFound : AudioError := { status := 404, message := "Meeting result was not found." }
def resultRequiredToPublish : AudioError :=
  { status := 409, code := some "meeting_result_required", message := "请先生成会议纪要，再发布分享链接。" }
def resultRequiredToConfirm : AudioError :=
  { status := 409, code := some "meeting_result_required", message := "请先生成会议纪要，再确认人工复核。" }
def humanReviewRequired : AudioError :=
  { status := 409, code := some "human_review_required"
    message := "请先逐项核对逐字稿、纪要和待办，并确认当前版本后再发布。" }
def publicationNotCommitted : AudioError :=
  { status := 503, code := some "share_publication_not_committed"
    message := "分享发布所需数据暂未就绪，链接仍保持私密。请稍后重试。" }
def recordingChanged : AudioError :=
  { status := 409, code := some "audio_revision_changed"
    message := "录音在处理期间收到新的音频分片，请基于完整录音重新生成纪要。" }
def recordingNotSealed : AudioError :=
  { status := 409, code := some "meeting_audio_not_sealed"
    message := "录音尚未完成完整性确认，已保留本地录音，请同步完成后重试。" }

/-- The manifest of a meeting with audio, for its owner. -/
def readOwnedManifest (meetingId : MeetingId) (now : Timestamp) (ownerUserId : UserId) : Shared C AudioManifest := do
  let manifest ← readManifest meetingId now
  require (manifest.chunks ≠ []) audioNotFound
  require (manifest.ownerUserId = some ownerUserId) noAccess
  pure manifest

/-! ### Publication -/

/-- Which of the auxiliary writes before a publication succeed. -/
structure Preparation where
  catalog : Bool := true
  analytics : Bool := true
  deriving DecidableEq, Repr

/-- The public manifest is the last durable write. -/
def commitPreparedPublicMeetingShare (preparation : Preparation) (commitPublicManifest : Shared C Unit) :
    Shared C Unit := do
  require (preparation.catalog = true) publicationNotCommitted
  require (preparation.analytics = true) publicationNotCommitted
  commitPublicManifest

structure ShareInput where
  meetingId : MeetingId
  ownerUserId : UserId
  visibility : ShareVisibility
  includeTranscript : Bool
  expiresAt : ShareExpiry := .unset
  deriving DecidableEq, Repr

/-- The manifest with the share of a request. -/
def withShare (now : Timestamp) (input : ShareInput) (expiresAt : Option Timestamp) (manifest : AudioManifest) :
    AudioManifest :=
  { manifest with
    share :=
      { visibility := input.visibility
        includeTranscript := input.includeTranscript
        expiresAt
        updatedAt := some now }
    updatedAt := now }

def updateMeetingShare (now : Timestamp) (input : ShareInput) (preparation : Preparation) : Shared C MeetingShare := do
  let manifest ← readOwnedManifest input.meetingId now input.ownerUserId
  match input.visibility with
  | .public => do
    let stored ← readMeetingResult
    let result := currentMeetingResultForManifest H stored manifest
    require (result.isSome) resultRequiredToPublish
    require ((resolveMeetingHumanReview F manifest.reviewConfirmation result).status = .confirmed) humanReviewRequired
    let expiresAt ← lift (resolveMeetingShareExpiresAt input.expiresAt now)
    let published := withShare now input (some expiresAt) manifest
    commitPreparedPublicMeetingShare preparation (persistMeetingManifest published)
    pure published.share
  | .private => do
    let revoked := withShare now input none manifest
    persistMeetingManifest revoked
    pure revoked.share

/-! ### Reviews -/

structure ReviewInput where
  confirmed : Bool
  meetingId : MeetingId
  ownerUserId : UserId
  deriving DecidableEq, Repr

/-- The manifest with the review of a request. -/
def withReview (now : Timestamp) (input : ReviewInput) (result : MeetingResult C) (manifest : AudioManifest) :
    AudioManifest :=
  if input.confirmed then
    { manifest with reviewConfirmation := some (createMeetingReviewConfirmation F now result), updatedAt := now }
  else { revokeMeetingShare now { manifest with reviewConfirmation := none } with updatedAt := now }

def updateMeetingHumanReview (now : Timestamp) (input : ReviewInput) : Shared C MeetingHumanReview := do
  let manifest ← readOwnedManifest input.meetingId now input.ownerUserId
  let stored ← readMeetingResult
  match currentMeetingResultForManifest H stored manifest with
  | none => fail resultRequiredToConfirm
  | some result => do
    let reviewed := withReview F now input result manifest
    persistMeetingManifest reviewed
    pure (resolveMeetingHumanReview F reviewed.reviewConfirmation (some result))

/-! ### Results -/

/-- `revokeMeetingShare`, and the time of the change. -/
def revoked (now : Timestamp) (manifest : AudioManifest) : AudioManifest :=
  { revokeMeetingShare now manifest with updatedAt := now }

/-- A result is stored, and then the manifest that revokes the share. -/
def replaceResult (now : Timestamp) (manifest : AudioManifest) (result : MeetingResult C) : Shared C Unit := do
  saveMeetingResultUnsafe F result
  persistMeetingManifest (revoked now manifest)

def saveMeetingResult (now : Timestamp) (meetingId : MeetingId) (result : MeetingResult C)
    (expectedAudioRevision : Option AudioRevision) : Shared C Unit := do
  let manifest ← readManifest meetingId now
  match meetingAudioMetadataFromManifest H manifest with
  | none => fail noAudioChunks
  | some audio => do
    require (expectedAudioRevision.all (· == audio.audioRevision)) recordingChanged
    require (expectedAudioRevision.isSome → audio.isSealed = true) recordingNotSealed
    replaceResult F now manifest result

structure EditInput where
  meetingId : MeetingId
  ownerUserId : UserId
  deriving DecidableEq, Repr

/-- What the edits of a result have in common. -/
def editMeetingResult (now : Timestamp) (input : EditInput) (edit : C → Except AudioError C) :
    Shared C (MeetingResult C) := do
  let manifest ← readOwnedManifest input.meetingId now input.ownerUserId
  let stored ← readMeetingResult
  match currentMeetingResultForManifest H stored manifest with
  | none => fail resultNotFound
  | some result => do
    let content ← lift (edit result.content)
    let updated := { result with content := F.rebuildMarkdown result.title content }
    replaceResult F now manifest updated
    pure updated

def updateMeetingSpeakers (now : Timestamp) (input : EditInput) (speakerNames : List (String × String)) :
    Shared C (MeetingResult C) :=
  editMeetingResult H F now input fun content => .ok (F.applySpeakerNames speakerNames content)

def updateMeetingTranscriptSpeakers (now : Timestamp) (input : EditInput)
    (speakerAssignments : List (String × String)) : Shared C (MeetingResult C) :=
  editMeetingResult H F now input (F.assignTranscriptSpeakers speakerAssignments)

def updateMeetingSummary (now : Timestamp) (input : EditInput) (summaryPatch : C) : Shared C (MeetingResult C) :=
  editMeetingResult H F now input fun content => .ok (F.patchSummary summaryPatch content)

/-- The fields of a request, as they are normalised; `none` where they are not there. -/
structure MetadataInput where
  meetingId : MeetingId
  ownerUserId : UserId
  participants : Option (List String) := none
  project : Option (Option String) := none
  tags : Option (List String) := none
  title : Option (Option String) := none
  deriving DecidableEq, Repr

def withMetadata (now : Timestamp) (input : MetadataInput) (manifest : AudioManifest) : AudioManifest :=
  { manifest with
    metadata :=
      { participants := input.participants.getD manifest.metadata.participants
        project := input.project.getD manifest.metadata.project
        tags := input.tags.getD manifest.metadata.tags
        title := input.title.getD manifest.metadata.title
        updatedAt := some now }
    updatedAt := now }

/-- The result with another title, where there is one. -/
def retitled (title : Option String) (result : Option (MeetingResult C)) : Option (MeetingResult C) :=
  match title.filter (· ≠ ""), result with
  | some title, some result =>
    if title ≠ result.title then
      some { result with title, content := F.rebuildMarkdown title result.content }
    else none
  | _, _ => none

/-- The metadata are stored first; what is returned is the result, where it got another title. -/
def updateMeetingMetadata (now : Timestamp) (input : MetadataInput) : Shared C (Option (MeetingResult C)) := do
  let manifest ← readOwnedManifest input.meetingId now input.ownerUserId
  let described := withMetadata now input manifest
  persistMeetingManifest described
  let stored ← readMeetingResult
  match retitled F described.metadata.title (currentMeetingResultForManifest H stored described) with
  | none => pure none
  | some updated => do
    replaceResult F now described updated
    pure (some updated)

/-! ### Views -/

/-- `recordMeetingShareView` without a catalog: the manifest is stored again with one more view. -/
def recordMeetingShareView (now : Timestamp) (meetingId : MeetingId) : Shared C Bool := do
  let manifest ← readManifest meetingId now
  let stored ← readMeetingResult
  let review := resolveMeetingHumanReview F manifest.reviewConfirmation
    (currentMeetingResultForManifest H stored manifest)
  if manifest.chunks = [] ∨ isMeetingShareActive manifest.share now = false ∨ review.status ≠ .confirmed then
    pure false
  else do
    persistMeetingManifest manifest
    pure true

end Sections

end OwnMinutes.Share.Sections
