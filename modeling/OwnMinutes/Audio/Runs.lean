import OwnMinutes.Audio.Store
import OwnMinutes.Lib.Runs

/-! # Runs of the audio calls

The calls of all users on all meetings, one step at a time. What a call does under the fence of a meeting is
one step, which may stop after any of its writes; what it does without it, an object at a time, are steps of
their own, between which others go on: a sweep, the staging of a part under the lock of its upload, the
canonical object of a commit, its receipt, the deletion of a prefix. `stop` is a crash, or an error of what
is not part of this state (a database, a request to the object store that fails). -/

namespace OwnMinutes.Audio.Runs

open OwnMinutes.Auth.ProcessingRoute OwnMinutes.Auth.Records OwnMinutes.Lib.Crash OwnMinutes.Lib.Runs
open OwnMinutes.Audio.Records OwnMinutes.Audio.Store

abbrev CallId := String

/-! ### Staged objects -/

/-- An object under the prefix of an upload. -/
inductive StagingKey
  | manifest
  | part (index : ℕ)
  deriving DecidableEq, Repr

/-- `deletePrefix` of the staged objects of an upload: what is listed and not removed yet. -/
structure Deletion where
  meetingId : MeetingId
  uploadId : UploadId
  listed : Option (List StagingKey) := none
  deriving DecidableEq, Repr

def removeStaged (uploadId : UploadId) (key : StagingKey) (s : MeetingObjects) : MeetingObjects :=
  match key with
  | .manifest => { s with uploadManifests := Function.update s.uploadManifests uploadId none }
  | .part index =>
    { s with
      uploadParts := Function.update s.uploadParts uploadId
        (Function.update (s.uploadParts uploadId) index none) }

/-- The listing of a prefix names every object that is stored under it. -/
def Lists (uploadId : UploadId) (s : MeetingObjects) (listed : List StagingKey) : Prop :=
  ((s.uploadManifests uploadId).isSome → .manifest ∈ listed) ∧
    ∀ index, (s.uploadParts uploadId index).isSome → .part index ∈ listed

/-! ### The part of a recording that the route accepts -/

def recordingUploadPartBytes : ℕ := 4 * 1024 * 1024

def expectedRecordingPartBytes (metadata : RecordingUploadMetadata) (partIndex : ℕ) : ℕ :=
  min recordingUploadPartBytes (metadata.totalBytes - partIndex * recordingUploadPartBytes)

/-- What `parseRecordingPartUpload` checks. -/
structure PartInput.Accepted (H : Hashing) (input : PartInput) : Prop where
  totalBytes : 0 < input.metadata.totalBytes
  safe : input.metadata.totalBytes ≤ MAX_SAFE_INTEGER
  totalParts : input.metadata.totalParts =
    (input.metadata.totalBytes + recordingUploadPartBytes - 1) / recordingUploadPartBytes
  partIndex : input.partIndex < input.metadata.totalParts
  length : input.buffer.length = expectedRecordingPartBytes input.metadata input.partIndex
  sha256 : input.sha256 = H.sha256 input.buffer

/-! ### Calls -/

inductive Phase
  | idle
  /-- `validateShortPhase`, under the lock of the user: the sweep over the meetings that are left -/
  | sweeping (input : PartInput) (meetingIds : List MeetingId) (usage : UploadUsage)
  | sweepingLease (input : PartInput) (meetingId : MeetingId) (meetingIds : List MeetingId)
      (usage : UploadUsage)
  | sweepingStaged (input : PartInput) (deletion : Deletion) (meetingIds : List MeetingId)
      (usage : UploadUsage)
  | reserving (input : PartInput) (usage : Option UploadUsage)
  | staging (input : PartInput)
  /-- under the lock of the upload, with the staging manifest to write -/
  | storingPart (input : PartInput) (manifest : RecordingUploadManifest)
  | storingManifest (input : PartInput) (manifest : RecordingUploadManifest)
  | publishingPart (input : PartInput) (result : PartResult)
  | assembling (input : UploadInput)
  | answeringReceipt (input : UploadInput) (receipt : RecordingUploadReceipt)
  | intending (input : UploadInput) (prepared : PreparedCommit)
  | putting (input : UploadInput) (prepared : PreparedCommit)
  | publishing (input : UploadInput) (prepared : PreparedCommit)
  | storingReceipt (input : UploadInput) (receipt : RecordingUploadReceipt)
  | rechecking (input : UploadInput) (receipt : RecordingUploadReceipt)
  /-- the staged objects are deleted last -/
  | deleting (deletion : Deletion) (receipt : Option RecordingUploadReceipt)
  deriving DecidableEq, Repr

inductive Answer
  | error (error : AudioError)
  | saved (saved : SavedChunk)
  | sealed (audioSeal : AudioSeal)
  | part (result : PartResult)
  | receipt (receipt : RecordingUploadReceipt)
  | status (status : UploadStatus)
  deriving DecidableEq, Repr

structure AudioWorld where
  meetings : MeetingId → MeetingObjects := fun _ => {}
  deletedMeetings : MeetingId → Bool := fun _ => false
  deletedUsers : UserId → Bool := fun _ => false
  now : Timestamp := 0
  calls : CallId → Phase := fun _ => .idle
  userLocks : UserId → Option CallId := fun _ => none
  uploadLocks : MeetingId × UploadId → Option CallId := fun _ => none

namespace AudioWorld

variable (s : AudioWorld)

def setObjects (meetingId : MeetingId) (objects : MeetingObjects) : AudioWorld :=
  { s with meetings := Function.update s.meetings meetingId objects }

def setPhase (callId : CallId) (phase : Phase) : AudioWorld :=
  { s with calls := Function.update s.calls callId phase }

def lockUser (userId : UserId) (callId : CallId) : AudioWorld :=
  { s with userLocks := Function.update s.userLocks userId (some callId) }

def unlockUser (userId : UserId) : AudioWorld :=
  { s with userLocks := Function.update s.userLocks userId none }

def lockUpload (key : MeetingId × UploadId) (callId : CallId) : AudioWorld :=
  { s with uploadLocks := Function.update s.uploadLocks key (some callId) }

def unlockUpload (key : MeetingId × UploadId) : AudioWorld :=
  { s with uploadLocks := Function.update s.uploadLocks key none }

section Fields

variable (meetingId : MeetingId) (objects : MeetingObjects) (callId : CallId) (phase : Phase)
  (userId : UserId) (key : MeetingId × UploadId)

@[simp] theorem setObjects_meetings :
    (s.setObjects meetingId objects).meetings = Function.update s.meetings meetingId objects := rfl

@[simp] theorem setPhase_meetings : (s.setPhase callId phase).meetings = s.meetings := rfl

@[simp] theorem setPhase_calls :
    (s.setPhase callId phase).calls = Function.update s.calls callId phase := rfl

@[simp] theorem unlockUpload_meetings : (s.unlockUpload key).meetings = s.meetings := rfl

end Fields

end AudioWorld

/-! ### Events -/

inductive AudioEvent
  | tick (elapsedMs : ℕ)
  /-- the tombstone of a meeting, and of an account -/
  | deleteMeeting (meetingId : MeetingId)
  | deleteUser (userId : UserId)
  /-- the cleanup of a deleted meeting -/
  | removeMeeting (meetingId : MeetingId)
  | saveChunk (input : AudioChunkInput) (stop : Option ℕ)
  | sealAudio (input : SealInput) (stop : Option ℕ)
  | readStatus (callId : CallId) (input : UploadInput) (stop : Option ℕ)
  /-- `meetingIds` are what `discoverMeetingIdsForOwner` returns -/
  | beginPart (callId : CallId) (input : PartInput) (meetingIds : List MeetingId)
  | sweepNext (callId : CallId)
  | sweepLease (callId : CallId) (stop : Option ℕ)
  | reserve (callId : CallId) (stop : Option ℕ)
  | stage (callId : CallId)
  | putPart (callId : CallId)
  | putPartManifest (callId : CallId)
  | publishPart (callId : CallId) (stop : Option ℕ)
  | beginCommit (callId : CallId) (input : UploadInput) (stop : Option ℕ)
  | assemble (callId : CallId) (durationMs : ℚ)
  | answerReceipt (callId : CallId) (stop : Option ℕ)
  | intend (callId : CallId)
  | putRecording (callId : CallId)
  | publishCommit (callId : CallId) (stop : Option ℕ)
  | putReceipt (callId : CallId)
  | recheck (callId : CallId) (stop : Option ℕ)
  | list (callId : CallId) (listed : List StagingKey)
  | remove (callId : CallId) (key : StagingKey)
  /-- a deletion ends, or fails at one of its requests, which is logged and no more -/
  | endDeletion (callId : CallId)
  | crash (callId : CallId)
  deriving DecidableEq, Repr

def Phase.deletion? : Phase → Option Deletion
  | .sweepingStaged _ deletion _ _ => some deletion
  | .deleting deletion _ => some deletion
  | _ => none

def Phase.withDeletion (deletion : Deletion) : Phase → Phase
  | .sweepingStaged input _ meetingIds usage => .sweepingStaged input deletion meetingIds usage
  | .deleting _ receipt => .deleting deletion receipt
  | phase => phase

/-- The locks that a call holds between its steps. -/
def Phase.user? : Phase → Option UserId
  | .sweeping input _ _ | .sweepingLease input _ _ _ | .sweepingStaged input _ _ _
  | .reserving input _ => some input.ownerUserId
  | _ => none

def Phase.upload? : Phase → Option (MeetingId × UploadId)
  | .storingPart input _ | .storingManifest input _ =>
    some (input.meetingId, input.metadata.uploadId)
  | _ => none

section Steps

variable (H : Hashing) (policy : RecordingUploadResourcePolicy)

/-- A section under the fence of a meeting. -/
def fenced {α : Type} (s : AudioWorld) (meetingId : MeetingId) (stop : Option ℕ) (x : Fenced α) :
    AudioWorld × Option (Except AudioError α) :=
  if s.deletedMeetings meetingId then (s, some (.error meetingDeleted))
  else
    (s.setObjects meetingId (x.run stop (s.meetings meetingId)).1,
      (x.run stop (s.meetings meetingId)).2)

/-- The end of a call, with the locks it held. -/
def AudioWorld.finish (s : AudioWorld) (callId : CallId) : AudioWorld :=
  let t := match (s.calls callId).user? with
    | none => s
    | some userId => s.unlockUser userId
  let t := match (s.calls callId).upload? with
    | none => t
    | some key => t.unlockUpload key
  t.setPhase callId .idle

/-- Where a call goes after a section. -/
def continueWith {α : Type} (r : AudioWorld × Option (Except AudioError α))
    (leave : AudioWorld → AudioWorld) (next : AudioWorld → α → AudioWorld × Option Answer) :
    AudioWorld × Option Answer :=
  match r.2 with
  | none => (leave r.1, none)
  | some (.error error) => (leave r.1, some (.error error))
  | some (.ok a) => next r.1 a

/-- A section under the lock of a user whose account is there. -/
def userSection {α : Type} (s : AudioWorld) (userId : UserId) (meetingId : MeetingId)
    (stop : Option ℕ) (x : Fenced α) : AudioWorld × Option (Except AudioError α) :=
  if s.deletedUsers userId then (s, some (.error accountDeleted)) else fenced s meetingId stop x

def stepSaveChunk (s : AudioWorld) (input : AudioChunkInput) (stop : Option ℕ) :
    AudioWorld × Option Answer :=
  continueWith
    (userSection s input.ownerUserId input.meetingId stop (saveMeetingAudioChunkUnsafe H s.now input))
    id fun s saved => (s, some (.saved saved))

def stepSealAudio (s : AudioWorld) (input : SealInput) (stop : Option ℕ) :
    AudioWorld × Option Answer :=
  if s.deletedUsers input.ownerUserId then (s, some (.error accountDeletedSeal))
  else continueWith (fenced s input.meetingId stop (sealMeetingAudioUnsafe H s.now input))
    id fun s audioSeal => (s, some (.sealed audioSeal))

def stepReadStatus (s : AudioWorld) (callId : CallId) (input : UploadInput) (stop : Option ℕ) :
    AudioWorld × Option Answer :=
  continueWith
    (fenced s input.meetingId stop (readMeetingRecordingUploadStatusUnsafe H policy s.now input))
    id fun s status =>
      match status.staleCleanupUploadId with
      | none => (s, some (.status status))
      | some uploadId =>
        (s.setPhase callId (.deleting { meetingId := input.meetingId, uploadId } none),
          some (.status status))

def stepBeginPart (s : AudioWorld) (callId : CallId) (input : PartInput)
    (meetingIds : List MeetingId) : AudioWorld × Option Answer :=
  if s.deletedUsers input.ownerUserId then (s, some (.error accountDeleted))
  else if needsNewLeaseBudget policy s.now input (s.meetings input.meetingId) then
    ((s.lockUser input.ownerUserId callId).setPhase callId (.sweeping input meetingIds []), none)
  else ((s.lockUser input.ownerUserId callId).setPhase callId (.reserving input none), none)

/-- The loop of `sweepAndMeasureRecordingUploads`. -/
def stepSweepNext (s : AudioWorld) (callId : CallId) (input : PartInput) (usage : UploadUsage) :
    List MeetingId → AudioWorld
  | [] => s.setPhase callId (.reserving input (some usage))
  | meetingId :: meetingIds =>
    let manifest := (s.meetings meetingId).manifest.map normalizeManifest
    match manifest, manifest.bind (·.recordingUpload) with
    | some manifest, some lease =>
      if isRecordingUploadStale policy s.now lease.updatedAt then
        s.setPhase callId (.sweepingLease input meetingId meetingIds usage)
      else if manifest.ownerUserId = some input.ownerUserId then
        s.setPhase callId (.sweeping input meetingIds
          (usage.set (meetingId, lease.uploadId) lease.totalBytes))
      else s.setPhase callId (.sweeping input meetingIds usage)
    | _, _ => s.setPhase callId (.sweeping input meetingIds usage)

def stepSweepLease (s : AudioWorld) (callId : CallId) (input : PartInput) (meetingId : MeetingId)
    (meetingIds : List MeetingId) (usage : UploadUsage) (stop : Option ℕ) :
    AudioWorld × Option Answer :=
  continueWith (fenced s meetingId stop (sweepLeaseUnsafe policy s.now)) (·.finish callId)
    fun s swept =>
      match swept with
      | none => (s.setPhase callId (.sweeping input meetingIds usage), none)
      | some uploadId =>
        (s.setPhase callId (.sweepingStaged input { meetingId, uploadId } meetingIds usage), none)

def stepReserve (s : AudioWorld) (callId : CallId) (input : PartInput) (usage : Option UploadUsage)
    (stop : Option ℕ) : AudioWorld × Option Answer :=
  continueWith (fenced s input.meetingId stop (reservePartUnsafe policy s.now usage input))
    (·.finish callId) fun s _ =>
      ((s.unlockUser input.ownerUserId).setPhase callId (.staging input), none)

def stepStage (s : AudioWorld) (callId : CallId) (input : PartInput) : AudioWorld × Option Answer :=
  match planRecordingUploadPart s.now input (s.meetings input.meetingId) with
  | .error error => (s.setPhase callId .idle, some (.error error))
  | .ok (.answer result) => (s.setPhase callId (.publishingPart input result), none)
  | .ok (.store manifest) =>
    ((s.lockUpload (input.meetingId, input.metadata.uploadId) callId).setPhase callId
      (.storingPart input manifest), none)

def stepPutPart (s : AudioWorld) (callId : CallId) (input : PartInput)
    (manifest : RecordingUploadManifest) : AudioWorld :=
  (s.setObjects input.meetingId ((s.meetings input.meetingId).putUploadPart input.metadata.uploadId
    input.partIndex input.buffer)).setPhase callId (.storingManifest input manifest)

def stepPutPartManifest (s : AudioWorld) (callId : CallId) (input : PartInput)
    (manifest : RecordingUploadManifest) : AudioWorld :=
  ((s.setObjects input.meetingId ((s.meetings input.meetingId).putUploadManifest manifest)).unlockUpload
    (input.meetingId, input.metadata.uploadId)).setPhase callId
      (.publishingPart input (partStored manifest false))

def stepPublishPart (s : AudioWorld) (callId : CallId) (input : PartInput) (result : PartResult)
    (stop : Option ℕ) : AudioWorld × Option Answer :=
  continueWith
    (userSection s input.ownerUserId input.meetingId stop (publishPartUnsafe s.now input result))
    (·.setPhase callId .idle) fun s result => (s.setPhase callId .idle, some (.part result))

def stepBeginCommit (s : AudioWorld) (callId : CallId) (input : UploadInput) (stop : Option ℕ) :
    AudioWorld × Option Answer :=
  continueWith
    (userSection s input.ownerUserId input.meetingId stop (preflightCommitUnsafe H s.now input))
    id fun s receipt =>
      match receipt with
      | some receipt => (s, some (.receipt receipt))
      | none => (s.setPhase callId (.assembling input), none)

def stepAssemble (s : AudioWorld) (callId : CallId) (input : UploadInput) (durationMs : ℚ) :
    AudioWorld × Option Answer :=
  match assembleRecordingUpload H input.ownerUserId input.uploadId (s.meetings input.meetingId) with
  | .error error => (s.setPhase callId .idle, some (.error error))
  | .ok (.alreadyCommitted receipt) => (s.setPhase callId (.answeringReceipt input receipt), none)
  | .ok (.prepared manifest content maxBufferedBytes) =>
    (s.setPhase callId (.intending input { manifest, content, durationMs, maxBufferedBytes }), none)

def stepAnswerReceipt (s : AudioWorld) (callId : CallId) (input : UploadInput)
    (receipt : RecordingUploadReceipt) (stop : Option ℕ) : AudioWorld × Option Answer :=
  continueWith
    (userSection s input.ownerUserId input.meetingId stop (answerReceiptUnsafe H s.now input receipt))
    (·.setPhase callId .idle) fun s receipt => (s.setPhase callId .idle, some (.receipt receipt))

/-- The transfer intent is begun under the fence, and changes nothing here. -/
def stepIntend (s : AudioWorld) (callId : CallId) (input : UploadInput) (prepared : PreparedCommit) :
    AudioWorld × Option Answer :=
  continueWith (userSection s input.ownerUserId input.meetingId none (pure ()))
    (·.setPhase callId .idle) fun s _ => (s.setPhase callId (.putting input prepared), none)

def stepPutRecording (s : AudioWorld) (callId : CallId) (input : UploadInput)
    (prepared : PreparedCommit) : AudioWorld :=
  (s.setObjects input.meetingId ((s.meetings input.meetingId).putChunk prepared.fileName
    prepared.content)).setPhase callId (.publishing input prepared)

def stepPublishCommit (s : AudioWorld) (callId : CallId) (input : UploadInput)
    (prepared : PreparedCommit) (stop : Option ℕ) : AudioWorld × Option Answer :=
  continueWith
    (userSection s input.ownerUserId input.meetingId stop (publishCommitUnsafe H s.now input prepared))
    (·.setPhase callId .idle) fun s published =>
      (s.setPhase callId (.storingReceipt input (receiptOf input prepared published)), none)

def stepPutReceipt (s : AudioWorld) (callId : CallId) (input : UploadInput)
    (receipt : RecordingUploadReceipt) : AudioWorld :=
  (s.setObjects input.meetingId ((s.meetings input.meetingId).putReceipt receipt)).setPhase callId
    (.rechecking input receipt)

def stepRecheck (s : AudioWorld) (callId : CallId) (input : UploadInput)
    (receipt : RecordingUploadReceipt) (stop : Option ℕ) : AudioWorld × Option Answer :=
  continueWith
    (userSection s input.ownerUserId input.meetingId stop (recheckCommitUnsafe H s.now input receipt))
    (·.setPhase callId .idle) fun s receipt =>
      (s.setPhase callId (.deleting { meetingId := input.meetingId, uploadId := input.uploadId }
        (some receipt)), none)

def stepRemove (s : AudioWorld) (callId : CallId) (deletion : Deletion) (key : StagingKey) :
    AudioWorld :=
  (s.setObjects deletion.meetingId (removeStaged deletion.uploadId key
    (s.meetings deletion.meetingId))).setPhase callId
      ((s.calls callId).withDeletion
        { deletion with listed := deletion.listed.map (·.erase key) })

def stepEndDeletion (s : AudioWorld) (callId : CallId) : Option (AudioWorld × Option Answer) :=
  match s.calls callId with
  | .sweepingStaged input _ meetingIds usage =>
    some (s.setPhase callId (.sweeping input meetingIds usage), none)
  | .deleting _ receipt => some (s.setPhase callId .idle, receipt.map .receipt)
  | _ => none

/-- A step, and what the call answers with it; `none` where the event is not next. -/
def step (s : AudioWorld) : AudioEvent → Option (AudioWorld × Option Answer)
  | .tick elapsedMs => some ({ s with now := s.now + elapsedMs }, none)
  | .deleteMeeting meetingId =>
    some ({ s with deletedMeetings := Function.update s.deletedMeetings meetingId true }, none)
  | .deleteUser userId =>
    some ({ s with deletedUsers := Function.update s.deletedUsers userId true }, none)
  | .removeMeeting meetingId =>
    if s.deletedMeetings meetingId then some (s.setObjects meetingId {}, none) else none
  | .saveChunk input stop =>
    if s.userLocks input.ownerUserId = none then some (stepSaveChunk H s input stop) else none
  | .sealAudio input stop =>
    if s.userLocks input.ownerUserId = none then some (stepSealAudio H s input stop) else none
  | .readStatus callId input stop =>
    if s.calls callId = .idle ∧ s.userLocks input.ownerUserId = none then
      some (stepReadStatus H policy s callId input stop)
    else none
  | .beginPart callId input meetingIds =>
    if s.calls callId = .idle ∧ s.userLocks input.ownerUserId = none then
      some (stepBeginPart policy s callId input meetingIds)
    else none
  | .sweepNext callId =>
    match s.calls callId with
    | .sweeping input meetingIds usage =>
      some (stepSweepNext policy s callId input usage meetingIds, none)
    | _ => none
  | .sweepLease callId stop =>
    match s.calls callId with
    | .sweepingLease input meetingId meetingIds usage =>
      some (stepSweepLease policy s callId input meetingId meetingIds usage stop)
    | _ => none
  | .reserve callId stop =>
    match s.calls callId with
    | .reserving input usage => some (stepReserve policy s callId input usage stop)
    | _ => none
  | .stage callId =>
    match s.calls callId with
    | .staging input =>
      if s.uploadLocks (input.meetingId, input.metadata.uploadId) = none then
        some (stepStage s callId input)
      else none
    | _ => none
  | .putPart callId =>
    match s.calls callId with
    | .storingPart input manifest => some (stepPutPart s callId input manifest, none)
    | _ => none
  | .putPartManifest callId =>
    match s.calls callId with
    | .storingManifest input manifest => some (stepPutPartManifest s callId input manifest, none)
    | _ => none
  | .publishPart callId stop =>
    match s.calls callId with
    | .publishingPart input result =>
      if s.userLocks input.ownerUserId = none then some (stepPublishPart s callId input result stop)
      else none
    | _ => none
  | .beginCommit callId input stop =>
    if s.calls callId = .idle ∧ s.userLocks input.ownerUserId = none then
      some (stepBeginCommit H s callId input stop)
    else none
  | .assemble callId durationMs =>
    match s.calls callId with
    | .assembling input =>
      if s.uploadLocks (input.meetingId, input.uploadId) = none then
        some (stepAssemble H s callId input durationMs)
      else none
    | _ => none
  | .answerReceipt callId stop =>
    match s.calls callId with
    | .answeringReceipt input receipt =>
      if s.userLocks input.ownerUserId = none then
        some (stepAnswerReceipt H s callId input receipt stop)
      else none
    | _ => none
  | .intend callId =>
    match s.calls callId with
    | .intending input prepared =>
      if s.userLocks input.ownerUserId = none then some (stepIntend s callId input prepared) else none
    | _ => none
  | .putRecording callId =>
    match s.calls callId with
    | .putting input prepared => some (stepPutRecording s callId input prepared, none)
    | _ => none
  | .publishCommit callId stop =>
    match s.calls callId with
    | .publishing input prepared =>
      if s.userLocks input.ownerUserId = none then
        some (stepPublishCommit H s callId input prepared stop)
      else none
    | _ => none
  | .putReceipt callId =>
    match s.calls callId with
    | .storingReceipt input receipt => some (stepPutReceipt s callId input receipt, none)
    | _ => none
  | .recheck callId stop =>
    match s.calls callId with
    | .rechecking input receipt =>
      if s.userLocks input.ownerUserId = none then some (stepRecheck H s callId input receipt stop)
      else none
    | _ => none
  | .list callId listed =>
    match (s.calls callId).deletion? with
    | some deletion =>
      some (s.setPhase callId ((s.calls callId).withDeletion { deletion with listed := some listed }),
        none)
    | none => none
  | .remove callId key =>
    match (s.calls callId).deletion? with
    | some deletion =>
      if deletion.listed.any (·.contains key) then some (stepRemove s callId deletion key, none)
      else none
    | none => none
  | .endDeletion callId => stepEndDeletion s callId
  | .crash callId => some (s.finish callId, none)

/-- A live or stale lease of a user on a meeting. -/
def leaseOf (s : AudioWorld) (userId : UserId) (meetingId : MeetingId) : Option RecordingUploadLease :=
  (((s.meetings meetingId).manifest.map normalizeManifest).filter fun manifest =>
    manifest.ownerUserId == some userId).bind (·.recordingUpload)

/-- What a request brings along was checked by its route; a listing is complete. -/
def Admissible (s : AudioWorld) : AudioEvent → Prop
  | .saveChunk input _ => 0 < input.sequence
  | .beginPart _ input meetingIds => PartInput.Accepted H input ∧
    ∀ meetingId, (leaseOf s input.ownerUserId meetingId).isSome → meetingId ∈ meetingIds
  | .list callId listed => ∀ deletion, (s.calls callId).deletion? = some deletion →
    Lists deletion.uploadId (s.meetings deletion.meetingId) listed
  | _ => True

/-- A step with its event and its answer. -/
def AudioStep (s : AudioWorld) (e : AudioEvent × Option Answer) (t : AudioWorld) : Prop :=
  Admissible H s e.1 ∧ step H policy s e.1 = some (t, e.2)

end Steps

end OwnMinutes.Audio.Runs
