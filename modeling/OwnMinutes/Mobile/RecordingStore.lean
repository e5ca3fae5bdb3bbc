import OwnMinutes.Lib.Keyed
import OwnMinutes.Mobile.RecordingIndex
import OwnMinutes.Mobile.RecordingPaths
import Mathlib.Logic.Encodable.Basic
import Mathlib.Logic.Equiv.List
import Mathlib.Data.List.Sort

/-! # The recording store of the mobile app

The pure part of `recording-store.ts`: the records of the index, the two journals kept in the secure store, and
what a load computes from them. An optional text of the source that is empty counts as absent there, and is
absent here. -/

namespace OwnMinutes.Mobile.RecordingStore

open OwnMinutes.Lib.Faults OwnMinutes.Lib.Keyed
open OwnMinutes.Mobile.RecordingIndex OwnMinutes.Mobile.RecordingPaths

def minimumRecoverableRecordingBytes : ℕ := 4 * 1024
def orphanMatchMaximumDistanceMs : ℤ := 6 * 60 * 60 * 1000
def localDeletionTombstoneRetentionMs : ℤ := 7 * 24 * 60 * 60 * 1000

/-! ### Data -/

/-- The launch that a call runs in: its documents directory, its clock and how it reads and compares texts. -/
structure Runtime where
  documentDirectory : Option Truthy
  documents_file : ∀ directory, documentDirectory = some directory → "file:///".toList <+: directory.1
  dateParse : Text → Option ℤ
  toISOString : ℤ → Truthy
  localeLE : Text → Text → Bool
  now : ℤ

def Runtime.nowText (runtime : Runtime) : Truthy := runtime.toISOString runtime.now

structure PendingRecording where
  meetingId : Truthy
  uri : Truthy
  createdAt : Truthy
  updatedAt : Truthy
  userId : Option Truthy := none
  activeRecording : Bool := false
  localRecoveryOnly : Bool := false
  finalizedAt : Option Truthy := none
  nextRetryAt : Option Truthy := none
  localDeletionPendingAt : Option Truthy := none
  localDeletionCompletedAt : Option Truthy := none
  recoverySourceUris : List Truthy := []
  deriving DecidableEq

structure PendingRealtimeSession where
  meetingId : Truthy
  createdAt : Truthy
  updatedAt : Truthy
  uri : Option Truthy := none
  userId : Option Truthy := none
  deriving DecidableEq

/-- The kind of an entry of the deletion journal, with whom it is about. -/
inductive DeletionScope
  | meeting (meetingId : Truthy) (userId : Option Truthy)
  | account (userId : Truthy)
  deriving DecidableEq

structure LocalDeletionJournalEntry where
  scope : DeletionScope
  createdAt : Truthy
  completedAt : Option Truthy := none
  deriving DecidableEq

/-- The single record that earlier versions kept. -/
structure LegacyRecording where
  meetingId : Option Truthy
  uri : Option Truthy
  createdAt : Option Truthy := none
  updatedAt : Option Truthy := none
  userId : Option Truthy := none
  activeRecording : Bool := false
  finalizedAt : Option Truthy := none
  nextRetryAt : Option Truthy := none
  deriving DecidableEq

/-- A value of the secure store, as its reader finds it. -/
inductive Stored (T : Type)
  | absent
  | damaged
  | text (value : T)
  deriving DecidableEq

structure FileInfo where
  isDirectory : Bool
  size : ℕ
  modificationTimeMs : ℕ
  deriving DecidableEq, Repr

structure AudioFile where
  uri : Truthy
  info : FileInfo
  deriving DecidableEq

instance : HasKey AudioFile Truthy := ⟨AudioFile.uri⟩

/-- What a device keeps: the four index files, the secure store and the other files. -/
structure Device where
  index : IndexFiles
  legacy : Stored LegacyRecording
  deletionJournal : Stored (List LocalDeletionJournalEntry)
  realtimeJournal : Stored (List PendingRealtimeSession)
  realtimeQuarantine : Bool
  files : Table AudioFile

def Device.fileInfo (d : Device) (uri : Truthy) : Option FileInfo := (d.files.get? uri).map (·.info)

structure RecordingFileProbe where
  available : Bool
  found : Option FileInfo
  deriving DecidableEq

/-- `probe.exists`: a file that is not a directory was found. -/
def RecordingFileProbe.exists (probe : RecordingFileProbe) : Bool :=
  match probe.found with
  | some info => !info.isDirectory
  | none => false

def RecordingFileProbe.size (probe : RecordingFileProbe) : ℕ :=
  match probe.found with
  | some info => if info.isDirectory then 0 else info.size
  | none => 0

structure RootOrphanRecording where
  uri : Truthy
  size : ℕ
  modificationTimeMs : ℕ
  deriving DecidableEq

/-! ### The index in memory -/

def upsertInMemory (recordings : List PendingRecording) (recording : PendingRecording) : List PendingRecording :=
  let others := recordings.filter fun item => item.meetingId ≠ recording.meetingId
  match recordings.find? fun item => item.meetingId = recording.meetingId with
  | some existing =>
    if existing.localDeletionPendingAt.isSome && recording.localDeletionPendingAt.isNone then existing :: others
    else recording :: others
  | none => recording :: others

def visiblePendingRecordings (recordings : List PendingRecording) : List PendingRecording :=
  recordings.filter fun recording => recording.localDeletionPendingAt.isNone

def quarantineOwnerlessRecording (recording : PendingRecording) : PendingRecording :=
  if recording.userId.isSome then recording
  else { recording with activeRecording := true, localRecoveryOnly := true, nextRetryAt := none }

def mergeRecoverySourceUris (existing : List Truthy) (sourceUri : Truthy) : List Truthy :=
  let uris := (existing ++ [sourceUri]).eraseDups
  uris.drop (uris.length - 20)

section Journals

variable (runtime : Runtime)

/-- `.sort((left, right) => right.updatedAt.localeCompare(left.updatedAt))` -/
def newestFirst (recordings : List PendingRecording) : List PendingRecording :=
  recordings.insertionSort fun left right => runtime.localeLE right.updatedAt.1 left.updatedAt.1

def dateOf (text : Option Truthy) : Option ℤ := text.bind fun text => runtime.dateParse text.1

/-- Less than the retention window has passed. -/
def isRetained (completedAt : ℤ) : Bool := decide (runtime.now - completedAt < localDeletionTombstoneRetentionMs)

/-- `readLegacyRecording` of what is stored. -/
def readLegacy : Stored LegacyRecording → Option PendingRecording
  | .text ⟨some meetingId, some uri, createdAt, updatedAt, userId, activeRecording, finalizedAt, nextRetryAt⟩ =>
    let createdAt := createdAt.getD runtime.nowText
    some
      { meetingId := meetingId
        uri := uri
        createdAt := createdAt
        updatedAt := updatedAt.getD createdAt
        userId := userId
        activeRecording := activeRecording
        finalizedAt := finalizedAt
        nextRetryAt := nextRetryAt }
  | _ => none

/-! ### The deletion journal -/

def pruneLocalDeletionJournal (entries : List LocalDeletionJournalEntry) : List LocalDeletionJournalEntry :=
  entries.filter fun entry =>
    match entry.completedAt with
    | none => true
    | some completedAt =>
      match runtime.dateParse completedAt.1 with
      | none => true
      | some completedAt => isRetained runtime completedAt

def journalEntryMatches (entry : LocalDeletionJournalEntry) (meetingId : Truthy) (userId : Option Truthy) : Bool :=
  match entry.scope with
  | .meeting entryMeetingId entryUserId =>
    entryMeetingId = meetingId && (entryUserId.isNone || entryUserId = userId)
  | .account entryUserId => userId = some entryUserId

def localDeletionIntentForRecording (entries : List LocalDeletionJournalEntry) (meetingId : Truthy)
    (userId : Option Truthy) : Option LocalDeletionJournalEntry :=
  entries.find? fun entry => journalEntryMatches entry meetingId userId

def applyLocalDeletionJournal (entries : List LocalDeletionJournalEntry) (recordings : List PendingRecording) :
    List PendingRecording :=
  recordings.map fun recording =>
    match localDeletionIntentForRecording entries recording.meetingId recording.userId with
    | none => recording
    | some intent =>
      { recording with
        activeRecording := false
        localDeletionPendingAt := some (recording.localDeletionPendingAt.getD intent.createdAt)
        nextRetryAt := none }

/-- The entry of a scope, again not completed, and in front. -/
def upsertDeletionIntent (same : DeletionScope → Bool) (scope : Option DeletionScope → DeletionScope)
    (entries : List LocalDeletionJournalEntry) : List LocalDeletionJournalEntry :=
  let existing := entries.find? fun entry => same entry.scope
  let entry : LocalDeletionJournalEntry :=
    { scope := scope (existing.map (·.scope))
      createdAt := (existing.map (·.createdAt)).getD runtime.nowText
      completedAt := none }
  entry :: entries.eraseP fun entry => same entry.scope

def upsertMeetingDeletionIntent (meetingId : Truthy) (userId : Option Truthy) :
    List LocalDeletionJournalEntry → List LocalDeletionJournalEntry :=
  upsertDeletionIntent runtime
    (fun scope =>
      match scope with
      | .meeting entryMeetingId _ => entryMeetingId = meetingId
      | .account _ => false)
    (fun existing =>
      match existing with
      | some (.meeting _ existingUserId) => .meeting meetingId (userId.or existingUserId)
      | _ => .meeting meetingId userId)

def upsertAccountDeletionIntent (userId : Truthy) :
    List LocalDeletionJournalEntry → List LocalDeletionJournalEntry :=
  upsertDeletionIntent runtime (fun scope => scope = .account userId) (fun _ => .account userId)

def completeResolvedLocalDeletionIntents (entries : List LocalDeletionJournalEntry)
    (recordings : List PendingRecording) : List LocalDeletionJournalEntry :=
  entries.map fun entry =>
    let unresolved := recordings.any fun recording =>
      journalEntryMatches entry recording.meetingId recording.userId && recording.localDeletionCompletedAt.isNone
    if unresolved || entry.completedAt.isSome then entry else { entry with completedAt := some runtime.nowText }

/-! ### The realtime journal -/

def pruneRealtimeSessionJournalForLocalDeletions (journal : List PendingRealtimeSession)
    (deletionJournal : List LocalDeletionJournalEntry) (recordings : List PendingRecording) :
    List PendingRealtimeSession :=
  journal.filter fun entry =>
    (localDeletionIntentForRecording deletionJournal entry.meetingId entry.userId).isNone &&
      !recordings.any fun recording =>
        recording.localDeletionPendingAt.isSome && recording.meetingId = entry.meetingId &&
          (recording.userId.isNone || recording.userId = entry.userId)

/-- The map of the entries by meeting: the last entry of a meeting, at the place of its first one. -/
def journalByMeetingId (journal : List PendingRealtimeSession) : List PendingRealtimeSession :=
  (journal.map (·.meetingId)).eraseDups.filterMap fun meetingId =>
    journal.reverse.find? fun entry => entry.meetingId = meetingId

def recordingOfSession (entry : PendingRealtimeSession) : PendingRecording :=
  { activeRecording := true
    createdAt := entry.createdAt
    meetingId := entry.meetingId
    updatedAt := entry.updatedAt
    uri := entry.uri.getD (realtimeJournalPlaceholderUri entry.meetingId.1)
    userId := entry.userId }

def mergeSession (recording : PendingRecording) (entry : PendingRealtimeSession) : PendingRecording :=
  { recording with
    activeRecording := if recording.finalizedAt.isSome then recording.activeRecording else true
    userId := recording.userId.or entry.userId }

def mergeSessions (entries : List PendingRealtimeSession) : List PendingRecording → List PendingRecording
  | [] => entries.map recordingOfSession
  | recording :: recordings =>
    match entries.find? fun entry => entry.meetingId = recording.meetingId with
    | none => recording :: mergeSessions entries recordings
    | some entry =>
      mergeSession recording entry ::
        mergeSessions (entries.filter fun entry => entry.meetingId ≠ recording.meetingId) recordings

def mergePendingRealtimeSessions (recordings : List PendingRecording) (journal : List PendingRealtimeSession) :
    List PendingRecording :=
  mergeSessions (journalByMeetingId journal) recordings

def attachRecoveredRealtimeSessionUris (journal : List PendingRealtimeSession)
    (recordings : List PendingRecording) : List PendingRealtimeSession :=
  journal.map fun entry =>
    match recordings.reverse.find? fun recording => recording.meetingId = entry.meetingId with
    | none => entry
    | some recording =>
      if isRealtimeJournalPlaceholder recording.uri.1 || entry.uri = some recording.uri then entry
      else { entry with updatedAt := runtime.nowText, uri := some recording.uri }

/-! ### Files of a record -/

/-- The files a record names, in its own spelling and at their present place. -/
def recordingCandidateUris (recording : PendingRecording) : List Truthy :=
  let named := (recording.uri :: recording.recoverySourceUris).eraseDups
  let controlled := named.filter fun uri => isControlledRecordingUri runtime.documentDirectory uri.1
  let current := controlled.filterMap fun uri =>
    runtime.documentDirectory.bind fun directory => currentManagedRecordingUri directory uri.1
  (named ++ current).eraseDups.filter fun uri => isControlledRecordingUri runtime.documentDirectory uri.1

/-- A file that another record names, one that is not deleted. -/
def isOccupied (recording : PendingRecording) (recordings : List PendingRecording) (uri : Truthy) : Bool :=
  recordings.any fun other =>
    other.meetingId ≠ recording.meetingId && other.localDeletionPendingAt.isNone &&
      (recordingCandidateUris runtime other).contains uri

def collectKnownRecordingUris (recordings : List PendingRecording) : List Truthy :=
  recordings.flatMap fun recording => recording.uri :: recording.recoverySourceUris

/-! ### Relocation -/

def relocationOf (recording : PendingRecording) : Option Truthy :=
  runtime.documentDirectory.bind fun directory => currentManagedRecordingUri directory recording.uri.1

/-- A place that one record alone can move to, and that no other record names. -/
def mayRelocate (recordings : List PendingRecording) (recording : PendingRecording) (destination : Truthy) : Bool :=
  destination ≠ recording.uri &&
    (recordings.countP fun other => relocationOf runtime other = some destination && destination ≠ other.uri) == 1 &&
    !(recordings.any fun other => other.uri = destination && other.meetingId ≠ recording.meetingId) &&
    destinationMatchesRecordingIdentity recording.meetingId.1 destination.1

def destinationTimestampMatchesRecording (recording : PendingRecording) (destination : Truthy)
    (modificationTimeMs : ℕ) : Bool :=
  !includes destination.1 "/ExpoAudio/".toList ||
    match runtime.dateParse recording.createdAt.1 with
    | none => false
    | some createdAt => decide (|(modificationTimeMs : ℤ) - createdAt| ≤ orphanMatchMaximumDistanceMs)

/-- The file found at the destination can be the record's. -/
def acceptsDestination (recording : PendingRecording) (destination : Truthy) : Option FileInfo → Bool
  | none => false
  | some info =>
    !info.isDirectory && decide (minimumRecoverableRecordingBytes ≤ info.size) &&
      destinationTimestampMatchesRecording runtime recording destination info.modificationTimeMs

def relocatedRecording (recording : PendingRecording) (destination : Truthy) : PendingRecording :=
  { recording with
    recoverySourceUris := mergeRecoverySourceUris recording.recoverySourceUris recording.uri
    uri := destination }

/-! ### Orphans -/

def namesIn (files : Table AudioFile) (directory : Truthy) : List Text :=
  files.rows.filterMap fun file =>
    if directory.1.isPrefixOf file.uri.1 then
      let name := file.uri.1.drop directory.1.length
      if name.contains '/' then none else some name
    else none

def orphanBefore (left right : RootOrphanRecording) : Bool :=
  decide (right.modificationTimeMs < left.modificationTimeMs) ||
    left.modificationTimeMs == right.modificationTimeMs &&
      (decide (right.size < left.size) || left.size == right.size && runtime.localeLE left.uri.1 right.uri.1)

def isolatedId (orphan : RootOrphanRecording) : Truthy :=
  isolatedRecoveryMeetingId orphan.uri.1 orphan.size orphan.modificationTimeMs

/-- `probes.get(meetingId)` -/
def probeOf (probes : List (Truthy × RecordingFileProbe)) (meetingId : Truthy) : Option RecordingFileProbe :=
  (probes.reverse.find? fun probe => probe.1 = meetingId).map Prod.snd

/-- `recoveryCandidatePriority(recording, probe) !== null` -/
def isRecoveryCandidate (probes : List (Truthy × RecordingFileProbe)) (recording : PendingRecording) : Bool :=
  !recording.localRecoveryOnly && recording.activeRecording &&
    match probeOf probes recording.meetingId with
    | none => true
    | some probe => !probe.exists || decide (probe.size < minimumRecoverableRecordingBytes)

/-- An orphan that the candidate may have been recorded into. -/
def isEligible (probes : List (Truthy × RecordingFileProbe)) (candidate : PendingRecording)
    (orphan : RootOrphanRecording) : Bool :=
  (match probeOf probes candidate.meetingId with
    | some probe => !(probe.exists && decide (orphan.size ≤ probe.size))
    | none => true) &&
  match runtime.dateParse candidate.createdAt.1 with
  | none => true
  | some createdAt => decide (|(orphan.modificationTimeMs : ℤ) - createdAt| ≤ orphanMatchMaximumDistanceMs)

def recoveredRecording (recording : PendingRecording) (uri : Truthy) : PendingRecording :=
  { recording with
    finalizedAt := none
    nextRetryAt := none
    recoverySourceUris := mergeRecoverySourceUris recording.recoverySourceUris uri
    updatedAt := runtime.nowText
    uri := uri }

def createIsolatedRecoveryRecording (orphan : RootOrphanRecording) : PendingRecording :=
  let createdAt := runtime.toISOString orphan.modificationTimeMs
  { activeRecording := true
    createdAt := createdAt
    localRecoveryOnly := true
    meetingId := isolatedId orphan
    recoverySourceUris := [orphan.uri]
    updatedAt := createdAt
    uri := orphan.uri }

/-- A record for each orphan whose id no record has yet. -/
def isolateOrphans : List PendingRecording → List RootOrphanRecording → List PendingRecording
  | recordings, [] => recordings
  | recordings, orphan :: orphans =>
    if recordings.any fun recording => recording.meetingId = isolatedId orphan then
      isolateOrphans recordings orphans
    else isolateOrphans (recordings ++ [createIsolatedRecoveryRecording runtime orphan]) orphans

/-- The broken record and the one orphan it may get: there is one candidate, and one orphan eligible for it. -/
def soleMatch (recordings : List PendingRecording) (probes : List (Truthy × RecordingFileProbe))
    (rootOrphans : List RootOrphanRecording) : Option (PendingRecording × RootOrphanRecording) :=
  match recordings.filter (isRecoveryCandidate probes) with
  | [candidate] =>
    match rootOrphans.filter (isEligible runtime probes candidate) with
    | [orphan] => some (candidate, orphan)
    | _ => none
  | _ => none

def reconcileRootOrphans (recordings : List PendingRecording) (probes : List (Truthy × RecordingFileProbe))
    (rootOrphans : List RootOrphanRecording) : List PendingRecording :=
  match soleMatch runtime recordings probes rootOrphans with
  | some (candidate, orphan) =>
    isolateOrphans runtime
      (recordings.map fun recording =>
        if isRecoveryCandidate probes recording then recoveredRecording runtime candidate orphan.uri else recording)
      (rootOrphans.filter fun other => !isEligible runtime probes candidate other)
  | none => isolateOrphans runtime recordings rootOrphans

end Journals

/-! ### A text for the lists of records -/

/-- The number of the list, in ones, and a closing bracket. -/
def unaryText (n : ℕ) : Contents := List.replicate n '1' ++ [']']

theorem unaryText_take {n k : ℕ} (hk : k < (unaryText n).length) :
    (unaryText n).take k ≠ unaryText (((unaryText n).take k).length - 1) := by
  have hbracket : ']' ∉ (unaryText n).take k := by
    have hk' : k ≤ (List.replicate n '1').length := by
      simp [unaryText] at hk ⊢
      omega
    unfold unaryText
    rw [List.take_append_of_le_length hk']
    intro hmem
    have heq := List.eq_of_mem_replicate (List.mem_of_mem_take hmem)
    exact absurd heq (by decide)
  intro heq
  rw [heq] at hbracket
  exact hbracket (by simp [unaryText])

def unaryCodec (T : Type) [Encodable T] : IndexCodec T where
  stringify := fun records => unaryText (Encodable.encode records)
  parseIndex := fun contents =>
    if contents = unaryText (contents.length - 1) then Encodable.decode (contents.length - 1) else none
  parse_stringify := by
    intro records
    simp [unaryText]
  parse_take := by
    intro records k hk
    rw [if_neg (unaryText_take hk)]

instance encodableChar : Encodable Char := Encodable.ofLeftInverse Char.toNat Char.ofNat fun c => by simp

/-- The fields of a record. -/
def PendingRecording.fields (recording : PendingRecording) :=
  (recording.meetingId, recording.uri, recording.createdAt, recording.updatedAt, recording.userId,
    recording.activeRecording, recording.localRecoveryOnly, recording.finalizedAt, recording.nextRetryAt,
    recording.localDeletionPendingAt, recording.localDeletionCompletedAt, recording.recoverySourceUris)

instance : Encodable PendingRecording :=
  Encodable.ofLeftInverse PendingRecording.fields
    (fun ⟨meetingId, uri, createdAt, updatedAt, userId, activeRecording, localRecoveryOnly, finalizedAt,
        nextRetryAt, localDeletionPendingAt, localDeletionCompletedAt, recoverySourceUris⟩ =>
      ⟨meetingId, uri, createdAt, updatedAt, userId, activeRecording, localRecoveryOnly, finalizedAt,
        nextRetryAt, localDeletionPendingAt, localDeletionCompletedAt, recoverySourceUris⟩)
    fun _ => rfl

end OwnMinutes.Mobile.RecordingStore
