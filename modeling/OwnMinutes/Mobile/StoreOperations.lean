import OwnMinutes.Mobile.RecordingStore

/-! # The operations of the recording store

`loadPendingRecordings`, `upsertPendingRecording`, `removePendingRecording` and the three deletions of
`recording-store.ts` as computations on a device. A load scans the device (`scanRecordings`) and then commits
what it found (`finishLoad`). The calls run one after the other. -/

namespace OwnMinutes.Mobile.StoreOperations

open OwnMinutes.Lib.Faults OwnMinutes.Lib.Faults.Faulty OwnMinutes.Lib.Keyed
open OwnMinutes.Mobile.RecordingIndex OwnMinutes.Mobile.RecordingPaths OwnMinutes.Mobile.RecordingStore

variable {α : Type}

/-! ### The secure store -/

def getItem (get : Device → α) : Faulty Device α := step (fun _ d => d) fun d => some (get d, d)

/-- A write of the secure store is done or not, and may be reported as failed though it is done. -/
def setItem (set : Device → Device) : Faulty Device Unit :=
  step (fun k d => if k = 0 then d else set d) fun d => some ((), set d)

def quietly (x : Faulty Device Unit) : Faulty Device Unit := attempt x (return ())

section Journals

variable (runtime : Runtime)

def readLocalDeletionJournal : Faulty Device (List LocalDeletionJournalEntry) := do
  match ← getItem (·.deletionJournal) with
  | .absent => return []
  | .damaged => fail
  | .text entries => return pruneLocalDeletionJournal runtime entries

def writeLocalDeletionJournal (entries : List LocalDeletionJournalEntry) : Faulty Device Unit :=
  setItem fun d => { d with deletionJournal := .text (pruneLocalDeletionJournal runtime entries) }

def readRealtimeSessionJournal : Faulty Device (List PendingRealtimeSession) := do
  match ← getItem (·.realtimeJournal) with
  | .absent => return []
  | .damaged => fail
  | .text entries => return entries

def clearRealtimeQuarantine : Faulty Device Unit := setItem fun d => { d with realtimeQuarantine := false }

def deleteRealtimeJournal : Faulty Device Unit := setItem fun d => { d with realtimeJournal := .absent }

def quarantineRealtimeSessionJournal : Faulty Device Unit := do
  let quarantined ← attempt
    (do
      setItem fun d => { d with realtimeQuarantine := true }
      return true)
    (return false)
  if quarantined then quietly deleteRealtimeJournal

def readRealtimeSessionJournalForRecovery : Faulty Device (List PendingRealtimeSession) := do
  let stored ← attempt
    (do
      let stored ← getItem (·.realtimeJournal)
      return some stored)
    (return none)
  match stored with
  | some (.text entries) =>
    quietly clearRealtimeQuarantine
    return entries
  | some .damaged =>
    quarantineRealtimeSessionJournal
    return []
  | some .absent => return []
  | none => return []

def writeRealtimeSessionJournal (entries : List PendingRealtimeSession) : Faulty Device Unit := do
  if entries = [] then
    deleteRealtimeJournal
  else
    setItem fun d => { d with realtimeJournal := .text entries }
    quietly clearRealtimeQuarantine

def pruneStoredRealtimeSessionsForLocalDeletions (deletionJournal : List LocalDeletionJournalEntry)
    (recordings : List PendingRecording) : Faulty Device Unit := do
  let journal ← readRealtimeSessionJournal
  let next := pruneRealtimeSessionJournalForLocalDeletions journal deletionJournal recordings
  if next.length ≠ journal.length then
    writeRealtimeSessionJournal next

def readLegacyRecording : Faulty Device (Option PendingRecording) := do
  let stored ← getItem (·.legacy)
  return readLegacy runtime stored

def deleteLegacyRecording : Faulty Device Unit := setItem fun d => { d with legacy := .absent }

end Journals

section Store

variable (J : IndexCodec PendingRecording) (runtime : Runtime)

/-! ### The index files -/

def onIndex (x : Faulty IndexFiles α) : Faulty Device α :=
  zoom Device.index (fun d index => { d with index := index }) x

def ensureRecordingDirectory : Faulty Device Unit :=
  match runtime.documentDirectory with
  | none => fail
  | some _ => getItem fun _ => ()

def readIndexFile : Faulty Device (AtomicIndexReadResult PendingRecording) := do
  ensureRecordingDirectory runtime
  onIndex (readAtomicArrayIndex J)

def writeIndexFile (recordings : List PendingRecording) : Faulty Device Unit := do
  ensureRecordingDirectory runtime
  onIndex (writeAtomicArrayIndex J recordings)

/-! ### The audio files -/

def probeRecordingFile (uri : Truthy) : Faulty Device (Option FileInfo) := getItem fun d => d.fileInfo uri

/-- A probe, or nothing where it fails. -/
def probeQuietly (uri : Truthy) : Faulty Device (Option (Option FileInfo)) :=
  attempt
    (do
      let found ← probeRecordingFile uri
      return some found)
    (return none)

def Device.withoutFile (d : Device) (uri : Truthy) : Device :=
  { d with files := d.files.removeWhere fun file => file.uri = uri }

def deleteFile (uri : Truthy) : Faulty Device Unit := setItem fun d => Device.withoutFile d uri

def deleteRecordingFile (uri : Truthy) : Faulty Device Unit :=
  if isControlledRecordingUri runtime.documentDirectory uri.1 then deleteFile uri else fail

def deleteLocalRecordingCandidates (recording : PendingRecording) (allRecordings : List PendingRecording) :
    Faulty Device Unit := do
  let _ ← forEach (deleteRecordingFile runtime)
    ((recordingCandidateUris runtime recording).filter fun uri => !isOccupied runtime recording allRecordings uri)
  return ()

/-- The record after its files were deleted. -/
def completedTombstone (recording : PendingRecording) : PendingRecording :=
  { recording with localDeletionCompletedAt := some runtime.nowText, updatedAt := runtime.nowText }

/-- One round of `retryLocalDeletionPendingRecordings`: the record to retain, if any. -/
def retryLocalDeletion (allRecordings : List PendingRecording) (recording : PendingRecording) :
    Faulty Device (Option PendingRecording) :=
  if recording.localDeletionPendingAt.isNone then return some recording
  else
    match dateOf runtime recording.localDeletionCompletedAt with
    | some completedAt => return if isRetained runtime completedAt then some recording else none
    | none =>
      attempt
        (do
          deleteLocalRecordingCandidates runtime recording allRecordings
          return some (completedTombstone runtime recording))
        (return some recording)

def retryLocalDeletionPendingRecordings (recordings : List PendingRecording) :
    Faulty Device (List PendingRecording) := do
  let retained ← forEach (retryLocalDeletion runtime recordings) recordings
  return retained.filterMap id

/-! ### The load -/

def relocateRecording (recordings : List PendingRecording) (recording : PendingRecording) :
    Faulty Device (PendingRecording × Bool) :=
  match relocationOf runtime recording with
  | none => return (recording, false)
  | some destination => do
    if mayRelocate runtime recordings recording destination then
      match ← probeQuietly recording.uri with
      | some none =>
        match ← probeQuietly destination with
        | some destinationInfo =>
          if acceptsDestination runtime recording destination destinationInfo then
            return (relocatedRecording recording destination, true)
          else return (recording, false)
        | none => return (recording, false)
      | _ => return (recording, false)
    else return (recording, false)

def relocateManagedRecordingUris (recordings : List PendingRecording) :
    Faulty Device (List (PendingRecording × Bool)) :=
  forEach (relocateRecording runtime recordings) recordings

def probeIndexedRecording (recording : PendingRecording) : Faulty Device (Truthy × RecordingFileProbe) := do
  match ← probeQuietly recording.uri with
  | some found => return (recording.meetingId, ⟨true, found⟩)
  | none => return (recording.meetingId, ⟨false, none⟩)

def probeRootOrphanCandidate (uri : Truthy) : Faulty Device (Option RootOrphanRecording) := do
  match ← probeQuietly uri with
  | some (some info) =>
    return if info.isDirectory || info.size = 0 then none else some ⟨uri, info.size, info.modificationTimeMs⟩
  | _ => return none

def scanDirectory (knownUris : List Truthy) (directory : Truthy) (pattern : Text → Bool) :
    Faulty Device (List RootOrphanRecording) := do
  let entries ← attempt (getItem fun d => namesIn d.files directory) (return [])
  let candidates := ((entries.filter pattern).map directory.append).filter fun uri => !knownUris.contains uri
  let results ← forEach probeRootOrphanCandidate candidates
  return results.filterMap id

def scanRootOrphanRecordings (knownUris : List Truthy) : Faulty Device (List RootOrphanRecording) :=
  match runtime.documentDirectory with
  | none => return []
  | some documentDirectory => do
    let atRoot ← scanDirectory knownUris documentDirectory isOrphanRecordingName
    let inExpoAudio ← scanDirectory knownUris (expoAudioDirectory documentDirectory) isOrphanRecordingName
    let managed ← scanDirectory knownUris (recordingDirectory documentDirectory) isManagedRecordingName
    return (atRoot ++ inExpoAudio ++ managed).insertionSort fun left right => orphanBefore runtime left right

/-- What a load has found when it starts to commit. -/
structure LoadScan where
  deletionJournal : List LocalDeletionJournalEntry
  realtimeJournal : List PendingRealtimeSession
  source : IndexSource
  relocated : List PendingRecording
  deletionTombstones : List PendingRecording
  probes : List (Truthy × RecordingFileProbe)
  orphans : List RootOrphanRecording

/-- The records of the index and the legacy one, with those of the realtime journal, under the deletion
journal. -/
def mergedRecordings (durableIndexRecords : List PendingRecording) (realtimeJournal : List PendingRealtimeSession)
    (deletionJournal : List LocalDeletionJournalEntry) : List PendingRecording :=
  applyLocalDeletionJournal deletionJournal
    (mergePendingRealtimeSessions (durableIndexRecords.map quarantineOwnerlessRecording) realtimeJournal)

def durableRecordings (index : List PendingRecording) (legacy : Option PendingRecording) : List PendingRecording :=
  match legacy with
  | some legacy => upsertInMemory index legacy
  | none => index

def commitPrunedJournal (stored pruned : List PendingRealtimeSession) : Faulty Device Unit :=
  if pruned.length ≠ stored.length then quietly (writeRealtimeSessionJournal pruned) else return ()

/-- The files of deleted recordings are left alone while the index is unrecoverable. -/
def cleanUpDeletions (source : IndexSource) (merged : List PendingRecording) :
    Faulty Device (List PendingRecording) :=
  if source = .unrecoverable then return merged else retryLocalDeletionPendingRecordings runtime merged

/-- Path repairs are committed before any later probe. -/
def commitRelocation (relocation : List (PendingRecording × Bool)) (deletionTombstones : List PendingRecording) :
    Faulty Device Unit :=
  if relocation.any Prod.snd then
    writeIndexFile J runtime (newestFirst runtime (relocation.map Prod.fst ++ deletionTombstones))
  else return ()

def scanCleaned (deletionJournal : List LocalDeletionJournalEntry) (realtimeJournal : List PendingRealtimeSession)
    (source : IndexSource) (cleaned : List PendingRecording) : Faulty Device LoadScan := do
  let deletionTombstones := cleaned.filter fun recording => recording.localDeletionPendingAt.isSome
  let relocation ← relocateManagedRecordingUris runtime (visiblePendingRecordings cleaned)
  commitRelocation J runtime relocation deletionTombstones
  let relocated := relocation.map Prod.fst
  let probes ← forEach probeIndexedRecording relocated
  let orphans ← scanRootOrphanRecordings runtime (collectKnownRecordingUris
    ((relocated ++ deletionTombstones).filter fun recording => !isRealtimeJournalPlaceholder recording.uri.1))
  return ⟨deletionJournal, realtimeJournal, source, relocated, deletionTombstones, probes, orphans⟩

def scanDurable (deletionJournal : List LocalDeletionJournalEntry) (storedJournal : List PendingRealtimeSession)
    (source : IndexSource) (durableIndexRecords : List PendingRecording) : Faulty Device LoadScan := do
  let realtimeJournal :=
    pruneRealtimeSessionJournalForLocalDeletions storedJournal deletionJournal durableIndexRecords
  commitPrunedJournal storedJournal realtimeJournal
  let cleaned ← cleanUpDeletions runtime source
    (mergedRecordings durableIndexRecords realtimeJournal deletionJournal)
  scanCleaned J runtime deletionJournal realtimeJournal source cleaned

def scanRecordings : Faulty Device LoadScan := do
  let deletionJournal ← readLocalDeletionJournal runtime
  let storedJournal ← readRealtimeSessionJournalForRecovery
  let index ← readIndexFile J runtime
  let legacy ← readLegacyRecording runtime
  scanDurable J runtime deletionJournal storedJournal index.source (durableRecordings index.records legacy)

/-- What a load answers, with the deletion records that it commits beside it. -/
structure LoadedRecordings where
  recordings : List PendingRecording
  allDeletionRecords : List PendingRecording

def shownRecordings (recordings : List PendingRecording) : List PendingRecording :=
  newestFirst runtime
    ((visiblePendingRecordings recordings).filter fun recording => !isRealtimeJournalPlaceholder recording.uri.1)

def finishLoad (scan : LoadScan) : Faulty Device LoadedRecordings := do
  let reconciled := applyLocalDeletionJournal scan.deletionJournal
    (reconcileRootOrphans runtime scan.relocated scan.probes scan.orphans)
  if scan.source = .unrecoverable then
    let recordings := shownRecordings runtime reconciled
    quietly (writeRealtimeSessionJournal
      (attachRecoveredRealtimeSessionUris runtime scan.realtimeJournal recordings))
    return ⟨recordings, []⟩
  else
    let cleaned ← retryLocalDeletionPendingRecordings runtime reconciled
    let recordings := shownRecordings runtime cleaned
    let allDeletionRecords := scan.deletionTombstones ++
      cleaned.filter fun recording => recording.localDeletionPendingAt.isSome
    writeIndexFile J runtime (newestFirst runtime (recordings ++ allDeletionRecords))
    quietly (writeRealtimeSessionJournal
      (attachRecoveredRealtimeSessionUris runtime scan.realtimeJournal recordings))
    quietly (writeLocalDeletionJournal runtime
      (completeResolvedLocalDeletionIntents runtime scan.deletionJournal allDeletionRecords))
    deleteLegacyRecording
    return ⟨recordings, allDeletionRecords⟩

def loadRecordings : Faulty Device LoadedRecordings := do
  let scan ← scanRecordings J runtime
  finishLoad J runtime scan

def loadPendingRecordings : Faulty Device (List PendingRecording) := do
  let loaded ← loadRecordings J runtime
  return loaded.recordings

/-! ### Changes of one record -/

/-- The properties given to an upsert: an absent one keeps what the record has. -/
structure RecordingChange where
  meetingId : Truthy
  uri : Truthy
  createdAt : Truthy
  updatedAt : Option Truthy := none
  userId : Option Truthy := none
  activeRecording : Option Bool := none
  localRecoveryOnly : Option Bool := none
  finalizedAt : Option (Option Truthy) := none
  nextRetryAt : Option (Option Truthy) := none
  localDeletionPendingAt : Option (Option Truthy) := none
  localDeletionCompletedAt : Option (Option Truthy) := none
  recoverySourceUris : Option (List Truthy) := none

/-- `{ ...existing, ...recording, createdAt, title, userId, updatedAt }` -/
def RecordingChange.apply (change : RecordingChange) (existing : Option PendingRecording) : PendingRecording :=
  { meetingId := change.meetingId
    uri := change.uri
    createdAt := (existing.map (·.createdAt)).getD change.createdAt
    updatedAt := change.updatedAt.getD runtime.nowText
    userId := change.userId.or (existing.bind (·.userId))
    activeRecording := change.activeRecording.getD ((existing.map (·.activeRecording)).getD false)
    localRecoveryOnly := change.localRecoveryOnly.getD ((existing.map (·.localRecoveryOnly)).getD false)
    finalizedAt := change.finalizedAt.getD (existing.bind (·.finalizedAt))
    nextRetryAt := change.nextRetryAt.getD (existing.bind (·.nextRetryAt))
    localDeletionPendingAt := change.localDeletionPendingAt.getD (existing.bind (·.localDeletionPendingAt))
    localDeletionCompletedAt := change.localDeletionCompletedAt.getD (existing.bind (·.localDeletionCompletedAt))
    recoverySourceUris := change.recoverySourceUris.getD ((existing.map (·.recoverySourceUris)).getD []) }

def upsertedRecording (change : RecordingChange) (existing : Option PendingRecording) : PendingRecording :=
  let next := quarantineOwnerlessRecording (change.apply runtime existing)
  if next.localRecoveryOnly then { next with activeRecording := true } else next

/-- The index is read, and an unrecoverable one stops the operation. -/
def readIndexOrFail : Faulty Device (List PendingRecording) := do
  let index ← readIndexFile J runtime
  if index.source = .unrecoverable then
    fail
  else
    return index.records

def existingRecord (records : List PendingRecording) (meetingId : Truthy) : Option PendingRecording :=
  records.find? fun item => item.meetingId = meetingId

/-- Ownerless audio is not given to a user, and a deleted recording does not come back. -/
def refusesUpsert (deletionJournal : List LocalDeletionJournalEntry) (change : RecordingChange)
    (existing : Option PendingRecording) : Bool :=
  (match existing with
    | some existing =>
      existing.userId.isNone && change.userId.isSome || existing.localDeletionPendingAt.isSome ||
        (localDeletionIntentForRecording deletionJournal existing.meetingId existing.userId).isSome
    | none => false) ||
  (localDeletionIntentForRecording deletionJournal change.meetingId change.userId).isSome

def upsertPendingRecording (change : RecordingChange) : Faulty Device (List PendingRecording) := do
  let deletionJournal ← readLocalDeletionJournal runtime
  let records ← readIndexOrFail J runtime
  let existing := existingRecord records change.meetingId
  if refusesUpsert deletionJournal change existing then
    return visiblePendingRecordings (applyLocalDeletionJournal deletionJournal records)
  else
    let recordings := newestFirst runtime (upsertInMemory records (upsertedRecording runtime change existing))
    writeIndexFile J runtime recordings
    return visiblePendingRecordings (applyLocalDeletionJournal deletionJournal recordings)

def removePendingRecording (meetingId : Truthy) : Faulty Device (List PendingRecording) := do
  let deletionJournal ← readLocalDeletionJournal runtime
  let records ← readIndexOrFail J runtime
  let next := records.filter fun recording =>
    recording.meetingId ≠ meetingId || recording.localDeletionPendingAt.isSome
  writeIndexFile J runtime next
  return visiblePendingRecordings (applyLocalDeletionJournal deletionJournal next)

/-! ### Deletions -/

structure DeletionAnswer where
  cleaned : Bool
  pending : Bool
  recordings : List PendingRecording

/-- The record under a durable mark, before its files are touched. -/
def markedForDeletion (recording : PendingRecording) : PendingRecording :=
  { recording with
    activeRecording := false
    localDeletionPendingAt := some (recording.localDeletionPendingAt.getD runtime.nowText)
    nextRetryAt := none
    updatedAt := runtime.nowText }

def unfinishedDeletion (markedRecordings : List PendingRecording) : DeletionAnswer :=
  ⟨false, true, visiblePendingRecordings markedRecordings⟩

def deleteLocalRecordingFromDevice (expectedUserId : Option Truthy) (meetingId uri : Truthy) :
    Faulty Device DeletionAnswer := do
  let deletionJournal ← readLocalDeletionJournal runtime
  let records ← readIndexOrFail J runtime
  match existingRecord records meetingId with
  | none => return ⟨true, false, visiblePendingRecordings (applyLocalDeletionJournal deletionJournal records)⟩
  | some existing =>
    if existing.userId = expectedUserId && existing.localRecoveryOnly = expectedUserId.isNone &&
        existing.uri = uri then
      let marked := markedForDeletion runtime existing
      let markedRecordings := newestFirst runtime (upsertInMemory records marked)
      writeIndexFile J runtime markedRecordings
      quietly (pruneStoredRealtimeSessionsForLocalDeletions deletionJournal markedRecordings)
      let deleted ← attempt
        (do
          deleteLocalRecordingCandidates runtime marked markedRecordings
          return true)
        (return false)
      if deleted then
        let completedRecords := newestFirst runtime
          (upsertInMemory markedRecordings (completedTombstone runtime marked))
        attempt
          (do
            writeIndexFile J runtime completedRecords
            return ⟨true, false,
              visiblePendingRecordings (applyLocalDeletionJournal deletionJournal completedRecords)⟩)
          (return unfinishedDeletion markedRecordings)
      else
        return unfinishedDeletion markedRecordings
    else fail

def writesCompletedJournal (entries : List LocalDeletionJournalEntry) : Faulty Device Bool :=
  attempt
    (do
      writeLocalDeletionJournal runtime entries
      return true)
    (return false)

def deletePendingRecordingAfterRemoteDelete (meetingId : Truthy) (userId : Option Truthy) :
    Faulty Device DeletionAnswer := do
  let stored ← readLocalDeletionJournal runtime
  let deletionJournal := upsertMeetingDeletionIntent runtime meetingId userId stored
  writeLocalDeletionJournal runtime deletionJournal
  quietly (pruneStoredRealtimeSessionsForLocalDeletions deletionJournal [])
  let records ← readIndexOrFail J runtime
  match existingRecord records meetingId with
  | none =>
    let completed := completeResolvedLocalDeletionIntents runtime deletionJournal records
    quietly (writeLocalDeletionJournal runtime completed)
    return ⟨true, false, visiblePendingRecordings (applyLocalDeletionJournal completed records)⟩
  | some existing =>
    if userId.isSome && existing.userId ≠ userId then
      return ⟨false, false, visiblePendingRecordings
        (applyLocalDeletionJournal deletionJournal (records.map quarantineOwnerlessRecording))⟩
    else
      let marked := markedForDeletion runtime existing
      let markedRecordings := newestFirst runtime (upsertInMemory records marked)
      writeIndexFile J runtime markedRecordings
      let deleted ← attempt
        (do
          deleteLocalRecordingCandidates runtime marked markedRecordings
          return true)
        (return false)
      if deleted then
        let completedRecords := newestFirst runtime
          (upsertInMemory markedRecordings (completedTombstone runtime marked))
        attempt
          (do
            writeIndexFile J runtime completedRecords
            let completed := completeResolvedLocalDeletionIntents runtime deletionJournal completedRecords
            let journalCompleted ← writesCompletedJournal runtime completed
            return ⟨journalCompleted, !journalCompleted,
              visiblePendingRecordings (applyLocalDeletionJournal completed completedRecords)⟩)
          (return unfinishedDeletion markedRecordings)
      else
        return unfinishedDeletion markedRecordings

structure AccountDeletionAnswer where
  pendingCount : ℕ
  recordings : List PendingRecording

/-- One round of the deletion of an account: the record's tombstone, and whether its files are gone. -/
def deleteOwned (fencedRecords : List PendingRecording) (recording : PendingRecording) :
    Faulty Device (PendingRecording × Bool) :=
  attempt
    (do
      deleteLocalRecordingCandidates runtime recording fencedRecords
      return (completedTombstone runtime recording, true))
    (return (recording, false))

def deleteLocalRecordingsForUser (userId : Truthy) : Faulty Device AccountDeletionAnswer := do
  let stored ← readLocalDeletionJournal runtime
  let deletionJournal := upsertAccountDeletionIntent runtime userId stored
  writeLocalDeletionJournal runtime deletionJournal
  quietly (pruneStoredRealtimeSessionsForLocalDeletions deletionJournal [])
  let records ← readIndexOrFail J runtime
  let legacy ← readLegacyRecording runtime
  let allRecords := (durableRecordings records legacy).map quarantineOwnerlessRecording
  let remaining := allRecords.filter fun recording => recording.userId ≠ some userId
  let markedOwned := (allRecords.filter fun recording => recording.userId = some userId).map
    (markedForDeletion runtime)
  let fencedRecords := remaining ++ markedOwned
  writeIndexFile J runtime fencedRecords
  let deletions ← forEach (deleteOwned runtime fencedRecords) markedOwned
  let tombstones := deletions.map Prod.fst
  writeIndexFile J runtime (remaining ++ tombstones)
  let completed := completeResolvedLocalDeletionIntents runtime deletionJournal (remaining ++ tombstones)
  let journalCompleted ← writesCompletedJournal runtime completed
  deleteLegacyRecording
  return ⟨deletions.countP (fun deletion => !deletion.2) + (if journalCompleted then 0 else 1),
    visiblePendingRecordings (applyLocalDeletionJournal completed remaining)⟩

end Store

end OwnMinutes.Mobile.StoreOperations
