import OwnMinutes.Mobile.IndexDurability
import OwnMinutes.Mobile.StoreOperations

/-! # An unreadable index is left alone

While no index file can be read, the operations of the store stop, and a load shows what the journal and the
legacy record have. One step of a load still writes: a record that moved to another place of the documents
directory is committed before the source of the index is looked at (`commitRelocation`). So an unreadable index
is kept exactly where no record moves (`KeepsPlaces`). -/

namespace OwnMinutes.Mobile.DamagedIndex

open OwnMinutes.Lib.Faults OwnMinutes.Lib.Faults.Faulty
open OwnMinutes.Mobile.RecordingIndex OwnMinutes.Mobile.RecordingPaths OwnMinutes.Mobile.RecordingStore
open OwnMinutes.Mobile.IndexDurability OwnMinutes.Mobile.StoreOperations

/-! ### Operations -/

inductive StoreOperation
  | load
  | upsert (change : RecordingChange)
  | remove (meetingId : Truthy)
  | deleteFromDevice (expectedUserId : Option Truthy) (meetingId uri : Truthy)
  | deleteAfterRemoteDelete (meetingId : Truthy) (userId : Option Truthy)
  | deleteForUser (userId : Truthy)

section Statement

variable (J : IndexCodec PendingRecording) (runtime : Runtime)

def StoreOperation.perform : StoreOperation → Faulty Device Unit
  | .load => do
    let _ ← loadPendingRecordings J runtime
    return ()
  | .upsert change => do
    let _ ← upsertPendingRecording J runtime change
    return ()
  | .remove meetingId => do
    let _ ← removePendingRecording J runtime meetingId
    return ()
  | .deleteFromDevice expectedUserId meetingId uri => do
    let _ ← deleteLocalRecordingFromDevice J runtime expectedUserId meetingId uri
    return ()
  | .deleteAfterRemoteDelete meetingId userId => do
    let _ ← deletePendingRecordingAfterRemoteDelete J runtime meetingId userId
    return ()
  | .deleteForUser userId => do
    let _ ← deleteLocalRecordingsForUser J runtime userId
    return ()

/-- `readAtomicArrayIndex` answers `unrecoverable`. -/
def AnswersUnrecoverable (index : IndexFiles) : Prop :=
  Ends (readAtomicArrayIndex J) [] index (fun result _ _ => result.source = .unrecoverable) (fun _ _ => False)
    fun _ => False

/-- The index files and the audio files are as they were. -/
structure Untouched (d t : Device) : Prop where
  index : t.index = d.index
  files : t.files = d.files

/-- Wherever the operation returns, fails or stops, it has left the index files and the audio files alone. -/
def LeavesRecordings (operation : StoreOperation) (d : Device) : Prop :=
  ∀ faults, Ends (operation.perform J runtime) faults d (fun _ _ t => Untouched d t) (fun _ t => Untouched d t)
    (Untouched d)

/-- The deletion journal, where it can be read. -/
def storedDeletions (d : Device) : Option (List LocalDeletionJournalEntry) :=
  match d.deletionJournal with
  | .absent => some []
  | .damaged => none
  | .text entries => some (pruneLocalDeletionJournal runtime entries)

def storedSessions (d : Device) : List PendingRealtimeSession :=
  match d.realtimeJournal with
  | .text entries => entries
  | .absent => []
  | .damaged => []

/-- The records of the legacy record and a realtime journal. -/
def recordsWithoutIndex (d : Device) (deletions : List LocalDeletionJournalEntry)
    (sessions : List PendingRealtimeSession) : List PendingRecording :=
  let durable := durableRecordings [] (readLegacy runtime d.legacy)
  visiblePendingRecordings
    (mergedRecordings durable (pruneRealtimeSessionJournalForLocalDeletions sessions deletions durable) deletions)

/-- The record's file is gone, and one that can be it is at the present place of its name. -/
def Moves (d : Device) (recordings : List PendingRecording) (recording : PendingRecording) : Prop :=
  ∃ destination, relocationOf runtime recording = some destination ∧
    mayRelocate runtime recordings recording destination = true ∧ d.fileInfo recording.uri = none ∧
    acceptsDestination runtime recording destination (d.fileInfo destination) = true

/-- No record moves: none of the legacy record and the realtime journal, and none of the legacy record alone,
which is all that a load has when the journal cannot be read. -/
def KeepsPlaces (d : Device) : Prop :=
  ∀ deletions, storedDeletions runtime d = some deletions →
    ∀ sessions, sessions = storedSessions d ∨ sessions = [] →
      ∀ recording ∈ recordsWithoutIndex runtime d deletions sessions,
        ¬Moves runtime d (recordsWithoutIndex runtime d deletions sessions) recording

end Statement

variable {J : IndexCodec PendingRecording} {runtime : Runtime} {faults : List Fault} {α : Type}

/-! ### Reading an index that is not there -/

section Read

variable {index : IndexFiles} {path : IndexPath}

/-- No index file can be read, and there is one. -/
structure Unreadable (J : IndexCodec PendingRecording) (index : IndexFiles) : Prop where
  none_reads : ∀ path, indexAt J index path = none
  some_exists : ∃ path, (index path).isSome

theorem ends_candidate_none {source : IndexSource} (hnone : indexAt J index path = none) :
    Ends (readCandidate J path source) faults index (fun found _ t => found = none ∧ t = index)
      (fun _ t => t = index) fun t => t = index := by
  unfold readCandidate
  rw [ends_bind]
  refine ends_fileExists rfl fun rest => ?_
  cases hfile : index path with
  | none => exact ⟨rfl, rfl⟩
  | some contents =>
    have hparse : J.parseIndex contents = none := by simpa [indexAt, hfile] using hnone
    rw [Option.isSome_some, if_pos rfl, ends_attempt, ends_bind]
    refine (ends_read (I := (· = index)) rfl fun found hfound rest => ?_).mono (fun _ _ _ h => h) ?_ fun _ h => h
    · cases hfile.symm.trans hfound
      exact ⟨by rw [hparse]; rfl, rfl⟩
    · intro rest t ht
      exact ⟨rfl, ht⟩

theorem ends_anyExists_some {paths : List IndexPath} (h : ∃ path ∈ paths, (index path).isSome) :
    Ends (anyExists paths) faults index (fun found _ t => found = true ∧ t = index) (fun _ t => t = index)
      fun t => t = index := by
  induction paths generalizing faults with
  | nil =>
    obtain ⟨path, hpath, -⟩ := h
    cases hpath
  | cons path paths ih =>
    unfold anyExists
    rw [ends_bind]
    refine ends_fileExists rfl fun rest => ?_
    split_ifs with hpath
    · exact ⟨rfl, rfl⟩
    · obtain ⟨other, hmem, hother⟩ := h
      rcases List.mem_cons.mp hmem with rfl | hmem
      · exact absurd hother hpath
      · exact ih ⟨other, hmem, hother⟩

theorem ends_read_unreadable (h : Unreadable J index) :
    Ends (readAtomicArrayIndex J) faults index (fun result _ t => result = ⟨[], .unrecoverable⟩ ∧ t = index)
      (fun _ t => t = index) fun t => t = index := by
  have hexists : ∃ path ∈ [IndexPath.primary, .temporary, .backupTemporary, .backup], (index path).isSome := by
    obtain ⟨path, hpath⟩ := h.some_exists
    exact ⟨path, by cases path <;> simp, hpath⟩
  unfold readAtomicArrayIndex
  rw [ends_bind]
  refine (ends_candidate_none (h.none_reads _)).mono ?_ (fun _ _ h => h) fun _ h => h
  rintro _ _ _ ⟨rfl, rfl⟩
  rw [ends_bind]
  refine (ends_candidate_none (h.none_reads _)).mono ?_ (fun _ _ h => h) fun _ h => h
  rintro _ _ _ ⟨rfl, rfl⟩
  rw [ends_bind]
  refine (ends_candidate_none (h.none_reads _)).mono ?_ (fun _ _ h => h) fun _ h => h
  rintro _ _ _ ⟨rfl, rfl⟩
  rw [ends_bind]
  refine (ends_candidate_none (h.none_reads _)).mono ?_ (fun _ _ h => h) fun _ h => h
  rintro _ _ _ ⟨rfl, rfl⟩
  change Ends (anyExists _ >>= fun found => pure _) _ _ _ _ _
  rw [ends_bind]
  refine (ends_anyExists_some hexists).mono ?_ (fun _ _ h => h) fun _ h => h
  rintro _ _ _ ⟨rfl, rfl⟩
  exact ⟨rfl, rfl⟩

/-- Without a fault, a probe finds the index of its file. -/
theorem run_readCandidate {source : IndexSource} : readCandidate J path source [] index =
    (.returned ((indexAt J index path).map fun records => ⟨path, records, source⟩), [], index) := by
  have hexists : fileExists path [] index = (.returned (index path).isSome, [], index) := rfl
  unfold readCandidate
  rw [run_bind hexists]
  cases hfile : index path with
  | none =>
    have hnone : indexAt J index path = none := by simp [indexAt, hfile]
    rw [hnone]
    rfl
  | some contents =>
    have hread : Lib.Faults.read path [] index = (.returned contents, [], index) := by
      simp [Lib.Faults.read, step, hfile]
    have hparse : indexAt J index path = J.parseIndex contents := by simp [indexAt, hfile]
    rw [hparse, Option.isSome_some, if_pos rfl]
    exact run_attempt (run_bind hread)

theorem ends_read_answer : Ends (readAtomicArrayIndex J) [] index
    (fun result _ _ => result.source = .unrecoverable → Unreadable J index) (fun _ _ => True) fun _ => True := by
  unfold readAtomicArrayIndex
  rw [ends_bind]
  refine ends_of_run run_readCandidate ?_
  cases hprimary : indexAt J index .primary with
  | some records =>
    rw [Option.map_some, ends_bind]
    refine ends_true.mono (fun _ _ _ _ => ?_) (fun _ _ _ => trivial) fun _ _ => trivial
    rw [ends_bind]
    refine ends_true.mono (fun _ _ _ _ => ?_) (fun _ _ _ => trivial) fun _ _ => trivial
    intro hsource
    cases hsource
  | none =>
    rw [Option.map_none, ends_bind]
    refine ends_of_run run_readCandidate ?_
    rw [ends_bind]
    refine ends_of_run run_readCandidate ?_
    rw [ends_bind]
    refine ends_of_run run_readCandidate ?_
    split
    next candidate hfound =>
      have hrecovery : recovery J index = some candidate := hfound
      have hsource := (recovery_found hrecovery).2.2.2
      rw [ends_bind]
      refine ends_true.mono (fun _ _ _ _ => ?_) (fun _ _ _ => trivial) fun _ _ => trivial
      intro h
      exact absurd h hsource
    next hfound =>
      have hrecovery : recovery J index = none := hfound
      have hnone := no_recovery hprimary hrecovery
      have hreads : ∀ path, indexAt J index path = none := by
        intro path
        by_contra hpath
        exact hnone ⟨path, Option.isSome_iff_ne_none.mpr hpath⟩
      by_cases hexists : ∃ path, (index path).isSome
      · exact ends_true.mono (fun _ _ _ _ _ => ⟨hreads, hexists⟩) (fun _ _ _ => trivial) fun _ _ => trivial
      · have habsent : ∀ path, index path = none := by
          intro path
          by_contra hpath
          exact hexists ⟨path, Option.isSome_iff_ne_none.mpr hpath⟩
        have hrun : ∀ paths, anyExists paths [] index = (.returned false, [], index) := by
          intro paths
          induction paths with
          | nil => rfl
          | cons path paths ih =>
            have hfirst : fileExists path [] index = (.returned false, [], index) := by
              simp [fileExists, step, habsent]
            unfold anyExists
            rw [run_bind hfirst]
            exact ih
        rw [ends_bind]
        refine ends_of_run (hrun _) ?_
        intro h
        cases h

theorem AnswersUnrecoverable.unreadable (h : AnswersUnrecoverable J index) : Unreadable J index := by
  have hboth := h.and ends_read_answer
  exact (hboth.mono (fun _ _ _ hresult => hresult.2 hresult.1) (fun _ _ hfailed => hfailed.1.elim)
    fun _ hstopped => hstopped.1.elim).const

end Read

/-! ### Steps that leave the recordings alone -/

variable {deletions : List LocalDeletionJournalEntry}

section Steps

variable {d t : Device}

theorem untouched_refl : Untouched d d := ⟨rfl, rfl⟩

theorem Untouched.trans {u : Device} (h : Untouched d t) (h' : Untouched t u) : Untouched d u :=
  ⟨h'.index.trans h.index, h'.files.trans h.files⟩

/-- The index files, the audio files and the legacy record are as they were. -/
structure Prior (d t : Device) : Prop extends Untouched d t where
  legacy : t.legacy = d.legacy

theorem prior_refl : Prior d d := ⟨untouched_refl, rfl⟩

theorem Prior.trans {u : Device} (h : Prior d t) (h' : Prior t u) : Prior d u :=
  ⟨h.toUntouched.trans h'.toUntouched, h'.legacy.trans h.legacy⟩

theorem Untouched.fileInfo (h : Untouched d t) (uri : Truthy) : t.fileInfo uri = d.fileInfo uri := by
  unfold Device.fileInfo
  rw [h.files]

theorem keeps_getItem {I : Device → Prop} {get : Device → α} : Keeps I (getItem get) := by
  refine keeps_step (fun _ _ h => h) fun s a t h hs => ?_
  cases h
  exact hs

theorem ends_getItem {get : Device → α} {R : α → List Fault → Device → Prop} {I : Device → Prop} (hd : I d)
    (hR : ∀ rest, R (get d) rest d) : Ends (getItem get) faults d R (fun _ => I) I := by
  refine ends_step (fun _ _ => hd) (fun _ => hd) (fun h => by cases h) fun a t h rest => ?_
  cases h
  exact hR rest

/-- A probe finds the file as it is, or does not answer. -/
theorem ends_probeQuietly {uri : Truthy} {R : Option (Option FileInfo) → List Fault → Device → Prop}
    {T : List Fault → Device → Prop} {I : Device → Prop} (hd : I d) (hfailed : ∀ rest, R none rest d)
    (hfound : ∀ rest, R (some (d.fileInfo uri)) rest d) : Ends (probeQuietly uri) faults d R T I := by
  unfold probeQuietly probeRecordingFile
  rw [ends_attempt, ends_bind]
  refine (ends_getItem (I := (· = d)) rfl fun rest => ?_).mono (fun _ _ _ h => h) ?_ ?_
  · exact hfound rest
  · rintro rest t rfl
    exact hfailed rest
  · rintro t rfl
    exact hd

theorem keeps_setItem {I : Device → Prop} {set : Device → Device} (hset : ∀ t, I t → I (set t)) :
    Keeps I (setItem set) := by
  refine keeps_step (fun k t ht => ?_) fun s a t h hs => ?_
  · split_ifs
    · exact ht
    · exact hset t ht
  · cases h
    exact hset s hs

theorem keeps_quietly {I : Device → Prop} {x : Faulty Device Unit} (h : Keeps I x) : Keeps I (quietly x) :=
  keeps_attempt h keeps_pure

/-- The realtime and the deletion journal do not matter for `I`. -/
def IgnoresJournals (I : Device → Prop) : Prop :=
  ∀ t u : Device, u.index = t.index → u.files = t.files → u.legacy = t.legacy → I t → I u

theorem ignoresJournals_untouched : IgnoresJournals (Untouched d) :=
  fun _ _ hindex hfiles _ h => ⟨hindex.trans h.index, hfiles.trans h.files⟩

theorem ignoresJournals_prior : IgnoresJournals (Prior d) :=
  fun _ _ hindex hfiles hlegacy h => ⟨⟨hindex.trans h.index, hfiles.trans h.files⟩, hlegacy.trans h.legacy⟩

section Writes

variable {I : Device → Prop} (hI : IgnoresJournals I)

include hI

theorem keeps_writeLocalDeletionJournal {entries : List LocalDeletionJournalEntry} :
    Keeps I (writeLocalDeletionJournal runtime entries) := keeps_setItem fun t => hI t _ rfl rfl rfl

theorem keeps_clearRealtimeQuarantine : Keeps I clearRealtimeQuarantine := keeps_setItem fun t => hI t _ rfl rfl rfl

theorem keeps_deleteRealtimeJournal : Keeps I deleteRealtimeJournal := keeps_setItem fun t => hI t _ rfl rfl rfl

theorem keeps_writeRealtimeSessionJournal {entries : List PendingRealtimeSession} :
    Keeps I (writeRealtimeSessionJournal entries) := by
  have hset : Keeps I (setItem fun t => { t with realtimeJournal := .text entries }) :=
    keeps_setItem fun t => hI t _ rfl rfl rfl
  unfold writeRealtimeSessionJournal
  split_ifs
  · exact keeps_deleteRealtimeJournal hI
  · exact keeps_bind hset fun _ => keeps_quietly (keeps_clearRealtimeQuarantine hI)

theorem keeps_quarantineRealtimeSessionJournal : Keeps I quarantineRealtimeSessionJournal := by
  have hmark : Keeps I (setItem fun t => { t with realtimeQuarantine := true }) :=
    keeps_setItem fun t => hI t _ rfl rfl rfl
  unfold quarantineRealtimeSessionJournal
  refine keeps_bind (keeps_attempt (keeps_bind hmark fun _ => keeps_pure) keeps_pure) fun quarantined => ?_
  split_ifs
  · exact keeps_quietly (keeps_deleteRealtimeJournal hI)
  · exact keeps_pure

end Writes

theorem keeps_readRealtimeSessionJournal {I : Device → Prop} : Keeps I readRealtimeSessionJournal := by
  unfold readRealtimeSessionJournal
  refine keeps_bind keeps_getItem fun stored => ?_
  cases stored with
  | absent => exact keeps_pure
  | damaged => exact keeps_fail
  | text entries => exact keeps_pure

theorem keeps_pruneStoredRealtimeSessions {I : Device → Prop} (hI : IgnoresJournals I)
    {recordings : List PendingRecording} :
    Keeps I (pruneStoredRealtimeSessionsForLocalDeletions deletions recordings) := by
  unfold pruneStoredRealtimeSessionsForLocalDeletions
  refine keeps_bind keeps_readRealtimeSessionJournal fun journal => ?_
  dsimp only
  split_ifs
  · exact keeps_writeRealtimeSessionJournal hI
  · exact keeps_pure

theorem keeps_readLocalDeletionJournal {I : Device → Prop} : Keeps I (readLocalDeletionJournal runtime) := by
  unfold readLocalDeletionJournal
  refine keeps_bind keeps_getItem fun stored => ?_
  cases stored with
  | absent => exact keeps_pure
  | damaged => exact keeps_fail
  | text entries => exact keeps_pure

theorem keeps_probeQuietly {I : Device → Prop} {uri : Truthy} : Keeps I (probeQuietly uri) :=
  keeps_attempt (keeps_bind keeps_getItem fun _ => keeps_pure) keeps_pure

theorem keeps_probeIndexedRecording {I : Device → Prop} {recording : PendingRecording} :
    Keeps I (probeIndexedRecording recording) := by
  refine keeps_bind keeps_probeQuietly fun found => ?_
  cases found with
  | none | some found => exact keeps_pure

theorem keeps_probeRootOrphanCandidate {I : Device → Prop} {uri : Truthy} :
    Keeps I (probeRootOrphanCandidate uri) := by
  refine keeps_bind keeps_probeQuietly fun found => ?_
  cases found with
  | none => exact keeps_pure
  | some found =>
    cases found with
    | none | some info => exact keeps_pure

theorem keeps_scanDirectory {I : Device → Prop} {knownUris : List Truthy} {directory : Truthy}
    {pattern : Text → Bool} : Keeps I (scanDirectory knownUris directory pattern) := by
  refine keeps_bind (keeps_attempt keeps_getItem keeps_pure) fun entries => ?_
  refine keeps_bind (keeps_forEach fun _ _ => keeps_probeRootOrphanCandidate) fun results => ?_
  exact keeps_pure

theorem keeps_scanRootOrphanRecordings {I : Device → Prop} {knownUris : List Truthy} :
    Keeps I (scanRootOrphanRecordings runtime knownUris) := by
  unfold scanRootOrphanRecordings
  cases runtime.documentDirectory with
  | none => exact keeps_pure
  | some directory =>
    refine keeps_bind keeps_scanDirectory fun _ => ?_
    refine keeps_bind keeps_scanDirectory fun _ => ?_
    exact keeps_bind keeps_scanDirectory fun _ => keeps_pure

theorem keeps_ensureRecordingDirectory {I : Device → Prop} : Keeps I (ensureRecordingDirectory runtime) := by
  unfold ensureRecordingDirectory
  cases runtime.documentDirectory with
  | none => exact keeps_fail
  | some directory => exact keeps_getItem

end Steps

/-! ### Reading an unreadable index -/

section Unreadable

variable {d t : Device} {result : AtomicIndexReadResult PendingRecording}

theorem ends_readIndexFile (hd : Unreadable J d.index) (ht : Untouched d t) :
    Ends (readIndexFile J runtime) faults t
      (fun result _ u => result = ⟨[], .unrecoverable⟩ ∧ Prior t u) (fun _ u => Prior t u) (Prior t) := by
  have hunreadable : Unreadable J t.index := by rw [ht.index]; exact hd
  unfold readIndexFile
  rw [ends_bind]
  have hdirectory : Keeps (· = t) (ensureRecordingDirectory runtime) := keeps_ensureRecordingDirectory
  refine (hdirectory.ends rfl).mono ?_ ?_ ?_
  · rintro _ rest u rfl
    unfold onIndex
    rw [ends_zoom]
    refine (ends_read_unreadable hunreadable).mono ?_ ?_ ?_
    · rintro result rest index ⟨rfl, rfl⟩
      exact ⟨rfl, prior_refl⟩
    · rintro rest index rfl
      exact prior_refl
    · rintro index rfl
      exact prior_refl
  · rintro rest u rfl
    exact prior_refl
  · rintro u rfl
    exact prior_refl

/-- An operation that needs the index stops there. -/
theorem ends_readIndexOrFail {R : List PendingRecording → List Fault → Device → Prop}
    (hd : Unreadable J d.index) (ht : Untouched d t) :
    Ends (readIndexOrFail J runtime) faults t R (fun _ u => Untouched d u) (Untouched d) := by
  unfold readIndexOrFail
  rw [ends_bind]
  refine (ends_readIndexFile hd ht).mono ?_ (fun _ _ h => ht.trans h.toUntouched)
    fun _ h => ht.trans h.toUntouched
  rintro result rest u ⟨rfl, hu⟩
  exact ht.trans hu.toUntouched

/-- What comes before the index is read leaves the recordings alone, and nothing comes after it. -/
theorem ends_before_index {β γ : Type} {before : Faulty Device β} {after : β → List PendingRecording → Faulty Device γ}
    (hd : Unreadable J d.index) (hbefore : Keeps (Untouched d) before) :
    Ends (before >>= fun b => readIndexOrFail J runtime >>= after b) faults d (fun _ _ u => Untouched d u)
      (fun _ u => Untouched d u) (Untouched d) := by
  rw [ends_bind]
  refine (hbefore.ends untouched_refl).mono (fun b rest t ht => ?_) (fun _ _ h => h) fun _ h => h
  rw [ends_bind]
  exact ends_readIndexOrFail hd ht

end Unreadable

/-! ### The load of an unreadable index -/

variable {sessions : List PendingRealtimeSession}

section Load

variable {d t : Device}

theorem ends_readLocalDeletionJournal : Ends (readLocalDeletionJournal runtime) faults d
    (fun deletions _ t => storedDeletions runtime d = some deletions ∧ t = d) (fun _ t => t = d)
    fun t => t = d := by
  unfold readLocalDeletionJournal
  rw [ends_bind]
  refine ends_getItem rfl fun rest => ?_
  unfold storedDeletions
  cases d.deletionJournal with
  | absent => exact ⟨rfl, rfl⟩
  | damaged => exact rfl
  | text entries => exact ⟨rfl, rfl⟩

theorem ends_readSessionsForRecovery : Ends readRealtimeSessionJournalForRecovery faults d
    (fun sessions _ t => (sessions = storedSessions d ∨ sessions = []) ∧ Prior d t) (fun _ t => Prior d t)
    (Prior d) := by
  unfold readRealtimeSessionJournalForRecovery
  rw [ends_bind, ends_attempt, ends_bind]
  refine (ends_getItem (I := (· = d)) rfl fun rest => ?_).mono (fun _ _ _ h => h) ?_ ?_
  rotate_left
  · rintro rest t rfl
    exact ⟨.inr rfl, prior_refl⟩
  · rintro t rfl
    exact prior_refl
  rw [ends_pure]
  cases hstored : d.realtimeJournal with
  | absent => exact ⟨.inr rfl, prior_refl⟩
  | damaged =>
    rw [ends_bind]
    exact ((keeps_quarantineRealtimeSessionJournal ignoresJournals_prior).ends prior_refl).mono
      (fun _ _ _ ht => ⟨.inr rfl, ht⟩) (fun _ _ h => h) fun _ h => h
  | text entries =>
    have hentries : entries = storedSessions d := by simp [storedSessions, hstored]
    rw [ends_bind]
    exact ((keeps_quietly (keeps_clearRealtimeQuarantine ignoresJournals_prior)).ends prior_refl).mono
      (fun _ _ _ ht => ⟨.inl hentries, ht⟩) (fun _ _ h => h) fun _ h => h

/-- A record that does not move is left where it is. -/
theorem ends_relocateRecording {recordings : List PendingRecording} {recording : PendingRecording}
    (ht : Untouched d t) (hstays : ¬Moves runtime d recordings recording) :
    Ends (relocateRecording runtime recordings recording) faults t
      (fun result _ u => result.2 = false ∧ Untouched d u) (fun _ u => Untouched d u) (Untouched d) := by
  unfold relocateRecording
  cases hdestination : relocationOf runtime recording with
  | none => exact ⟨rfl, ht⟩
  | some destination =>
    dsimp only
    split_ifs with hmay
    · have hstay : ∀ rest, Ends (pure (recording, false)) rest t
          (fun result _ u => result.2 = false ∧ Untouched d u) (fun _ u => Untouched d u) (Untouched d) :=
        fun rest => ⟨rfl, ht⟩
      rw [ends_bind]
      refine ends_probeQuietly ht hstay fun rest => ?_
      cases hsource : t.fileInfo recording.uri with
      | some info => exact hstay rest
      | none =>
        rw [ends_bind]
        refine ends_probeQuietly ht hstay fun rest => ?_
        have hrejects : ¬acceptsDestination runtime recording destination (t.fileInfo destination) = true := by
          intro haccepts
          rw [ht.fileInfo] at hsource haccepts
          exact hstays ⟨destination, hdestination, hmay, hsource, haccepts⟩
        dsimp only
        rw [if_neg hrejects]
        exact hstay rest
    · exact ⟨rfl, ht⟩

/-- Where no record moves, a load of an unreadable index writes no index. -/
theorem ends_scanCleaned {recordings : List PendingRecording} (ht : Untouched d t)
    (hstays : ∀ recording ∈ visiblePendingRecordings recordings,
      ¬Moves runtime d (visiblePendingRecordings recordings) recording) :
    Ends (scanCleaned J runtime deletions sessions .unrecoverable recordings) faults t
      (fun scan _ u => scan.source = .unrecoverable ∧ Untouched d u) (fun _ u => Untouched d u)
      (Untouched d) := by
  unfold scanCleaned
  dsimp only
  rw [ends_bind]
  have hrelocation : Ends (relocateManagedRecordingUris runtime (visiblePendingRecordings recordings)) faults t
      (fun results _ u => (∀ result ∈ results, result.2 = false) ∧ Untouched d u) (fun _ u => Untouched d u)
      (Untouched d) := by
    have hstart : ∀ result ∈ ([] : List (PendingRecording × Bool)), result.2 = false := by simp
    refine ends_forEach (fun done left _ u => (∀ result ∈ done, result.2 = false) ∧
      (∀ recording ∈ left, recording ∈ visiblePendingRecordings recordings) ∧ Untouched d u)
      ⟨hstart, fun _ h => h, ht⟩ ?_ fun results rest u h => ⟨h.1, h.2.2⟩
    rintro done recording left faults u ⟨hdone, hleft, hu⟩
    have hrecording := hleft recording List.mem_cons_self
    refine (ends_relocateRecording hu (hstays recording hrecording)).mono ?_ (fun _ _ h => h) fun _ h => h
    rintro result rest v ⟨hresult, hv⟩
    refine ⟨fun other hother => ?_, fun other hother => hleft other (List.mem_cons_of_mem _ hother), hv⟩
    rcases List.mem_append.mp hother with hother | hother
    · exact hdone other hother
    · rw [List.mem_singleton.mp hother]
      exact hresult
  refine hrelocation.mono ?_ (fun _ _ h => h) fun _ h => h
  rintro relocation rest u ⟨hnone, hu⟩
  have hcommit : commitRelocation J runtime relocation
      (recordings.filter fun recording => recording.localDeletionPendingAt.isSome) = pure () := by
    unfold commitRelocation
    rw [if_neg]
    rw [List.any_eq_true]
    rintro ⟨result, hmem, hresult⟩
    rw [hnone result hmem] at hresult
    cases hresult
  rw [hcommit, ends_bind, ends_pure, ends_bind]
  have hprobes : Keeps (Untouched d) (forEach probeIndexedRecording (relocation.map Prod.fst)) :=
    keeps_forEach fun _ _ => keeps_probeIndexedRecording
  refine (hprobes.ends hu).mono (fun probes rest v hv => ?_) (fun _ _ h => h) fun _ h => h
  rw [ends_bind]
  exact (keeps_scanRootOrphanRecordings.ends hv).mono (fun _ _ _ h => ⟨rfl, h⟩) (fun _ _ h => h) fun _ h => h

theorem ends_scanRecordings (hd : Unreadable J d.index) (hplaces : KeepsPlaces runtime d) :
    Ends (scanRecordings J runtime) faults d (fun scan _ u => scan.source = .unrecoverable ∧ Untouched d u)
      (fun _ u => Untouched d u) (Untouched d) := by
  unfold scanRecordings
  rw [ends_bind]
  refine ends_readLocalDeletionJournal.mono ?_ ?_ ?_
  rotate_left
  · rintro rest t rfl
    exact untouched_refl
  · rintro t rfl
    exact untouched_refl
  rintro deletions rest t ⟨hdeletions, rfl⟩
  rw [ends_bind]
  refine ends_readSessionsForRecovery.mono ?_ (fun _ _ h => h.toUntouched) fun _ h => h.toUntouched
  rintro sessions rest u ⟨hsessions, hu⟩
  rw [ends_bind]
  refine (ends_readIndexFile hd hu.toUntouched).mono ?_ (fun _ _ h => (hu.trans h).toUntouched)
    fun _ h => (hu.trans h).toUntouched
  rintro index rest v ⟨rfl, hv⟩
  have hkept := hu.trans hv
  rw [ends_bind]
  unfold readLegacyRecording
  rw [ends_bind]
  refine ends_getItem hkept.toUntouched fun rest => ?_
  rw [ends_pure, hkept.legacy]
  have hstays := hplaces deletions hdeletions sessions hsessions
  unfold scanDurable cleanUpDeletions
  dsimp only
  rw [ends_bind]
  have hcommit : Keeps (Untouched t) (commitPrunedJournal sessions
      (pruneRealtimeSessionJournalForLocalDeletions sessions deletions
        (durableRecordings [] (readLegacy runtime t.legacy)))) := by
    unfold commitPrunedJournal
    split_ifs
    · exact keeps_quietly (keeps_writeRealtimeSessionJournal ignoresJournals_untouched)
    · exact keeps_pure
  refine (hcommit.ends hkept.toUntouched).mono (fun _ rest w hw => ?_) (fun _ _ h => h) fun _ h => h
  rw [if_pos rfl, ends_bind, ends_pure]
  exact ends_scanCleaned hw hstays

/-- **The load.** Where no record moves, an unreadable index is left alone. -/
theorem ends_load (hd : Unreadable J d.index) (hplaces : KeepsPlaces runtime d) :
    Ends (loadPendingRecordings J runtime) faults d (fun _ _ u => Untouched d u) (fun _ u => Untouched d u)
      (Untouched d) := by
  unfold loadPendingRecordings loadRecordings
  rw [ends_bind, ends_bind]
  refine (ends_scanRecordings hd hplaces).mono ?_ (fun _ _ h => h) fun _ h => h
  rintro scan rest t ⟨hsource, ht⟩
  unfold finishLoad
  dsimp only
  rw [if_pos hsource, ends_bind]
  exact ((keeps_quietly (keeps_writeRealtimeSessionJournal ignoresJournals_untouched)).ends ht).mono
    (fun _ _ _ h => h) (fun _ _ h => h) fun _ h => h

end Load

/-! ### A record that moves -/

section Moved

variable {d t : Device} {index : IndexFiles} {recordings : List PendingRecording} {recording : PendingRecording}

theorem run_anyExists {paths : List IndexPath} (h : ∃ path ∈ paths, (index path).isSome) :
    anyExists paths [] index = (.returned true, [], index) := by
  induction paths with
  | nil =>
    obtain ⟨path, hpath, -⟩ := h
    cases hpath
  | cons path paths ih =>
    have hfirst : fileExists path [] index = (.returned (index path).isSome, [], index) := rfl
    unfold anyExists
    rw [run_bind hfirst]
    by_cases hpath : (index path).isSome
    · rw [if_pos hpath]
      rfl
    · rw [if_neg hpath]
      obtain ⟨other, hmem, hother⟩ := h
      rcases List.mem_cons.mp hmem with rfl | hmem
      · exact absurd hother hpath
      · exact ih ⟨other, hmem, hother⟩

theorem run_read_unreadable (h : Unreadable J index) :
    readAtomicArrayIndex J [] index = (.returned ⟨[], .unrecoverable⟩, [], index) := by
  have hcandidate : ∀ path source, readCandidate J path source [] index = (.returned none, [], index) := by
    intro path source
    rw [run_readCandidate, h.none_reads]
    rfl
  have hexists : ∃ path ∈ [IndexPath.primary, .temporary, .backupTemporary, .backup], (index path).isSome := by
    obtain ⟨path, hpath⟩ := h.some_exists
    exact ⟨path, by cases path <;> simp, hpath⟩
  unfold readAtomicArrayIndex
  rw [run_bind (hcandidate _ _)]
  dsimp only
  rw [run_bind (hcandidate _ _), run_bind (hcandidate _ _), run_bind (hcandidate _ _)]
  change (anyExists _ >>= fun found => pure _) [] index = _
  rw [run_bind (run_anyExists hexists)]
  rfl

/-- Where a record goes when no probe fails. -/
def relocationResult (runtime : Runtime) (d : Device) (recordings : List PendingRecording)
    (recording : PendingRecording) : PendingRecording × Bool :=
  match relocationOf runtime recording with
  | none => (recording, false)
  | some destination =>
    if mayRelocate runtime recordings recording destination && (d.fileInfo recording.uri).isNone &&
        acceptsDestination runtime recording destination (d.fileInfo destination) then
      (relocatedRecording recording destination, true)
    else (recording, false)

theorem run_probeQuietly {uri : Truthy} : probeQuietly uri [] t = (.returned (some (t.fileInfo uri)), [], t) := rfl

theorem run_relocateRecording : relocateRecording runtime recordings recording [] t =
    (.returned (relocationResult runtime t recordings recording), [], t) := by
  unfold relocateRecording relocationResult
  cases relocationOf runtime recording with
  | none => rfl
  | some destination =>
    dsimp only
    by_cases hmay : mayRelocate runtime recordings recording destination = true
    · rw [if_pos hmay, run_bind run_probeQuietly, hmay]
      cases hsource : t.fileInfo recording.uri with
      | some info => rfl
      | none =>
        dsimp only
        rw [run_bind run_probeQuietly]
        by_cases haccepts : acceptsDestination runtime recording destination (t.fileInfo destination) = true
        · simp [haccepts]
          rfl
        · simp [haccepts]
          rfl
    · rw [if_neg hmay]
      simp [hmay]
      rfl

theorem relocationResult_moves (h : Moves runtime t recordings recording) :
    (relocationResult runtime t recordings recording).2 = true := by
  obtain ⟨destination, hdestination, hmay, hsource, haccepts⟩ := h
  unfold relocationResult
  simp [hdestination, hmay, hsource, haccepts]

/-- Refreshing the backup leaves the primary file alone. -/
theorem ends_refreshBackup_primary {contents : Contents} (h : index .primary = some contents) :
    Ends (refreshBackup J) faults index (fun _ _ u => u .primary = some contents)
      (fun _ u => u .primary = some contents) fun u => u .primary = some contents := by
  unfold refreshBackup
  rw [ends_bind]
  refine ends_remove h h fun _ => ?_
  rw [ends_bind]
  refine ends_copy (I := fun u : IndexFiles => u .primary = some contents) h (fun _ _ _ => h) fun copied _ _ => ?_
  rw [ends_bind]
  refine ends_assertValidIndexFile (I := fun u : IndexFiles => u .primary = some contents) h fun _ _ _ => ?_
  rw [ends_bind]
  refine ends_remove (I := fun u : IndexFiles => u .primary = some contents) h h fun _ => ?_
  exact ends_move (I := fun u : IndexFiles => u .primary = some contents) h (fun _ _ => h) fun _ _ _ => h

/-- A write without a fault puts its text in the primary file. -/
theorem ends_write_primary {records : List PendingRecording} :
    Ends (writeAtomicArrayIndex J records) [] index
      (fun _ _ u => u .primary = some (J.stringify records)) (fun _ u => u .primary = some (J.stringify records))
      fun u => u .primary = some (J.stringify records) := by
  have hremove : ∀ path (u : IndexFiles), remove path [] u = (.returned (), [], Function.update u path none) :=
    fun _ _ => rfl
  have hvalid : ∀ path (u : IndexFiles), u path = some (J.stringify records) →
      assertValidIndexFile J path [] u = (.returned (), [], u) := by
    intro path u hu
    have hread : Lib.Faults.read path [] u = (.returned (J.stringify records), [], u) := by
      simp [Lib.Faults.read, step, hu]
    unfold assertValidIndexFile
    rw [run_bind hread, J.parse_stringify]
    rfl
  have hwrite : ∀ u : IndexFiles, write .temporary (J.stringify records) [] u =
      (.returned (), [], Function.update u .temporary (some (J.stringify records))) := fun _ => rfl
  unfold writeAtomicArrayIndex
  rw [ends_bind]
  refine ends_of_run (hremove _ _) ?_
  rw [ends_bind]
  refine ends_of_run (hwrite _) ?_
  rw [ends_bind]
  refine ends_of_run (hvalid .temporary _ (by simp)) ?_
  rw [ends_bind]
  refine ends_of_run (hremove _ _) ?_
  rw [ends_bind]
  have hmove : ∀ u : IndexFiles, u .temporary = some (J.stringify records) →
      move .temporary .primary [] u = (.returned (), [], u.moved .temporary .primary (J.stringify records)) := by
    intro u hu
    simp [move, step, hu]
  refine ends_of_run (hmove _ (by simp)) ?_
  rw [ends_bind]
  refine ends_of_run (hvalid .primary _ (by simp [Files.moved])) ?_
  exact ends_refreshBackup_primary (by simp [Files.moved])

/-- What a fault-free read of the journals finds. -/
theorem run_readLocalDeletionJournal {rest : List Fault} (h : storedDeletions runtime d = some deletions) :
    readLocalDeletionJournal runtime (.done :: rest) d = (.returned deletions, rest, d) := by
  have hitem : getItem (·.deletionJournal) (.done :: rest) d = (.returned d.deletionJournal, rest, d) := rfl
  unfold readLocalDeletionJournal
  rw [run_bind hitem]
  unfold storedDeletions at h
  cases hstored : d.deletionJournal with
  | absent =>
    rw [hstored] at h
    cases h
    rfl
  | damaged =>
    rw [hstored] at h
    cases h
  | text entries =>
    rw [hstored] at h
    cases h
    rfl

/-- A script under which a load has these sessions. -/
theorem run_readSessionsForRecovery (h : sessions = storedSessions d ∨ sessions = []) :
    ∃ script u, readRealtimeSessionJournalForRecovery script d = (.returned sessions, [], u) ∧ Prior d u := by
  rcases h with rfl | rfl
  · refine ⟨[], ?_⟩
    have hitem : (attempt (getItem (·.realtimeJournal) >>= fun stored => pure (some stored)) (pure none)) [] d =
        (.returned (some d.realtimeJournal), [], d) := rfl
    unfold readRealtimeSessionJournalForRecovery
    rw [run_bind hitem]
    unfold storedSessions
    cases d.realtimeJournal with
    | absent => exact ⟨d, rfl, prior_refl⟩
    | damaged | text entries => exact ⟨_, rfl, ⟨rfl, rfl⟩, rfl⟩
  · exact ⟨[.fails 0], d, rfl, prior_refl⟩

theorem run_commitPrunedJournal {stored pruned : List PendingRealtimeSession} :
    ∃ u, commitPrunedJournal stored pruned [] t = (.returned (), [], u) ∧ Prior t u := by
  unfold commitPrunedJournal
  split_ifs
  · unfold quietly writeRealtimeSessionJournal
    split_ifs
    · exact ⟨_, rfl, ⟨rfl, rfl⟩, rfl⟩
    · exact ⟨_, rfl, ⟨rfl, rfl⟩, rfl⟩
  · exact ⟨t, rfl, prior_refl⟩

/-- The load of a device on which a record moves: the index is written. -/
theorem ends_scanCleaned_moved (ht : Untouched d t) (hrecording : recording ∈ visiblePendingRecordings recordings)
    (hmoves : Moves runtime d (visiblePendingRecordings recordings) recording) :
    Ends (scanCleaned J runtime deletions sessions .unrecoverable recordings) [] t
      (fun scan _ u => scan.source = .unrecoverable ∧ indexAt J u.index .primary ≠ none)
      (fun _ u => indexAt J u.index .primary ≠ none) fun u => indexAt J u.index .primary ≠ none := by
  have hmoves' : Moves runtime t (visiblePendingRecordings recordings) recording := by
    obtain ⟨destination, hdestination, hmay, hsource, haccepts⟩ := hmoves
    refine ⟨destination, hdestination, hmay, ?_, ?_⟩
    · rw [ht.fileInfo]
      exact hsource
    · rw [ht.fileInfo]
      exact haccepts
  have hdirectory : ∃ directory, runtime.documentDirectory = some directory := by
    obtain ⟨destination, hdestination, -⟩ := hmoves
    obtain ⟨directory, hdirectory, -⟩ := Option.bind_eq_some_iff.mp hdestination
    exact ⟨directory, hdirectory⟩
  obtain ⟨directory, hdirectory⟩ := hdirectory
  unfold scanCleaned
  dsimp only
  rw [ends_bind]
  have hrelocation : relocateManagedRecordingUris runtime (visiblePendingRecordings recordings) [] t =
      (.returned ((visiblePendingRecordings recordings).map
        (relocationResult runtime t (visiblePendingRecordings recordings))), [], t) :=
    run_forEach fun _ _ => run_relocateRecording
  refine ends_of_run hrelocation ?_
  have hany : ((visiblePendingRecordings recordings).map
      (relocationResult runtime t (visiblePendingRecordings recordings))).any Prod.snd = true :=
    List.any_eq_true.mpr ⟨_, List.mem_map_of_mem hrecording, relocationResult_moves hmoves'⟩
  have hwritten : ∀ (u : IndexFiles) records, u .primary = some (J.stringify records) →
      indexAt J u .primary ≠ none := by
    intro u records hu
    simp [indexAt, hu, J.parse_stringify]
  have hensure : ensureRecordingDirectory runtime [] t = (.returned (), [], t) := by
    unfold ensureRecordingDirectory
    rw [hdirectory]
    rfl
  unfold commitRelocation
  rw [ends_bind, if_pos hany]
  unfold writeIndexFile
  rw [ends_bind]
  refine ends_of_run hensure ?_
  unfold onIndex
  rw [ends_zoom]
  refine ends_write_primary.mono (fun _ rest u hu => ?_) (fun _ u hu => hwritten u _ hu) fun u hu => hwritten u _ hu
  rw [ends_bind]
  have hprobes : Keeps (fun v : Device => indexAt J v.index .primary ≠ none)
      (forEach probeIndexedRecording (((visiblePendingRecordings recordings).map
        (relocationResult runtime t (visiblePendingRecordings recordings))).map Prod.fst)) :=
    keeps_forEach fun _ _ => keeps_probeIndexedRecording
  refine (hprobes.ends (hwritten u _ hu)).mono (fun probes rest v hv => ?_) (fun _ _ h => h) fun _ h => h
  rw [ends_bind]
  exact (keeps_scanRootOrphanRecordings.ends hv).mono (fun _ _ _ h => ⟨rfl, h⟩) (fun _ _ h => h) fun _ h => h

theorem ends_load_moved (hd : Unreadable J d.index) (hdeletions : storedDeletions runtime d = some deletions)
    (hsessions : sessions = storedSessions d ∨ sessions = [])
    (hrecording : recording ∈ recordsWithoutIndex runtime d deletions sessions)
    (hmoves : Moves runtime d (recordsWithoutIndex runtime d deletions sessions) recording) :
    ∃ script, Ends (loadPendingRecordings J runtime) script d
      (fun _ _ u => indexAt J u.index .primary ≠ none) (fun _ u => indexAt J u.index .primary ≠ none)
      fun u => indexAt J u.index .primary ≠ none := by
  obtain ⟨script, u, hsession, hu⟩ := run_readSessionsForRecovery hsessions
  refine ⟨.done :: script, ?_⟩
  have hdirectory : ∃ directory, runtime.documentDirectory = some directory := by
    obtain ⟨destination, hdestination, -⟩ := hmoves
    obtain ⟨directory, hdirectory, -⟩ := Option.bind_eq_some_iff.mp hdestination
    exact ⟨directory, hdirectory⟩
  obtain ⟨directory, hdirectory⟩ := hdirectory
  have hensure : ensureRecordingDirectory runtime [] u = (.returned (), [], u) := by
    unfold ensureRecordingDirectory
    rw [hdirectory]
    rfl
  have hindex : onIndex (readAtomicArrayIndex J) [] u = (.returned ⟨[], .unrecoverable⟩, [], u) := by
    unfold onIndex zoom
    rw [hu.index, run_read_unreadable hd, ← hu.index]
  have hread : readIndexFile J runtime [] u = (.returned ⟨[], .unrecoverable⟩, [], u) := by
    unfold readIndexFile
    rw [run_bind hensure]
    exact hindex
  have hlegacy : readLegacyRecording runtime [] u = (.returned (readLegacy runtime d.legacy), [], u) := by
    rw [← hu.legacy]
    rfl
  unfold loadPendingRecordings loadRecordings scanRecordings
  rw [ends_bind, ends_bind, ends_bind]
  refine ends_of_run (run_readLocalDeletionJournal hdeletions) ?_
  rw [ends_bind]
  refine ends_of_run hsession ?_
  rw [ends_bind]
  refine ends_of_run hread ?_
  rw [ends_bind]
  refine ends_of_run hlegacy ?_
  unfold scanDurable cleanUpDeletions
  dsimp only
  rw [ends_bind]
  have hpruned : ∃ v, commitPrunedJournal sessions (pruneRealtimeSessionJournalForLocalDeletions sessions
      deletions (durableRecordings [] (readLegacy runtime d.legacy))) [] u = (.returned (), [], v) ∧ Prior u v :=
    run_commitPrunedJournal
  obtain ⟨v, hcommit, hv⟩ := hpruned
  refine ends_of_run hcommit ?_
  rw [if_pos rfl, ends_bind, ends_pure]
  have hkept := (hu.trans hv).toUntouched
  refine (ends_scanCleaned_moved hkept hrecording hmoves).mono ?_ (fun _ _ h => h) fun _ h => h
  rintro scan rest w ⟨hsource, hw⟩
  have hignores : IgnoresJournals fun v : Device => indexAt J v.index .primary ≠ none := by
    intro t u hindex _ _ h
    rw [hindex]
    exact h
  unfold finishLoad
  dsimp only
  rw [if_pos hsource, ends_bind]
  exact ((keeps_quietly (keeps_writeRealtimeSessionJournal hignores)).ends hw).mono
    (fun _ _ _ h => h) (fun _ _ h => h) fun _ h => h

end Moved

/-! ### The operations -/

section Operations

variable {d t : Device}

/-- A deletion stops after its intent is written, when the index cannot be read. -/
theorem ends_after_intent {entries : List LocalDeletionJournalEntry}
    {after : List PendingRecording → Faulty Device α} (hd : Unreadable J d.index) (ht : Untouched d t) :
    Ends (do
      writeLocalDeletionJournal runtime entries
      quietly (pruneStoredRealtimeSessionsForLocalDeletions entries [])
      let records ← readIndexOrFail J runtime
      after records) faults t (fun _ _ u => Untouched d u) (fun _ u => Untouched d u) (Untouched d) := by
  have hjournal : Keeps (Untouched d) (writeLocalDeletionJournal runtime entries) :=
    keeps_writeLocalDeletionJournal ignoresJournals_untouched
  have hprune : Keeps (Untouched d) (quietly (pruneStoredRealtimeSessionsForLocalDeletions entries [])) :=
    keeps_quietly (keeps_pruneStoredRealtimeSessions ignoresJournals_untouched)
  rw [ends_bind]
  refine (hjournal.ends ht).mono (fun _ _ u hu => ?_) (fun _ _ h => h) fun _ h => h
  rw [ends_bind]
  refine (hprune.ends hu).mono (fun _ _ v hv => ?_) (fun _ _ h => h) fun _ h => h
  rw [ends_bind]
  exact ends_readIndexOrFail hd hv

theorem ends_operation {operation : StoreOperation} (hd : Unreadable J d.index)
    (hplaces : operation = .load → KeepsPlaces runtime d) :
    Ends (operation.perform J runtime) faults d (fun _ _ u => Untouched d u) (fun _ u => Untouched d u)
      (Untouched d) := by
  have hjournal : Keeps (Untouched d) (readLocalDeletionJournal runtime) := keeps_readLocalDeletionJournal
  cases operation with
  | load =>
    unfold StoreOperation.perform
    rw [ends_bind]
    exact ends_load hd (hplaces rfl)
  | upsert change =>
    unfold StoreOperation.perform upsertPendingRecording
    rw [ends_bind]
    exact ends_before_index hd hjournal
  | remove meetingId =>
    unfold StoreOperation.perform removePendingRecording
    rw [ends_bind]
    exact ends_before_index hd hjournal
  | deleteFromDevice expectedUserId meetingId uri =>
    unfold StoreOperation.perform deleteLocalRecordingFromDevice
    rw [ends_bind]
    exact ends_before_index hd hjournal
  | deleteAfterRemoteDelete meetingId userId =>
    unfold StoreOperation.perform deletePendingRecordingAfterRemoteDelete
    rw [ends_bind, ends_bind]
    refine (hjournal.ends untouched_refl).mono (fun stored rest t ht => ?_) (fun _ _ h => h) fun _ h => h
    exact ends_after_intent hd ht
  | deleteForUser userId =>
    unfold StoreOperation.perform deleteLocalRecordingsForUser
    rw [ends_bind, ends_bind]
    refine (hjournal.ends untouched_refl).mono (fun stored rest t ht => ?_) (fun _ _ h => h) fun _ h => h
    exact ends_after_intent hd ht

end Operations

theorem keepsPlaces_of_leaves {d : Device} (hd : Unreadable J d.index)
    (hleaves : LeavesRecordings J runtime .load d) : KeepsPlaces runtime d := by
  intro deletions hdeletions sessions hsessions recording hrecording hmoves
  obtain ⟨script, hscript⟩ := ends_load_moved hd hdeletions hsessions hrecording hmoves
  have hwritten : Ends (StoreOperation.load.perform J runtime) script d
      (fun _ _ u => indexAt J u.index .primary ≠ none) (fun _ u => indexAt J u.index .primary ≠ none)
      fun u => indexAt J u.index .primary ≠ none := by
    unfold StoreOperation.perform
    rw [ends_bind]
    exact hscript
  have hkept : ∀ u : Device, Untouched d u ∧ indexAt J u.index .primary ≠ none → False := by
    rintro u ⟨hu, hne⟩
    rw [hu.index] at hne
    exact hne (hd.none_reads .primary)
  exact (((hleaves script).and hwritten).mono (fun _ _ u hu => hkept u hu) (fun _ u hu => hkept u hu)
    fun u hu => hkept u hu).const

/-- **An unreadable index is left alone exactly where no record moves.** -/
theorem unreadable_index_kept {operation : StoreOperation} {d : Device} (h : AnswersUnrecoverable J d.index) :
    LeavesRecordings J runtime operation d ↔ (operation = .load → KeepsPlaces runtime d) := by
  have hd := h.unreadable
  constructor
  · rintro hleaves rfl
    exact keepsPlaces_of_leaves hd hleaves
  · intro hplaces faults
    exact ends_operation hd hplaces

/-! ### A damaged index, and a legacy recording in a new container -/

theorem Unreadable.answersUnrecoverable {index : IndexFiles} (h : Unreadable J index) :
    AnswersUnrecoverable J index := ends_of_run (run_read_unreadable h) rfl

def movedLaunch : Runtime where
  documentDirectory := some ⟨"file:///b/".toList, by decide⟩
  documents_file := by
    intro directory h
    cases h
    decide
  dateParse := fun _ => some 0
  toISOString := fun _ => ⟨['t'], by decide⟩
  localeLE := fun _ _ => true
  now := 0

def damagedFiles : IndexFiles := fun path => if path = .primary then some [] else none

def damagedDevice : Device where
  index := damagedFiles
  legacy := .text ⟨some ⟨['m'], by decide⟩, some ⟨"file:///a/ExpoAudio/recording-1.m4a".toList, by decide⟩,
    none, none, none, false, none, none⟩
  deletionJournal := .absent
  realtimeJournal := .absent
  realtimeQuarantine := false
  files := ⟨[⟨⟨"file:///b/ExpoAudio/recording-1.m4a".toList, by decide⟩, ⟨false, 4096, 0⟩⟩], by simp⟩

/-- The device on which the file of the legacy recording is where the record says. -/
def stillDevice : Device :=
  { damagedDevice with
    files := ⟨[⟨⟨"file:///a/ExpoAudio/recording-1.m4a".toList, by decide⟩, ⟨false, 4096, 0⟩⟩], by simp⟩ }

/-- The record that the load makes of the legacy one. -/
def movedRecording : PendingRecording where
  meetingId := ⟨['m'], by decide⟩
  uri := ⟨"file:///a/ExpoAudio/recording-1.m4a".toList, by decide⟩
  createdAt := ⟨['t'], by decide⟩
  updatedAt := ⟨['t'], by decide⟩
  activeRecording := true
  localRecoveryOnly := true

theorem unreadable_damagedFiles : Unreadable (unaryCodec PendingRecording) damagedFiles where
  none_reads := by
    intro path
    cases path <;> rfl
  some_exists := ⟨.primary, rfl⟩

theorem unreadable_index_kept_load :
    LeavesRecordings (unaryCodec PendingRecording) movedLaunch .load stillDevice := by
  have hunreadable : Unreadable (unaryCodec PendingRecording) stillDevice.index := unreadable_damagedFiles
  refine (unreadable_index_kept hunreadable.answersUnrecoverable).mpr fun _ => ?_
  intro deletions hdeletions sessions hsessions recording hrecording
  have hrecords : recordsWithoutIndex movedLaunch stillDevice [] [] = [movedRecording] := by decide
  obtain rfl : deletions = [] := (Option.some.inj hdeletions).symm
  obtain rfl : sessions = [] := hsessions.elim id id
  rw [hrecords, List.mem_singleton] at hrecording
  subst hrecording
  rintro ⟨-, -, -, hgone, -⟩
  exact absurd hgone (by decide)

/-- The load writes the index that it could not read. -/
theorem unreadable_index_overwritten : AnswersUnrecoverable (unaryCodec PendingRecording) damagedDevice.index ∧
    ¬LeavesRecordings (unaryCodec PendingRecording) movedLaunch .load damagedDevice := by
  refine ⟨unreadable_damagedFiles.answersUnrecoverable, fun hleaves => ?_⟩
  have hplaces := keepsPlaces_of_leaves unreadable_damagedFiles hleaves
  have hrecords : recordsWithoutIndex movedLaunch damagedDevice [] [] = [movedRecording] := by decide
  have hstays := hplaces [] rfl [] (.inr rfl) movedRecording (by rw [hrecords]; exact List.mem_singleton_self _)
  rw [hrecords] at hstays
  exact hstays ⟨⟨"file:///b/ExpoAudio/recording-1.m4a".toList, by decide⟩, by decide, by decide,
    by decide, by decide⟩

end OwnMinutes.Mobile.DamagedIndex
