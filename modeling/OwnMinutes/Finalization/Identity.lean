import OwnMinutes.Deletion.Store
import OwnMinutes.Finalization.Worker

/-! # A run and its projection

A run keeps the state that `startMeetingFinalization` returned, and every later call compares its
identity with what is read back. Reading trims the operation key and cuts it to 240 characters, while
a key has up to 275: `meeting:`, an id of up to 160 characters, `:reprocess:` and an operation id of up
to 96. A run recognizes its projection exactly when its key is not cut. -/

namespace OwnMinutes.Finalization.Identity

open OwnMinutes.Lib.Keyed OwnMinutes.Lib.JsText OwnMinutes.Auth.ProcessingRoute
open OwnMinutes.Auth.Records OwnMinutes.Deletion.Store OwnMinutes.Finalization.Records
open OwnMinutes.Finalization.Queue OwnMinutes.Finalization.Projection OwnMinutes.Finalization.Worker

/-! ### Operation keys -/

/-- The operation ids that `resolveReprocessOperationId` accepts: `/^[A-Za-z0-9._:-]+$/`, 8 to 96
characters. -/
def acceptedOperationId (operationId : String) : Bool :=
  8 ≤ operationId.length && operationId.length ≤ 96 &&
    operationId.toList.all fun c => c.isAlphanum || c == '.' || c == '_' || c == ':' || c == '-'

/-- The keys of a meeting's operations. -/
inductive OperationKey (meetingId : MeetingId) : String → Prop
  | initial : OperationKey meetingId (initialMeetingOperationKey meetingId)
  | reprocess {operationId : String} (h : acceptedOperationId operationId = true) :
      OperationKey meetingId (reprocessMeetingOperationKey meetingId operationId)
  | revision {audioRevision : String} (h : validAudioRevision audioRevision = true) :
      OperationKey meetingId (reprocessMeetingOperationKey meetingId audioRevision)

/-- The characters of ids, revisions and keys. -/
def plain (c : Char) : Bool := c.isAlphanum || c == '.' || c == '_' || c == ':' || c == '-'

theorem isAlphanum_eq (c : Char) : c.isAlphanum =
    ((decide (c.val ≥ 'A'.val ∧ c.val ≤ 'Z'.val) || decide (c.val ≥ 'a'.val) && decide (c.val ≤ 'z'.val)) ||
      decide (c.val ≥ '0'.val) && decide (c.val ≤ '9'.val)) := rfl

theorem ascii_of_plain {c : Char} (h : plain c = true) : 33 ≤ c.val.toNat ∧ c.val.toNat < 128 := by
  simp only [plain, isAlphanum_eq, Bool.or_eq_true, Bool.and_eq_true, decide_eq_true_eq, beq_iff_eq, ge_iff_le,
    UInt32.le_iff_toNat_le] at h
  rcases h with (((h | rfl) | rfl) | rfl) | rfl
  · simp only [show 'A'.val.toNat = 65 from rfl, show 'Z'.val.toNat = 90 from rfl,
      show 'a'.val.toNat = 97 from rfl, show 'z'.val.toNat = 122 from rfl,
      show '0'.val.toNat = 48 from rfl, show '9'.val.toNat = 57 from rfl] at h
    omega
  all_goals decide

theorem units_of_plain {c : Char} (h : plain c = true) : utf16Units c = 1 := by
  have := (ascii_of_plain h).2
  refine if_pos ?_
  rw [UInt32.lt_iff_toNat_lt]
  exact this.trans (by decide)

theorem isWhiteSpace_of_plain {c : Char} (h : plain c = true) : isWhiteSpace c = false :=
  isWhiteSpace_of_ascii (ascii_of_plain h).1 (ascii_of_plain h).2

/-- Text of ids, revisions and keys. -/
structure PlainText (value : String) : Prop where
  nonempty : value.toList ≠ []
  chars : ∀ c ∈ value.toList, plain c = true

theorem PlainText.append {a b : String} (ha : PlainText a) (hb : ∀ c ∈ b.toList, plain c = true) :
    PlainText (a ++ b) where
  nonempty h := ha.nonempty (by rw [String.toList_append] at h; exact (List.append_eq_nil_iff.mp h).1)
  chars c hc := by
    rw [String.toList_append] at hc
    rcases List.mem_append.mp hc with hc | hc
    · exact ha.chars c hc
    · exact hb c hc

theorem plain_of_idChar {c : Char} (h : (c.isAlphanum || c == '_' || c == '-') = true) :
    plain c = true := by
  simp only [Bool.or_eq_true] at h
  simp only [plain, Bool.or_eq_true]
  tauto

theorem plain_canonicalMeetingId {meetingId : MeetingId}
    (h : isCanonicalMeetingId meetingId = true) : ∀ c ∈ meetingId.toList, plain c = true := by
  simp only [isCanonicalMeetingId, Bool.and_eq_true, List.all_eq_true] at h
  exact fun c hc => plain_of_idChar (h.2 c hc)

theorem plain_operationId {operationId : String} (h : acceptedOperationId operationId = true) :
    ∀ c ∈ operationId.toList, plain c = true := by
  simp only [acceptedOperationId, Bool.and_eq_true, List.all_eq_true] at h
  exact h.2

theorem plain_audioRevision {audioRevision : String} (h : validAudioRevision audioRevision = true) :
    PlainText audioRevision ∧ audioRevision.length = 64 := by
  simp only [validAudioRevision, Bool.and_eq_true, beq_iff_eq, String.all_bool_eq,
    List.all_eq_true, Bool.or_eq_true, decide_eq_true_eq] at h
  refine ⟨⟨fun hnil => ?_, fun c hc => ?_⟩, h.1⟩
  · rw [← String.length_toList, hnil] at h
    exact absurd h.1 (by decide)
  · have hchar : c.isAlphanum = true := by
      rcases h.2 c hc with hd | ⟨hlow, hhigh⟩
      · simp [Char.isAlphanum, hd]
      · have hlower : c.val ≥ 'a'.val ∧ c.val ≤ 'z'.val :=
          ⟨hlow, UInt32.le_trans (show c.val ≤ 'f'.val from hhigh) (by decide)⟩
        rw [isAlphanum_eq, decide_eq_true hlower.1, decide_eq_true hlower.2, Bool.true_and, Bool.or_true, Bool.true_or]
    simp [plain, hchar]

theorem plain_operationKey {meetingId : MeetingId} {key : String}
    (hid : isCanonicalMeetingId meetingId = true) (h : OperationKey meetingId key) : PlainText key := by
  have hstart : PlainText ("meeting:" ++ meetingId) :=
    PlainText.append ⟨by decide, List.all_eq_true.mp (by decide)⟩ (plain_canonicalMeetingId hid)
  cases h with
  | initial => exact hstart.append (List.all_eq_true.mp (by decide))
  | reprocess hop =>
    exact (hstart.append (List.all_eq_true.mp (by decide))).append (plain_operationId hop)
  | revision hrev =>
    exact (hstart.append (List.all_eq_true.mp (by decide))).append (plain_audioRevision hrev).1.chars

/-! ### What is read back -/

theorem sanitize_plain {value : String} (h : PlainText value) (n : ℕ) :
    sanitizeOptionalContextValue (some value) n = some (String.ofList (value.toList.take n)) := by
  have htrim : trim value.toList = value.toList :=
    trim_eq_self fun c hc => isWhiteSpace_of_plain (h.chars c hc)
  have hslice : slice n value.toList = value.toList.take n :=
    slice_of_units fun c hc => units_of_plain (h.chars c hc)
  simp only [sanitizeOptionalContextValue, Option.getD_some, htrim, hslice]
  exact if_neg h.nonempty

theorem sanitize_eq_self_iff {value : String} (h : PlainText value) {n : ℕ} :
    sanitizeOptionalContextValue (some value) n = some value ↔ value.length ≤ n := by
  rw [sanitize_plain h, Option.some.injEq, ← String.length_toList, ← List.take_eq_self_iff]
  constructor
  · intro he
    have hlist := congrArg String.toList he
    rwa [String.toList_ofList] at hlist
  · intro he
    rw [he, String.ofList_toList]

/-- Nothing longer than the limit is read back. -/
theorem length_of_sanitize {value : Option String} {n : ℕ} {read : String}
    (h : sanitizeOptionalContextValue value n = some read) : read.length ≤ n := by
  have hlength : ∀ (n : ℕ) (l : List Char), (slice n l).length ≤ n := by
    intro n l
    induction l generalizing n with
    | nil => simp [slice]
    | cons c l ih =>
      rw [slice]
      split_ifs with hc
      · have h1 := ih (n - utf16Units c)
        have h2 : 1 ≤ utf16Units c := by unfold utf16Units; split_ifs <;> decide
        rw [List.length_cons]
        omega
      · simp
  simp only [sanitizeOptionalContextValue] at h
  split_ifs at h
  cases h
  rw [← String.length_toList, String.toList_ofList]
  exact hlength n _

section Messages

variable {sanitizeMessage : String → String}

theorem orText_orText (value : String) : orText (some value) "" = value := by
  unfold orText
  by_cases h : value = ""
  · subst h; rfl
  · simp [Option.filter, h]

/-- A written state is read back with its key and its revision sanitized. -/
theorem identity_read (now : Timestamp) (meetingId : MeetingId) (state : MeetingFinalizationState) :
    (normalizeState sanitizeMessage now meetingId (writeState state)).identity =
      { state.identity with
        processingOperationKey := sanitizeOptionalContextValue state.processingOperationKey 240
        audioRevision := sanitizeOptionalContextValue state.audioRevision 128 } := by
  simp only [MeetingFinalizationState.identity, normalizeState, writeState, orText_orText]

/-- The key and the revision are read back as they are. -/
structure Readable (identity : FinalizationIdentity) : Prop where
  key : sanitizeOptionalContextValue identity.processingOperationKey 240 =
    identity.processingOperationKey
  revision : sanitizeOptionalContextValue identity.audioRevision 128 = identity.audioRevision

theorem Readable.identity_read {state : MeetingFinalizationState} (h : Readable state.identity)
    (now : Timestamp) (meetingId : MeetingId) :
    (normalizeState sanitizeMessage now meetingId (writeState state)).identity = state.identity := by
  rw [Identity.identity_read]
  have hkey := h.key
  have hrevision := h.revision
  simp only [MeetingFinalizationState.identity] at hkey hrevision ⊢
  rw [hkey, hrevision]

/-! ### While nothing else writes the projection -/

/-- The object after a refresh of the lease. -/
def afterRefresh (sanitizeMessage : String → String) (meetingId : MeetingId) (raw : StoredState)
    (r : Timestamp × FinalizationIdentity × ℕ) : StoredState :=
  (refreshMeetingFinalizationLease sanitizeMessage r.1 meetingId r.2.1 r.2.2 (some raw)).2.getD raw

def refreshes (sanitizeMessage : String → String) (meetingId : MeetingId)
    (l : List (Timestamp × FinalizationIdentity × ℕ)) (raw : StoredState) : StoredState :=
  l.foldl (afterRefresh sanitizeMessage meetingId) raw

/-- The object is read back as the processing state of the run. -/
def Held (sanitizeMessage : String → String) (meetingId : MeetingId) (identity : FinalizationIdentity)
    (raw : StoredState) : Prop :=
  ∀ now, (normalizeState sanitizeMessage now meetingId raw).identity = identity ∧
    (normalizeState sanitizeMessage now meetingId raw).status = .processing

variable {meetingId : MeetingId} {identity : FinalizationIdentity} {raw : StoredState}

theorem held_write {state : MeetingFinalizationState} (h : Readable state.identity)
    (hs : state.status = .processing) :
    Held sanitizeMessage meetingId state.identity (writeState state) :=
  fun now => ⟨h.identity_read now meetingId, hs⟩

/-- What a refresh does to the object of a run. -/
theorem refresh_held (h : Held sanitizeMessage meetingId identity raw) (now : Timestamp) (expected : FinalizationIdentity) (leaseMs : ℕ) :
    (expected ≠ identity ∧ refreshMeetingFinalizationLease sanitizeMessage now meetingId expected leaseMs
      (some raw) = (some (normalizeState sanitizeMessage now meetingId raw), none)) ∨
    expected = identity ∧ ∃ state, state.identity = identity ∧ state.status = .processing ∧
      state.leaseExpiresAt = some (now + leaseMs) ∧
      refreshMeetingFinalizationLease sanitizeMessage now meetingId expected leaseMs (some raw) =
        (some state, some (writeState state)) := by
  obtain ⟨hid, hstatus⟩ := h now
  unfold refreshMeetingFinalizationLease readMeetingFinalizationState
  by_cases he : expected = identity
  · refine .inr ⟨he, refreshedState now meetingId leaseMs
      (normalizeState sanitizeMessage now meetingId raw), hid, hstatus, rfl, if_neg ?_⟩
    simp [sameFinalizationIdentity, hid, hstatus, he]
  · exact .inl ⟨he, if_pos (by simp [sameFinalizationIdentity, hid, Ne.symm he])⟩

theorem held_refreshes (hread : Readable identity) (l : List (Timestamp × FinalizationIdentity × ℕ))
    (h : Held sanitizeMessage meetingId identity raw) :
    Held sanitizeMessage meetingId identity (refreshes sanitizeMessage meetingId l raw) := by
  induction l generalizing raw with
  | nil => exact h
  | cons r l ih =>
    refine ih ?_
    unfold afterRefresh
    rcases refresh_held h r.1 r.2.1 r.2.2 with ⟨-, he⟩ | ⟨-, state, hid, hs, -, he⟩
    · rw [he]; exact h
    · rw [he]
      exact hid ▸ held_write (hid.symm ▸ hread) hs

/-- The run that `startMeetingFinalization` began recognizes the object it wrote, also after refreshes of
its lease: the identity that is read back is that of the run; completing and failing it take effect;
and its lease is extended. -/
structure RecognizesItself (sanitizeMessage : String → String) (now : Timestamp)
    (input : StartFinalizationInput) (stored : Option StoredState) : Prop where
  identity : ∀ state raw,
    startMeetingFinalization sanitizeMessage now input stored = (state, some raw) →
    ∀ l later, (normalizeState sanitizeMessage later input.meetingId
      (refreshes sanitizeMessage input.meetingId l raw)).identity = state.identity
  completes : ∀ state raw,
    startMeetingFinalization sanitizeMessage now input stored = (state, some raw) →
    ∀ l later resultGeneratedAt qualityStatus, ∃ raw',
      (completeMeetingFinalization sanitizeMessage later state resultGeneratedAt qualityStatus
        (some (refreshes sanitizeMessage input.meetingId l raw))).2 = some raw' ∧
      ∀ t, (normalizeState sanitizeMessage t input.meetingId raw').status = .completed
  fails : ∀ state raw,
    startMeetingFinalization sanitizeMessage now input stored = (state, some raw) →
    ∀ l later error, ∃ raw',
      (failMeetingFinalization sanitizeMessage later state error
        (some (refreshes sanitizeMessage input.meetingId l raw))).2 = some raw' ∧
      ∀ t, (normalizeState sanitizeMessage t input.meetingId raw').status = .failed
  refreshed : ∀ state raw,
    startMeetingFinalization sanitizeMessage now input stored = (state, some raw) →
    ∀ l later leaseMs, ∃ raw',
      (refreshMeetingFinalizationLease sanitizeMessage later input.meetingId state.identity leaseMs
        (some (refreshes sanitizeMessage input.meetingId l raw))).2 = some raw' ∧
      ∀ t, (normalizeState sanitizeMessage t input.meetingId raw').leaseExpiresAt =
        some (later + leaseMs)

variable {now : Timestamp} {input : StartFinalizationInput} {stored : Option StoredState}
  {state : MeetingFinalizationState}

variable {key audioRevision : String}

theorem readable_started (hkey : PlainText key) (hlength : key.length ≤ 240)
    (hrevision : validAudioRevision audioRevision = true)
    (hinput : input.processingOperationKey = some key ∧ input.audioRevision = some audioRevision)
    (previous own : Option MeetingFinalizationState) :
    Readable (startedState now input previous own).identity := by
  obtain ⟨hplain, hl⟩ := plain_audioRevision hrevision
  simp only [startedState, MeetingFinalizationState.identity, hinput.1, hinput.2]
  exact ⟨(sanitize_eq_self_iff hkey).mpr hlength, (sanitize_eq_self_iff hplain).mpr (by omega)⟩

/-- Completing and failing take effect on the object of the run. -/
theorem Held.unsettled {state : MeetingFinalizationState}
    (h : Held sanitizeMessage meetingId state.identity raw) (now : Timestamp) :
    (readMeetingFinalizationState sanitizeMessage now meetingId (some raw)).filter
      (settledOrForeign state) = none := by
  obtain ⟨hid, hs⟩ := h now
  refine Option.filter_eq_none_iff.mpr fun current hc => ?_
  cases hc
  simp [settledOrForeign, sameFinalizationIdentity, hid, hs]

/-- A run recognizes itself exactly when its key is not cut. -/
theorem recognizesItself_iff (hkey : PlainText key)
    (hrevision : validAudioRevision audioRevision = true)
    (hinput : input.processingOperationKey = some key ∧ input.audioRevision = some audioRevision) :
    RecognizesItself sanitizeMessage now input stored ↔ key.length ≤ 240 := by
  constructor
  · intro h
    rcases start_cases sanitizeMessage now input stored with ⟨previous, hread, hrec, -, -⟩ | ⟨state, he, hs⟩
    · -- the state found has the key of the run, and was read
      obtain ⟨raw, -, rfl⟩ := Option.map_eq_some_iff.mp hread
      have hid : _ = _ := eq_of_beq hrec
      have hk := congrArg FinalizationIdentity.processingOperationKey hid
      exact length_of_sanitize (hk.trans hinput.1)
    · have hread := h.identity state _ he [] now
      rw [show refreshes sanitizeMessage input.meetingId [] (writeState state) = writeState state from rfl,
        identity_read] at hread
      have hk := congrArg FinalizationIdentity.processingOperationKey hread
      have hstate : state.processingOperationKey = some key := by
        rw [hs, startedState, hinput.1]
        rfl
      have hk : sanitizeOptionalContextValue state.processingOperationKey 240 =
        state.processingOperationKey := hk
      rw [hstate] at hk
      exact (sanitize_eq_self_iff hkey).mp hk
  · intro hlength
    have held : ∀ state raw, startMeetingFinalization sanitizeMessage now input stored =
        (state, some raw) → Readable state.identity ∧ ∀ l, Held sanitizeMessage input.meetingId
          state.identity (refreshes sanitizeMessage input.meetingId l raw) := by
      intro state raw h
      obtain ⟨rfl, hs⟩ := started_of_written h
      have hread : Readable state.identity :=
        hs ▸ readable_started hkey hlength hrevision hinput _ _
      exact ⟨hread, fun l => held_refreshes hread l (held_write hread (hs ▸ rfl))⟩
    have hmeeting : ∀ state raw, startMeetingFinalization sanitizeMessage now input stored =
        (state, some raw) → state.meetingId = input.meetingId := by
      intro state raw h
      rw [(started_of_written h).2]
      rfl
    constructor
    · intro state raw h l later
      exact ((held state raw h).2 l later).1
    · intro state raw h l later resultGeneratedAt qualityStatus
      have hfilter := ((held state raw h).2 l).unsettled later
      unfold completeMeetingFinalization
      dsimp only
      rw [hmeeting state raw h, hfilter]
      exact ⟨_, rfl, fun t => rfl⟩
    · intro state raw h l later error
      have hfilter := ((held state raw h).2 l).unsettled later
      unfold failMeetingFinalization
      dsimp only
      rw [hmeeting state raw h, hfilter]
      exact ⟨_, rfl, fun t => rfl⟩
    · intro state raw h l later leaseMs
      rcases refresh_held ((held state raw h).2 l) later state.identity leaseMs with
        ⟨hne, -⟩ | ⟨-, next, -, -, hlease, he⟩
      · exact absurd rfl hne
      · exact ⟨writeState next, by rw [he], fun t => hlease⟩

/-! ### Heartbeats -/

/-- The run of a worker: the projection is what queueing the job left. -/
structure ClaimedFor (sanitizeMessage : String → String) (input : StartFinalizationInput)
    (stored : Option StoredState) (job : JobRow) : Prop where
  valid : job.valid = true
  meetingId : input.meetingId = job.meetingId
  ownerUserId : input.ownerUserId = job.ownerUserId
  key : input.processingOperationKey = some (usageOperationKey job)
  /-- A worker stops where the revision of the row is not that of the audio. -/
  revision : job.audioRevision = none ∨ job.audioRevision = input.audioRevision
  queued : ∃ t next before, stored =
    some (writeState (queueMeetingFinalization sanitizeMessage t (queueInput job next) before))

/-- The queue and the projection after heartbeats. -/
def heartbeats (sanitizeMessage : String → String) (job : JobRow) (workerId : WorkerId)
    (beats : List (Timestamp × ℕ)) (s : QueueState × Option StoredState) :
    QueueState × Option StoredState :=
  beats.foldl (fun s beat => (heartbeat sanitizeMessage beat.1 job workerId beat.2 true s.1 s.2).2) s

/-- How a run settles its state. -/
inductive RunEnd
  | completes (now resultGeneratedAt : Timestamp) (qualityStatus : QualityStatus)
  | fails (now : Timestamp) (error : WorkerError)

def RunEnd.write (sanitizeMessage : String → String) (state : MeetingFinalizationState)
    (stored : Option StoredState) : RunEnd → Option StoredState
  | .completes now resultGeneratedAt qualityStatus =>
    (completeMeetingFinalization sanitizeMessage now state resultGeneratedAt qualityStatus stored).2
  | .fails now error => (failMeetingFinalization sanitizeMessage now state error stored).2

/-- The run of a worker, with its heartbeats: those before it starts, those until it settles its state, and
those after that. -/
structure WorkerRun where
  early : List (Timestamp × ℕ) := []
  during : List (Timestamp × ℕ)
  ending : RunEnd
  late : List (Timestamp × ℕ) := []

/-- The queue and the projection at the end of the run. -/
def WorkerRun.run (sanitizeMessage : String → String) (now : Timestamp) (input : StartFinalizationInput)
    (job : JobRow) (workerId : WorkerId) (r : WorkerRun) (s : QueueState × Option StoredState) :
    QueueState × Option StoredState :=
  let s := heartbeats sanitizeMessage job workerId r.early s
  let started := startMeetingFinalization sanitizeMessage now input s.2
  let s := heartbeats sanitizeMessage job workerId r.during (s.1, started.2 <|> s.2)
  heartbeats sanitizeMessage job workerId r.late
    (s.1, r.ending.write sanitizeMessage started.1 s.2 <|> s.2)

/-- The job is in processing in the hands of the worker. -/
def InHands (s : QueueState) (jobId : JobId) (workerId : WorkerId) : Prop :=
  ∃ row, s.jobs.get? jobId = some row ∧ row.lockedBy = some workerId ∧ row.status = .processing

/-- The worker that holds the job keeps it through its run. -/
def KeepsJob (sanitizeMessage : String → String) (now : Timestamp) (input : StartFinalizationInput)
    (stored : Option StoredState) (job : JobRow) (r : WorkerRun) : Prop :=
  ∀ s workerId, InHands s job.id workerId →
    InHands (r.run sanitizeMessage now input job workerId (s, stored)).1 job.id workerId

variable {workerId : WorkerId} {s : QueueState} {leaseMs : ℕ} {job : JobRow}

theorem heartbeatJob_of_held (now : Timestamp) (leaseMs : ℕ) {jobId : JobId} (h : InHands s jobId workerId) :
    ∃ s', heartbeatJob now jobId workerId leaseMs s = .ok ((), s') ∧ InHands s' jobId workerId := by
  obtain ⟨row, hrow, hl, hs⟩ := h
  have hfilter : (s.jobs.get? jobId).filter
      (fun row => row.heldBy workerId && row.status == .processing) = some row :=
    Option.filter_eq_some_iff.mpr ⟨hrow, by simp [JobRow.heldBy, hl, hs]⟩
  unfold heartbeatJob updateJob
  rw [hfilter]
  refine ⟨_, rfl, { row with leaseExpiresAt := some (now + leaseMs), updatedAt := now }, ?_, hl, hs⟩
  obtain ⟨hm, hk⟩ := Table.get?_eq_some.mp hrow
  exact Table.get?_eq_some.mpr ⟨Table.mem_replace_self hm rfl, hk⟩

/-- A heartbeat does not bring a job back into the hands of the worker. -/
theorem inHands_before {now : Timestamp} {stored : Option StoredState}
    (h : InHands (heartbeat sanitizeMessage now job workerId leaseMs true s stored).2.1 job.id workerId) :
    InHands s job.id workerId := by
  unfold heartbeat heartbeatJob updateJob at h
  cases hfilter : (s.jobs.get? job.id).filter
      (fun row => row.heldBy workerId && row.status == .processing) with
  | none =>
    rw [hfilter] at h
    exact h
  | some row =>
    obtain ⟨hrow, hp⟩ := Option.filter_eq_some_iff.mp hfilter
    rw [Bool.and_eq_true] at hp
    exact ⟨row, hrow, beq_iff_eq.mp hp.1, beq_iff_eq.mp hp.2⟩

theorem heartbeats_cons (job : JobRow) (workerId : WorkerId) (beat : Timestamp × ℕ)
    (beats : List (Timestamp × ℕ)) (s : QueueState × Option StoredState) :
    heartbeats sanitizeMessage job workerId (beat :: beats) s = heartbeats sanitizeMessage job workerId
      beats (heartbeat sanitizeMessage beat.1 job workerId beat.2 true s.1 s.2).2 := rfl

theorem inHands_before_all (beats : List (Timestamp × ℕ)) {s : QueueState × Option StoredState}
    (h : InHands (heartbeats sanitizeMessage job workerId beats s).1 job.id workerId) :
    InHands s.1 job.id workerId := by
  induction beats generalizing s with
  | nil => exact h
  | cons beat beats ih => exact inHands_before (ih h)

theorem processedFor_of_identity {current : MeetingFinalizationState} (hs : current.status = .processing)
    (hid : current.identity = jobIdentity job) : processedFor job current = true := by
  have hjob := congrArg FinalizationIdentity.jobId hid
  have hk := congrArg FinalizationIdentity.processingOperationKey hid
  have hr := congrArg FinalizationIdentity.audioRevision hid
  simp only [MeetingFinalizationState.identity, jobIdentity] at hjob hk hr
  simp [processedFor, hs, hjob, hk, hr]

/-- A heartbeat on the object of the job's run. -/
theorem heartbeat_held (hread : Readable (jobIdentity job))
    (h : Held sanitizeMessage job.meetingId (jobIdentity job) raw) (hhands : InHands s job.id workerId)
    (now : Timestamp) (leaseMs : ℕ) :
    ∃ s' raw', heartbeat sanitizeMessage now job workerId leaseMs true s (some raw) =
        (.ok (), s', some raw') ∧ Held sanitizeMessage job.meetingId (jobIdentity job) raw' ∧
      InHands s' job.id workerId := by
  obtain ⟨s', hbeat, hhands'⟩ := heartbeatJob_of_held now leaseMs hhands
  rcases refresh_held h now (jobIdentity job) leaseMs with ⟨hne, -⟩ | ⟨-, next, hid, hstatus, -, he⟩
  · exact absurd rfl hne
  · refine ⟨s', writeState next, ?_, hid ▸ held_write (hid.symm ▸ hread) hstatus, hhands'⟩
    unfold heartbeat
    rw [hbeat]
    simp [heartbeatProjection, he, processedFor_of_identity hstatus hid]

theorem keeps_of_held (hread : Readable (jobIdentity job)) (beats : List (Timestamp × ℕ)) {raw : StoredState}
    (h : Held sanitizeMessage job.meetingId (jobIdentity job) raw) (hhands : InHands s job.id workerId) :
    ∃ s' raw', heartbeats sanitizeMessage job workerId beats (s, some raw) = (s', some raw') ∧
      Held sanitizeMessage job.meetingId (jobIdentity job) raw' ∧ InHands s' job.id workerId := by
  induction beats generalizing s raw with
  | nil => exact ⟨s, raw, rfl, h, hhands⟩
  | cons beat beats ih =>
    obtain ⟨s', raw', he, hheld, hhands'⟩ := heartbeat_held hread h hhands beat.1 beat.2
    obtain ⟨s'', raw'', hlast⟩ := ih hheld hhands'
    refine ⟨s'', raw'', ?_⟩
    rw [heartbeats_cons, he]
    exact hlast

/-- A refresh gives back the key and the revision that were read. -/
theorem refresh_read {now : Timestamp} {expected : FinalizationIdentity}
    (h : (refreshMeetingFinalizationLease sanitizeMessage now meetingId expected leaseMs (some raw)).1 = some state) :
    state.processingOperationKey =
        (normalizeState sanitizeMessage now meetingId raw).processingOperationKey ∧
      state.audioRevision = (normalizeState sanitizeMessage now meetingId raw).audioRevision := by
  unfold refreshMeetingFinalizationLease readMeetingFinalizationState at h
  simp only [Option.map_some] at h
  split_ifs at h
  · cases h
    exact ⟨rfl, rfl⟩
  · cases h
    exact ⟨rfl, rfl⟩

/-- A heartbeat that leaves the job in processing found the projection of the job. -/
theorem processedFor_of_heartbeat {now : Timestamp}
    (h : InHands (heartbeat sanitizeMessage now job workerId leaseMs true s (some raw)).2.1 job.id workerId) :
    ∃ current, (refreshMeetingFinalizationLease sanitizeMessage now job.meetingId (jobIdentity job) leaseMs
      (some raw)).1 = some current ∧ processedFor job current = true := by
  obtain ⟨s1, hbeat, row1, hrow1, hl1, -⟩ := heartbeatJob_of_held now leaseMs (inHands_before h)
  obtain ⟨row', hrow', -, hs'⟩ := h
  unfold heartbeat at hrow'
  rw [hbeat] at hrow'
  unfold heartbeatProjection at hrow'
  by_cases hp : (refreshMeetingFinalizationLease sanitizeMessage now job.meetingId (jobIdentity job)
      leaseMs (some raw)).1.any (processedFor job) = true
  · exact (Option.any_eq_true _ _).mp hp
  · -- the job is cancelled
    exfalso
    have hcancelled : (cancelJob sanitizeMessage now job.id workerId projectionLeaseLost s1).2.jobs.get?
        job.id = some row' := by
      rw [← hrow']
      simp only [Bool.not_true, Bool.false_eq_true, if_false]
      rw [if_neg hp]
    have hfilter : (s1.jobs.get? job.id).filter (·.heldBy workerId) = some row1 :=
      Option.filter_eq_some_iff.mpr ⟨hrow1, by simp [JobRow.heldBy, hl1]⟩
    unfold cancelJob updateJob at hcancelled
    rw [hfilter] at hcancelled
    obtain ⟨hm, hk⟩ := Table.get?_eq_some.mp hrow1
    have hself := Table.get?_eq_some.mpr ⟨Table.mem_replace_self hm
      (x := recordedError sanitizeMessage projectionLeaseLost (unlocked now .cancelled row1)) rfl, hk⟩
    cases Option.some.inj (hself.symm.trans hcancelled)
    cases hs'

/-- A heartbeat that finds a state which is not in processing cancels the job. -/
theorem not_inHands_of_status {now : Timestamp}
    (h : (normalizeState sanitizeMessage now job.meetingId raw).status ≠ .processing) :
    ¬InHands (heartbeat sanitizeMessage now job workerId leaseMs true s (some raw)).2.1 job.id
      workerId := by
  intro hhands
  obtain ⟨current, hcurrent, hp⟩ := processedFor_of_heartbeat hhands
  unfold refreshMeetingFinalizationLease readMeetingFinalizationState at hcurrent
  simp only [Option.map_some] at hcurrent
  rw [if_pos (Or.inl h)] at hcurrent
  cases hcurrent
  simp only [processedFor, Bool.and_eq_true, beq_iff_eq] at hp
  exact h hp.1.1.1

theorem usageOperationKey_eq (hvalid : job.valid = true) {k : String} (h : job.processingOperationKey = some k) :
    usageOperationKey job = k ∧ k.length ≤ 240 := by
  simp only [JobRow.valid, Bool.and_eq_true, h, Option.all_some, decide_eq_true_eq] at hvalid
  obtain ⟨⟨-, hpos, hlength⟩, -⟩ := hvalid
  have hne : k ≠ "" := by
    rintro rfl
    exact absurd hpos (by decide)
  simp [usageOperationKey, h, Option.filter, hne, hlength]

/-- The identity that queueing a job leaves. -/
theorem identity_queued (sanitizeMessage : String → String) (hkey : job.processingOperationKey = some key)
    (hrevision : job.audioRevision = some audioRevision) (t next : Timestamp) (before : Option StoredState) :
    (queueMeetingFinalization sanitizeMessage t (queueInput job next) before).identity =
      jobIdentity job := by
  simp only [queueMeetingFinalization, queueInput, MeetingFinalizationState.identity, jobIdentity, hkey,
    hrevision]
  rfl

/-- The run of a worker starts: what is stored is queued. -/
theorem start_claimed (hclaimed : ClaimedFor sanitizeMessage input stored job) (now : Timestamp) :
    ∃ state, startMeetingFinalization sanitizeMessage now input stored = (state, some (writeState state)) ∧
      state = startedState now input
        (readMeetingFinalizationState sanitizeMessage now input.meetingId stored)
        ((readMeetingFinalizationState sanitizeMessage now input.meetingId stored).filter
          (recognized input)) := by
  obtain ⟨t, next, before, hqueued⟩ := hclaimed.queued
  rcases start_cases sanitizeMessage now input stored with ⟨previous, hread, -, hcompleted, -⟩ | hstart
  · rw [hqueued] at hread
    cases hread
    cases hcompleted
  · exact hstart

/-- Where the row of the job carries the key and the revision of the run, the run starts with the identity
of the job. -/
theorem held_claimed (hclaimed : ClaimedFor sanitizeMessage input stored job) (hkey : PlainText key)
    (hrevision : validAudioRevision audioRevision = true)
    (hinput : input.processingOperationKey = some key ∧ input.audioRevision = some audioRevision)
    (hcolumns : job.processingOperationKey = some key ∧ job.audioRevision = some audioRevision)
    (hstart : startMeetingFinalization sanitizeMessage now input stored = (state, some raw)) :
    Readable (jobIdentity job) ∧ state.identity = jobIdentity job ∧
      Held sanitizeMessage job.meetingId (jobIdentity job) raw := by
  obtain ⟨hjobKey, hjobRev⟩ := hcolumns
  obtain ⟨t, next, before, hqueued⟩ := hclaimed.queued
  obtain ⟨hplain, hl⟩ := plain_audioRevision hrevision
  have hlength := (usageOperationKey_eq hclaimed.valid hjobKey).2
  have hread : Readable (jobIdentity job) := by
    refine ⟨?_, ?_⟩
    · rw [show (jobIdentity job).processingOperationKey = some key from hjobKey]
      exact (sanitize_eq_self_iff hkey).mpr hlength
    · rw [show (jobIdentity job).audioRevision = some audioRevision from hjobRev]
      exact (sanitize_eq_self_iff hplain).mpr (by omega)
  have hid := identity_queued sanitizeMessage hjobKey hjobRev t next before
  obtain ⟨previous, hpreviousEq⟩ : ∃ previous, readMeetingFinalizationState sanitizeMessage now
      input.meetingId stored = some previous := by rw [hqueued]; exact ⟨_, rfl⟩
  have hprevious : previous.identity = jobIdentity job := by
    rw [hqueued] at hpreviousEq
    cases hpreviousEq
    exact (Readable.identity_read (hid.symm ▸ hread) now input.meetingId).trans hid
  have hpreviousJob : previous.jobId = some job.id :=
    congrArg FinalizationIdentity.jobId hprevious
  have hrecognized : recognized input previous = true := by
    rw [recognized, sameFinalizationIdentity, hprevious, hpreviousJob, hinput.1, hinput.2,
      hclaimed.ownerUserId, jobIdentity, hjobKey, hjobRev]
    exact beq_self_eq_true _
  obtain ⟨rfl, hs⟩ := started_of_written hstart
  have hstate : state.identity = jobIdentity job := by
    rw [hs, hpreviousEq, show (some previous).filter (recognized input) = some previous from
      Option.filter_eq_some_iff.mpr ⟨rfl, hrecognized⟩]
    simp only [startedState, MeetingFinalizationState.identity, jobIdentity, hinput.1, hinput.2,
      hclaimed.ownerUserId, hjobKey, hjobRev]
    exact congrArg (fun j => FinalizationIdentity.mk job.ownerUserId j (some key)
      (some audioRevision)) hpreviousJob
  exact ⟨hread, hstate, hstate ▸ held_write (hstate.symm ▸ hread) (hs ▸ rfl)⟩

/-- A heartbeat that keeps the job after the run has started found the key and the revision of the run in
the row. -/
theorem columns_of_kept (hclaimed : ClaimedFor sanitizeMessage input stored job) (hkey : PlainText key)
    (hrevision : validAudioRevision audioRevision = true)
    (hinput : input.processingOperationKey = some key ∧ input.audioRevision = some audioRevision)
    (hstart : startMeetingFinalization sanitizeMessage now input stored = (state, some raw)) {later : Timestamp}
    (h : InHands (heartbeat sanitizeMessage later job workerId leaseMs true s (some raw)).2.1 job.id workerId) :
    job.processingOperationKey = some key ∧ job.audioRevision = some audioRevision := by
  obtain ⟨hplain, hl⟩ := plain_audioRevision hrevision
  have hrev : sanitizeOptionalContextValue (some audioRevision) 128 = some audioRevision :=
    (sanitize_eq_self_iff hplain).mpr (by omega)
  obtain ⟨rfl, hs⟩ := started_of_written hstart
  obtain ⟨current, hcurrent, hp⟩ := processedFor_of_heartbeat h
  obtain ⟨hk, hr⟩ := refresh_read hcurrent
  have hkstate : state.processingOperationKey = some key := by
    rw [hs, startedState, hinput.1]; rfl
  have hrstate : state.audioRevision = some audioRevision := by
    rw [hs, startedState, hinput.2]; rfl
  simp only [normalizeState, writeState, hkstate, hrstate] at hk hr
  simp only [processedFor, Bool.and_eq_true, beq_iff_eq] at hp
  refine ⟨?_, by rw [← hp.2, hr, hrev]⟩
  have hjob : job.processingOperationKey = some (String.ofList (key.toList.take 240)) := by
    rw [← hp.1.2, hk, sanitize_plain hkey]
  have hkeyEq : usageOperationKey job = key := Option.some.inj (hclaimed.key.symm.trans hinput.1)
  rw [hjob, ← (usageOperationKey_eq hclaimed.valid hjob).1, hkeyEq]

/-- A state that is settled is not in processing. -/
theorem status_of_ending {ending : RunEnd} {settled : StoredState}
    (h : ending.write sanitizeMessage state stored = some settled) (now : Timestamp)
    (meetingId : MeetingId) :
    (normalizeState sanitizeMessage now meetingId settled).status ≠ .processing := by
  cases ending with
  | completes later resultGeneratedAt qualityStatus =>
    simp only [RunEnd.write, completeMeetingFinalization] at h
    split at h
    · cases h
    · cases h
      exact fun h => by cases h
  | fails later error =>
    simp only [RunEnd.write, failMeetingFinalization] at h
    split at h
    · cases h
    · cases h
      exact fun h => by cases h

/-- The end of a run settles the object of the run. -/
theorem Held.settled {job : JobRow} (h : Held sanitizeMessage job.meetingId (jobIdentity job) raw)
    (hid : state.identity = jobIdentity job) (hmeeting : state.meetingId = job.meetingId)
    (ending : RunEnd) : ∃ settled, ending.write sanitizeMessage state (some raw) = some settled := by
  rw [← hid] at h
  cases ending with
  | completes later resultGeneratedAt qualityStatus =>
    simp only [RunEnd.write, completeMeetingFinalization, hmeeting, h.unsettled later]
    exact ⟨_, rfl⟩
  | fails later error =>
    simp only [RunEnd.write, failMeetingFinalization, hmeeting, h.unsettled later]
    exact ⟨_, rfl⟩

/-- A job that is kept through the run was kept until its start. -/
theorem inHands_at_start {r : WorkerRun} {s : QueueState × Option StoredState}
    (h : InHands (r.run sanitizeMessage now input job workerId s).1 job.id workerId) :
    InHands (heartbeats sanitizeMessage job workerId r.early s).1 job.id workerId := by
  simp only [WorkerRun.run] at h
  have hend := inHands_before_all _ h
  have hstart := inHands_before_all _ hend
  exact hstart

/-- A run without a heartbeat before its start. -/
theorem run_of_start {during late : List (Timestamp × ℕ)} {ending : RunEnd}
    (hstart : startMeetingFinalization sanitizeMessage now input stored = (state, some raw)) :
    let p := heartbeats sanitizeMessage job workerId during (s, some raw)
    WorkerRun.run sanitizeMessage now input job workerId { during, ending, late } (s, stored) =
      heartbeats sanitizeMessage job workerId late
        (p.1, ending.write sanitizeMessage state p.2 <|> p.2) := by
  have hnone : heartbeats sanitizeMessage job workerId [] (s, stored) = (s, stored) := rfl
  simp only [WorkerRun.run, hnone, hstart]
  rfl

/-- The worker that claimed a job keeps it exactly when it sends no heartbeat before the run has started or
after it has settled its state, and the row of the job carries the key and the revision of the run where
it sends one in between. -/
theorem keepsJob_iff {r : WorkerRun} (hclaimed : ClaimedFor sanitizeMessage input stored job) (hkey : PlainText key)
    (hrevision : validAudioRevision audioRevision = true)
    (hinput : input.processingOperationKey = some key ∧ input.audioRevision = some audioRevision) :
    KeepsJob sanitizeMessage now input stored job r ↔
      r.early = [] ∧ r.late = [] ∧ (r.during ≠ [] →
        job.processingOperationKey = some key ∧ job.audioRevision = some audioRevision) := by
  obtain ⟨state, hstart, hs⟩ := start_claimed hclaimed now
  obtain ⟨early, during, ending, late⟩ := r
  constructor
  · intro hkeeps
    let row : JobRow := { job with lockedBy := some "w", status := .processing }
    let s : QueueState := { jobs := Table.empty.insert row }
    have hrow : s.jobs.get? job.id = some row :=
      Table.get?_insert_self fun x hx => absurd hx (Table.not_mem_empty x)
    have hlast := hkeeps s "w" ⟨row, hrow, rfl, rfl⟩
    -- nothing is sent before the run has started
    obtain rfl : early = [] := by
      cases early with
      | nil => rfl
      | cons beat early =>
        exfalso
        have hfirst := inHands_before_all early (inHands_at_start hlast)
        obtain ⟨t, next, before, hqueued⟩ := hclaimed.queued
        rw [hqueued] at hfirst
        exact not_inHands_of_status (fun h => by cases h) hfirst
    rw [run_of_start hstart] at hlast
    have hbefore := inHands_before_all late hlast
    have hcolumns : during ≠ [] → job.processingOperationKey = some key ∧
        job.audioRevision = some audioRevision := by
      intro hne
      obtain ⟨beat, during, rfl⟩ := List.exists_cons_of_ne_nil hne
      exact columns_of_kept hclaimed hkey hrevision hinput hstart (inHands_before_all during hbefore)
    refine ⟨rfl, ?_, hcolumns⟩
    cases late with
    | nil => rfl
    | cons beat late =>
      exfalso
      have hfirst := inHands_before_all late hlast
      -- what the heartbeat after the end finds is settled, or still that of the start
      have hunsettled : ∀ p, heartbeats sanitizeMessage job "w" during (s, some (writeState state)) = p →
          ending.write sanitizeMessage state p.2 = none := by
        rintro p rfl
        cases hwritten : ending.write sanitizeMessage state (heartbeats sanitizeMessage job "w" during
            (s, some (writeState state))).2 with
        | none => rfl
        | some settled =>
          rw [hwritten] at hfirst
          exact absurd hfirst (not_inHands_of_status (status_of_ending hwritten beat.1 job.meetingId))
      have hfound : job.processingOperationKey = some key ∧ job.audioRevision = some audioRevision := by
        by_cases hnone : during = []
        · subst hnone
          rw [hunsettled _ rfl] at hfirst
          exact columns_of_kept hclaimed hkey hrevision hinput hstart hfirst
        · exact hcolumns hnone
      obtain ⟨hread, hid, hheld⟩ := held_claimed hclaimed hkey hrevision hinput hfound hstart
      obtain ⟨s', raw', he, hheld', -⟩ := keeps_of_held hread during hheld ⟨row, hrow, rfl, rfl⟩
      obtain ⟨settled, hsettled⟩ := hheld'.settled hid (by rw [hs, ← hclaimed.meetingId]; rfl) ending
      cases hsettled.symm.trans (hunsettled _ he)
  · rintro ⟨rfl, rfl, hcolumns⟩ s workerId hhands
    rw [run_of_start hstart]
    by_cases hnone : during = []
    · rw [hnone]
      exact hhands
    · obtain ⟨hread, -, hheld⟩ := held_claimed hclaimed hkey hrevision hinput (hcolumns hnone) hstart
      obtain ⟨s', raw', he, -, hhands'⟩ := keeps_of_held hread during hheld hhands
      rw [he]
      exact hhands'

/-- The job of a worker's run, and its heartbeats. -/
structure JobRun (sanitizeMessage : String → String) (input : StartFinalizationInput)
    (stored : Option StoredState) where
  job : JobRow
  claimed : ClaimedFor sanitizeMessage input stored job
  run : WorkerRun

/-- The row of the job carries the key and the revision of the run where the worker sends heartbeats, and
it sends them only between the start of the run and its end. -/
def JobRun.Timely (r : JobRun sanitizeMessage input stored) : Prop :=
  r.run.early = [] ∧ r.run.late = [] ∧
    (r.run.during ≠ [] → r.job.processingOperationKey ≠ none ∧ r.job.audioRevision ≠ none)

end Messages

/-! ### A key that is cut -/

def repeated (n : ℕ) (c : Char) : String := String.ofList (List.replicate n c)

theorem length_repeated (n : ℕ) (c : Char) : (repeated n c).length = n := by
  rw [repeated, String.length_ofList, List.length_replicate]

theorem all_repeated {n : ℕ} {c : Char} {p : Char → Bool} (h : p c = true) :
    (repeated n c).toList.all p = true := by
  rw [repeated, String.toList_ofList, List.all_replicate, h, ite_self]

def someRevision : String := repeated 64 'a'

theorem validAudioRevision_someRevision : validAudioRevision someRevision = true := by
  rw [validAudioRevision, someRevision, length_repeated, String.all_bool_eq, all_repeated rfl]
  rfl

/-- A run of a meeting under an operation key. -/
def runInput (meetingId : MeetingId) (key : String) : StartFinalizationInput where
  meetingId := meetingId
  ownerUserId := "u"
  title := "weekly"
  leaseMs := 1000
  processingOperationKey := some key
  audioRevision := some someRevision

def firstJob : JobRow where
  id := "first"
  meetingId := "m"
  ownerUserId := "u"
  title := "weekly"
  contentLocale := .en
  forceRegenerate := false
  processingOperationKey := some (initialMeetingOperationKey "m")
  audioRevision := some someRevision
  processingMode := none
  maxAttempts := 5
  availableAt := 0
  createdAt := 0
  updatedAt := 0

/-- What queueing the job left. -/
def queuedFirst : StoredState :=
  writeState (queueMeetingFinalization id 0 (queueInput firstJob 0) none)

theorem claimedFor_first :
    ClaimedFor id (runInput "m" (initialMeetingOperationKey "m")) (some queuedFirst) firstJob where
  valid := by
    simp only [JobRow.valid, firstJob, Option.all_some, validAudioRevision_someRevision]
    decide
  meetingId := rfl
  ownerUserId := rfl
  key := by decide
  revision := .inr rfl
  queued := ⟨0, 0, none, rfl⟩

def longMeetingId : MeetingId := repeated 160 'm'

def longOperationId : String := repeated 96 'o'

theorem isCanonical_longMeetingId : isCanonicalMeetingId longMeetingId = true := by
  rw [isCanonicalMeetingId, longMeetingId, length_repeated, all_repeated rfl]
  rfl

theorem accepted_longOperationId : acceptedOperationId longOperationId = true := by
  rw [acceptedOperationId, longOperationId, length_repeated, all_repeated rfl]
  rfl

theorem length_longKey :
    (reprocessMeetingOperationKey longMeetingId longOperationId).length = 275 := by
  rw [reprocessMeetingOperationKey, String.length_append, String.length_append, String.length_append,
    longMeetingId, longOperationId, length_repeated, length_repeated]
  rfl

end OwnMinutes.Finalization.Identity
