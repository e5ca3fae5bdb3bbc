import Mathlib.Logic.Function.Basic
import OwnMinutes.Finalizer.Records
import OwnMinutes.Lib.JsText

/-! # Realtime sessions

The object that a meeting has for its realtime stream: what was received of it, and the transcript so far. A read that
fails is taken for an object that is not there, so a session may start again from nothing. -/

namespace OwnMinutes.Realtime.Sessions

open OwnMinutes.Lib.JsText OwnMinutes.Auth.ProcessingRoute OwnMinutes.Auth.Records
open OwnMinutes.Finalizer.Records (Provider)

abbrev Text := List Char

structure TranscriptSegment where
  id : String
  speaker : Text
  timestamp : Text
  text : Text
  deriving DecidableEq, Repr

inductive RealtimeSessionStatus
  | accepted | draft | notConfigured | pendingProtocol | providerError | reconnecting | completed | rejectedFormat
  deriving DecidableEq, Repr

/-- The times and the diagnostic text, which no decision reads, are left out. -/
structure RealtimeSessionSummary where
  meetingId : MeetingId
  ownerUserId : UserId
  chunkCount : ℕ := 0
  acceptedChunkCount : ℕ := 0
  rejectedChunkCount : ℕ := 0
  totalBytes : ℕ := 0
  totalDurationMs : ℚ := 0
  sampleRate : Option ℚ := none
  channels : Option ℚ := none
  lastSequence : Option ℤ := none
  highestSequence : Option ℤ := none
  duplicateSequenceCount : ℕ := 0
  outOfOrderCount : ℕ := 0
  lastByteDrift : Option ℤ := none
  maxAbsByteDrift : ℕ := 0
  formatMismatchCount : ℕ := 0
  provider : Provider := .mock
  adapter : String := "unknown"
  sessionId : Option String := none
  lastProviderStatus : Option RealtimeSessionStatus := none
  transcriptSegments : List TranscriptSegment := []
  lastTranscriptSegment : Option TranscriptSegment := none
  statusCounts : RealtimeSessionStatus → ℕ := fun _ => 0

structure RealtimeSessionAccessError where
  message : String
  status : ℕ := 403
  deriving DecidableEq, Repr

def sessionOfAnotherUser : RealtimeSessionAccessError :=
  { message := "This realtime session belongs to another user." }

def noAccessToSession : RealtimeSessionAccessError :=
  { message := "You do not have access to this realtime session." }

/-! ### The order of the chunks -/

inductive SequenceStatus
  | duplicate | next | outOfOrder
  deriving DecidableEq, Repr

structure SequenceDecision where
  expectedSequence : ℤ
  status : SequenceStatus
  deriving DecidableEq, Repr

def classifyRealtimeSequence (highestSequence : Option ℤ) (sequence : ℤ) : SequenceDecision :=
  let highest := max 0 (highestSequence.getD 0)
  let expectedSequence := highest + 1
  { expectedSequence
    status :=
      if sequence ≤ highest then .duplicate else if sequence = expectedSequence then .next else .outOfOrder }

/-! ### Transcripts -/

/-- `!text.trim()`. -/
def isBlank (text : Text) : Bool := (trim text).isEmpty

/-- Put a segment in the place of the one with its id, or after the others. -/
def putSegment (segments : List TranscriptSegment) (segment : TranscriptSegment) : List TranscriptSegment :=
  match segments.findIdx? fun item => item.id == segment.id with
  | some i => segments.set i segment
  | none => segments ++ [segment]

/-- `slice(-5000)`. -/
def lastSegments (segments : List TranscriptSegment) : List TranscriptSegment := segments.drop (segments.length - 5000)

def upsertTranscriptSegment (segments : List TranscriptSegment) (segment : Option TranscriptSegment) :
    List TranscriptSegment :=
  match segment.filter fun segment => !isBlank segment.text with
  | none => segments
  | some segment => lastSegments (putSegment segments segment)

def normalizeTranscriptSegment (item : TranscriptSegment) : TranscriptSegment :=
  { item with
    speaker := if isBlank item.speaker then "Speaker 1".toList else item.speaker
    timestamp := if isBlank item.timestamp then "00:00".toList else item.timestamp }

/-- The segments by their ids, the later ones in the place of the earlier. -/
def normalizeTranscriptSegments (segments : List TranscriptSegment) : List TranscriptSegment :=
  lastSegments <| segments.foldl
    (fun unique item => if isBlank item.text then unique else putSegment unique (normalizeTranscriptSegment item)) []

theorem mem_putSegment {segments : List TranscriptSegment} {s x : TranscriptSegment} (h : x ∈ putSegment segments s) :
    x ∈ segments ∨ x = s := by
  unfold putSegment at h
  split at h
  · exact List.mem_or_eq_of_mem_set h
  · simpa using h

theorem mem_lastSegments {segments : List TranscriptSegment} {x : TranscriptSegment} (h : x ∈ lastSegments segments) :
    x ∈ segments := List.mem_of_mem_drop h

theorem mem_upsertTranscriptSegment {segments : List TranscriptSegment} {segment : Option TranscriptSegment}
    {x : TranscriptSegment} (h : x ∈ upsertTranscriptSegment segments segment) : x ∈ segments ∨ segment = some x := by
  unfold upsertTranscriptSegment at h
  split at h
  · exact .inl h
  · rename_i s hs
    rcases mem_putSegment (mem_lastSegments h) with hold | rfl
    · exact .inl hold
    · exact .inr (Option.filter_eq_some_iff.mp hs).1

theorem mem_normalizeTranscriptSegments {segments : List TranscriptSegment} {x : TranscriptSegment}
    (h : x ∈ normalizeTranscriptSegments segments) : ∃ item ∈ segments, x = normalizeTranscriptSegment item := by
  have hfold : ∀ {items unique : List TranscriptSegment}, x ∈ items.foldl (fun unique item =>
      if isBlank item.text then unique else putSegment unique (normalizeTranscriptSegment item)) unique →
        x ∈ unique ∨ ∃ item ∈ items, x = normalizeTranscriptSegment item := by
    intro items
    induction items with
    | nil => exact fun h => .inl h
    | cons item items ih =>
      intro unique h
      rw [List.foldl_cons] at h
      rcases ih h with hunique | ⟨other, hother, heq⟩
      · split_ifs at hunique
        · exact .inl hunique
        · rcases mem_putSegment hunique with hold | heq
          · exact .inl hold
          · exact .inr ⟨item, List.mem_cons_self, heq⟩
      · exact .inr ⟨other, List.mem_cons_of_mem _ hother, heq⟩
  rcases hfold (mem_lastSegments h) with hnil | hitem
  · cases hnil
  · exact hitem

/-! ### Reading -/

def normalizeOptionalNumber {α : Type} [Zero α] [LT α] [DecidableLT α] (value : Option α) : Option α :=
  value.filter fun n => 0 < n

def normalizeRealtimeSession (input : RealtimeSessionSummary) (meetingId : MeetingId) : RealtimeSessionSummary :=
  { input with
    meetingId := if input.meetingId = "" then meetingId else input.meetingId
    sampleRate := normalizeOptionalNumber input.sampleRate
    channels := normalizeOptionalNumber input.channels
    lastSequence := normalizeOptionalNumber input.lastSequence
    highestSequence := normalizeOptionalNumber input.highestSequence
    adapter := if input.adapter = "" then "unknown" else input.adapter
    transcriptSegments := normalizeTranscriptSegments input.transcriptSegments }

theorem normalizeRealtimeSession_segments (input : RealtimeSessionSummary) (meetingId : MeetingId) :
    (normalizeRealtimeSession input meetingId).transcriptSegments =
      normalizeTranscriptSegments input.transcriptSegments := by
  rw [normalizeRealtimeSession]

/-- The session that is stored, unless it cannot be read. -/
def readRealtimeSession (stored : Option RealtimeSessionSummary) (readable : Bool) (meetingId : MeetingId) :
    Option RealtimeSessionSummary :=
  if readable then stored.map (normalizeRealtimeSession · meetingId) else none

def readUserRealtimeSession (stored : Option RealtimeSessionSummary) (readable : Bool) (meetingId : MeetingId)
    (ownerUserId : UserId) : Except RealtimeSessionAccessError (Option RealtimeSessionSummary) :=
  match readRealtimeSession stored readable meetingId with
  | none => .ok none
  | some session => if session.ownerUserId ≠ ownerUserId then .error noAccessToSession else .ok (some session)

def emptyRealtimeSession (meetingId : MeetingId) (ownerUserId : UserId) : RealtimeSessionSummary :=
  { meetingId, ownerUserId }

/-- The session a record is added to. -/
def currentSession (stored : Option RealtimeSessionSummary) (readable : Bool) (meetingId : MeetingId)
    (ownerUserId : UserId) : Except RealtimeSessionAccessError RealtimeSessionSummary :=
  let current := (readRealtimeSession stored readable meetingId).getD (emptyRealtimeSession meetingId ownerUserId)
  if current.ownerUserId ≠ ownerUserId then .error sessionOfAnotherUser else .ok current

/-! ### Writing

Each of these writes the session that it returns. -/

def ensureRealtimeSessionOwnership (stored : Option RealtimeSessionSummary) (readable : Bool) (meetingId : MeetingId)
    (ownerUserId : UserId) (provider : Provider) :
    Except RealtimeSessionAccessError (Option RealtimeSessionSummary) :=
  match readRealtimeSession stored readable meetingId with
  | some current => if current.ownerUserId ≠ ownerUserId then .error sessionOfAnotherUser else .ok stored
  | none =>
    .ok (some { emptyRealtimeSession meetingId ownerUserId with provider, adapter := "provider-preflight" })

def incrementStatusCounts (counts : RealtimeSessionStatus → ℕ) (status : RealtimeSessionStatus) :
    RealtimeSessionStatus → ℕ := Function.update counts status (counts status + 1)

structure ChunkRecord where
  meetingId : MeetingId
  ownerUserId : UserId
  sequence : ℤ
  receivedBytes : ℕ
  durationMs : ℚ
  sampleRate : Option ℚ
  channels : Option ℚ
  byteDrift : ℤ
  formatOk : Bool
  provider : Provider
  adapter : String
  sessionId : Option String := none
  providerStatus : Option RealtimeSessionStatus := none
  transcriptSegment : Option TranscriptSegment := none

def recordRealtimeSessionChunk (stored : Option RealtimeSessionSummary) (readable : Bool) (input : ChunkRecord) :
    Except RealtimeSessionAccessError RealtimeSessionSummary := do
  let current ← currentSession stored readable input.meetingId input.ownerUserId
  let providerStatus := input.providerStatus.getD .accepted
  let highest := current.highestSequence.getD 0
  .ok { current with
    chunkCount := current.chunkCount + 1
    acceptedChunkCount := current.acceptedChunkCount + if providerStatus = .rejectedFormat then 0 else 1
    rejectedChunkCount := current.rejectedChunkCount + if providerStatus = .rejectedFormat then 1 else 0
    totalBytes := current.totalBytes + input.receivedBytes
    totalDurationMs := current.totalDurationMs + input.durationMs
    sampleRate := input.sampleRate.or current.sampleRate
    channels := input.channels.or current.channels
    lastSequence := some input.sequence
    highestSequence := some (max highest input.sequence)
    duplicateSequenceCount := current.duplicateSequenceCount + if input.sequence ≤ highest then 1 else 0
    outOfOrderCount := current.outOfOrderCount + if current.lastSequence.any (input.sequence < ·) then 1 else 0
    lastByteDrift := some input.byteDrift
    maxAbsByteDrift := max current.maxAbsByteDrift input.byteDrift.natAbs
    formatMismatchCount := current.formatMismatchCount + if input.formatOk then 0 else 1
    provider := input.provider
    adapter := input.adapter
    sessionId := input.sessionId.or current.sessionId
    lastProviderStatus := some providerStatus
    transcriptSegments := upsertTranscriptSegment current.transcriptSegments input.transcriptSegment
    lastTranscriptSegment := input.transcriptSegment.or current.lastTranscriptSegment
    statusCounts := incrementStatusCounts current.statusCounts providerStatus }

structure EventRecord where
  meetingId : MeetingId
  ownerUserId : UserId
  provider : Provider
  adapter : String
  sessionId : Option String := none
  providerStatus : RealtimeSessionStatus
  transcriptSegment : Option TranscriptSegment := none

def recordRealtimeSessionEvent (stored : Option RealtimeSessionSummary) (readable : Bool) (input : EventRecord) :
    Except RealtimeSessionAccessError RealtimeSessionSummary := do
  let current ← currentSession stored readable input.meetingId input.ownerUserId
  .ok { current with
    provider := input.provider
    adapter := input.adapter
    sessionId := input.sessionId.or current.sessionId
    lastProviderStatus := some input.providerStatus
    transcriptSegments := upsertTranscriptSegment current.transcriptSegments input.transcriptSegment
    lastTranscriptSegment := input.transcriptSegment.or current.lastTranscriptSegment
    statusCounts := incrementStatusCounts current.statusCounts input.providerStatus }

structure AnomalyRecord where
  adapter : String
  meetingId : MeetingId
  ownerUserId : UserId
  provider : Provider
  duplicate : Bool

/-- An anomaly is a duplicate chunk or one out of order. -/
def recordRealtimeSequenceAnomaly (stored : Option RealtimeSessionSummary) (readable : Bool) (input : AnomalyRecord) :
    Except RealtimeSessionAccessError RealtimeSessionSummary := do
  let current ← currentSession stored readable input.meetingId input.ownerUserId
  .ok { current with
    provider := input.provider
    adapter := input.adapter
    duplicateSequenceCount := current.duplicateSequenceCount + if input.duplicate then 1 else 0
    outOfOrderCount := current.outOfOrderCount + if input.duplicate then 0 else 1 }

end OwnMinutes.Realtime.Sessions
