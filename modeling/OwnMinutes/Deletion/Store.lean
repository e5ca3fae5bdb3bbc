import OwnMinutes.Auth.Records
import OwnMinutes.Lib.Outcome

/-! # Deletion tombstones and fences

The statements and transactions of `meeting-write-lock.ts` on the deletion of meetings, in PostgreSQL
mode. A deleted meeting has a tombstone with its identifiers until its objects are gone, and then a
fence with one-way references only: `meetingDeletionFenceRef` and `meetingDeletionOwnerProofRef` are
digests. -/

namespace OwnMinutes.Deletion.Store

open OwnMinutes.Lib.Keyed OwnMinutes.Lib.Outcome OwnMinutes.Auth.ProcessingRoute
open OwnMinutes.Auth.Records

abbrev DeletionRef := String

/-- A meeting id as `canonicalMeetingId` accepts it: `/^[a-zA-Z0-9_-]{1,160}$/`. -/
def isCanonicalMeetingId (value : String) : Bool :=
  1 ≤ value.length && value.length ≤ 160 &&
    value.toList.all fun c => c.isAlphanum || c == '_' || c == '-'

def isTraversalSafeLegacyMeetingId (value : String) : Bool :=
  !isCanonicalMeetingId value &&
    (match value.toList with
      | [] => false
      | c :: rest => c.isAlphanum && rest.length ≤ 159 &&
        rest.all fun c => c.isAlphanum || c == '.' || c == '_' || c == '-') &&
    (value.toList.zip value.toList.tail).all (· != ('.', '.')) && value.toList.getLast? != some '.'

/-- `/^[A-Za-z0-9_-]{1,192}$/` on the owner of a legacy cleanup. -/
def isLegacyCleanupOwnerId (value : String) : Bool :=
  1 ≤ value.length && value.length ≤ 192 &&
    value.toList.all fun c => c.isAlphanum || c == '_' || c == '-'

/-! ### Rows -/

inductive CleanupDisposition
  | automatic | pendingManualCleanup | manualCleanupApproved
  deriving DecidableEq, Repr

/-- `none` for `cleanupNextAttemptAt` is `'infinity'`. -/
structure TombstoneRow where
  meetingId : MeetingId
  ownerUserId : UserId
  deletedAt : Timestamp
  cleanupPending : Bool := true
  cleanupAttempts : ℕ := 0
  cleanupNextAttemptAt : Option Timestamp
  cleanupClaimedAt : Option Timestamp := none
  cleanupClaimedBy : Option String := none
  cleanupClaimToken : Option ClaimToken := none
  cleanedAt : Option Timestamp := none
  cleanupLastError : Option String := none
  cleanupDisposition : CleanupDisposition := .automatic
  manualCleanupDetectedAt : Option Timestamp := none
  deriving DecidableEq, Repr

instance : HasKey TombstoneRow MeetingId := ⟨TombstoneRow.meetingId⟩

structure FenceRow where
  meetingRef : DeletionRef
  ownerProofRef : DeletionRef
  deletedAt : Timestamp
  cleanedAt : Timestamp
  deriving DecidableEq, Repr

instance : HasKey FenceRow DeletionRef := ⟨FenceRow.meetingRef⟩

/-- The two tables, the rows of `meetings` (the meeting and its owner) and the meetings of the
transfer intents. -/
structure DeletionTables where
  tombstones : Table TombstoneRow := .empty
  fences : Table FenceRow := .empty
  meetings : List (MeetingId × UserId) := []
  transfers : List MeetingId := []
  deriving DecidableEq

/-! ### Errors -/

/-- `MeetingAccessError`, or a plain error. -/
inductive DeletionError
  | access (message : String) (status : ℕ) (code : Option String)
  | plain (message : String)
  deriving DecidableEq, Repr

def invalidMeetingId : DeletionError := .access "Invalid meeting id." 400 (some "invalid_meeting_id")

/-- A meeting id that is used in a lock, an object or a row. -/
def canonicalMeetingId (value : String) : Except DeletionError MeetingId :=
  if isCanonicalMeetingId value then .ok value else .error invalidMeetingId

def meetingNotFound : DeletionError := .access "Meeting audio was not found." 404 none

def tombstoneLost : DeletionError :=
  .plain "Meeting deletion cleanup lost its owner tombstone before catalog purge."

def catalogOwnerConflict : DeletionError :=
  .plain "Meeting catalog owner conflicts with its deletion owner; manual cleanup is required."

def transferStillActive : DeletionError :=
  .plain "Meeting object transfer is still active; deletion cleanup remains pending."

def catalogNotPurged : DeletionError :=
  .plain "Meeting catalog must be purged after object deletion before cleanup completion."

def transferNotSettled : DeletionError :=
  .plain "Meeting object transfer must settle before deletion cleanup can complete."

def legacyOwnerConflict : DeletionError :=
  .plain "Legacy object prefix is already linked to a different owner."

section Refs

variable (meetingDeletionFenceRef : MeetingId → DeletionRef)
  (meetingDeletionOwnerProofRef : MeetingId → UserId → DeletionRef)
  (sanitizeMessage : String → String)

/-! ### Reading -/

/-- Whether writes to the meeting are allowed: it has neither a tombstone nor a fence. -/
def isMeetingWriteAllowed (meetingId : MeetingId) (t : DeletionTables) : Bool :=
  (t.tombstones.get? meetingId).isNone && (t.fences.get? (meetingDeletionFenceRef meetingId)).isNone

/-- The owner of the tombstone; a fence names none. -/
def getMeetingDeletionOwner (meetingId : MeetingId) (t : DeletionTables) : Option UserId :=
  (t.tombstones.get? meetingId).map (·.ownerUserId)

/-- The first statement of `markMeetingDeleted`. -/
def fenceExists (meetingId : MeetingId) (t : DeletionTables) : Bool :=
  (t.fences.get? (meetingDeletionFenceRef meetingId)).isSome

/-- The fence is that of the meeting and the owner. -/
def fenceMatches (meetingId : MeetingId) (ownerUserId : UserId) (t : DeletionTables) : Bool :=
  (t.fences.get? (meetingDeletionFenceRef meetingId)).any
    (·.ownerProofRef == meetingDeletionOwnerProofRef meetingId ownerUserId)

/-! ### Marking and reopening -/

/-- `insert into meeting_deletion_tombstones … on conflict (meeting_id) do update … where the owner
is the same`; `none` where no row is returned. -/
def upsertTombstone (row : TombstoneRow) (onConflict : TombstoneRow → TombstoneRow)
    (t : DeletionTables) : Option DeletionTables :=
  match t.tombstones.get? row.meetingId with
  | none => some { t with tombstones := t.tombstones.insert row }
  | some existing =>
    if existing.ownerUserId = row.ownerUserId then
      some { t with tombstones := t.tombstones.replace (onConflict existing) }
    else none

/-- The second statement of `markMeetingDeleted`. -/
def markTombstone (now : Timestamp) (meetingId : MeetingId) (ownerUserId : UserId)
    (t : DeletionTables) : Except DeletionError (Unit × DeletionTables) :=
  match upsertTombstone
      { meetingId, ownerUserId, deletedAt := now, cleanupNextAttemptAt := some now }
      (fun existing => { existing with deletedAt := min existing.deletedAt now }) t with
  | none => .error meetingNotFound
  | some t => .ok ((), t)

/-- The last statement of `reopenMeetingDeletionCleanup`, and whether it wrote a row. -/
def reopenTombstone (now : Timestamp) (meetingId : MeetingId) (ownerUserId : UserId)
    (errorMessage : String) (t : DeletionTables) : Bool × DeletionTables :=
  match upsertTombstone
      { meetingId, ownerUserId, deletedAt := now, cleanupNextAttemptAt := some now
        cleanupLastError := some (sanitizeMessage errorMessage) }
      (fun existing => { existing with
        cleanupPending := true
        cleanupNextAttemptAt := some now
        cleanupDisposition := .automatic
        cleanupClaimedAt := none
        cleanupClaimedBy := none
        cleanupClaimToken := none
        cleanedAt := none
        cleanupLastError := some (sanitizeMessage errorMessage) }) t with
  | none => (false, t)
  | some t => (true, t)

/-! ### Cleaning up -/

/-- Five minutes. -/
def CLEANUP_CLAIM_MS : ℕ := 5 * 60 * 1000

def cleanupDue (now : Timestamp) (ownerUserId : Option UserId) (row : TombstoneRow) : Bool :=
  row.cleanupPending && isCanonicalMeetingId row.meetingId && row.cleanupDisposition == .automatic &&
    row.cleanupNextAttemptAt.any (· ≤ now) &&
    row.cleanupClaimedAt.all (fun claimedAt => claimedAt + CLEANUP_CLAIM_MS < now) &&
    ownerUserId.all (· == row.ownerUserId)

structure MeetingDeletionCleanupClaim where
  attempt : ℕ
  claimToken : ClaimToken
  meetingId : MeetingId
  ownerUserId : UserId
  deriving DecidableEq, Repr

def claimedTombstone (now : Timestamp) (workerId : String) (claimToken : ClaimToken)
    (row : TombstoneRow) : TombstoneRow :=
  { row with
    cleanupAttempts := row.cleanupAttempts + 1
    cleanupClaimedAt := some now
    cleanupClaimedBy := some workerId
    cleanupClaimToken := some claimToken }

/-- The transaction of `claimMeetingDeletionCleanup`. `chosen` is the tombstone that comes first
among those no other transaction holds; any of them may. -/
def claimMeetingDeletionCleanup (now : Timestamp) (workerId : String) (ownerUserId : Option UserId)
    (chosen : MeetingId) (claimToken : ClaimToken) (t : DeletionTables) :
    Option MeetingDeletionCleanupClaim × DeletionTables :=
  match (t.tombstones.get? chosen).filter (cleanupDue now ownerUserId) with
  | none => (none, t)
  | some row =>
    (some { attempt := row.cleanupAttempts + 1, claimToken, meetingId := row.meetingId
            ownerUserId := row.ownerUserId },
      { t with tombstones := t.tombstones.replace (claimedTombstone now workerId claimToken row) })

/-- `meeting_id = $1 and owner_user_id = $2 and cleanup_pending = true and ($3 is null or
cleanup_claim_token = $3)`. -/
def pendingTombstone (meetingId : MeetingId) (ownerUserId : UserId) (claimToken : Option ClaimToken)
    (t : DeletionTables) : Option TombstoneRow :=
  (t.tombstones.get? meetingId).filter fun row =>
    row.ownerUserId == ownerUserId && row.cleanupPending &&
      claimToken.all (fun token => row.cleanupClaimToken == some token)

/-- The part of `purgeMeetingRelationalData` that can fail. -/
def purgeMeetingRelationalData (meetingId : MeetingId) (ownerUserId : UserId) (t : DeletionTables) :
    Except DeletionError DeletionTables :=
  let meetings := t.meetings.filter (· != (meetingId, ownerUserId))
  if meetings.any (·.1 == meetingId) then .error catalogOwnerConflict
  else if t.transfers.contains meetingId then .error transferStillActive
  else .ok { t with meetings }

def purgeMeetingCatalogAfterObjectDeletion (meetingId : MeetingId) (ownerUserId : UserId)
    (claimToken : Option ClaimToken) (t : DeletionTables) :
    Except DeletionError (Unit × DeletionTables) := do
  let key ← canonicalMeetingId meetingId
  match pendingTombstone key ownerUserId claimToken t with
  | none => .error tombstoneLost
  | some _ => (purgeMeetingRelationalData key ownerUserId t).map fun t => ((), t)

/-- `insert into meeting_deletion_fences … on conflict (meeting_ref) do update`. -/
def upsertFence (row : FenceRow) (t : DeletionTables) : DeletionTables :=
  match t.fences.get? row.meetingRef with
  | none => { t with fences := t.fences.insert row }
  | some existing =>
    { t with fences := t.fences.replace { existing with
        deletedAt := min existing.deletedAt row.deletedAt
        cleanedAt := min existing.cleanedAt row.cleanedAt } }

/-- The fence of a tombstone, and the tombstone gone. -/
def moveToFence (cleanedAt : Timestamp) (row : TombstoneRow) (t : DeletionTables) : DeletionTables :=
  let t := upsertFence
    { meetingRef := meetingDeletionFenceRef row.meetingId
      ownerProofRef := meetingDeletionOwnerProofRef row.meetingId row.ownerUserId
      deletedAt := row.deletedAt
      cleanedAt } t
  { t with tombstones := t.tombstones.removeWhere (·.meetingId == row.meetingId) }

/-- `true` where a tombstone was moved. -/
def moveCompletedMeetingDeletionToFence (now : Timestamp) (meetingId : MeetingId)
    (ownerUserId : UserId) (claimToken : Option ClaimToken) (t : DeletionTables) :
    Except DeletionError (Bool × DeletionTables) :=
  match pendingTombstone meetingId ownerUserId claimToken t with
  | none => .ok (false, t)
  | some row =>
    if t.meetings.any (·.1 == meetingId) then .error catalogNotPurged
    else if t.transfers.contains meetingId then .error transferNotSettled
    else .ok (true, moveToFence meetingDeletionFenceRef meetingDeletionOwnerProofRef now row t)

def completeMeetingDeletionCleanup (now : Timestamp) (meetingId : MeetingId) (ownerUserId : UserId)
    (claimToken : Option ClaimToken) (t : DeletionTables) :
    Except DeletionError (Bool × DeletionTables) := do
  let key ← canonicalMeetingId meetingId
  moveCompletedMeetingDeletionToFence meetingDeletionFenceRef meetingDeletionOwnerProofRef now key
    ownerUserId claimToken t

/-- `cleanup_pending = false or cleaned_at is not null`. -/
def cleanedUp (row : TombstoneRow) : Bool := !row.cleanupPending || row.cleanedAt.isSome

/-- One round of `minimizeCompletedMeetingDeletionIdentifiers`. -/
def minimizeTombstone (now : Timestamp) (row : TombstoneRow) (t : DeletionTables) :
    Except DeletionError DeletionTables := do
  let t ← purgeMeetingRelationalData row.meetingId row.ownerUserId t
  .ok (moveToFence meetingDeletionFenceRef meetingDeletionOwnerProofRef (row.cleanedAt.getD now) row t)

/-- The transaction of `minimizeCompletedMeetingDeletionIdentifiers`, on the tombstones that come
first among those no other transaction holds. -/
def minimizeCompletedMeetingDeletionIdentifiers (now : Timestamp) (chosen : List MeetingId)
    (t : DeletionTables) : Except DeletionError (ℕ × DeletionTables) := do
  let rows := t.tombstones.rows.filter fun row => cleanedUp row && chosen.contains row.meetingId
  let t ← rows.foldlM (fun t row =>
    minimizeTombstone meetingDeletionFenceRef meetingDeletionOwnerProofRef now row t) t
  .ok (rows.length, t)

/-- `update meeting_deletion_tombstones set … where meeting_id = $1 and p`, and whether a row was
written. -/
def updateTombstone (meetingId : MeetingId) (p : TombstoneRow → Bool)
    (f : TombstoneRow → TombstoneRow) (t : DeletionTables) : Bool × DeletionTables :=
  match (t.tombstones.get? meetingId).filter p with
  | none => (false, t)
  | some row => (true, { t with tombstones := t.tombstones.replace (f row) })

/-- `Math.max(1_000, Math.min(60 * 60 * 1000, Math.round(retryAfterMs)))`. -/
def boundedRetryMs (retryAfterMs : ℚ) : ℕ :=
  (max 1000 (min (60 * 60 * 1000) (mathRound retryAfterMs))).toNat

def retryMeetingDeletionCleanup (now : Timestamp) (meetingId : MeetingId) (retryAfterMs : ℚ)
    (errorMessage : String) (claimToken : Option ClaimToken) (t : DeletionTables) :
    Except DeletionError (Bool × DeletionTables) := do
  let key ← canonicalMeetingId meetingId
  .ok (updateTombstone key
    (fun row => claimToken.all fun token => row.cleanupClaimToken == some token)
    (fun row => { row with
      cleanupPending := true
      cleanupNextAttemptAt := some (now + boundedRetryMs retryAfterMs)
      cleanupClaimedAt := none
      cleanupClaimedBy := none
      cleanupClaimToken := none
      cleanupLastError := some (sanitizeMessage errorMessage) }) t)

/-! ### Quarantine -/

/-- A tombstone for manual cleanup. -/
def quarantined (now : Timestamp) (error : String) (row : TombstoneRow) : TombstoneRow :=
  { row with
    cleanupNextAttemptAt := none
    cleanupClaimedAt := none
    cleanupClaimedBy := none
    cleanupClaimToken := none
    cleanupDisposition := .pendingManualCleanup
    manualCleanupDetectedAt := row.manualCleanupDetectedAt <|> some now
    cleanupLastError := some error }

theorem quarantined_key (now : Timestamp) (error : String) (row : TombstoneRow) :
    HasKey.key (quarantined now error row) = HasKey.key row := rfl

def quarantineMeetingDeletionOwnerConflict (now : Timestamp) (meetingId : MeetingId)
    (ownerUserId : UserId) (t : DeletionTables) : Except DeletionError (Bool × DeletionTables) := do
  let key ← canonicalMeetingId meetingId
  .ok (updateTombstone key (·.ownerUserId == ownerUserId)
    (fun row => { quarantined now "meeting_catalog_owner_conflict_manual_cleanup_required" row with
      cleanupPending := true
      cleanedAt := none }) t)

def LEGACY_CLEANUP_ERROR : String := "legacy_noncanonical_manual_cleanup_required"

def needsQuarantine (ownerUserId : Option UserId) (row : TombstoneRow) : Bool :=
  row.cleanupPending && !isCanonicalMeetingId row.meetingId &&
    ownerUserId.all (· == row.ownerUserId) &&
    (row.cleanupNextAttemptAt.isSome || row.cleanupDisposition != .pendingManualCleanup ||
      row.cleanupLastError != some LEGACY_CLEANUP_ERROR)

def quarantineNonCanonicalMeetingDeletionTombstones (now : Timestamp) (ownerUserId : Option UserId)
    (t : DeletionTables) : DeletionTables :=
  { t with
    tombstones := t.tombstones.updateWhere (needsQuarantine ownerUserId)
      (quarantined now LEGACY_CLEANUP_ERROR) (quarantined_key now _) }

def legacyCleanupPrefixInvalid : DeletionError :=
  .plain "Legacy cleanup requires one exact, non-canonical, traversal-safe object prefix."

def legacyCleanupOwnerInvalid : DeletionError := .plain "Invalid legacy cleanup owner id."

/-- The statement of `quarantineLegacyMeetingDeletionForManualCleanup`. -/
def quarantineLegacyMeetingDeletionForManualCleanup (now : Timestamp) (meetingId : MeetingId)
    (ownerUserId : UserId) (t : DeletionTables) : Except DeletionError (Unit × DeletionTables) :=
  if !isTraversalSafeLegacyMeetingId meetingId then .error legacyCleanupPrefixInvalid
  else if !isLegacyCleanupOwnerId ownerUserId then .error legacyCleanupOwnerInvalid
  else match upsertTombstone
      { meetingId, ownerUserId, deletedAt := now, cleanupNextAttemptAt := none
        cleanupLastError := some LEGACY_CLEANUP_ERROR, cleanupDisposition := .pendingManualCleanup
        manualCleanupDetectedAt := some now }
      (fun existing => { quarantined now LEGACY_CLEANUP_ERROR existing with
        deletedAt := min existing.deletedAt now
        cleanupPending := true
        cleanedAt := none }) t with
  | none => .error legacyOwnerConflict
  | some t => .ok ((), t)

end Refs

end OwnMinutes.Deletion.Store
