import OwnMinutes.Deletion.Store
import OwnMinutes.Lib.Runs

/-! # Deletion is permanent

Any number of workers delete meetings and clean up after them. A statement or a transaction of
`meeting-write-lock.ts` is one step. What is done under the write lock of a meeting is a section:
`markMeetingDeleted` reads the fence and inserts the tombstone in two statements, and both its callers
hold the lock and have read before that the meeting has no tombstone; `reopenMeetingDeletionCleanup`
takes the lock itself. Everything else runs at any time. -/

namespace OwnMinutes.Deletion.Permanence

open OwnMinutes.Lib.Keyed OwnMinutes.Lib.Runs OwnMinutes.Lib.Outcome
open OwnMinutes.Auth.ProcessingRoute OwnMinutes.Auth.Records OwnMinutes.Deletion.Store

/-! ### The state -/

/-- The call in progress in a section, between its last read and its insert. -/
inductive PendingCall
  | marking (ownerUserId : UserId)
  | reopening (ownerUserId : UserId)
  deriving DecidableEq, Repr

/-- What the holder of a meeting's write lock knows: that the meeting has no tombstone, and the call
in progress. -/
structure Section where
  unowned : Bool := false
  pending : Option PendingCall := none
  deriving DecidableEq, Repr

/-- The tables, the sections of the write locks that are held, and the claim tokens issued so far. -/
structure DeletionState where
  tables : DeletionTables := {}
  sections : MeetingId → Option Section := fun _ => none
  issued : List ClaimToken := []

def DeletionState.setSection (s : DeletionState) (meetingId : MeetingId) (held : Option Section) :
    DeletionState :=
  { s with sections := Function.update s.sections meetingId held }

def DeletionState.setTables (s : DeletionState) (tables : DeletionTables) : DeletionState :=
  { s with tables }

/-! ### Calls -/

/-- The statements. `changeCatalog` stands for the rest of the program, which writes meetings and
transfers. -/
inductive DeletionCall
  | enterLock (meetingId : MeetingId)
  | leaveLock (meetingId : MeetingId)
  | readDeletionOwner (meetingId : MeetingId)
  | checkMark (meetingId : MeetingId) (ownerUserId : UserId)
  | mark (now : Timestamp) (meetingId : MeetingId) (ownerUserId : UserId)
  | checkReopen (meetingId : MeetingId) (ownerUserId : UserId) (userExists : Bool)
  | reopen (now : Timestamp) (meetingId : MeetingId) (ownerUserId : UserId) (errorMessage : String)
  | claim (now : Timestamp) (workerId : String) (ownerUserId : Option UserId) (chosen : MeetingId)
      (claimToken : ClaimToken)
  | purge (meetingId : MeetingId) (ownerUserId : UserId) (claimToken : Option ClaimToken)
  | complete (now : Timestamp) (meetingId : MeetingId) (ownerUserId : UserId)
      (claimToken : Option ClaimToken)
  | minimize (now : Timestamp) (chosen : List MeetingId)
  | retry (now : Timestamp) (meetingId : MeetingId) (retryAfterMs : ℚ) (errorMessage : String)
      (claimToken : Option ClaimToken)
  | quarantineOwnerConflict (now : Timestamp) (meetingId : MeetingId) (ownerUserId : UserId)
  | quarantineNonCanonical (now : Timestamp) (ownerUserId : Option UserId)
  | quarantineLegacy (now : Timestamp) (meetingId : MeetingId) (ownerUserId : UserId)
  | changeCatalog (meetings : List (MeetingId × UserId)) (transfers : List MeetingId)
  deriving DecidableEq, Repr

/-- What a statement gives back: `wrote` where it did what it is for, `held` where it found nothing
to do, or an error. -/
inductive DeletionResult
  | wrote
  | held
  | claimed (claim : MeetingDeletionCleanupClaim)
  | failed (error : DeletionError)
  deriving DecidableEq, Repr

def flag (b : Bool) : DeletionResult := if b then .wrote else .held

structure DeletionEvent where
  call : DeletionCall
  result : DeletionResult
  deriving DecidableEq, Repr

section Refs

variable (meetingDeletionFenceRef : MeetingId → DeletionRef)
  (meetingDeletionOwnerProofRef : MeetingId → UserId → DeletionRef)
  (sanitizeMessage : String → String)

/-- The result of a transaction on the tables; a failed one is rolled back. -/
def onTables {α : Type} (s : DeletionState) (result : α → DeletionResult)
    (outcome : Except DeletionError (α × DeletionTables)) : DeletionResult × DeletionState :=
  match outcome with
  | .error e => (.failed e, s)
  | .ok (a, t) => (result a, s.setTables t)

/-- A statement under the write lock of the meeting. -/
def inSection (s : DeletionState) (meetingId : MeetingId)
    (f : Section → Option (DeletionResult × DeletionState)) : Option (DeletionResult × DeletionState) :=
  (s.sections meetingId).bind f

/-- `none` where the call cannot be made in the state. -/
def take : DeletionCall → DeletionState → Option (DeletionResult × DeletionState)
  | .enterLock meetingId, s =>
    match canonicalMeetingId meetingId with
    | .error e => some (.failed e, s)
    | .ok key => if (s.sections key).isNone then some (.wrote, s.setSection key (some {})) else none
  | .leaveLock meetingId, s => inSection s meetingId fun _ => some (.wrote, s.setSection meetingId none)
  | .readDeletionOwner meetingId, s =>
    inSection s meetingId fun held =>
      some (.held, s.setSection meetingId
        (some { held with unowned := (getMeetingDeletionOwner meetingId s.tables).isNone }))
  | .checkMark meetingId ownerUserId, s =>
    inSection s meetingId fun held =>
      if !held.unowned then none
      else if fenceExists meetingDeletionFenceRef meetingId s.tables then
        some (.failed meetingNotFound, s.setSection meetingId (some { held with pending := none }))
      else some (.held,
        s.setSection meetingId (some { held with pending := some (.marking ownerUserId) }))
  | .mark now meetingId ownerUserId, s =>
    inSection s meetingId fun held =>
      if held.pending ≠ some (.marking ownerUserId) then none
      else match markTombstone now meetingId ownerUserId s.tables with
        | .error e => some (.failed e,
            s.setSection meetingId (some { held with pending := none }))
        | .ok ((), t) => some (.wrote, (s.setTables t).setSection meetingId (some {}))
  | .checkReopen meetingId ownerUserId userExists, s =>
    inSection s meetingId fun held =>
      some (.held, s.setSection meetingId (some { held with
        pending :=
          if userExists && fenceMatches meetingDeletionFenceRef meetingDeletionOwnerProofRef meetingId
              ownerUserId s.tables
          then some (.reopening ownerUserId) else none }))
  | .reopen now meetingId ownerUserId errorMessage, s =>
    inSection s meetingId fun held =>
      if held.pending ≠ some (.reopening ownerUserId) then none
      else match reopenTombstone sanitizeMessage now meetingId ownerUserId errorMessage s.tables with
        | (true, t) => some (.wrote, (s.setTables t).setSection meetingId (some {}))
        | (false, t) => some (.held,
            (s.setTables t).setSection meetingId (some { held with pending := none }))
  | .claim now workerId ownerUserId chosen claimToken, s =>
    if claimToken ∈ s.issued then none
    else match claimMeetingDeletionCleanup now workerId ownerUserId chosen claimToken s.tables with
      | (none, _) => some (.held, s)
      | (some c, t) => some (.claimed c, { s.setTables t with issued := claimToken :: s.issued })
  | .purge meetingId ownerUserId claimToken, s =>
    some (onTables s (fun _ => .wrote)
      (purgeMeetingCatalogAfterObjectDeletion meetingId ownerUserId claimToken s.tables))
  | .complete now meetingId ownerUserId claimToken, s =>
    some (onTables s flag (completeMeetingDeletionCleanup meetingDeletionFenceRef
      meetingDeletionOwnerProofRef now meetingId ownerUserId claimToken s.tables))
  | .minimize now chosen, s =>
    some (onTables s (fun _ => .wrote) (minimizeCompletedMeetingDeletionIdentifiers
      meetingDeletionFenceRef meetingDeletionOwnerProofRef now chosen s.tables))
  | .retry now meetingId retryAfterMs errorMessage claimToken, s =>
    some (onTables s flag (retryMeetingDeletionCleanup sanitizeMessage now meetingId retryAfterMs
      errorMessage claimToken s.tables))
  | .quarantineOwnerConflict now meetingId ownerUserId, s =>
    some (onTables s flag (quarantineMeetingDeletionOwnerConflict now meetingId ownerUserId s.tables))
  | .quarantineNonCanonical now ownerUserId, s =>
    some (.wrote, s.setTables
      (quarantineNonCanonicalMeetingDeletionTombstones now ownerUserId s.tables))
  | .quarantineLegacy now meetingId ownerUserId, s =>
    some (onTables s (fun _ => .wrote)
      (quarantineLegacyMeetingDeletionForManualCleanup now meetingId ownerUserId s.tables))
  | .changeCatalog meetings transfers, s =>
    some (.wrote, s.setTables { s.tables with meetings, transfers })

def DeletionStep (s : DeletionState) (e : DeletionEvent) (s' : DeletionState) : Prop :=
  take meetingDeletionFenceRef meetingDeletionOwnerProofRef sanitizeMessage e.call s =
    some (e.result, s')

/-! ### What happens to the two tables -/

/-- Rows of one deletion. -/
structure SameDeletion (row row' : TombstoneRow) : Prop where
  meetingId : row'.meetingId = row.meetingId
  ownerUserId : row'.ownerUserId = row.ownerUserId

/-- A new tombstone is that of an old one or of `inserted`, and holds no token but an old one or
`issued`. An old one stays or has its fence; fences stay, and a new one is that of a tombstone. -/
structure TablesMove (inserted : Option (MeetingId × UserId)) (issued : Option (MeetingId × ClaimToken))
    (t t' : DeletionTables) : Prop where
  tombstone_old : ∀ row' ∈ t'.tombstones, (∃ row ∈ t.tombstones, SameDeletion row row') ∨
    inserted = some (row'.meetingId, row'.ownerUserId)
  tombstone_kept : ∀ row ∈ t.tombstones, (∃ row' ∈ t'.tombstones, SameDeletion row row') ∨
    ∃ fence ∈ t'.fences, fence.meetingRef = meetingDeletionFenceRef row.meetingId
  fence_old : ∀ fence' ∈ t'.fences,
    (∃ fence ∈ t.fences, fence'.meetingRef = fence.meetingRef ∧
      fence'.ownerProofRef = fence.ownerProofRef) ∨
    ∃ row ∈ t.tombstones, fence'.meetingRef = meetingDeletionFenceRef row.meetingId ∧
      fence'.ownerProofRef = meetingDeletionOwnerProofRef row.meetingId row.ownerUserId
  fence_kept : ∀ fence ∈ t.fences, ∃ fence' ∈ t'.fences, fence'.meetingRef = fence.meetingRef ∧
    fence'.ownerProofRef = fence.ownerProofRef
  token_old : ∀ row' ∈ t'.tombstones, ∀ token, row'.cleanupClaimToken = some token →
    (∃ row ∈ t.tombstones, row.meetingId = row'.meetingId ∧ row.cleanupClaimToken = some token) ∨
    issued = some (row'.meetingId, token)

variable {meetingDeletionFenceRef meetingDeletionOwnerProofRef sanitizeMessage}
  {inserted : Option (MeetingId × UserId)} {issued : Option (MeetingId × ClaimToken)}
  {t t' t'' : DeletionTables}

/-- The tombstones are rewritten row by row and the fences stay. -/
theorem tablesMove_rewrites (hfences : t'.fences = t.fences)
    (h : t.tombstones.Rewrites (fun row row' => SameDeletion row row' ∧
      ∀ token, row'.cleanupClaimToken = some token →
        row.cleanupClaimToken = some token ∨ issued = some (row.meetingId, token)) t'.tombstones) :
    TablesMove meetingDeletionFenceRef meetingDeletionOwnerProofRef inserted issued t t' where
  tombstone_old row' hm := by
    obtain ⟨row, hrow, hr⟩ := h.old hm
    exact .inl ⟨row, hrow, hr.1⟩
  tombstone_kept row hm := by
    obtain ⟨row', hrow, hr⟩ := h.new hm
    exact .inl ⟨row', hrow, hr.1⟩
  fence_old fence hm := .inl ⟨fence, hfences ▸ hm, rfl, rfl⟩
  fence_kept fence hm := ⟨fence, hfences ▸ hm, rfl, rfl⟩
  token_old row' hm token htoken := by
    obtain ⟨row, hrow, hr⟩ := h.old hm
    rcases hr.2 token htoken with hold | hnew
    · exact .inl ⟨row, hrow, hr.1.meetingId.symm, hold⟩
    · exact .inr (by rw [hnew, hr.1.meetingId])

theorem tablesMove_same (ht : t'.tombstones = t.tombstones) (hf : t'.fences = t.fences) :
    TablesMove meetingDeletionFenceRef meetingDeletionOwnerProofRef inserted issued t t' :=
  tablesMove_rewrites hf (by
    rw [ht]
    exact Table.Rewrites.refl (fun _ => ⟨⟨rfl, rfl⟩, fun _ h => .inl h⟩) _)

variable {row : TombstoneRow}

/-- One tombstone is replaced. -/
theorem tablesMove_replace {row' : TombstoneRow} (hm : row ∈ t.tombstones) (hsame : SameDeletion row row')
    (htoken : ∀ token, row'.cleanupClaimToken = some token →
      row.cleanupClaimToken = some token ∨ issued = some (row.meetingId, token)) :
    TablesMove meetingDeletionFenceRef meetingDeletionOwnerProofRef inserted issued t
      { t with tombstones := t.tombstones.replace row' } :=
  tablesMove_rewrites rfl
    (Table.rewrites_replace_mem (fun _ => ⟨⟨rfl, rfl⟩, fun _ h => .inl h⟩) hm hsame.meetingId
      ⟨hsame, htoken⟩)

/-- A tombstone without a token is inserted. -/
theorem tablesMove_insert (hfresh : t.tombstones.Fresh row.meetingId) (htoken : row.cleanupClaimToken = none) :
    TablesMove meetingDeletionFenceRef meetingDeletionOwnerProofRef
      (some (row.meetingId, row.ownerUserId)) issued t
      { t with tombstones := t.tombstones.insert row } where
  tombstone_old row' hm := by
    rcases Table.mem_of_mem_insert hm with hm | rfl
    · exact .inl ⟨row', hm, rfl, rfl⟩
    · exact .inr rfl
  tombstone_kept row' hm := .inl ⟨row', Table.mem_insert_of_mem hm, rfl, rfl⟩
  fence_old fence hm := .inl ⟨fence, hm, rfl, rfl⟩
  fence_kept fence hm := ⟨fence, hm, rfl, rfl⟩
  token_old row' hm token h := by
    rcases Table.mem_of_mem_insert hm with hm | rfl
    · exact .inl ⟨row', hm, rfl, h⟩
    · rw [htoken] at h; cases h

theorem TablesMove.trans
    (h : TablesMove meetingDeletionFenceRef meetingDeletionOwnerProofRef none none t t')
    (h' : TablesMove meetingDeletionFenceRef meetingDeletionOwnerProofRef none none t' t'') :
    TablesMove meetingDeletionFenceRef meetingDeletionOwnerProofRef none none t t'' where
  tombstone_old row'' hm := by
    rcases h'.tombstone_old row'' hm with ⟨row', hm', hs'⟩ | hnone
    · rcases h.tombstone_old row' hm' with ⟨row, hm, hs⟩ | hnone
      · exact .inl ⟨row, hm, hs'.meetingId.trans hs.meetingId, hs'.ownerUserId.trans hs.ownerUserId⟩
      · cases hnone
    · cases hnone
  tombstone_kept row hm := by
    rcases h.tombstone_kept row hm with ⟨row', hm', hs⟩ | ⟨fence', hm', href⟩
    · rcases h'.tombstone_kept row' hm' with ⟨row'', hm'', hs'⟩ | ⟨fence'', hm'', href⟩
      · exact .inl ⟨row'', hm'', hs'.meetingId.trans hs.meetingId,
          hs'.ownerUserId.trans hs.ownerUserId⟩
      · exact .inr ⟨fence'', hm'', by rw [href, hs.meetingId]⟩
    · obtain ⟨fence'', hm'', href', -⟩ := h'.fence_kept fence' hm'
      exact .inr ⟨fence'', hm'', href'.trans href⟩
  fence_old fence'' hm := by
    rcases h'.fence_old fence'' hm with ⟨fence', hm', href', hproof'⟩ | ⟨row', hm', href', hproof'⟩
    · rcases h.fence_old fence' hm' with ⟨fence, hm, href, hproof⟩ | ⟨row, hm, href, hproof⟩
      · exact .inl ⟨fence, hm, href'.trans href, hproof'.trans hproof⟩
      · exact .inr ⟨row, hm, href'.trans href, hproof'.trans hproof⟩
    · rcases h.tombstone_old row' hm' with ⟨row, hm, hs⟩ | hnone
      · exact .inr ⟨row, hm, by rw [href', hs.meetingId],
          by rw [hproof', hs.meetingId, hs.ownerUserId]⟩
      · cases hnone
  fence_kept fence hm := by
    obtain ⟨fence', hm', href, hproof⟩ := h.fence_kept fence hm
    obtain ⟨fence'', hm'', href', hproof'⟩ := h'.fence_kept fence' hm'
    exact ⟨fence'', hm'', href'.trans href, hproof'.trans hproof⟩
  token_old row'' hm token htoken := by
    rcases h'.token_old row'' hm token htoken with ⟨row', hm', hid', htoken'⟩ | hnone
    · rcases h.token_old row' hm' token htoken' with ⟨row, hm, hid, htoken⟩ | hnone
      · exact .inl ⟨row, hm, hid.trans hid', htoken⟩
      · cases hnone
    · cases hnone

theorem mem_upsertFence (row : FenceRow) (t : DeletionTables) :
    (∃ fence ∈ (upsertFence row t).fences, fence.meetingRef = row.meetingRef) ∧
    (∀ fence' ∈ (upsertFence row t).fences, (∃ fence ∈ t.fences, fence'.meetingRef = fence.meetingRef ∧
      fence'.ownerProofRef = fence.ownerProofRef) ∨ fence' = row) ∧
    ∀ fence ∈ t.fences, ∃ fence' ∈ (upsertFence row t).fences,
      fence'.meetingRef = fence.meetingRef ∧ fence'.ownerProofRef = fence.ownerProofRef := by
  unfold upsertFence
  cases h : t.fences.get? row.meetingRef with
  | none =>
    refine ⟨⟨row, Table.mem_of_get? (Table.get?_insert_self (Table.fresh_iff.mpr h)), rfl⟩,
      fun fence hm => ?_, fun fence hm => ⟨fence, Table.mem_insert_of_mem hm, rfl, rfl⟩⟩
    rcases Table.mem_of_mem_insert hm with hm | rfl
    · exact .inl ⟨fence, hm, rfl, rfl⟩
    · exact .inr rfl
  | some existing =>
    have hm := Table.mem_of_get? h
    refine ⟨⟨_, Table.mem_replace_self hm rfl, Table.key_of_get? h⟩, fun fence hf => ?_,
      fun fence hf => ?_⟩
    · rcases Table.mem_of_mem_replace hf with hf | rfl
      · exact .inl ⟨fence, hf, rfl, rfl⟩
      · exact .inl ⟨existing, hm, rfl, rfl⟩
    · by_cases hk : fence.meetingRef = existing.meetingRef
      · have hsame : fence = existing := Table.eq_of_key hf hm hk
        exact ⟨_, Table.mem_replace_self hm rfl, by rw [hsame], by rw [hsame]⟩
      · exact ⟨fence, Table.mem_replace_of_ne hf hk, rfl, rfl⟩

theorem tombstones_upsertFence (row : FenceRow) (t : DeletionTables) :
    (upsertFence row t).tombstones = t.tombstones := by
  unfold upsertFence
  split <;> rfl

theorem tablesMove_moveToFence (cleanedAt : Timestamp) (hm : row ∈ t.tombstones) :
    TablesMove meetingDeletionFenceRef meetingDeletionOwnerProofRef none none t
      (moveToFence meetingDeletionFenceRef meetingDeletionOwnerProofRef cleanedAt row t) := by
  set fence : FenceRow :=
    { meetingRef := meetingDeletionFenceRef row.meetingId
      ownerProofRef := meetingDeletionOwnerProofRef row.meetingId row.ownerUserId
      deletedAt := row.deletedAt
      cleanedAt } with hfence
  obtain ⟨hself, hold, hkept⟩ := mem_upsertFence fence t
  have hmem : ∀ x, x ∈ (moveToFence meetingDeletionFenceRef meetingDeletionOwnerProofRef cleanedAt
      row t).tombstones ↔ x ∈ t.tombstones ∧ (x.meetingId == row.meetingId) = false := fun x => by
    show x ∈ (upsertFence fence t).tombstones.removeWhere (·.meetingId == row.meetingId) ↔ _
    rw [tombstones_upsertFence]
    exact Table.mem_removeWhere
  constructor
  · intro row' hm'
    exact .inl ⟨row', ((hmem row').mp hm').1, rfl, rfl⟩
  · intro x hx
    by_cases hid : x.meetingId = row.meetingId
    · obtain ⟨f, hf, href⟩ := hself
      exact .inr ⟨f, hf, by rw [href, hid]⟩
    · exact .inl ⟨x, (hmem x).mpr ⟨hx, by simpa using hid⟩, rfl, rfl⟩
  · intro f hf
    rcases hold f hf with hf | rfl
    · exact .inl hf
    · exact .inr ⟨row, hm, rfl, rfl⟩
  · exact hkept
  · intro row' hm' token htoken
    exact .inl ⟨row', ((hmem row').mp hm').1, rfl, htoken⟩

/-! ### What a transaction does to the two tables -/

theorem purge_tables {meetingId : MeetingId} {ownerUserId : UserId}
    (h : purgeMeetingRelationalData meetingId ownerUserId t = .ok t') :
    t'.tombstones = t.tombstones ∧ t'.fences = t.fences := by
  obtain ⟨-, h⟩ := guard_eq_ok.mp h
  obtain ⟨-, h⟩ := guard_eq_ok.mp h
  cases h
  exact ⟨rfl, rfl⟩

theorem pendingTombstone_eq_some {meetingId : MeetingId} {ownerUserId : UserId} {claimToken : Option ClaimToken}
    (h : pendingTombstone meetingId ownerUserId claimToken t = some row) :
    row ∈ t.tombstones ∧ row.meetingId = meetingId ∧ row.ownerUserId = ownerUserId ∧
      ∀ token, claimToken = some token → row.cleanupClaimToken = some token := by
  obtain ⟨hrow, hp⟩ := Option.filter_eq_some_iff.mp h
  obtain ⟨hm, hk⟩ := Table.get?_eq_some.mp hrow
  simp only [Bool.and_eq_true, beq_iff_eq] at hp
  refine ⟨hm, hk, hp.1.1, ?_⟩
  rintro token rfl
  simpa using hp.2

theorem updateTombstone_cases (meetingId : MeetingId) (p : TombstoneRow → Bool)
    (f : TombstoneRow → TombstoneRow) (t : DeletionTables) :
    updateTombstone meetingId p f t = (false, t) ∨
    ∃ row ∈ t.tombstones, row.meetingId = meetingId ∧ p row = true ∧
      updateTombstone meetingId p f t = (true, { t with tombstones := t.tombstones.replace (f row) }) := by
  unfold updateTombstone
  cases h : (t.tombstones.get? meetingId).filter p with
  | none => exact .inl rfl
  | some row =>
    obtain ⟨hrow, hp⟩ := Option.filter_eq_some_iff.mp h
    exact .inr ⟨row, Table.mem_of_get? hrow, Table.key_of_get? hrow, hp, rfl⟩

/-- An update that takes the claim away. -/
theorem tablesMove_updateTombstone {meetingId : MeetingId} {p : TombstoneRow → Bool}
    {f : TombstoneRow → TombstoneRow} (hf : ∀ row, SameDeletion row (f row))
    (htoken : ∀ row, (f row).cleanupClaimToken = none) :
    TablesMove meetingDeletionFenceRef meetingDeletionOwnerProofRef none none t
      (updateTombstone meetingId p f t).2 := by
  rcases updateTombstone_cases meetingId p f t with he | ⟨row, hm, -, -, he⟩
  · rw [he]; exact tablesMove_same rfl rfl
  · rw [he]
    exact tablesMove_replace hm (hf row) fun token h => by rw [htoken row] at h; cases h

/-- An upsert inserts a tombstone where the meeting has none, and rewrites that of the same owner. -/
theorem tablesMove_upsertTombstone {f : TombstoneRow → TombstoneRow} (h : upsertTombstone row f t = some t')
    (hrow : row.cleanupClaimToken = none) (hf : ∀ x, SameDeletion x (f x))
    (htoken : ∀ x token, (f x).cleanupClaimToken = some token → x.cleanupClaimToken = some token) :
    TablesMove meetingDeletionFenceRef meetingDeletionOwnerProofRef
      (some (row.meetingId, row.ownerUserId)) none t t' := by
  unfold upsertTombstone at h
  split at h
  · rename_i hnone
    cases h
    exact tablesMove_insert (Table.fresh_iff.mpr hnone) hrow
  · rename_i existing hexisting
    split_ifs at h with howner
    cases h
    exact tablesMove_replace (Table.mem_of_get? hexisting) (hf existing)
      fun token ht => .inl (htoken existing token ht)

theorem tablesMove_minimize {now : Timestamp} : ∀ {rows : List TombstoneRow} {t t' : DeletionTables},
    (rows.map (·.meetingId)).Nodup → (∀ row ∈ rows, row ∈ t.tombstones) →
    rows.foldlM (fun t row => minimizeTombstone meetingDeletionFenceRef meetingDeletionOwnerProofRef now
      row t) t = .ok t' →
    TablesMove meetingDeletionFenceRef meetingDeletionOwnerProofRef none none t t' := by
  intro rows
  induction rows with
  | nil =>
    intro t t' _ _ h
    cases h
    exact tablesMove_same rfl rfl
  | cons row rows ih =>
    intro t t' hnd hmem h
    obtain ⟨hne, hnd⟩ := List.nodup_cons.mp hnd
    rw [List.foldlM_cons] at h
    obtain ⟨t1, h1, h⟩ := bind_eq_ok.mp h
    obtain ⟨t0, h0, h1⟩ := bind_eq_ok.mp h1
    obtain ⟨hts, hfs⟩ := purge_tables h0
    have hrow : row ∈ t0.tombstones := hts ▸ hmem row List.mem_cons_self
    cases h1
    have hfirst : TablesMove meetingDeletionFenceRef meetingDeletionOwnerProofRef none none t t0 :=
      tablesMove_same hts hfs
    refine (hfirst.trans (tablesMove_moveToFence (row.cleanedAt.getD now) hrow)).trans
      (ih hnd (fun x hx => ?_) h)
    -- the rows still to come are those of other meetings
    have hx0 : x ∈ t0.tombstones := hts ▸ hmem x (List.mem_cons_of_mem _ hx)
    have hid : x.meetingId ≠ row.meetingId := fun he => hne (List.mem_map.mpr ⟨x, hx, he⟩)
    show x ∈ Table.removeWhere _ _
    rw [tombstones_upsertFence]
    exact Table.mem_removeWhere.mpr ⟨hx0, by simpa using hid⟩

/-! ### What a step does -/

/-- The claim an event issues. -/
def issuedBy : DeletionResult → Option (MeetingId × ClaimToken)
  | .claimed c => some (c.meetingId, c.claimToken)
  | _ => none

/-- A step outside the sections. A new tombstone is for manual cleanup of a non-canonical id. -/
structure FreeStep (meetingDeletionFenceRef : MeetingId → DeletionRef)
    (meetingDeletionOwnerProofRef : MeetingId → UserId → DeletionRef) (s : DeletionState)
    (e : DeletionEvent) (s' : DeletionState) : Prop where
  sections : s'.sections = s.sections
  tables : ∃ inserted, TablesMove meetingDeletionFenceRef meetingDeletionOwnerProofRef inserted
    (issuedBy e.result) s.tables s'.tables ∧
    ∀ meetingId ownerUserId, inserted = some (meetingId, ownerUserId) →
      isCanonicalMeetingId meetingId = false
  issued : s'.issued = s.issued ∧ issuedBy e.result = none ∨
    ∃ meetingId token, issuedBy e.result = some (meetingId, token) ∧ token ∉ s.issued ∧
      s'.issued = token :: s.issued ∧
      ∀ row ∈ s'.tables.tombstones, row.meetingId = meetingId → row.cleanupClaimToken = some token

/-- What the holder of the lock knows is so. -/
structure SectionOk (meetingDeletionFenceRef : MeetingId → DeletionRef)
    (meetingDeletionOwnerProofRef : MeetingId → UserId → DeletionRef) (t : DeletionTables)
    (meetingId : MeetingId) (held : Section) : Prop where
  unowned : held.unowned = true → ∀ row ∈ t.tombstones, row.meetingId ≠ meetingId
  marking : ∀ ownerUserId, held.pending = some (.marking ownerUserId) →
    held.unowned = true ∧ ∀ fence ∈ t.fences, fence.meetingRef ≠ meetingDeletionFenceRef meetingId
  reopening : ∀ ownerUserId, held.pending = some (.reopening ownerUserId) →
    ∃ fence ∈ t.fences, fence.meetingRef = meetingDeletionFenceRef meetingId ∧
      fence.ownerProofRef = meetingDeletionOwnerProofRef meetingId ownerUserId

/-- A step of the section of a meeting: a read, or the insert of the call in progress. -/
structure SectionStep (meetingDeletionFenceRef : MeetingId → DeletionRef)
    (meetingDeletionOwnerProofRef : MeetingId → UserId → DeletionRef) (s : DeletionState)
    (e : DeletionEvent) (s' : DeletionState) (meetingId : MeetingId) (held' : Option Section) :
    Prop where
  sections : s'.sections = Function.update s.sections meetingId held'
  known : (s.sections meetingId).isSome = true ∨ isCanonicalMeetingId meetingId = true
  issued : s'.issued = s.issued
  result : issuedBy e.result = none
  tables : (s'.tables = s.tables ∧
      ∀ h ∈ held', (∀ held, s.sections meetingId = some held →
        SectionOk meetingDeletionFenceRef meetingDeletionOwnerProofRef s.tables meetingId held) →
        SectionOk meetingDeletionFenceRef meetingDeletionOwnerProofRef s.tables meetingId h) ∨
    ∃ held ownerUserId, s.sections meetingId = some held ∧ held' = some {} ∧
      (held.pending = some (.marking ownerUserId) ∨ held.pending = some (.reopening ownerUserId)) ∧
      TablesMove meetingDeletionFenceRef meetingDeletionOwnerProofRef (some (meetingId, ownerUserId))
        none s.tables s'.tables

theorem sectionOk_entered {meetingId : MeetingId} :
    SectionOk meetingDeletionFenceRef meetingDeletionOwnerProofRef t meetingId {} where
  unowned h := by cases h
  marking _ h := by cases h
  reopening _ h := by cases h

theorem SectionOk.idle {meetingId : MeetingId} {held : Section}
    (h : SectionOk meetingDeletionFenceRef meetingDeletionOwnerProofRef t meetingId held) :
    SectionOk meetingDeletionFenceRef meetingDeletionOwnerProofRef t meetingId
      { held with pending := none } where
  unowned := h.unowned
  marking _ h := by cases h
  reopening _ h := by cases h

theorem fenceExists_iff {meetingId : MeetingId} :
    fenceExists meetingDeletionFenceRef meetingId t = true ↔
      ∃ fence ∈ t.fences, fence.meetingRef = meetingDeletionFenceRef meetingId := by
  rw [fenceExists, Option.isSome_iff_exists]
  exact exists_congr fun _ => Table.get?_eq_some

theorem fenceMatches_iff {meetingId : MeetingId} {ownerUserId : UserId} :
    fenceMatches meetingDeletionFenceRef meetingDeletionOwnerProofRef meetingId ownerUserId t = true ↔
      ∃ fence ∈ t.fences, fence.meetingRef = meetingDeletionFenceRef meetingId ∧
        fence.ownerProofRef = meetingDeletionOwnerProofRef meetingId ownerUserId := by
  rw [fenceMatches, Option.any_eq_true]
  constructor
  · rintro ⟨fence, hfence, hproof⟩
    obtain ⟨hm, hk⟩ := Table.get?_eq_some.mp hfence
    exact ⟨fence, hm, hk, by simpa using hproof⟩
  · rintro ⟨fence, hm, href, hproof⟩
    exact ⟨fence, Table.get?_eq_some.mpr ⟨hm, href⟩, by simpa using hproof⟩

theorem canonicalMeetingId_eq_ok {value key : String} (h : canonicalMeetingId value = .ok key) :
    key = value ∧ isCanonicalMeetingId value = true := by
  unfold canonicalMeetingId at h
  split_ifs at h with hc
  cases h
  exact ⟨rfl, hc⟩

theorem getMeetingDeletionOwner_eq_none {meetingId : MeetingId} :
    (getMeetingDeletionOwner meetingId t).isNone = true ↔
      ∀ row ∈ t.tombstones, row.meetingId ≠ meetingId := by
  rw [getMeetingDeletionOwner, Option.isNone_map, Option.isNone_iff_eq_none]
  exact Table.get?_eq_none

variable {s s' : DeletionState} {call : DeletionCall} {e : DeletionEvent}

theorem onTables_free {α : Type} {r : DeletionResult} {result : α → DeletionResult}
    {outcome : Except DeletionError (α × DeletionTables)} (hresult : ∀ a, issuedBy (result a) = none)
    (hmove : ∀ a t, outcome = .ok (a, t) →
      TablesMove meetingDeletionFenceRef meetingDeletionOwnerProofRef none none s.tables t)
    (h : some (onTables s result outcome) = some (r, s')) :
    FreeStep meetingDeletionFenceRef meetingDeletionOwnerProofRef s ⟨call, r⟩ s' := by
  cases houtcome : outcome with
  | error e =>
    rw [houtcome] at h
    cases h
    exact ⟨rfl, ⟨none, tablesMove_same rfl rfl, fun _ _ h => by cases h⟩, .inl ⟨rfl, rfl⟩⟩
  | ok p =>
    rw [houtcome] at h
    cases h
    refine ⟨rfl, ⟨none, ?_, fun _ _ h => by cases h⟩, .inl ⟨rfl, hresult _⟩⟩
    show TablesMove _ _ none (issuedBy (result p.1)) _ _
    rw [hresult]
    exact hmove p.1 p.2 houtcome

theorem issuedBy_flag (b : Bool) : issuedBy (flag b) = none := by cases b <;> rfl

theorem claim_free {now : Timestamp} {workerId : String} {ownerUserId : Option UserId} {chosen : MeetingId}
    {claimToken : ClaimToken} {r : DeletionResult}
    (h : take meetingDeletionFenceRef meetingDeletionOwnerProofRef sanitizeMessage
      (.claim now workerId ownerUserId chosen claimToken) s = some (r, s')) :
    FreeStep meetingDeletionFenceRef meetingDeletionOwnerProofRef s
      ⟨.claim now workerId ownerUserId chosen claimToken, r⟩ s' := by
  simp only [take] at h
  split_ifs at h with hfresh
  unfold claimMeetingDeletionCleanup at h
  cases hrow : (s.tables.tombstones.get? chosen).filter (cleanupDue now ownerUserId) with
  | none =>
    rw [hrow] at h
    cases h
    exact ⟨rfl, ⟨none, tablesMove_same rfl rfl, fun _ _ h => by cases h⟩, .inl ⟨rfl, rfl⟩⟩
  | some row =>
    rw [hrow] at h
    cases h
    have hget := (Option.filter_eq_some_iff.mp hrow).1
    have hm := Table.mem_of_get? hget
    refine ⟨rfl, ⟨none, ?_, fun _ _ h => by cases h⟩, .inr ⟨row.meetingId, claimToken, rfl, hfresh, rfl,
      fun x hx hid => ?_⟩⟩
    · refine tablesMove_replace hm ⟨rfl, rfl⟩ fun token htoken => .inr ?_
      cases htoken
      rfl
    · rcases Table.mem_replace.mp hx with ⟨-, hne⟩ | ⟨rfl, -⟩
      · exact absurd hid hne
      · rfl

theorem minimize_tables {now : Timestamp} {chosen : List MeetingId} {n : ℕ}
    (h : minimizeCompletedMeetingDeletionIdentifiers meetingDeletionFenceRef
      meetingDeletionOwnerProofRef now chosen t = .ok (n, t')) :
    TablesMove meetingDeletionFenceRef meetingDeletionOwnerProofRef none none t t' := by
  obtain ⟨t1, h1, h2⟩ := bind_eq_ok.mp h
  cases h2
  refine tablesMove_minimize ?_ (fun row hrow => (List.mem_filter.mp hrow).1) h1
  exact (List.Sublist.map _ List.filter_sublist).nodup t.tombstones.nodup

theorem complete_tables {now : Timestamp} {meetingId : MeetingId} {ownerUserId : UserId}
    {claimToken : Option ClaimToken} {moved : Bool}
    (h : completeMeetingDeletionCleanup meetingDeletionFenceRef meetingDeletionOwnerProofRef now
      meetingId ownerUserId claimToken t = .ok (moved, t')) :
    TablesMove meetingDeletionFenceRef meetingDeletionOwnerProofRef none none t t' ∧
      (moved = true → ∃ row ∈ t.tombstones, row.meetingId = meetingId ∧
        row.ownerUserId = ownerUserId ∧
        ∀ token, claimToken = some token → row.cleanupClaimToken = some token) := by
  obtain ⟨key, hkey, hok⟩ := bind_eq_ok.mp h
  obtain ⟨rfl, -⟩ := canonicalMeetingId_eq_ok hkey
  unfold moveCompletedMeetingDeletionToFence at hok
  cases hrow : pendingTombstone key ownerUserId claimToken t with
  | none =>
    rw [hrow] at hok
    cases hok
    exact ⟨tablesMove_same rfl rfl, fun h => by cases h⟩
  | some row =>
    rw [hrow] at hok
    obtain ⟨-, hok⟩ := guard_eq_ok.mp hok
    obtain ⟨-, hok⟩ := guard_eq_ok.mp hok
    cases hok
    have hspec := pendingTombstone_eq_some hrow
    exact ⟨tablesMove_moveToFence now hspec.1, fun _ => ⟨row, hspec⟩⟩

theorem purgeCatalog_tables {meetingId : MeetingId} {ownerUserId : UserId}
    {claimToken : Option ClaimToken} {u : Unit}
    (h : purgeMeetingCatalogAfterObjectDeletion meetingId ownerUserId claimToken t = .ok (u, t')) :
    (t'.tombstones = t.tombstones ∧ t'.fences = t.fences) ∧
      ∃ row ∈ t.tombstones, row.meetingId = meetingId ∧ row.ownerUserId = ownerUserId ∧
        ∀ token, claimToken = some token → row.cleanupClaimToken = some token := by
  obtain ⟨key, hkey, hok⟩ := bind_eq_ok.mp h
  obtain ⟨rfl, -⟩ := canonicalMeetingId_eq_ok hkey
  cases hrow : pendingTombstone key ownerUserId claimToken t with
  | none => rw [hrow] at hok; cases hok
  | some row =>
    rw [hrow] at hok
    obtain ⟨t1, h1, h2⟩ := map_eq_ok.mp hok
    cases h2
    exact ⟨purge_tables h1, row, pendingTombstone_eq_some hrow⟩

section Retry

variable {now : Timestamp} {meetingId : MeetingId} {retryAfterMs : ℚ} {errorMessage : String}
  {claimToken : Option ClaimToken} {scheduled : Bool}
  (h : retryMeetingDeletionCleanup sanitizeMessage now meetingId retryAfterMs errorMessage claimToken t =
    .ok (scheduled, t'))

include h

theorem retry_eq : ∃ f : TombstoneRow → TombstoneRow, (∀ row, SameDeletion row (f row)) ∧
    (∀ row, (f row).cleanupClaimToken = none) ∧
    updateTombstone meetingId (fun row => claimToken.all fun token =>
      row.cleanupClaimToken == some token) f t = (scheduled, t') := by
  obtain ⟨key, hkey, hok⟩ := bind_eq_ok.mp h
  obtain ⟨rfl, -⟩ := canonicalMeetingId_eq_ok hkey
  refine ⟨_, ?_, ?_, Except.ok.inj hok⟩
  · exact fun _ => ⟨rfl, rfl⟩
  · exact fun _ => rfl

theorem retry_tables :
    TablesMove meetingDeletionFenceRef meetingDeletionOwnerProofRef none none t t' := by
  obtain ⟨f, hsame, htoken, he⟩ := retry_eq h
  have ht : (updateTombstone meetingId _ f t).2 = t' := congrArg Prod.snd he
  exact ht ▸ tablesMove_updateTombstone hsame htoken

theorem retry_scheduled (hscheduled : scheduled = true) :
    ∃ row ∈ t.tombstones, row.meetingId = meetingId ∧
      ∀ token, claimToken = some token → row.cleanupClaimToken = some token := by
  obtain ⟨f, -, -, he⟩ := retry_eq h
  rcases updateTombstone_cases meetingId (fun row => claimToken.all fun token =>
    row.cleanupClaimToken == some token) f t with hnone | ⟨row, hm, hid, hp, -⟩
  · rw [hnone, hscheduled] at he; cases he
  · refine ⟨row, hm, hid, ?_⟩
    rintro token rfl
    simpa using hp

end Retry

theorem isCanonical_of_traversalSafe {meetingId : MeetingId}
    (h : isTraversalSafeLegacyMeetingId meetingId = true) : isCanonicalMeetingId meetingId = false := by
  simp only [isTraversalSafeLegacyMeetingId, Bool.and_eq_true, Bool.not_eq_true'] at h
  exact h.1.1.1

theorem legacy_free {now : Timestamp} {meetingId : MeetingId} {ownerUserId : UserId} {r : DeletionResult}
    (h : take meetingDeletionFenceRef meetingDeletionOwnerProofRef sanitizeMessage
      (.quarantineLegacy now meetingId ownerUserId) s = some (r, s')) :
    FreeStep meetingDeletionFenceRef meetingDeletionOwnerProofRef s
      ⟨.quarantineLegacy now meetingId ownerUserId, r⟩ s' := by
  simp only [take] at h
  cases houtcome : quarantineLegacyMeetingDeletionForManualCleanup now meetingId ownerUserId
      s.tables with
  | error e =>
    rw [houtcome] at h
    cases h
    exact ⟨rfl, ⟨none, tablesMove_same rfl rfl, fun _ _ h => by cases h⟩, .inl ⟨rfl, rfl⟩⟩
  | ok p =>
    rw [houtcome] at h
    cases h
    obtain ⟨hsafe, hok⟩ := guard_eq_ok.mp houtcome
    obtain ⟨-, hok⟩ := guard_eq_ok.mp hok
    split at hok
    · cases hok
    · rename_i t hupsert
      cases hok
      refine ⟨rfl, ⟨some (meetingId, ownerUserId), ?_, ?_⟩, .inl ⟨rfl, rfl⟩⟩
      · exact tablesMove_upsertTombstone hupsert rfl (fun _ => ⟨rfl, rfl⟩) fun _ _ h => by cases h
      · rintro _ _ ⟨⟩
        exact isCanonical_of_traversalSafe (by simpa using hsafe)

theorem step_cases (hstep : DeletionStep meetingDeletionFenceRef meetingDeletionOwnerProofRef sanitizeMessage s e s') :
    FreeStep meetingDeletionFenceRef meetingDeletionOwnerProofRef s e s' ∨
    ∃ meetingId held', SectionStep meetingDeletionFenceRef meetingDeletionOwnerProofRef s e s'
      meetingId held' := by
  obtain ⟨call, r⟩ := e
  have h : take meetingDeletionFenceRef meetingDeletionOwnerProofRef sanitizeMessage call s =
    some (r, s') := hstep
  clear hstep
  cases call with
  | claim now workerId ownerUserId chosen claimToken => exact .inl (claim_free h)
  | purge meetingId ownerUserId claimToken =>
    exact .inl (onTables_free (fun _ => rfl) (fun _ _ hok =>
      tablesMove_same (purgeCatalog_tables hok).1.1 (purgeCatalog_tables hok).1.2) h)
  | complete now meetingId ownerUserId claimToken =>
    exact .inl (onTables_free issuedBy_flag (fun _ _ hok => (complete_tables hok).1) h)
  | minimize now chosen =>
    exact .inl (onTables_free (fun _ => rfl) (fun _ _ hok => minimize_tables hok) h)
  | retry now meetingId retryAfterMs errorMessage claimToken =>
    exact .inl (onTables_free issuedBy_flag (fun _ _ hok => retry_tables hok) h)
  | quarantineOwnerConflict now meetingId ownerUserId =>
    refine .inl (onTables_free issuedBy_flag (fun _ t hok => ?_) h)
    obtain ⟨key, -, hok⟩ := bind_eq_ok.mp hok
    have ht : t = (updateTombstone key _ _ s.tables).2 := (congrArg Prod.snd (Except.ok.inj hok)).symm
    exact ht ▸ tablesMove_updateTombstone (fun _ => ⟨rfl, rfl⟩) fun _ => rfl
  | quarantineNonCanonical now ownerUserId =>
    cases h
    refine .inl ⟨rfl, ⟨none, ?_, fun _ _ h => by cases h⟩, .inl ⟨rfl, rfl⟩⟩
    exact tablesMove_rewrites rfl (Table.rewrites_updateWhere (quarantined_key now _)
      (fun _ => ⟨⟨rfl, rfl⟩, fun _ h => .inl h⟩) fun _ _ _ => ⟨⟨rfl, rfl⟩, fun _ h => by cases h⟩)
  | quarantineLegacy now meetingId ownerUserId => exact .inl (legacy_free h)
  | changeCatalog meetings transfers =>
    cases h
    exact .inl ⟨rfl, ⟨none, tablesMove_same rfl rfl, fun _ _ h => by cases h⟩, .inl ⟨rfl, rfl⟩⟩
  | enterLock meetingId =>
    simp only [take] at h
    cases hkey : canonicalMeetingId meetingId with
    | error e =>
      rw [hkey] at h
      cases h
      exact .inl ⟨rfl, ⟨none, tablesMove_same rfl rfl, fun _ _ h => by cases h⟩, .inl ⟨rfl, rfl⟩⟩
    | ok key =>
      obtain ⟨rfl, hcanonical⟩ := canonicalMeetingId_eq_ok hkey
      rw [hkey] at h
      dsimp only at h
      split_ifs at h
      cases h
      refine .inr ⟨key, some {}, rfl, .inr hcanonical, rfl, rfl, .inl ⟨rfl, ?_⟩⟩
      rintro _ ⟨⟩ -
      exact sectionOk_entered
  | leaveLock meetingId =>
    obtain ⟨held, hheld, h⟩ := Option.bind_eq_some_iff.mp h
    cases h
    refine .inr ⟨meetingId, none, rfl, .inl (by rw [hheld]; rfl), rfl, rfl, .inl ⟨rfl, ?_⟩⟩
    rintro _ ⟨⟩
  | readDeletionOwner meetingId =>
    obtain ⟨held, hheld, h⟩ := Option.bind_eq_some_iff.mp h
    cases h
    refine .inr ⟨meetingId, _, rfl, .inl (by rw [hheld]; rfl), rfl, rfl, .inl ⟨rfl, ?_⟩⟩
    rintro _ ⟨⟩ hok
    have hok := hok held hheld
    refine ⟨getMeetingDeletionOwner_eq_none.mp, fun o hpending => ?_, hok.reopening⟩
    obtain ⟨hun, hfences⟩ := hok.marking o hpending
    exact ⟨getMeetingDeletionOwner_eq_none.mpr (hok.unowned hun), hfences⟩
  | checkMark meetingId ownerUserId =>
    obtain ⟨held, hheld, h⟩ := Option.bind_eq_some_iff.mp h
    split_ifs at h with hun hfence
    · cases h
      refine .inr ⟨meetingId, _, rfl, .inl (by rw [hheld]; rfl), rfl, rfl, .inl ⟨rfl, ?_⟩⟩
      rintro _ ⟨⟩ hok
      exact (hok held hheld).idle
    · cases h
      refine .inr ⟨meetingId, _, rfl, .inl (by rw [hheld]; rfl), rfl, rfl, .inl ⟨rfl, ?_⟩⟩
      rintro _ ⟨⟩ hok
      refine ⟨(hok held hheld).unowned, fun o _ => ⟨by simpa using hun, fun fence hm href => ?_⟩,
        fun o h => by cases h⟩
      exact hfence (fenceExists_iff.mpr ⟨fence, hm, href⟩)
  | mark now meetingId ownerUserId =>
    obtain ⟨held, hheld, h⟩ := Option.bind_eq_some_iff.mp h
    split_ifs at h with hpending
    have hpending : held.pending = some (.marking ownerUserId) := by simpa using hpending
    cases hmark : markTombstone now meetingId ownerUserId s.tables with
    | error e =>
      rw [hmark] at h
      cases h
      refine .inr ⟨meetingId, _, rfl, .inl (by rw [hheld]; rfl), rfl, rfl, .inl ⟨rfl, ?_⟩⟩
      rintro _ ⟨⟩ hok
      exact (hok held hheld).idle
    | ok p =>
      rw [hmark] at h
      cases h
      refine .inr ⟨meetingId, _, rfl, .inl (by rw [hheld]; rfl), rfl, rfl, .inr ⟨held, ownerUserId,
        hheld, rfl, .inl hpending, ?_⟩⟩
      unfold markTombstone at hmark
      split at hmark
      · cases hmark
      · rename_i t hupsert
        cases hmark
        exact tablesMove_upsertTombstone hupsert rfl (fun _ => ⟨rfl, rfl⟩) fun _ _ h => h
  | checkReopen meetingId ownerUserId userExists =>
    obtain ⟨held, hheld, h⟩ := Option.bind_eq_some_iff.mp h
    cases h
    refine .inr ⟨meetingId, _, rfl, .inl (by rw [hheld]; rfl), rfl, rfl, .inl ⟨rfl, ?_⟩⟩
    rintro _ ⟨⟩ hok
    split_ifs with hmatches
    · refine ⟨(hok held hheld).unowned, fun o h => (by cases h), ?_⟩
      rintro o ⟨⟩
      exact fenceMatches_iff.mp (Bool.and_eq_true_iff.mp hmatches).2
    · exact (hok held hheld).idle
  | reopen now meetingId ownerUserId errorMessage =>
    obtain ⟨held, hheld, h⟩ := Option.bind_eq_some_iff.mp h
    split_ifs at h with hpending
    have hpending : held.pending = some (.reopening ownerUserId) := by simpa using hpending
    unfold reopenTombstone at h
    split at h
    · rename_i t hreopen
      cases h
      refine .inr ⟨meetingId, _, rfl, .inl (by rw [hheld]; rfl), rfl, rfl, .inr ⟨held, ownerUserId,
        hheld, rfl, .inr hpending, ?_⟩⟩
      split at hreopen
      · cases hreopen
      · rename_i t' hupsert
        cases hreopen
        exact tablesMove_upsertTombstone hupsert rfl (fun _ => ⟨rfl, rfl⟩) fun _ _ h => by cases h
    · rename_i t hreopen
      cases h
      have ht : t = s.tables := by
        split at hreopen
        · exact (congrArg Prod.snd hreopen).symm
        · cases hreopen
      refine .inr ⟨meetingId, _, rfl, .inl (by rw [hheld]; rfl), rfl, rfl, .inl ⟨ht, ?_⟩⟩
      rintro _ ⟨⟩ hok
      exact (hok held hheld).idle

/-! ### The invariant -/

structure DeletionInv (meetingDeletionFenceRef : MeetingId → DeletionRef)
    (meetingDeletionOwnerProofRef : MeetingId → UserId → DeletionRef) (s : DeletionState) : Prop where
  sections : ∀ meetingId held, s.sections meetingId = some held →
    isCanonicalMeetingId meetingId = true ∧
      SectionOk meetingDeletionFenceRef meetingDeletionOwnerProofRef s.tables meetingId held
  tokens : ∀ row ∈ s.tables.tombstones, ∀ token, row.cleanupClaimToken = some token → token ∈ s.issued

/-- No lock is held, and the claims under way were issued. -/
structure Start (s : DeletionState) : Prop where
  sections : ∀ meetingId, s.sections meetingId = none
  tokens : ∀ row ∈ s.tables.tombstones, ∀ token, row.cleanupClaimToken = some token → token ∈ s.issued

theorem deletionInv_start (h : Start s) :
    DeletionInv meetingDeletionFenceRef meetingDeletionOwnerProofRef s where
  sections meetingId held hheld := by rw [h.sections meetingId] at hheld; cases hheld
  tokens := h.tokens

/-- What the holder of a lock knows stays so while nothing is inserted for the meeting. -/
theorem SectionOk.move {meetingId : MeetingId} {held : Section}
    (hmeeting : Function.Injective meetingDeletionFenceRef)
    (h : SectionOk meetingDeletionFenceRef meetingDeletionOwnerProofRef t meetingId held)
    (hmove : TablesMove meetingDeletionFenceRef meetingDeletionOwnerProofRef inserted issued t t')
    (hins : ∀ ownerUserId, inserted ≠ some (meetingId, ownerUserId)) :
    SectionOk meetingDeletionFenceRef meetingDeletionOwnerProofRef t' meetingId held where
  unowned hun row' hm hid := by
    rcases hmove.tombstone_old row' hm with ⟨row, hrow, hs⟩ | hi
    · exact h.unowned hun row hrow (hs.meetingId.symm.trans hid)
    · exact hins row'.ownerUserId (hid ▸ hi)
  marking o hpending := by
    obtain ⟨hun, hfences⟩ := h.marking o hpending
    refine ⟨hun, fun fence' hm href => ?_⟩
    rcases hmove.fence_old fence' hm with ⟨fence, hf, hr, -⟩ | ⟨row, hrow, hr, -⟩
    · exact hfences fence hf (hr.symm.trans href)
    · exact h.unowned hun row hrow (hmeeting (hr.symm.trans href))
  reopening o hpending := by
    obtain ⟨fence, hm, href, hproof⟩ := h.reopening o hpending
    obtain ⟨fence', hm', href', hproof'⟩ := hmove.fence_kept fence hm
    exact ⟨fence', hm', href'.trans href, hproof'.trans hproof⟩

theorem FreeStep.tokens (h : FreeStep meetingDeletionFenceRef meetingDeletionOwnerProofRef s e s') :
    ∀ row' ∈ s'.tables.tombstones, ∀ token, row'.cleanupClaimToken = some token →
      (∃ row ∈ s.tables.tombstones, row.meetingId = row'.meetingId ∧
        row.cleanupClaimToken = some token) ∨
      token ∉ s.issued ∧ token ∈ s'.issued := by
  intro row' hm token htoken
  obtain ⟨inserted, hmove, -⟩ := h.tables
  rcases hmove.token_old row' hm token htoken with hold | hnew
  · exact .inl hold
  · rcases h.issued with ⟨-, hnone⟩ | ⟨meetingId, k, hk, hfresh, hissued, -⟩
    · rw [hnone] at hnew; cases hnew
    · rw [hk] at hnew
      cases hnew
      exact .inr ⟨hfresh, hissued ▸ List.mem_cons_self⟩

theorem SectionStep.tokens {meetingId : MeetingId} {held' : Option Section}
    (h : SectionStep meetingDeletionFenceRef meetingDeletionOwnerProofRef s e s' meetingId held') :
    ∀ row' ∈ s'.tables.tombstones, ∀ token, row'.cleanupClaimToken = some token →
      ∃ row ∈ s.tables.tombstones, row.meetingId = row'.meetingId ∧
        row.cleanupClaimToken = some token := by
  intro row' hm token htoken
  rcases h.tables with ⟨he, -⟩ | ⟨held, o, -, -, -, hmove⟩
  · exact ⟨row', he ▸ hm, rfl, htoken⟩
  · exact (hmove.token_old row' hm token htoken).resolve_right fun h => by cases h

/-- A token on a tombstone was there before, or is issued by the step. -/
theorem tokens_step
    (hstep : DeletionStep meetingDeletionFenceRef meetingDeletionOwnerProofRef sanitizeMessage s e s') :
    (∀ token ∈ s.issued, token ∈ s'.issued) ∧
    ∀ row' ∈ s'.tables.tombstones, ∀ token, row'.cleanupClaimToken = some token →
      (∃ row ∈ s.tables.tombstones, row.meetingId = row'.meetingId ∧
        row.cleanupClaimToken = some token) ∨
      token ∉ s.issued ∧ token ∈ s'.issued := by
  rcases step_cases hstep with hfree | ⟨meetingId, held', hsection⟩
  · refine ⟨fun token hm => ?_, hfree.tokens⟩
    rcases hfree.issued with ⟨he, -⟩ | ⟨_, _, -, -, he, -⟩
    · exact he ▸ hm
    · exact he ▸ List.mem_cons_of_mem _ hm
  · exact ⟨fun token hm => hsection.issued ▸ hm,
      fun row' hm token htoken => .inl (hsection.tokens row' hm token htoken)⟩

theorem deletionInv_step (hmeeting : Function.Injective meetingDeletionFenceRef)
    (h : DeletionInv meetingDeletionFenceRef meetingDeletionOwnerProofRef s)
    (hstep : DeletionStep meetingDeletionFenceRef meetingDeletionOwnerProofRef sanitizeMessage s e s') :
    DeletionInv meetingDeletionFenceRef meetingDeletionOwnerProofRef s' where
  tokens row' hm token htoken := by
    obtain ⟨hkept, htokens⟩ := tokens_step hstep
    rcases htokens row' hm token htoken with ⟨row, hrow, -, hold⟩ | ⟨-, hnew⟩
    · exact hkept token (h.tokens row hrow token hold)
    · exact hnew
  sections := by
    intro m held hheld
    rcases step_cases hstep with hfree | ⟨meetingId, held', hsection⟩
    · rw [hfree.sections] at hheld
      obtain ⟨hcanonical, hok⟩ := h.sections m held hheld
      obtain ⟨inserted, hmove, hins⟩ := hfree.tables
      refine ⟨hcanonical, hok.move hmeeting hmove fun o hi => ?_⟩
      rw [hins m o hi] at hcanonical
      cases hcanonical
    · rw [hsection.sections] at hheld
      by_cases hm : m = meetingId
      · subst hm
        rw [Function.update_self] at hheld
        refine ⟨?_, ?_⟩
        · rcases hsection.known with hsome | hcanonical
          · obtain ⟨old, hold⟩ := Option.isSome_iff_exists.mp hsome
            exact (h.sections m old hold).1
          · exact hcanonical
        · rcases hsection.tables with ⟨he, hok⟩ | ⟨_, _, -, he, -, -⟩
          · rw [he]
            exact hok held hheld fun old hold => (h.sections m old hold).2
          · rw [he] at hheld
            cases hheld
            exact sectionOk_entered
      · rw [Function.update_of_ne hm] at hheld
        obtain ⟨hcanonical, hok⟩ := h.sections m held hheld
        refine ⟨hcanonical, ?_⟩
        rcases hsection.tables with ⟨he, -⟩ | ⟨_, o, -, -, -, hmove⟩
        · rw [he]; exact hok
        · refine hok.move hmeeting hmove ?_
          rintro o' ⟨⟩
          exact hm rfl

/-! ### A deleted meeting -/

/-- The meeting is deleted by the owner: it has a tombstone or a fence, and both are the owner's. -/
structure Deleted (meetingDeletionFenceRef : MeetingId → DeletionRef)
    (meetingDeletionOwnerProofRef : MeetingId → UserId → DeletionRef) (meetingId : MeetingId)
    (ownerUserId : UserId) (t : DeletionTables) : Prop where
  canonical : isCanonicalMeetingId meetingId = true
  present : (∃ row ∈ t.tombstones, row.meetingId = meetingId) ∨
    ∃ fence ∈ t.fences, fence.meetingRef = meetingDeletionFenceRef meetingId
  tombstone : ∀ row ∈ t.tombstones, row.meetingId = meetingId → row.ownerUserId = ownerUserId
  fence : ∀ fence ∈ t.fences, fence.meetingRef = meetingDeletionFenceRef meetingId →
    fence.ownerProofRef = meetingDeletionOwnerProofRef meetingId ownerUserId

variable {meetingId : MeetingId} {ownerUserId : UserId}

theorem Deleted.move (hmeeting : Function.Injective meetingDeletionFenceRef)
    (h : Deleted meetingDeletionFenceRef meetingDeletionOwnerProofRef meetingId ownerUserId t)
    (hmove : TablesMove meetingDeletionFenceRef meetingDeletionOwnerProofRef inserted issued t t')
    (hins : ∀ o, inserted = some (meetingId, o) → o = ownerUserId) :
    Deleted meetingDeletionFenceRef meetingDeletionOwnerProofRef meetingId ownerUserId t' where
  canonical := h.canonical
  present := by
    rcases h.present with ⟨row, hm, hid⟩ | ⟨fence, hm, href⟩
    · rcases hmove.tombstone_kept row hm with ⟨row', hm', hs⟩ | ⟨fence', hm', href'⟩
      · exact .inl ⟨row', hm', hs.meetingId.trans hid⟩
      · exact .inr ⟨fence', hm', by rw [href', hid]⟩
    · obtain ⟨fence', hm', href', -⟩ := hmove.fence_kept fence hm
      exact .inr ⟨fence', hm', href'.trans href⟩
  tombstone row' hm hid := by
    rcases hmove.tombstone_old row' hm with ⟨row, hrow, hs⟩ | hi
    · rw [hs.ownerUserId]
      exact h.tombstone row hrow (hs.meetingId.symm.trans hid)
    · exact hins _ (hid ▸ hi)
  fence fence' hm href := by
    rcases hmove.fence_old fence' hm with ⟨fence, hf, hr, hp⟩ | ⟨row, hrow, hr, hp⟩
    · rw [hp]
      exact h.fence fence hf (hr.symm.trans href)
    · have hid : row.meetingId = meetingId := hmeeting (hr.symm.trans href)
      rw [hp, hid, h.tombstone row hrow hid]

/-- Who has a call in progress on a deleted meeting is its owner. -/
theorem Deleted.pending
    (howner : Function.Injective (Function.uncurry meetingDeletionOwnerProofRef))
    (h : Deleted meetingDeletionFenceRef meetingDeletionOwnerProofRef meetingId ownerUserId t)
    {held : Section} {o : UserId}
    (hok : SectionOk meetingDeletionFenceRef meetingDeletionOwnerProofRef t meetingId held)
    (hpending : held.pending = some (.marking o) ∨ held.pending = some (.reopening o)) :
    o = ownerUserId := by
  rcases hpending with hpending | hpending
  · obtain ⟨hun, hfences⟩ := hok.marking o hpending
    rcases h.present with ⟨row, hm, hid⟩ | ⟨fence, hm, href⟩
    · exact absurd hid (hok.unowned hun row hm)
    · exact absurd href (hfences fence hm)
  · obtain ⟨fence, hm, href, hproof⟩ := hok.reopening o hpending
    have hpair : (meetingId, o) = (meetingId, ownerUserId) :=
      howner (hproof.symm.trans (h.fence fence hm href))
    exact congrArg Prod.snd hpair

theorem deleted_step (hmeeting : Function.Injective meetingDeletionFenceRef)
    (howner : Function.Injective (Function.uncurry meetingDeletionOwnerProofRef))
    (hinv : DeletionInv meetingDeletionFenceRef meetingDeletionOwnerProofRef s)
    (h : Deleted meetingDeletionFenceRef meetingDeletionOwnerProofRef meetingId ownerUserId s.tables)
    (hstep : DeletionStep meetingDeletionFenceRef meetingDeletionOwnerProofRef sanitizeMessage s e s') :
    Deleted meetingDeletionFenceRef meetingDeletionOwnerProofRef meetingId ownerUserId s'.tables := by
  rcases step_cases hstep with hfree | ⟨m, held', hsection⟩
  · obtain ⟨inserted, hmove, hins⟩ := hfree.tables
    refine h.move hmeeting hmove fun o hi => ?_
    have hcanonical := h.canonical
    rw [hins meetingId o hi] at hcanonical
    cases hcanonical
  · rcases hsection.tables with ⟨he, -⟩ | ⟨held, o, hheld, -, hpending, hmove⟩
    · rw [he]; exact h
    · refine h.move hmeeting hmove ?_
      rintro o' ⟨⟩
      exact h.pending howner (hinv.sections _ held hheld).2 hpending

theorem isMeetingWriteAllowed_of_deleted
    (h : Deleted meetingDeletionFenceRef meetingDeletionOwnerProofRef meetingId ownerUserId t) :
    isMeetingWriteAllowed meetingDeletionFenceRef meetingId t = false := by
  rw [isMeetingWriteAllowed, Bool.and_eq_false_iff]
  rcases h.present with ⟨row, hm, hid⟩ | ⟨fence, hm, href⟩
  · left
    rw [Table.get?_eq_some.mpr ⟨hm, hid⟩]
    rfl
  · right
    rw [Table.get?_eq_some.mpr ⟨hm, href⟩]
    rfl

/-- A meeting that was marked is deleted by who marked it. -/
theorem deleted_of_mark {now : Timestamp} (hinv : DeletionInv meetingDeletionFenceRef meetingDeletionOwnerProofRef s)
    (hstep : DeletionStep meetingDeletionFenceRef meetingDeletionOwnerProofRef sanitizeMessage s
      ⟨.mark now meetingId ownerUserId, .wrote⟩ s') :
    Deleted meetingDeletionFenceRef meetingDeletionOwnerProofRef meetingId ownerUserId s'.tables := by
  obtain ⟨held, hheld, h⟩ := Option.bind_eq_some_iff.mp hstep
  split_ifs at h with hpending
  obtain ⟨hcanonical, hok⟩ := hinv.sections meetingId held hheld
  obtain ⟨hun, hfences⟩ := hok.marking ownerUserId (by simpa using hpending)
  have hnone : s.tables.tombstones.get? meetingId = none :=
    Table.get?_eq_none.mpr fun row hm => hok.unowned hun row hm
  unfold markTombstone upsertTombstone at h
  simp only [hnone] at h
  cases h
  refine ⟨hcanonical, .inl ⟨_, Table.mem_of_get? (Table.get?_insert_self (Table.fresh_iff.mpr hnone)),
    rfl⟩, fun row hm hid => ?_, fun fence hm href => absurd href (hfences fence hm)⟩
  rcases Table.mem_of_mem_insert hm with hm | rfl
  · exact absurd hid (hok.unowned hun row hm)
  · rfl

/-! ### Calls that take effect -/

/-- The meeting and the owner of a call that marks, completes or reopens a deletion. -/
def DeletionCall.writesFor : DeletionCall → Option (MeetingId × UserId)
  | .mark _ meetingId ownerUserId => some (meetingId, ownerUserId)
  | .reopen _ meetingId ownerUserId _ => some (meetingId, ownerUserId)
  | .complete _ meetingId ownerUserId _ => some (meetingId, ownerUserId)
  | _ => none

/-- The claim token that a call presents. -/
def DeletionCall.presents : DeletionCall → Option ClaimToken
  | .purge _ _ claimToken => claimToken
  | .complete _ _ _ claimToken => claimToken
  | .retry _ _ _ _ claimToken => claimToken
  | _ => none

theorem onTables_wrote {α : Type} {result : α → DeletionResult} {outcome : Except DeletionError (α × DeletionTables)}
    (h : some (onTables s result outcome) = some (.wrote, s')) : ∃ a t, outcome = .ok (a, t) ∧ result a = .wrote := by
  cases houtcome : outcome with
  | error e => rw [houtcome] at h; cases h
  | ok p =>
    rw [houtcome] at h
    exact ⟨p.1, p.2, rfl, congrArg Prod.fst (Option.some.inj h)⟩

theorem flag_eq_wrote {b : Bool} : flag b = .wrote ↔ b = true := by cases b <;> simp [flag]

theorem writes_own (howner : Function.Injective (Function.uncurry meetingDeletionOwnerProofRef)) {o : UserId}
    (hinv : DeletionInv meetingDeletionFenceRef meetingDeletionOwnerProofRef s)
    (h : Deleted meetingDeletionFenceRef meetingDeletionOwnerProofRef meetingId ownerUserId s.tables)
    (hstep : DeletionStep meetingDeletionFenceRef meetingDeletionOwnerProofRef sanitizeMessage s e s')
    (hwrote : e.result = .wrote) (hcall : e.call.writesFor = some (meetingId, o)) : o = ownerUserId := by
  obtain ⟨call, result⟩ := e
  obtain rfl : result = .wrote := hwrote
  cases call with
  | mark now m u =>
    cases hcall
    obtain ⟨held, hheld, ht⟩ := Option.bind_eq_some_iff.mp hstep
    split_ifs at ht with hpending
    exact h.pending howner (hinv.sections _ held hheld).2 (.inl (by simpa using hpending))
  | reopen now m u errorMessage =>
    cases hcall
    obtain ⟨held, hheld, ht⟩ := Option.bind_eq_some_iff.mp hstep
    split_ifs at ht with hpending
    exact h.pending howner (hinv.sections _ held hheld).2 (.inr (by simpa using hpending))
  | complete now m u claimToken =>
    cases hcall
    obtain ⟨moved, t, hok, hmoved⟩ := onTables_wrote hstep
    obtain ⟨row, hm, hid, hown, -⟩ := (complete_tables hok).2 (flag_eq_wrote.mp hmoved)
    exact hown.symm.trans (h.tombstone row hm hid)
  | _ => cases hcall

/-- A call that presents a token takes effect on a tombstone that holds it. -/
theorem holds_presented {token : ClaimToken}
    (hstep : DeletionStep meetingDeletionFenceRef meetingDeletionOwnerProofRef sanitizeMessage s e s')
    (hwrote : e.result = .wrote) (hcall : e.call.presents = some token) :
    ∃ row ∈ s.tables.tombstones, row.cleanupClaimToken = some token := by
  obtain ⟨call, result⟩ := e
  obtain rfl : result = .wrote := hwrote
  cases call with
  | purge m u claimToken =>
    obtain ⟨_, t, hok, -⟩ := onTables_wrote hstep
    obtain ⟨-, row, hm, -, -, htoken⟩ := purgeCatalog_tables hok
    exact ⟨row, hm, htoken token hcall⟩
  | complete now m u claimToken =>
    obtain ⟨moved, t, hok, hmoved⟩ := onTables_wrote hstep
    obtain ⟨row, hm, -, -, htoken⟩ := (complete_tables hok).2 (flag_eq_wrote.mp hmoved)
    exact ⟨row, hm, htoken token hcall⟩
  | retry now m retryAfterMs errorMessage claimToken =>
    obtain ⟨scheduled, t, hok, hscheduled⟩ := onTables_wrote hstep
    obtain ⟨row, hm, -, htoken⟩ := retry_scheduled hok (flag_eq_wrote.mp hscheduled)
    exact ⟨row, hm, htoken token hcall⟩
  | _ => cases hcall

/-! ### Claims -/

/-- The token was issued, and only the tombstone of the meeting may hold it. -/
structure HeldBy (meetingId : MeetingId) (token : ClaimToken) (s : DeletionState) : Prop where
  issued : token ∈ s.issued
  only : ∀ row ∈ s.tables.tombstones, row.cleanupClaimToken = some token → row.meetingId = meetingId

/-- The token was issued, and no tombstone holds it. -/
structure Superseded (token : ClaimToken) (s : DeletionState) : Prop where
  issued : token ∈ s.issued
  unheld : ∀ row ∈ s.tables.tombstones, row.cleanupClaimToken ≠ some token

theorem claim_step {c : MeetingDeletionCleanupClaim}
    (hstep : DeletionStep meetingDeletionFenceRef meetingDeletionOwnerProofRef sanitizeMessage s
      ⟨call, .claimed c⟩ s') :
    c.claimToken ∉ s.issued ∧ c.claimToken ∈ s'.issued ∧
      ∀ row ∈ s'.tables.tombstones, row.meetingId = c.meetingId →
        row.cleanupClaimToken = some c.claimToken := by
  rcases step_cases hstep with hfree | ⟨m, held', hsection⟩
  · rcases hfree.issued with ⟨-, hnone⟩ | ⟨m, k, hk, hfresh, hissued, hrow⟩
    · cases hnone
    · cases hk
      exact ⟨hfresh, hissued ▸ List.mem_cons_self, hrow⟩
  · cases hsection.result

theorem heldBy_claim {c : MeetingDeletionCleanupClaim}
    (hinv : DeletionInv meetingDeletionFenceRef meetingDeletionOwnerProofRef s)
    (hstep : DeletionStep meetingDeletionFenceRef meetingDeletionOwnerProofRef sanitizeMessage s
      ⟨call, .claimed c⟩ s') : HeldBy c.meetingId c.claimToken s' := by
  obtain ⟨hfresh, hissued, -⟩ := claim_step hstep
  refine ⟨hissued, fun row' hm htoken => ?_⟩
  rcases step_cases hstep with hfree | ⟨m, held', hsection⟩
  · obtain ⟨inserted, hmove, -⟩ := hfree.tables
    rcases hmove.token_old row' hm _ htoken with ⟨row, hrow, -, hold⟩ | hnew
    · exact absurd (hinv.tokens row hrow _ hold) hfresh
    · exact (congrArg Prod.fst (Option.some.inj hnew)).symm
  · cases hsection.result

theorem heldBy_step {token : ClaimToken} (h : HeldBy meetingId token s)
    (hstep : DeletionStep meetingDeletionFenceRef meetingDeletionOwnerProofRef sanitizeMessage s e s') :
    HeldBy meetingId token s' := by
  obtain ⟨hkept, htokens⟩ := tokens_step hstep
  refine ⟨hkept token h.issued, fun row' hm htoken => ?_⟩
  rcases htokens row' hm token htoken with ⟨row, hrow, hid, hold⟩ | ⟨hnew, -⟩
  · exact hid ▸ h.only row hrow hold
  · exact absurd h.issued hnew

theorem superseded_step {token : ClaimToken} (h : Superseded token s)
    (hstep : DeletionStep meetingDeletionFenceRef meetingDeletionOwnerProofRef sanitizeMessage s e s') :
    Superseded token s' := by
  obtain ⟨hkept, htokens⟩ := tokens_step hstep
  refine ⟨hkept token h.issued, fun row' hm htoken => ?_⟩
  rcases htokens row' hm token htoken with ⟨row, hrow, -, hold⟩ | ⟨hnew, -⟩
  · exact h.unheld row hrow hold
  · exact hnew h.issued

/-- The cleanup of a meeting that is claimed again supersedes the token of the earlier claim. -/
theorem superseded_reclaim {token : ClaimToken} {c : MeetingDeletionCleanupClaim} (h : HeldBy c.meetingId token s)
    (hstep : DeletionStep meetingDeletionFenceRef meetingDeletionOwnerProofRef sanitizeMessage s
      ⟨call, .claimed c⟩ s') : Superseded token s' := by
  obtain ⟨hfresh, -, hrow⟩ := claim_step hstep
  have hheld := heldBy_step h hstep
  refine ⟨hheld.issued, fun row hm htoken => ?_⟩
  have hnew := hrow row hm (hheld.only row hm htoken)
  rw [htoken] at hnew
  cases hnew
  exact hfresh h.issued

/-! ### Runs -/

/-- Once `markMeetingDeleted` succeeded, the meeting accepts no writes at the end of any run and nobody
but its owner marks, completes or reopens its deletion; and who holds the token of a claim that was
issued again can neither purge, complete nor reschedule. -/
theorem deletion_permanent (hmeeting : Function.Injective meetingDeletionFenceRef)
    (howner : Function.Injective (Function.uncurry meetingDeletionOwnerProofRef))
    {s s' : DeletionState} {es : List DeletionEvent} (hstart : Start s)
    (hrun : Run (DeletionStep meetingDeletionFenceRef meetingDeletionOwnerProofRef sanitizeMessage) s es
      s') :
    (∀ pre now meetingId ownerUserId post,
      es = pre ++ ⟨.mark now meetingId ownerUserId, .wrote⟩ :: post →
      isMeetingWriteAllowed meetingDeletionFenceRef meetingId s'.tables = false ∧
      ∀ e ∈ post, e.result = .wrote → ∀ o, e.call.writesFor = some (meetingId, o) →
        o = ownerUserId) ∧
    (∀ pre call c mid call' c' post,
      es = pre ++ ⟨call, .claimed c⟩ :: (mid ++ ⟨call', .claimed c'⟩ :: post) →
      c.meetingId = c'.meetingId →
      ∀ e ∈ post, e.call.presents = some c.claimToken → e.result ≠ .wrote) := by
  have hinv : DeletionInv meetingDeletionFenceRef meetingDeletionOwnerProofRef s :=
    deletionInv_start hstart
  have keep := fun (s : DeletionState) (e : DeletionEvent) (s' : DeletionState)
    (h : DeletionInv meetingDeletionFenceRef meetingDeletionOwnerProofRef s)
    (hstep : DeletionStep meetingDeletionFenceRef meetingDeletionOwnerProofRef sanitizeMessage s e s') =>
    deletionInv_step hmeeting h hstep
  refine ⟨?_, ?_⟩
  · rintro pre now meetingId ownerUserId post rfl
    obtain ⟨a, hpre, hrest⟩ := Run.append_iff.mp hrun
    obtain ⟨b, hmark, hpost⟩ := Run.cons_iff.mp hrest
    have ha := hpre.invariant keep hinv
    obtain ⟨hlast, hsteps⟩ := hpost.forall_mem
      (I := fun s => DeletionInv meetingDeletionFenceRef meetingDeletionOwnerProofRef s ∧
        Deleted meetingDeletionFenceRef meetingDeletionOwnerProofRef meetingId ownerUserId s.tables)
      (P := fun e => e.result = .wrote → ∀ o, e.call.writesFor = some (meetingId, o) →
        o = ownerUserId)
      (fun s e s' h hstep =>
        ⟨⟨keep _ _ _ h.1 hstep, deleted_step hmeeting howner h.1 h.2 hstep⟩,
          fun hwrote o hcall => writes_own howner h.1 h.2 hstep hwrote hcall⟩)
      ⟨keep _ _ _ ha hmark, deleted_of_mark ha hmark⟩
    exact ⟨isMeetingWriteAllowed_of_deleted hlast.2, hsteps⟩
  · rintro pre call c mid call' c' post rfl hsame
    obtain ⟨a, hpre, hrest⟩ := Run.append_iff.mp hrun
    obtain ⟨b, hclaim, hrest⟩ := Run.cons_iff.mp hrest
    obtain ⟨d, hmid, hrest⟩ := Run.append_iff.mp hrest
    obtain ⟨f, hreclaim, hpost⟩ := Run.cons_iff.mp hrest
    have ha := hpre.invariant keep hinv
    have hd : HeldBy c.meetingId c.claimToken d :=
      hmid.invariant (fun _ _ _ h hstep => heldBy_step h hstep) (heldBy_claim ha hclaim)
    have hf : Superseded c.claimToken f := superseded_reclaim (hsame ▸ hd) hreclaim
    refine (hpost.forall_mem (fun s e s' h hstep => ⟨superseded_step h hstep,
      fun hpresents hwrote => ?_⟩) hf).2
    obtain ⟨row, hm, htoken⟩ := holds_presented hstep hwrote hpresents
    exact h.unheld row hm htoken

end Refs

/-! ### A deletion that is claimed twice, completed and reopened -/

/-- The calls of the events one after the other; `none` where one of them has another result. -/
def replay (meetingDeletionFenceRef : MeetingId → DeletionRef)
    (meetingDeletionOwnerProofRef : MeetingId → UserId → DeletionRef) (sanitizeMessage : String → String)
    (s : DeletionState) (es : List DeletionEvent) : Option DeletionState :=
  es.foldlM (fun s e => (take meetingDeletionFenceRef meetingDeletionOwnerProofRef sanitizeMessage e.call
    s).bind fun p => if p.1 = e.result then some p.2 else none) s

theorem run_replay (meetingDeletionFenceRef : MeetingId → DeletionRef)
    (meetingDeletionOwnerProofRef : MeetingId → UserId → DeletionRef)
    (sanitizeMessage : String → String) : ∀ {es : List DeletionEvent} {s s' : DeletionState},
    replay meetingDeletionFenceRef meetingDeletionOwnerProofRef sanitizeMessage s es = some s' →
    Run (DeletionStep meetingDeletionFenceRef meetingDeletionOwnerProofRef sanitizeMessage) s es s' := by
  intro es
  induction es with
  | nil =>
    intro s s' h
    cases h
    exact Run.nil s
  | cons e es ih =>
    intro s s' h
    unfold replay at h
    rw [List.foldlM_cons] at h
    obtain ⟨t, ht, h⟩ := Option.bind_eq_some_iff.mp h
    obtain ⟨⟨r, t'⟩, hp, ht⟩ := Option.bind_eq_some_iff.mp ht
    split_ifs at ht with hr
    cases ht
    have hr : r = e.result := hr
    exact Run.cons (hr ▸ hp) (ih h)

/-- A proof reference that tells meetings and owners apart: the characters of the meeting, each after a
zero, then a one, then those of the owner. -/
def spacedProof (meetingId : List Char) (ownerUserId : List Char) : List Char :=
  match meetingId with
  | [] => '1' :: ownerUserId
  | c :: rest => '0' :: c :: spacedProof rest ownerUserId

theorem spacedProof_injective : ∀ {m m' o o' : List Char}, spacedProof m o = spacedProof m' o' →
    m = m' ∧ o = o'
  | [], [], _, _, h => ⟨rfl, (List.cons.inj h).2⟩
  | [], _ :: _, _, _, h => absurd (List.cons.inj h).1 (by decide)
  | _ :: _, [], _, _, h => absurd (List.cons.inj h).1 (by decide)
  | c :: m, c' :: m', o, o', h => by
    obtain ⟨rfl, hrest⟩ := List.cons.inj (List.cons.inj h).2
    obtain ⟨rfl, rfl⟩ := spacedProof_injective hrest
    exact ⟨rfl, rfl⟩

def spacedProofRef (meetingId : MeetingId) (ownerUserId : UserId) : DeletionRef :=
  String.ofList (spacedProof meetingId.toList ownerUserId.toList)

theorem spacedProofRef_injective : Function.Injective (Function.uncurry spacedProofRef) := by
  rintro ⟨m, o⟩ ⟨m', o'⟩ h
  obtain ⟨hm, ho⟩ := spacedProof_injective (String.ofList_injective h)
  exact Prod.ext (String.toList_inj.mp hm) (String.toList_inj.mp ho)

/-- The first worker's claim runs out and the second completes the cleanup; the owner reopens it. -/
def claimedTwice : List DeletionEvent :=
  [⟨.enterLock "m", .wrote⟩, ⟨.readDeletionOwner "m", .held⟩, ⟨.checkMark "m" "u", .held⟩,
    ⟨.mark 10 "m" "u", .wrote⟩, ⟨.leaveLock "m", .wrote⟩,
    ⟨.claim 10 "first" none "m" "k1", .claimed ⟨1, "k1", "m", "u"⟩⟩,
    ⟨.claim 400000 "second" none "m" "k2", .claimed ⟨2, "k2", "m", "u"⟩⟩,
    ⟨.purge "m" "u" (some "k1"), .failed tombstoneLost⟩,
    ⟨.complete 400010 "m" "u" (some "k1"), .held⟩,
    ⟨.retry 400020 "m" 1000 "timed out" (some "k1"), .held⟩,
    ⟨.complete 400030 "m" "u" (some "k2"), .wrote⟩, ⟨.enterLock "m", .wrote⟩,
    ⟨.checkReopen "m" "v" true, .held⟩, ⟨.checkReopen "m" "u" true, .held⟩,
    ⟨.reopen 400040 "m" "u" "late transfer", .wrote⟩]

theorem deletion_permanent_claimedTwice : ∃ s, replay id spacedProofRef id {} claimedTwice = some s ∧
    isMeetingWriteAllowed id "m" s.tables = false := by
  have hsome : (replay id spacedProofRef id {} claimedTwice).isSome = true := by decide +kernel
  obtain ⟨s, hs⟩ := Option.isSome_iff_exists.mp hsome
  have hstart : Start {} := ⟨fun _ => rfl, fun row hm => absurd hm (Table.not_mem_empty row)⟩
  exact ⟨s, hs, ((deletion_permanent Function.injective_id spacedProofRef_injective hstart
    (run_replay id spacedProofRef id hs)).1 (claimedTwice.take 3) 10 "m" "u" (claimedTwice.drop 4) rfl).1⟩

end OwnMinutes.Deletion.Permanence
