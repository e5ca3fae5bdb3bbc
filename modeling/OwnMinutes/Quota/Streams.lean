import OwnMinutes.Lib.Counters
import OwnMinutes.Quota.Reservations

/-! # Realtime audio as streams that are counted

The realtime chunks of an operation are a stream, and the reservation of the operation is its counter: it keeps the
number of the last chunk and the milliseconds streamed so far. `StreamChange` lists what a quota call does to the
reservations, seen so; a backend counts each chunk once, and has the minutes for what was streamed reserved, once its
calls are shown to be such changes (`streamedOnce_of_changes`). -/

namespace OwnMinutes.Quota.Streams

open OwnMinutes.Lib.Keyed OwnMinutes.Lib.Keyed.Table OwnMinutes.Lib.Runs OwnMinutes.Lib.Counters
open OwnMinutes.Auth.ProcessingRoute OwnMinutes.Auth.Records OwnMinutes.Auth.QuotaTypes OwnMinutes.Quota.Calls
open OwnMinutes.Quota.Reservations

/-- A user and an operation key. -/
abbrev StreamKey := UserId × String

/-- The reservation is for the operation. -/
def isFor (k : StreamKey) (r : MeetingProcessingReservationRecord) : Bool :=
  r.userId == k.1 && r.operationKey == k.2

variable {k : StreamKey} {r : MeetingProcessingReservationRecord}

theorem isFor_iff : isFor k r = true ↔ (r.userId, r.operationKey) = k := by
  rw [isFor, Bool.and_eq_true, beq_iff_eq, beq_iff_eq, Prod.ext_iff]

def counterOf (r : MeetingProcessingReservationRecord) : Counter := ⟨r.realtimeHighestSequence, r.realtimeDurationMs⟩

/-- The counter of an operation. -/
def counterFor (reservations : Table MeetingProcessingReservationRecord) (k : StreamKey) : Option Counter :=
  (reservations.find? (isFor k)).map counterOf

/-- The meeting that an operation is reserved for. -/
def meetingFor (reservations : Table MeetingProcessingReservationRecord) (k : StreamKey) : Option MeetingId :=
  (reservations.find? (isFor k)).map (·.meetingId)

/-- The minutes that the audio streamed so far needs are reserved. -/
def Covered (r : MeetingProcessingReservationRecord) : Prop :=
  r.status = .reserved → 0 < r.realtimeDurationMs →
    realtimeRequiredMinutes r.realtimeDurationMs r.processingRoute ≤ r.officialMinutesReserved

structure Metered (r : MeetingProcessingReservationRecord) : Prop where
  streamed : 0 ≤ r.realtimeDurationMs
  covered : Covered r

/-- What a chunk adds to the milliseconds streamed. -/
def chunkMs (durationMs : ℚ) : ℤ := max 1 (mathRound durationMs)

theorem chunkMs_pos (durationMs : ℚ) : 0 < chunkMs durationMs := lt_of_lt_of_le one_pos (le_max_left _ _)

structure ClaimedChunk where
  key : StreamKey
  meetingId : MeetingId
  item : Item
  deriving DecidableEq, Repr

/-- The chunk that a call claims, where it is not answered to be a duplicate. -/
def claimedChunk (e : QuotaEvent) : Option ClaimedChunk :=
  match e.call, e.result with
  | .reserveRealtime userId input _, .ok (.realtime claim) =>
    if claim.duplicate then none
    else some ⟨(userId, input.operationKey), input.meetingId, input.sequence, chunkMs input.durationMs⟩
  | _, _ => none

/-- The chunk as an item of the stream `k`. -/
def itemOf (k : StreamKey) (chunk : Option ClaimedChunk) : Option Item :=
  match chunk with
  | some c => if c.key = k then some c.item else none
  | none => none

theorem claimed_of_itemOf {chunk : Option ClaimedChunk} {i : Item} (h : itemOf k chunk = some i) :
    ∃ c, chunk = some c ∧ c.item = i := by
  cases chunk with
  | none => cases h
  | some c =>
    unfold itemOf at h
    dsimp only at h
    split_ifs at h
    exact ⟨c, rfl, Option.some.inj h⟩

/-- The chunks of an operation that are claimed in a run. -/
def claimedChunks (k : StreamKey) (es : List QuotaEvent) : List Item := es.filterMap fun e => itemOf k (claimedChunk e)

theorem claimedChunk_error (now : Timestamp) (call : QuotaCall) (error : AuthError) :
    claimedChunk ⟨now, call, .error error⟩ = none := by
  unfold claimedChunk
  cases call <;> rfl

theorem amount_pos_of_claimed {e : QuotaEvent} {c : ClaimedChunk} (h : claimedChunk e = some c) : 0 < c.item.amount := by
  unfold claimedChunk at h
  split at h
  · split_ifs at h
    cases h
    exact chunkMs_pos _
  · cases h

/-! ### What a call does -/

/-- A reservation rewritten by a call that takes no chunk. -/
structure Kept (old new : MeetingProcessingReservationRecord) : Prop extends SameOwner old new where
  meetingId : new.meetingId = old.meetingId
  counter : counterOf new = counterOf old
  covered : Covered old → Covered new

theorem Kept.refl (r : MeetingProcessingReservationRecord) : Kept r r := ⟨.refl r, rfl, rfl, id⟩

theorem Kept.trans {a b c : MeetingProcessingReservationRecord} (h : Kept a b) (h' : Kept b c) : Kept a c :=
  ⟨h.toSameOwner.trans h'.toSameOwner, h'.meetingId.trans h.meetingId, h'.counter.trans h.counter,
    fun hc => h'.covered (h.covered hc)⟩

theorem Kept.isFor {old new : MeetingProcessingReservationRecord} (h : SameOwner old new) (k : StreamKey) :
    isFor k new = isFor k old := by
  rw [Streams.isFor, Streams.isFor, h.userId, h.operationKey]

theorem Kept.metered {old new : MeetingProcessingReservationRecord} (h : Kept old new) (hold : Metered old) :
    Metered new where
  streamed := by
    have htotal : new.realtimeDurationMs = old.realtimeDurationMs := congrArg Counter.total h.counter
    rw [htotal]
    exact hold.streamed
  covered := h.covered hold.covered

/-- What a call that succeeds does to the reservations. -/
inductive StreamChange (newId : Option ReservationId) (chunk : Option ClaimedChunk)
    (old : Table MeetingProcessingReservationRecord) : Table MeetingProcessingReservationRecord → Prop
  | kept {new : Table MeetingProcessingReservationRecord} (h : Rewrites Kept old new) (hchunk : chunk = none) :
      StreamChange newId chunk old new
  | opened {mid : Table MeetingProcessingReservationRecord} {r : MeetingProcessingReservationRecord}
      (h : Rewrites Kept old mid) (hid : newId = some r.id) (hcounter : counterOf r = {}) (hchunk : chunk = none) :
      StreamChange newId chunk old (mid.insert r)
  | first {mid : Table MeetingProcessingReservationRecord} {r : MeetingProcessingReservationRecord} {i : Item}
      (h : Rewrites Kept old mid) (hid : newId = some r.id) (hnone : mid.find? (isFor (r.userId, r.operationKey)) = none)
      (hcounter : counterOf r = ⟨i.sequence, i.amount⟩) (hamount : 0 < i.amount) (hcovered : Covered r)
      (hchunk : chunk = some ⟨(r.userId, r.operationKey), r.meetingId, i⟩) : StreamChange newId chunk old (mid.insert r)
  | next {mid : Table MeetingProcessingReservationRecord} {k : StreamKey} {before r : MeetingProcessingReservationRecord}
      {i : Item} (h : Rewrites Kept old mid) (hfound : mid.find? (isFor k) = some before) (hsame : SameOwner before r)
      (hmeeting : r.meetingId = before.meetingId) (hsequence : i.sequence = before.realtimeHighestSequence + 1)
      (hamount : 0 < i.amount) (hcounter : counterOf r = ⟨i.sequence, max 0 before.realtimeDurationMs + i.amount⟩)
      (hcovered : Covered r) (hchunk : chunk = some ⟨k, r.meetingId, i⟩) : StreamChange newId chunk old (mid.replace r)

theorem streamChange_same (newId : Option ReservationId) (old : Table MeetingProcessingReservationRecord) :
    StreamChange newId none old old := .kept (Rewrites.refl Kept.refl old) rfl

theorem streamChange_replace {newId : Option ReservationId} {reservations : Table MeetingProcessingReservationRecord}
    {old new : MeetingProcessingReservationRecord} (hold : old ∈ reservations) (h : Kept old new) :
    StreamChange newId none reservations (reservations.replace new) :=
  .kept (rewrites_replace_mem Kept.refl hold h.id h) rfl

variable {newId : Option ReservationId} {chunk : Option ClaimedChunk}
  {old mid new : Table MeetingProcessingReservationRecord}

/-- A change of reservations that others have rewritten before. -/
theorem StreamChange.after (h : Rewrites Kept old mid) (h' : StreamChange newId chunk mid new) :
    StreamChange newId chunk old new := by
  have htrans : ∀ {t : Table MeetingProcessingReservationRecord}, Rewrites Kept mid t → Rewrites Kept old t :=
    fun h' => h.trans (fun _ _ _ => Kept.trans) h'
  cases h' with
  | kept h' hchunk => exact .kept (htrans h') hchunk
  | opened h' hid hcounter hchunk => exact .opened (htrans h') hid hcounter hchunk
  | first h' hid hnone hcounter hamount hcovered hchunk =>
    exact .first (htrans h') hid hnone hcounter hamount hcovered hchunk
  | next h' hfound hsame hmeeting hsequence hamount hcounter hcovered hchunk =>
    exact .next (htrans h') hfound hsame hmeeting hsequence hamount hcounter hcovered hchunk

/-! ### Counters -/

theorem counterFor_kept (h : Rewrites Kept old new) (k : StreamKey) : counterFor new k = counterFor old k :=
  h.find?_map fun _ _ hxy => ⟨Kept.isFor hxy.toSameOwner k, hxy.counter⟩

theorem meetingFor_kept (h : Rewrites Kept old new) (k : StreamKey) : meetingFor new k = meetingFor old k :=
  h.find?_map fun _ _ hxy => ⟨Kept.isFor hxy.toSameOwner k, hxy.meetingId⟩

/-- A change that is none is no item of any stream. -/
theorem counts_kept (h : Rewrites Kept old new) (k : StreamKey) :
    Counts (counterFor old k) (itemOf k none) (counterFor new k) := by
  rw [counterFor_kept h]
  exact .idle _

/-- What is read of the reservation of an operation. -/
theorem find?_map_insert {β : Type} (hfresh : mid.Fresh r.id) (k : StreamKey)
    (f : MeetingProcessingReservationRecord → β) : ((mid.insert r).find? (isFor k)).map f =
      ((mid.find? (isFor k)).map f).or (if isFor k r then some (f r) else none) := by
  have hkey : mid.Fresh (HasKey.key r) := hfresh
  rw [find?_insert hkey]
  cases mid.find? (isFor k) with
  | some found => rfl
  | none => by_cases hk : isFor k r = true <;> simp [hk]

/-- The row that is found is the one that is replaced. -/
theorem find?_replace {before : MeetingProcessingReservationRecord} (hfound : mid.find? (isFor k) = some before)
    (hsame : SameOwner before r) : (mid.replace r).find? (isFor k) = some r := by
  have hrow : mid.rows.find? (isFor k) = some before := hfound
  have hk : isFor k r = true := (Kept.isFor hsame k).trans (of_find? hfound)
  have hgo : ∀ {rows : List MeetingProcessingReservationRecord}, rows.find? (isFor k) = some before →
      (rows.map fun y => if HasKey.key y = HasKey.key r then r else y).find? (isFor k) = some r := by
    intro rows
    induction rows with
    | nil => exact fun h => by cases h
    | cons y rows ih =>
      intro h
      rw [List.map_cons]
      by_cases hkey : HasKey.key y = HasKey.key r
      · rw [if_pos hkey, List.find?_cons, hk]
      · rw [if_neg hkey]
        rw [List.find?_cons] at h ⊢
        cases hy : isFor k y with
        | true =>
          rw [hy] at h
          obtain rfl : y = before := Option.some.inj h
          exact absurd hsame.id.symm hkey
        | false =>
          rw [hy] at h
          exact ih h
  exact hgo hrow

/-- The streams of other operations are as before. -/
theorem find?_replace_of_ne {k' : StreamKey} {before : MeetingProcessingReservationRecord}
    (hfound : mid.find? (isFor k) = some before) (hsame : SameOwner before r) (hne : k ≠ k') :
    (mid.replace r).find? (isFor k') = mid.find? (isFor k') := by
  have hbefore : isFor k' before = false :=
    Bool.eq_false_iff.mpr fun h => hne ((isFor_iff.mp (of_find? hfound)).symm.trans (isFor_iff.mp h))
  have hrows : Rewrites (fun y z => isFor k' z = isFor k' y ∧ (isFor k' y = true → z = y)) mid (mid.replace r) :=
    rewrites_replace_mem (fun _ => ⟨rfl, fun _ => rfl⟩) (mem_of_find? hfound) hsame.id
      ⟨Kept.isFor hsame k', fun h => by rw [hbefore] at h; cases h⟩
  have hgo : ∀ {l l' : List MeetingProcessingReservationRecord},
      List.Forall₂ (fun y z => isFor k' z = isFor k' y ∧ (isFor k' y = true → z = y)) l l' →
        l'.find? (isFor k') = l.find? (isFor k') := by
    intro l l' h
    induction h with
    | nil => rfl
    | @cons y z l l' hyz _ ih =>
      rw [List.find?_cons, List.find?_cons, hyz.1]
      cases hy : isFor k' y with
      | true => exact congrArg some (hyz.2 hy)
      | false => exact ih
  exact hgo hrows

theorem metered_kept (h : Rewrites Kept old new) (hold : ∀ r ∈ old, Metered r) : ∀ r ∈ new, Metered r := by
  intro r hr
  obtain ⟨x, hx, hxr⟩ := h.old hr
  exact hxr.metered (hold x hx)

/-- **A change counts as one.** It is idle for the streams of which it takes no chunk. -/
theorem counts_of_change (h : StreamChange newId chunk old new) (hfresh : ∀ id ∈ newId, old.Fresh id)
    (hold : ∀ r ∈ old, Metered r) (k : StreamKey) : Counts (counterFor old k) (itemOf k chunk) (counterFor new k) := by
  have hkeys : ∀ x y : MeetingProcessingReservationRecord, Kept x y → HasKey.key y = HasKey.key x := fun _ _ h => h.id
  cases h with
  | kept h hchunk =>
    rw [hchunk]
    exact counts_kept h k
  | @opened mid r h hid hcounter hchunk =>
    have hnew : counterFor (mid.insert r) k = _ := find?_map_insert (h.fresh hkeys (hfresh r.id hid)) k counterOf
    rw [hchunk, hnew, ← counterFor, counterFor_kept h, hcounter]
    cases counterFor old k with
    | some c => exact .idle _
    | none =>
      rw [Option.none_or]
      split_ifs
      · exact .opened
      · exact .idle _
  | @first mid r i h hid hnone hcounter hamount hcovered hchunk =>
    have hnew : counterFor (mid.insert r) k = _ := find?_map_insert (h.fresh hkeys (hfresh r.id hid)) k counterOf
    rw [hchunk, hnew, ← counterFor, counterFor_kept h, hcounter]
    by_cases hk : (r.userId, r.operationKey) = k
    · have hfree : counterFor old k = none := by
        rw [← counterFor_kept h, counterFor, ← hk, hnone]
        rfl
      rw [hfree, if_pos (isFor_iff.mpr hk), itemOf, if_pos hk]
      exact .first i
    · have hother : ¬ isFor k r = true := fun h => hk (isFor_iff.mp h)
      rw [if_neg hother, Option.or_none, itemOf, if_neg hk]
      exact .idle _
  | @next mid k' before r i h hfound hsame _ hsequence hamount hcounter hcovered hchunk =>
    rw [hchunk]
    by_cases hk : k' = k
    · subst hk
      have hstreamed : 0 ≤ before.realtimeDurationMs := (metered_kept h hold before (mem_of_find? hfound)).streamed
      have hbefore : counterFor old k' = some (counterOf before) := by
        rw [← counterFor_kept h, counterFor, hfound]
        rfl
      have hafter : counterFor (mid.replace r) k' = some (counterOf r) :=
        congrArg (Option.map counterOf) (find?_replace hfound hsame)
      rw [hafter, hbefore, hcounter, itemOf, if_pos rfl, max_eq_right hstreamed]
      obtain ⟨sequence, amount⟩ := i
      obtain rfl : sequence = before.realtimeHighestSequence + 1 := hsequence
      exact .next (counterOf before) amount
    · have hother : counterFor (mid.replace r) k = counterFor mid k :=
        congrArg (Option.map counterOf) (find?_replace_of_ne hfound hsame hk)
      rw [hother, counterFor_kept h, itemOf, if_neg hk]
      exact .idle _

/-- **A reservation stays that of its meeting.** -/
theorem meetingFor_of_change (h : StreamChange newId chunk old new) (hfresh : ∀ id ∈ newId, old.Fresh id)
    {meetingId : MeetingId} (hmeeting : meetingFor old k = some meetingId) : meetingFor new k = some meetingId := by
  have hmid : ∀ {mid}, Rewrites Kept old mid → meetingFor mid k = some meetingId :=
    fun h => (meetingFor_kept h k).trans hmeeting
  have hinserted : ∀ {mid} {r : MeetingProcessingReservationRecord}, Rewrites Kept old mid → newId = some r.id →
      meetingFor (mid.insert r) k = some meetingId := by
    intro mid r h hid
    have hfresh := h.fresh (fun _ _ h => h.id) (hfresh r.id hid)
    rw [meetingFor, find?_map_insert hfresh, ← meetingFor, hmid h]
    rfl
  cases h with
  | kept h => exact hmid h
  | opened h hid | first h hid => exact hinserted h hid
  | @next mid k' before r i h hfound hsame hrow =>
    by_cases hk : k' = k
    · subst hk
      rw [← hmid h, meetingFor, meetingFor, find?_replace hfound hsame, hfound, Option.map_some, Option.map_some, hrow]
    · rw [meetingFor, find?_replace_of_ne hfound hsame hk]
      exact hmid h

/-- A chunk is claimed for the meeting of its reservation. -/
theorem meetingFor_claimed {c : ClaimedChunk} (h : StreamChange newId (some c) old new)
    (hfresh : ∀ id ∈ newId, old.Fresh id) : meetingFor new c.key = some c.meetingId := by
  cases h with
  | kept _ hchunk | opened _ _ _ hchunk => cases hchunk
  | first h hid hnone _ _ _ hchunk =>
    cases hchunk
    rw [meetingFor, find?_map_insert (h.fresh (fun _ _ h => h.id) (hfresh _ hid)), hnone, if_pos (isFor_iff.mpr rfl)]
    rfl
  | next _ hfound hsame _ _ _ _ _ hchunk =>
    cases hchunk
    rw [meetingFor, find?_replace hfound hsame]
    rfl

theorem metered_of_change (h : StreamChange newId chunk old new) (hold : ∀ r ∈ old, Metered r) :
    ∀ r ∈ new, Metered r := by
  intro x hx
  cases h with
  | kept h => exact metered_kept h hold x hx
  | @opened mid r h _ hcounter =>
    rcases mem_of_mem_insert hx with hx | rfl
    · exact metered_kept h hold x hx
    · have hzero : x.realtimeDurationMs = 0 := congrArg Counter.total hcounter
      exact ⟨hzero.ge, fun _ hpos => absurd hzero hpos.ne'⟩
  | @first mid r i h _ _ hcounter hamount hcovered =>
    rcases mem_of_mem_insert hx with hx | rfl
    · exact metered_kept h hold x hx
    · have htotal : x.realtimeDurationMs = i.amount := congrArg Counter.total hcounter
      exact ⟨htotal ▸ hamount.le, hcovered⟩
  | @next mid k before r i h hfound _ _ _ hamount hcounter hcovered =>
    rcases mem_of_mem_replace hx with hx | rfl
    · exact metered_kept h hold x hx
    · have htotal : x.realtimeDurationMs = max 0 before.realtimeDurationMs + i.amount :=
        congrArg Counter.total hcounter
      have hmax : 0 ≤ max 0 before.realtimeDurationMs := le_max_left _ _
      exact ⟨by omega, hcovered⟩

/-! ### Purges -/

/-- What a deletion removes from the ledger: the reservations of a meeting, or those of an account. -/
inductive LedgerPurge
  | meeting (userId : UserId) (meetingId : MeetingId)
  | account (userId : UserId)
  deriving DecidableEq, Repr

/-- The reservations of the user for the meeting are to be removed. -/
def LedgerPurge.covers : LedgerPurge → UserId → MeetingId → Bool
  | .meeting owner deleted, userId, meetingId => owner == userId && deleted == meetingId
  | .account owner, userId, _ => owner == userId

/-- What a purge does to the reservations; it may leave some of those that it covers. -/
inductive PurgeChange (p : LedgerPurge) (old : Table MeetingProcessingReservationRecord) :
    Table MeetingProcessingReservationRecord → Prop
  | removed {mid : Table MeetingProcessingReservationRecord} {removed : MeetingProcessingReservationRecord → Bool}
      (h : Rewrites Kept old mid) (hcovered : ∀ r ∈ mid, removed r = true → p.covers r.userId r.meetingId = true) :
      PurgeChange p old (mid.removeWhere removed)

variable {p : LedgerPurge}

theorem PurgeChange.metered (h : PurgeChange p old new) (hold : ∀ r ∈ old, Metered r) : ∀ r ∈ new, Metered r := by
  cases h with
  | removed h => exact fun r hr => metered_kept h hold r (mem_removeWhere.mp hr).1

/-- The reservation of another meeting stays. -/
theorem PurgeChange.spares (h : PurgeChange p old new) {meetingId : MeetingId}
    (hmeeting : meetingFor old k = some meetingId) (hother : p.covers k.1 meetingId = false) :
    meetingFor new k = some meetingId ∧ counterFor new k = counterFor old k := by
  cases h with
  | @removed mid removed h hcovered =>
    rw [← meetingFor_kept h] at hmeeting
    obtain ⟨r, hr, rfl⟩ := Option.map_eq_some_iff.mp hmeeting
    have huser : r.userId = k.1 := congrArg Prod.fst (isFor_iff.mp (of_find? hr))
    have hleft : removed r = false := by
      rw [← huser] at hother
      exact Bool.eq_false_iff.mpr fun hremoved =>
        absurd (hcovered r (mem_of_find? hr) hremoved) (Bool.eq_false_iff.mp hother)
    have hfound := find?_removeWhere hr hleft
    rw [← counterFor_kept h]
    exact ⟨congrArg (Option.map _) hfound, (congrArg (Option.map counterOf) (hfound.trans hr.symm))⟩

/-! ### Runs -/

section Backend

variable {σ : Type} (step : Clocked σ → QuotaEvent → Clocked σ → Prop)
  (reservationsOf : σ → Table MeetingProcessingReservationRecord)

/-- The calls of the backend are such changes. -/
structure StreamLedger : Prop where
  fresh : ∀ s e t, step s e t → ∀ id ∈ e.call.newReservationId?, (reservationsOf s.store).Fresh id
  change : ∀ s e t, (∀ r ∈ reservationsOf s.store, Metered r) → step s e t →
    StreamChange e.call.newReservationId? (claimedChunk e) (reservationsOf s.store) (reservationsOf t.store)

/-- What a backend guarantees of its streams, from the state `s` on. -/
structure StreamedOnce (s : Clocked σ) : Prop where
  counted : ∀ {es : List QuotaEvent} {t : Clocked σ}, Run step s es t → ∀ k : StreamKey,
    Counted (counterFor (reservationsOf s.store) k) (claimedChunks k es) (counterFor (reservationsOf t.store) k)
  covered : ∀ {es : List QuotaEvent} {t : Clocked σ}, Run step s es t → ∀ r ∈ reservationsOf t.store, Covered r

/-- The purges of the backend are such changes. -/
def PurgeLedger (purge : Clocked σ → LedgerPurge → Clocked σ → Prop) : Prop :=
  ∀ s p t, purge s p t → PurgeChange p (reservationsOf s.store) (reservationsOf t.store)

variable {step reservationsOf}

theorem StreamLedger.counts (h : StreamLedger step reservationsOf) {s t : Clocked σ} {e : QuotaEvent}
    (hstep : step s e t) (hs : ∀ r ∈ reservationsOf s.store, Metered r) :
    (∀ r ∈ reservationsOf t.store, Metered r) ∧ ∀ k : StreamKey,
      Counts (counterFor (reservationsOf s.store) k) (itemOf k (claimedChunk e)) (counterFor (reservationsOf t.store) k) :=
  ⟨metered_of_change (h.change s e t hs hstep) hs,
    counts_of_change (h.change s e t hs hstep) (h.fresh s e t hstep) hs⟩

theorem streamedOnce_of_changes (h : StreamLedger step reservationsOf) {s : Clocked σ}
    (hs : ∀ r ∈ reservationsOf s.store, Metered r) : StreamedOnce step reservationsOf s where
  counted hrun k :=
    counted_of_run (fun s => counterFor (reservationsOf s.store) k) (fun e => itemOf k (claimedChunk e))
      (I := fun s => ∀ r ∈ reservationsOf s.store, Metered r)
      (fun _ _ _ hs hstep => ⟨(h.counts hstep hs).1, (h.counts hstep hs).2 k⟩) hrun hs
  covered {es t} hrun r hr := by
    have hmetered : ∀ r ∈ reservationsOf t.store, Metered r :=
      Run.invariant (I := fun s => ∀ r ∈ reservationsOf s.store, Metered r)
        (fun _ _ _ hs hstep => (h.counts hstep hs).1) hrun hs
    exact (hmetered r hr).covered

end Backend

end OwnMinutes.Quota.Streams
