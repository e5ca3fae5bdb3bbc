import OwnMinutes.Quota.Calls

/-! # Whose a reservation is

A user has one reservation for an operation key, the first with that key. A call keeps the owner of each
reservation, and creates one at most (`ReservationChange`). -/

namespace OwnMinutes.Quota.Reservations

open OwnMinutes.Lib.Keyed OwnMinutes.Lib.Keyed.Table OwnMinutes.Auth.Records
open OwnMinutes.Auth.QuotaTypes OwnMinutes.Quota.Calls

/-- The reservation of a user for an operation key. -/
def reservationFor (reservations : Table MeetingProcessingReservationRecord) (userId : UserId)
    (operationKey : String) : Option ReservationId :=
  (reservations.find? fun r => r.userId == userId && r.operationKey == operationKey).map (·.id)

structure SameOwner (old new : MeetingProcessingReservationRecord) : Prop where
  id : new.id = old.id
  userId : new.userId = old.userId
  operationKey : new.operationKey = old.operationKey

theorem SameOwner.refl (r : MeetingProcessingReservationRecord) : SameOwner r r := ⟨rfl, rfl, rfl⟩

theorem SameOwner.trans {a b c : MeetingProcessingReservationRecord} (h : SameOwner a b)
    (h' : SameOwner b c) : SameOwner a c :=
  ⟨h'.id.trans h.id, h'.userId.trans h.userId, h'.operationKey.trans h.operationKey⟩

/-- What a call that succeeds does to the reservations. -/
inductive ReservationChange (call : QuotaCall) (old : Table MeetingProcessingReservationRecord) :
    Table MeetingProcessingReservationRecord → Prop
  | kept {new : Table MeetingProcessingReservationRecord} (h : Rewrites SameOwner old new) :
      ReservationChange call old new
  | created {mid : Table MeetingProcessingReservationRecord} {r : MeetingProcessingReservationRecord}
      (h : Rewrites SameOwner old mid) (hid : call.newReservationId? = some r.id) :
      ReservationChange call old (mid.insert r)

theorem reservationChange_same (call : QuotaCall) (old : Table MeetingProcessingReservationRecord) :
    ReservationChange call old old := .kept (Rewrites.refl SameOwner.refl old)

theorem reservationChange_replace {call : QuotaCall} {reservations : Table _}
    {old new : MeetingProcessingReservationRecord} (hold : old ∈ reservations)
    (hsame : SameOwner old new) : ReservationChange call reservations (reservations.replace new) :=
  .kept (rewrites_replace_mem SameOwner.refl hold hsame.id hsame)

variable {call : QuotaCall} {old new : Table MeetingProcessingReservationRecord}

theorem reservationFor_rewrites (h : Rewrites SameOwner old new) (userId : UserId)
    (operationKey : String) :
    reservationFor new userId operationKey = reservationFor old userId operationKey :=
  h.find?_map fun x y hxy => ⟨by rw [hxy.userId, hxy.operationKey], hxy.id⟩

theorem reservationFor_spec {userId : UserId} {operationKey : String} {id : ReservationId}
    (h : reservationFor old userId operationKey = some id) :
    ∃ r ∈ old, r.id = id ∧ r.userId = userId ∧ r.operationKey = operationKey := by
  obtain ⟨r, hr, rfl⟩ := Option.map_eq_some_iff.mp h
  have hp := of_find? hr
  simp only [Bool.and_eq_true, beq_iff_eq] at hp
  exact ⟨r, mem_of_find? hr, rfl, hp.1, hp.2⟩

/-- A reservation is that of one operation. -/
theorem reservationFor_owner {userId userId' : UserId} {operationKey operationKey' : String}
    {id : ReservationId} (h : reservationFor old userId operationKey = some id)
    (h' : reservationFor old userId' operationKey' = some id) :
    userId = userId' ∧ operationKey = operationKey' := by
  obtain ⟨r, hr, hid, rfl, rfl⟩ := reservationFor_spec h
  obtain ⟨r', hr', hid', rfl, rfl⟩ := reservationFor_spec h'
  have heq : r = r' := eq_of_key hr hr' (hid.trans hid'.symm)
  exact ⟨congrArg (·.userId) heq, congrArg (·.operationKey) heq⟩

/-- A change of reservations that others have rewritten before. -/
theorem ReservationChange.after {mid : Table MeetingProcessingReservationRecord}
    (h : Rewrites SameOwner old mid) (h' : ReservationChange call mid new) :
    ReservationChange call old new := by
  cases h' with
  | kept h' => exact .kept (h.trans (fun _ _ _ => SameOwner.trans) h')
  | created h' hid => exact .created (h.trans (fun _ _ _ => SameOwner.trans) h') hid

/-- A reservation stays that of its operation. -/
theorem ReservationChange.keep (h : ReservationChange call old new)
    (hfresh : ∀ newId ∈ call.newReservationId?, old.Fresh newId) {userId : UserId}
    {operationKey : String} {id : ReservationId} (hid : reservationFor old userId operationKey = some id) :
    reservationFor new userId operationKey = some id := by
  cases h with
  | kept h => rw [reservationFor_rewrites h, hid]
  | created h hnew =>
    rw [← reservationFor_rewrites h] at hid
    obtain ⟨r, hr, rfl⟩ := Option.map_eq_some_iff.mp hid
    have hmid := h.fresh (fun x y hxy => hxy.id) (hfresh _ hnew)
    rw [reservationFor, find?_insert hmid, hr, Option.some_or, Option.map_some]

/-- An operation gets the reservation that a call creates. -/
theorem ReservationChange.of_none (h : ReservationChange call old new)
    (hfresh : ∀ newId ∈ call.newReservationId?, old.Fresh newId) {userId : UserId}
    {operationKey : String} {id : ReservationId} (hnone : reservationFor old userId operationKey = none)
    (hid : reservationFor new userId operationKey = some id) : call.newReservationId? = some id := by
  cases h with
  | kept h =>
    rw [reservationFor_rewrites h, hnone] at hid
    cases hid
  | created h hnew =>
    rw [← reservationFor_rewrites h, reservationFor, Option.map_eq_none_iff] at hnone
    have hmid := h.fresh (fun x y hxy => hxy.id) (hfresh _ hnew)
    rw [reservationFor, find?_insert hmid, hnone, Option.none_or] at hid
    split_ifs at hid
    · rw [hnew, ← hid]
      rfl
    · cases hid

end OwnMinutes.Quota.Reservations
