import OwnMinutes.Local.Store

/-! # Deletions in the local store

`deleteAccount`, `reconcileLocalAccountDeletionProcessing` and `purgeMeetingProcessingLedger` of `auth-store.ts`. The
sessions, tokens, growth events and credentials of a deleted account are left out, and the texts of its row. -/

namespace OwnMinutes.Local.Deletion

open OwnMinutes.Lib.Keyed OwnMinutes.Auth.ProcessingRoute OwnMinutes.Auth.Records OwnMinutes.Auth.Errors
open OwnMinutes.Local.Store

/-! ### Accounts -/

def deletedUser (now : Timestamp) (user : UserRecord) : UserRecord :=
  { user with
    deletedAt := some now
    plan := .free
    officialMinutesTotal := 0
    officialMinutesUsed := 0
    officialMinutesPeriodStartAt := none
    officialMinutesPeriodEndAt := none
    officialMinutesPeriodSource := some "deleted"
    officialMinutesBillingOrderId := none }

/-- The claimed steps of the user are released. -/
def releaseClaimedSteps (now : Timestamp) (userId : UserId) (steps : Table MeetingProviderStepRecord) :
    Table MeetingProviderStepRecord :=
  steps.updateWhere (fun step => step.userId == userId && step.status == .claimed)
    (fun step => { step with status := .released, releasedAt := some now }) fun _ => rfl

/-- The reservations of the user and their steps are removed. -/
def removeProcessing (userId : UserId) (store : AuthStore) : AuthStore :=
  { store with
    meetingProcessingReservations := store.meetingProcessingReservations.removeWhere (·.userId == userId)
    meetingProviderSteps := store.meetingProviderSteps.removeWhere (·.userId == userId) }

def deleteAccount (now : Timestamp) (userId : UserId) (stored : AuthStore) : Except AuthError AuthStore :=
  let store := normalizeStore stored
  match findActiveUser store userId with
  | none => .error accountMissing
  | some user =>
    let store := { store.putUser (deletedUser now user) with
      meetingProviderSteps := releaseClaimedSteps now userId store.meetingProviderSteps }
    let hasStartedProviderStep := store.meetingProviderSteps.rows.any fun step =>
      step.userId == userId && step.status == .started
    let store := if hasStartedProviderStep then store else removeProcessing userId store
    .ok { store with usageEvents := store.usageEvents.filter (·.userId != userId) }

structure AccountDeletionProcessing where
  active : Bool
  pending : Bool
  deriving DecidableEq, Repr

def reconcileLocalAccountDeletionProcessing (now : Timestamp) (userId : UserId) (stored : AuthStore) :
    AccountDeletionProcessing × AuthStore :=
  let store := normalizeStore stored
  match store.users.get? userId with
  | none => (⟨false, false⟩, stored)
  | some user =>
    if user.active then (⟨true, false⟩, stored)
    else
      let store := { store with
        meetingProviderSteps := releaseClaimedSteps now userId store.meetingProviderSteps }
      (⟨false, false⟩, removeProcessing userId store)

/-! ### Meetings -/

def purgeMeetingProcessingLedger (userId : UserId) (meetingId : MeetingId) (stored : AuthStore) : AuthStore :=
  let store := normalizeStore stored
  let purged (reservation : MeetingProcessingReservationRecord) :=
    reservation.userId == userId && reservation.meetingId == meetingId
  let reservationIds := (store.meetingProcessingReservations.rows.filter purged).map (·.id)
  let usagePrefix := "Finalized meeting:" ++ meetingId ++ " "
  { store with
    usageEvents := store.usageEvents.map fun event =>
      if event.userId == userId && event.type == .meetingFinalize &&
          (usagePrefix.toList.isPrefixOf event.note.toList || event.processingReservationId.any (· ∈ reservationIds)) then
        { event with
          note := "Deleted meeting usage retained without meeting identity."
          processingReservationId := none }
      else event
    meetingProviderSteps := store.meetingProviderSteps.removeWhere (·.reservationId ∈ reservationIds)
    meetingProcessingReservations := store.meetingProcessingReservations.removeWhere purged }

end OwnMinutes.Local.Deletion
