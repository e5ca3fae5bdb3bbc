import Mathlib.Algebra.Group.Prod
import Mathlib.Algebra.Group.Int.Defs
import OwnMinutes.Postgres.LedgerOwners

/-! # The cost of deleted provider steps

Reservations are deleted with the account, with a meeting, and by the manual clean-up of a legacy meeting; the
provider steps go with them, and what they cost is added to `account_deletion_provider_cost_aggregates` before.
Such a transaction selects the totals, deletes the reservations and commits, and others run in between: all but
the clean-up of a legacy meeting hold the row of the user, as quota calls do. -/

namespace OwnMinutes.Postgres.ProviderCost

open OwnMinutes.Lib.Keyed OwnMinutes.Auth.ProcessingRoute OwnMinutes.Auth.Records
open OwnMinutes.Auth.QuotaTypes OwnMinutes.Quota.Calls OwnMinutes.Postgres.Store OwnMinutes.Postgres.Calls

abbrev WorkerId := ℕ

/-- `provider_steps`, `official_minutes_settled` and `free_trial_minutes_settled`. -/
abbrev CostTotals := ℤ × ℤ × ℤ

def costOf (step : MeetingProviderStepRecord) : CostTotals :=
  (1, step.officialMinutesSettled, step.freeTrialMinutesSettled)

/-- A row of `account_deletion_provider_cost_aggregates`. The table does not tell the user whose steps these
were: `userId` is known to the model only. -/
structure CostAggregate where
  sourceRef : Option String
  totals : CostTotals
  userId : UserId
  deriving DecidableEq, Repr

/-- The transactions that delete reservations. -/
inductive LedgerJob
  /-- `postgresDeleteAccount` -/
  | deleteAccount (userId : UserId)
  /-- `reconcilePostgresAccountDeletionProcessing` -/
  | reconcileAccount (userId : UserId)
  /-- `archiveAndDeletePostgresMeetingProcessingLedger` -/
  | purgeMeeting (userId : UserId) (meetingId : MeetingId)
  /-- `purgeLegacyMeetingRelationalData` -/
  | purgeLegacyMeeting (userId : UserId) (meetingId : MeetingId)
  deriving DecidableEq, Repr

namespace LedgerJob

def userId : LedgerJob → UserId
  | deleteAccount userId | reconcileAccount userId | purgeMeeting userId _ | purgeLegacyMeeting userId _ => userId

/-- `select id from users where id = $1 for update` -/
def locksUser : LedgerJob → Bool
  | purgeLegacyMeeting .. => false
  | _ => true

/-- The reservations that it deletes. -/
def covers : LedgerJob → MeetingProcessingReservationRecord → Bool
  | deleteAccount userId, r | reconcileAccount userId, r => r.userId = userId
  | purgeMeeting userId meetingId, r | purgeLegacyMeeting userId meetingId, r =>
    r.userId = userId ∧ r.meetingId = meetingId

end LedgerJob

/-! ### Selecting the totals -/

section Select

variable (sha256 : String → String)

def providerCostSourceRef (scope : String) (userId : UserId) (meetingId : MeetingId) : String :=
  sha256 ("ownminutes-provider-cost-source:v1\x00" ++ scope ++ "\x00" ++ userId ++ "\x00" ++ meetingId)

def LedgerJob.sourceRef : LedgerJob → Option String
  | .deleteAccount userId | .reconcileAccount userId => some (providerCostSourceRef sha256 "account" userId "")
  | .purgeMeeting userId meetingId => some (providerCostSourceRef sha256 "meeting" userId meetingId)
  | .purgeLegacyMeeting .. => none

/-- The step is one of a reservation that the job deletes. -/
def LedgerJob.joins (job : LedgerJob) (t : Tables) (step : MeetingProviderStepRecord) : Bool :=
  (t.meetingProcessingReservations.get? step.reservationId).any job.covers

/-- `select count(*), sum(official_minutes_settled), sum(free_trial_minutes_settled)`: of an account by the user
of the step, of a meeting by the reservation. -/
def LedgerJob.selectTotals (job : LedgerJob) (t : Tables) : CostTotals :=
  t.meetingProcessingProviderSteps.sum fun step =>
    match job with
    | .deleteAccount userId | .reconcileAccount userId => if step.userId = userId then costOf step else 0
    | .purgeMeeting .. | .purgeLegacyMeeting .. => if job.joins t step then costOf step else 0

/-- `insert into account_deletion_provider_cost_aggregates … on conflict (source_ref) do nothing` -/
def insertedAggregate (job : LedgerJob) (totals : CostTotals) (aggregates : List CostAggregate) :
    Option CostAggregate :=
  if 0 < totals.1 ∧ ∀ row ∈ aggregates, row.sourceRef = none ∨ row.sourceRef ≠ job.sourceRef sha256 then
    some ⟨job.sourceRef sha256, totals, job.userId⟩
  else
    none

/-- A transaction that has selected its totals and inserted its row. `erased` are the reservations that it has
deleted. -/
structure LedgerTransaction where
  job : LedgerJob
  totals : CostTotals
  row : Option CostAggregate
  erased : Option (List ReservationId)
  deriving DecidableEq, Repr

def archiving (job : LedgerJob) (t : Tables) (aggregates : List CostAggregate) : LedgerTransaction where
  job := job
  totals := job.selectTotals t
  row := insertedAggregate sha256 job (job.selectTotals t) aggregates
  erased := none

/-- The start of a transaction, up to the insertion. An account with a started provider step is deleted without
an archive. -/
def beginJob (job : LedgerJob) (t : Tables) (aggregates : List CostAggregate) : Option LedgerTransaction :=
  match job with
  | .deleteAccount userId =>
    match t.users.find? fun user => user.id == userId && user.active with
    | none => none
    | some _ =>
      if t.meetingProcessingProviderSteps.rows.any fun step =>
          step.userId == userId && step.status == .started then
        some { job := job, totals := 0, row := none, erased := some [] }
      else
        some (archiving sha256 job t aggregates)
  | .reconcileAccount userId =>
    match t.users.find? fun user => user.id == userId && !user.active with
    | none => none
    | some _ => some (archiving sha256 job t aggregates)
  | .purgeMeeting .. | .purgeLegacyMeeting .. => some (archiving sha256 job t aggregates)

end Select

/-! ### Deleting -/

/-- The reservations that a delete statement finds. -/
def LedgerJob.found (job : LedgerJob) (t : Tables) : List ReservationId :=
  (t.meetingProcessingReservations.rows.filter job.covers).map (·.id)

theorem releasedOfUser_key (now : Timestamp) (step : MeetingProviderStepRecord) :
    HasKey.key { step with status := .released, releasedAt := step.releasedAt <|> some now } =
      HasKey.key step := rfl

/-- The claimed steps of an account are released before it is archived. -/
def LedgerJob.releasedSteps (job : LedgerJob) (now : Timestamp) (steps : Table MeetingProviderStepRecord) :
    Table MeetingProviderStepRecord :=
  match job with
  | .deleteAccount userId | .reconcileAccount userId =>
    steps.updateWhere (fun step => step.userId == userId && step.status == .claimed)
      (fun step => { step with status := .released, releasedAt := step.releasedAt <|> some now })
      (releasedOfUser_key now)
  | .purgeMeeting .. | .purgeLegacyMeeting .. => steps

/-- `Finalized meeting:${meetingId} ` -/
def usagePrefix (meetingId : MeetingId) : String := "Finalized meeting:" ++ meetingId ++ " "

/-- What is left of a usage event of a purged meeting. -/
def LedgerJob.retainedUsage (job : LedgerJob) (t : Tables) (event : UsageEventRecord) : UsageEventRecord :=
  match job with
  | .purgeMeeting userId meetingId | .purgeLegacyMeeting userId meetingId =>
    if event.userId = userId ∧ event.type = .meetingFinalize ∧
        ((usagePrefix meetingId).toList <+: event.note.toList ∨
          ((event.processingReservationId.bind t.meetingProcessingReservations.get?).any job.covers)) then
      { event with
        note := "Deleted meeting usage retained without meeting identity."
        processingReservationId := none }
    else
      event
  | .deleteAccount _ | .reconcileAccount _ => event

/-- `on delete set null` -/
def detachedUsage (erased : List ReservationId) (event : UsageEventRecord) : UsageEventRecord :=
  if event.processingReservationId.any (· ∈ erased) then { event with processingReservationId := none } else event

def LedgerJob.usageLeft (job : LedgerJob) (t : Tables) (erased : List ReservationId) : List UsageEventRecord :=
  match job with
  | .deleteAccount userId => t.usageEvents.filter fun event => event.userId != userId
  | _ => (t.usageEvents.map (job.retainedUsage t)).map (detachedUsage erased)

/-- `update users set … deleted_at = $3 …` -/
def deletedUser (now : Timestamp) (user : UserRecord) : UserRecord :=
  { user with
    deletedAt := some now
    plan := .free
    officialMinutesTotal := 0
    officialMinutesUsed := 0
    officialMinutesPeriodStartAt := none
    officialMinutesPeriodEndAt := none
    officialMinutesPeriodSource := some "deleted"
    officialMinutesBillingOrderId := none }

def LedgerJob.usersLeft (job : LedgerJob) (now : Timestamp) (t : Tables) : Table UserRecord :=
  match job with
  | .deleteAccount userId => (t.updateUser userId (deletedUser now)).users
  | _ => t.users

/-- The tables after the transaction: provider steps are deleted with their reservations. -/
def LedgerJob.committed (job : LedgerJob) (now : Timestamp) (erased : List ReservationId) (t : Tables) : Tables :=
  { t with
    users := job.usersLeft now t
    meetingProcessingReservations := t.meetingProcessingReservations.removeWhere (·.id ∈ erased)
    meetingProcessingProviderSteps :=
      (job.releasedSteps now t.meetingProcessingProviderSteps).removeWhere (·.reservationId ∈ erased)
    usageEvents := job.usageLeft t erased }

/-- What the steps of reservations cost. -/
def erasedCost (erased : List ReservationId) (t : Tables) : CostTotals :=
  t.meetingProcessingProviderSteps.sum fun step => if step.reservationId ∈ erased then costOf step else 0

/-! ### Runs -/

/-- `deleted` counts the steps deleted so far and the minutes settled on them. -/
structure CostWorld where
  quota : Clocked Database
  aggregates : List CostAggregate
  transactions : WorkerId → Option LedgerTransaction
  deleted : UserId → CostTotals

inductive CostEvent
  | quota (event : QuotaEvent)
  | select (worker : WorkerId) (job : LedgerJob)
  | delete (worker : WorkerId)
  | commit (worker : WorkerId) (now : Timestamp)
  | abort (worker : WorkerId)

/-- No transaction holds the row of the user. -/
def UserUnlocked (w : CostWorld) (userId : UserId) : Prop :=
  ∀ worker tx, w.transactions worker = some tx → tx.job.locksUser = true → tx.job.userId ≠ userId

/-- No transaction has deleted one of these reservations. -/
def RowsUnlocked (w : CostWorld) (ids : List ReservationId) : Prop :=
  ∀ worker tx erased, w.transactions worker = some tx → tx.erased = some erased → ∀ id ∈ ids, id ∉ erased

/-- The rows that a call writes have not been deleted by a transaction. -/
def WritesUnlocked (w : CostWorld) (t' : Tables) : Prop :=
  ∀ worker tx erased, w.transactions worker = some tx → tx.erased = some erased →
    (∀ r : MeetingProcessingReservationRecord, r.id ∈ erased →
      (r ∈ t'.meetingProcessingReservations ↔ r ∈ w.quota.store.meetingProcessingReservations)) ∧
    ∀ step : MeetingProviderStepRecord, step.reservationId ∈ erased →
      (step ∈ t'.meetingProcessingProviderSteps ↔ step ∈ w.quota.store.meetingProcessingProviderSteps)

section Steps

variable (sha256 : String → String) (hashPostgresClaimToken : ClaimToken → TokenHash)

/-- The world after a commit; a constraint that is violated rolls back. -/
def CostWorld.committed (w : CostWorld) (worker : WorkerId) (tx : LedgerTransaction)
    (erased : List ReservationId) (now : Timestamp) : CostWorld :=
  match commitTables () (tx.job.committed now erased w.quota.store.toTables) with
  | .error _ => { w with transactions := Function.update w.transactions worker none }
  | .ok ((), db) =>
    { quota := ⟨db, now⟩
      aggregates := w.aggregates ++ tx.row.toList
      transactions := Function.update w.transactions worker none
      deleted := fun userId =>
        w.deleted userId + if userId = tx.job.userId then erasedCost erased w.quota.store.toTables else 0 }

/-- A statement waits for the rows that others have locked. -/
def CostStep (w : CostWorld) (e : CostEvent) (w' : CostWorld) : Prop :=
  match e with
  | .quota event => ∃ quota, QuotaStep hashPostgresClaimToken w.quota event quota ∧
      UserUnlocked w event.call.userId ∧ WritesUnlocked w quota.store.toTables ∧ w' = { w with quota := quota }
  | .select worker job => ∃ tx, beginJob sha256 job w.quota.store.toTables w.aggregates = some tx ∧
      w.transactions worker = none ∧ (job.locksUser = true → UserUnlocked w job.userId) ∧
      w' = { w with transactions := Function.update w.transactions worker (some tx) }
  | .delete worker => ∃ tx, w.transactions worker = some tx ∧ tx.erased = none ∧
      RowsUnlocked w (tx.job.found w.quota.store.toTables) ∧
      w' = { w with
        transactions := Function.update w.transactions worker
          (some { tx with erased := some (tx.job.found w.quota.store.toTables) }) }
  | .commit worker now => ∃ tx erased, w.transactions worker = some tx ∧ tx.erased = some erased ∧
      w.quota.clock ≤ now ∧ w' = w.committed worker tx erased now
  | .abort worker => w' = { w with transactions := Function.update w.transactions worker none }

end Steps

/-- The totals of the aggregates of a user. -/
def archivedTotals (aggregates : List CostAggregate) (userId : UserId) : CostTotals :=
  ((aggregates.filter fun row => row.userId = userId).map (·.totals)).sum

end OwnMinutes.Postgres.ProviderCost
