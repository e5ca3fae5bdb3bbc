import OwnMinutes.Postgres.Quota
import OwnMinutes.Quota.Calls

/-! # Calls on the database

`execute` answers a quota call. The lemmas say what a transaction, a lookup and an update of one row
come to. -/

namespace OwnMinutes.Postgres.Calls

open OwnMinutes.Lib.Keyed OwnMinutes.Lib.Outcome OwnMinutes.Auth.ProcessingRoute
open OwnMinutes.Auth.Records OwnMinutes.Auth.Errors OwnMinutes.Auth.QuotaTypes
open OwnMinutes.Postgres.Store OwnMinutes.Postgres.Quota OwnMinutes.Quota.Calls

variable (hashPostgresClaimToken : ClaimToken → TokenHash)

/-- The database and the result of a call; an error rolls back. -/
def execute (now : Timestamp) (call : QuotaCall) (db : Database) :
    Except AuthError QuotaResult × Database :=
  commit db <| match call with
    | .reserveRealtime userId input newId =>
      (postgresReserveMeetingRealtimeQuota now newId userId input db).map (Prod.map .realtime id)
    | .reserveFinalization userId input newId =>
      (postgresReserveMeetingFinalizationQuota now newId userId input db).map
        (Prod.map .reservation id)
    | .claim userId input newId claimToken =>
      (postgresClaimMeetingProviderStep hashPostgresClaimToken now newId claimToken userId input
        db).map (Prod.map .claim id)
    | .start userId input =>
      (postgresStartMeetingProviderStep hashPostgresClaimToken now userId input db).map
        (Prod.map .transition id)
    | .complete userId input =>
      (postgresCompleteMeetingProviderStep hashPostgresClaimToken now userId input db).map
        (Prod.map .transition id)
    | .reconcile userId input =>
      (postgresReconcileMeetingProviderStep now userId input db).map (Prod.map .transition id)
    | .releaseStep userId input =>
      (postgresReleaseMeetingProviderStep hashPostgresClaimToken now userId input db).map
        (Prod.map .transition id)
    | .reject userId input =>
      (postgresRejectMeetingProviderStep hashPostgresClaimToken now userId input db).map
        (Prod.map .transition id)
    | .releaseReservation userId reservationId =>
      (postgresReleaseMeetingProcessingReservation now userId reservationId db).map
        (Prod.map .reservation id)
    | .recordUsage userId input newId =>
      (postgresRecordMeetingFinalizeUsage now newId userId input db).map (Prod.map .usage id)

/-- The identifiers a call draws are not in use in the database. -/
def freshIn (db : Database) (call : QuotaCall) : Prop :=
  FreshIds db.meetingProcessingReservations db.meetingProcessingProviderSteps call

instance (db : Database) (call : QuotaCall) : Decidable (freshIn db call) :=
  inferInstanceAs (Decidable (FreshIds _ _ _))

/-- One call on the database. -/
def QuotaStep : Clocked Database → QuotaEvent → Clocked Database → Prop :=
  CallStep (execute hashPostgresClaimToken) freshIn

theorem execute_error {now : Timestamp} {call : QuotaCall} {db db' : Database} {e : AuthError}
    (h : execute hashPostgresClaimToken now call db = (.error e, db')) : db' = db :=
  (commit_error h).1

/-! ### Transactions -/

theorem commitTables_ok {α : Type} {result a : α} {t : Tables} {db : Database}
    (h : commitTables result t = .ok (a, db)) : a = result ∧ db.toTables = t := by
  unfold commitTables at h
  split at h
  · cases h
    exact ⟨rfl, rfl⟩
  · cases h

/-- What a transaction that commits did to the tables. -/
theorem postgresTransaction_ok {α : Type} {body : Tables → Except AuthError (α × Tables)}
    {db db' : Database} {a : α} (h : postgresTransaction body db = .ok (a, db')) :
    ∃ t, body db.toTables = .ok (a, t) ∧ db'.toTables = t := by
  obtain ⟨⟨result, t⟩, hbody, hcommit⟩ := bind_eq_ok.mp h
  obtain ⟨rfl, ht⟩ := commitTables_ok hcommit
  exact ⟨t, hbody, ht⟩

/-! ### Rows the operations find -/

theorem lockPostgresQuotaUser_ok {t : Tables} {userId : UserId} {user : UserRecord}
    (h : lockPostgresQuotaUser t userId = .ok user) :
    user ∈ t.users ∧ user.id = userId ∧ user.deletedAt = none := by
  unfold lockPostgresQuotaUser at h
  split at h
  · cases h
  · rename_i row hrow
    cases h
    have hp := Table.of_find? hrow
    simp only [Bool.and_eq_true, UserRecord.active, Option.isNone_iff_eq_none, beq_iff_eq] at hp
    exact ⟨Table.mem_of_find? hrow, hp⟩

theorem findPostgresReservationById_ok {t : Tables} {userId : UserId} {id : ReservationId}
    {r : MeetingProcessingReservationRecord} (h : findPostgresReservationById t userId id = .ok r) :
    r ∈ t.meetingProcessingReservations ∧ r.id = id ∧ r.userId = userId := by
  unfold findPostgresReservationById at h
  split at h
  · cases h
  · rename_i row hrow
    cases h
    have hp := Table.of_find? hrow
    simp only [Bool.and_eq_true, beq_iff_eq] at hp
    exact ⟨Table.mem_of_find? hrow, hp⟩

theorem findPostgresProviderStep_ok {t : Tables} {userId : UserId} {stepId : ProviderStepId}
    {step : MeetingProviderStepRecord} (h : findPostgresProviderStep t userId stepId = .ok step) :
    step ∈ t.meetingProcessingProviderSteps ∧ step.id = stepId ∧ step.userId = userId := by
  unfold findPostgresProviderStep at h
  split at h
  · cases h
  · rename_i row hrow
    cases h
    have hp := Table.of_find? hrow
    simp only [Bool.and_eq_true, beq_iff_eq] at hp
    exact ⟨Table.mem_of_find? hrow, hp⟩

theorem selectStepByStage_spec {t : Tables} {reservationId : ReservationId} {stageKey : String}
    {step : MeetingProviderStepRecord} (h : selectStepByStage t reservationId stageKey = some step) :
    step ∈ t.meetingProcessingProviderSteps ∧ step.reservationId = reservationId ∧
      step.stageKey = stageKey := by
  have hp := Table.of_find? h
  simp only [Bool.and_eq_true, beq_iff_eq] at hp
  exact ⟨Table.mem_of_find? h, hp⟩

theorem assertPostgresProviderClaim_ok {step : MeetingProviderStepRecord} {token : ClaimToken}
    {now : Timestamp}
    (h : assertPostgresProviderClaim hashPostgresClaimToken step token now = .ok ()) :
    step.status = .claimed ∧ step.claimTokenHash = hashPostgresClaimToken token ∧
      now < step.leaseExpiresAt := by
  unfold assertPostgresProviderClaim at h
  obtain ⟨hstatus, h⟩ := guard_eq_ok.mp h
  obtain ⟨hhash, h⟩ := guard_eq_ok.mp h
  obtain ⟨hlease, -⟩ := guard_eq_ok.mp h
  exact ⟨not_not.mp hstatus, (not_not.mp hhash).symm, not_le.mp hlease⟩

/-! ### Updates that leave the provider steps -/

section Steps

variable (t : Tables)

@[simp] theorem updateUser_steps (id : UserId) (f : UserRecord → UserRecord)
    (p : UserRecord → Bool) :
    (t.updateUser id f p).meetingProcessingProviderSteps = t.meetingProcessingProviderSteps := by
  unfold Tables.updateUser
  split
  · rfl
  · split <;> rfl

@[simp] theorem updateReservation_steps (id : ReservationId)
    (f : MeetingProcessingReservationRecord → MeetingProcessingReservationRecord) :
    (t.updateReservation id f).meetingProcessingProviderSteps =
      t.meetingProcessingProviderSteps := by
  unfold Tables.updateReservation
  split <;> rfl

@[simp] theorem putStep_steps (step : MeetingProviderStepRecord) :
    (t.putStep step).meetingProcessingProviderSteps =
      t.meetingProcessingProviderSteps.replace step := rfl

@[simp] theorem increment_steps (user : UserRecord) (minutes : ℤ) :
    (incrementPostgresOfficialMinutes t user minutes).1.meetingProcessingProviderSteps =
      t.meetingProcessingProviderSteps := by
  unfold incrementPostgresOfficialMinutes
  split
  · rfl
  · exact updateUser_steps t _ _ _

@[simp] theorem upsertReservation_steps (row : MeetingProcessingReservationRecord)
    (onConflict : MeetingProcessingReservationRecord → MeetingProcessingReservationRecord) :
    (upsertReservation t row onConflict).2.meetingProcessingProviderSteps =
      t.meetingProcessingProviderSteps := by
  unfold upsertReservation
  split <;> rfl

@[simp] theorem refreshTables_steps (now : Timestamp) (userId : UserId) :
    (refreshTables now userId t).meetingProcessingProviderSteps =
      t.meetingProcessingProviderSteps := by
  unfold refreshTables
  split <;> rfl

variable {t}

theorem settleReservation_steps {user user' : UserRecord} {t' : Tables}
    {r : MeetingProcessingReservationRecord} {now : Timestamp} {delta : ℤ}
    (h : settlePostgresReservationCapacity t user r now = .ok (delta, user', t')) :
    t'.meetingProcessingProviderSteps = t.meetingProcessingProviderSteps := by
  unfold settlePostgresReservationCapacity at h
  obtain ⟨-, h⟩ := guard_eq_ok.mp h
  split at h
  · cases h
    exact (updateReservation_steps _ _ _).trans (increment_steps t user _)
  · cases h
    rfl

theorem settleLegacy_steps {user : UserRecord} {t' : Tables} {minutes charged : ℤ}
    {now : Timestamp} (h : settlePostgresLegacyUsage t user minutes now = .ok (charged, t')) :
    t'.meetingProcessingProviderSteps = t.meetingProcessingProviderSteps := by
  unfold settlePostgresLegacyUsage at h
  obtain ⟨-, h⟩ := guard_eq_ok.mp h
  cases h
  exact increment_steps t user _

theorem refundPostgresStep_steps {userId : UserId} {user : UserRecord} {t' : Tables}
    {step : MeetingProviderStepRecord} (h : refundPostgresStep userId t user step = .ok t') :
    t'.meetingProcessingProviderSteps = t.meetingProcessingProviderSteps := by
  obtain ⟨r, -, h⟩ := bind_eq_ok.mp h
  obtain ⟨-, h⟩ := guard_eq_ok.mp h
  obtain ⟨-, h⟩ := guard_eq_ok.mp h
  obtain ⟨-, h⟩ := guard_eq_ok.mp h
  cases h
  rw [updateReservation_steps, updateUser_steps]

end Steps

end OwnMinutes.Postgres.Calls
