import OwnMinutes.Finalizer.Ledger
import OwnMinutes.Postgres.Fencing

/-! # The database as the ledger of finalizations -/

namespace OwnMinutes.Postgres.FinalizerLedger

open OwnMinutes.Lib.Keyed OwnMinutes.Lib.Keyed.Table OwnMinutes.Lib.Outcome
open OwnMinutes.Auth.ProcessingRoute OwnMinutes.Auth.Records OwnMinutes.Auth.QuotaTypes
open OwnMinutes.Quota.Calls OwnMinutes.Quota.Fencing OwnMinutes.Quota.Reservations
open OwnMinutes.Finalizer.Ledger OwnMinutes.Postgres.Store OwnMinutes.Postgres.Quota
open OwnMinutes.Postgres.Calls

/-! ### Updates that keep the owners -/

/-- The reservations keep their owners. -/
abbrev KeepsOwners (t t' : Tables) : Prop :=
  Rewrites SameOwner t.meetingProcessingReservations t'.meetingProcessingReservations

theorem KeepsOwners.of_eq {t t' : Tables}
    (h : t'.meetingProcessingReservations = t.meetingProcessingReservations) : KeepsOwners t t' := by
  rw [KeepsOwners, h]
  exact Rewrites.refl SameOwner.refl _

theorem updateUser_reservations (t : Tables) (id : UserId) (f : UserRecord → UserRecord)
    (p : UserRecord → Bool) :
    (t.updateUser id f p).meetingProcessingReservations = t.meetingProcessingReservations := by
  unfold Tables.updateUser
  split
  · rfl
  · split <;> rfl

theorem increment_reservations (t : Tables) (user : UserRecord) (minutes : ℤ) :
    (incrementPostgresOfficialMinutes t user minutes).1.meetingProcessingReservations =
      t.meetingProcessingReservations := by
  unfold incrementPostgresOfficialMinutes
  split
  · rfl
  · exact updateUser_reservations t _ _ _

theorem refreshTables_reservations (now : Timestamp) (userId : UserId) (t : Tables) :
    (refreshTables now userId t).meetingProcessingReservations = t.meetingProcessingReservations := by
  unfold refreshTables
  split <;> rfl

theorem updateReservation_owners {t0 t : Tables} (h : KeepsOwners t0 t) (id : ReservationId)
    {f : MeetingProcessingReservationRecord → MeetingProcessingReservationRecord}
    (hf : ∀ r, SameOwner r (f r)) : KeepsOwners t0 (t.updateReservation id f) := by
  unfold Tables.updateReservation
  split
  · exact h
  · rename_i r hr
    exact h.trans (fun _ _ _ => SameOwner.trans)
      (rewrites_replace_mem SameOwner.refl (mem_of_get? hr) (hf r).id (hf r))

variable {t t' : Tables}

theorem settleReservation_owners {user user' : UserRecord} {r : MeetingProcessingReservationRecord}
    {now : Timestamp} {delta : ℤ}
    (h : settlePostgresReservationCapacity t user r now = .ok (delta, user', t')) :
    KeepsOwners t t' := by
  unfold settlePostgresReservationCapacity at h
  obtain ⟨-, h⟩ := guard_eq_ok.mp h
  split at h
  · cases h
    exact updateReservation_owners (.of_eq (increment_reservations t user _)) _ fun _ => ⟨rfl, rfl, rfl⟩
  · cases h
    exact .of_eq rfl

theorem refundStep_owners {userId : UserId} {user : UserRecord} {step : MeetingProviderStepRecord}
    (h : refundPostgresStep userId t user step = .ok t') : KeepsOwners t t' := by
  obtain ⟨r, -, h⟩ := bind_eq_ok.mp h
  obtain ⟨-, h⟩ := guard_eq_ok.mp h
  obtain ⟨-, h⟩ := guard_eq_ok.mp h
  obtain ⟨-, h⟩ := guard_eq_ok.mp h
  cases h
  exact updateReservation_owners (.of_eq (updateUser_reservations t _ _ _)) _ fun _ => ⟨rfl, rfl, rfl⟩

theorem upsert_change {call : QuotaCall} {row : MeetingProcessingReservationRecord}
    {onConflict : MeetingProcessingReservationRecord → MeetingProcessingReservationRecord}
    (hrow : call.newReservationId? = some row.id) (hf : ∀ r, SameOwner r (onConflict r)) :
    ReservationChange call t.meetingProcessingReservations
      (upsertReservation t row onConflict).2.meetingProcessingReservations := by
  unfold upsertReservation
  split
  · rename_i existing hexisting
    exact reservationChange_replace (mem_of_find? hexisting) (hf existing)
  · exact .created (Rewrites.refl SameOwner.refl _) hrow

/-- The row that is returned is the reservation of the operation. -/
theorem upsert_for {row : MeetingProcessingReservationRecord}
    {onConflict : MeetingProcessingReservationRecord → MeetingProcessingReservationRecord}
    (hfresh : t.meetingProcessingReservations.Fresh row.id) (hf : ∀ r, SameOwner r (onConflict r)) :
    reservationFor (upsertReservation t row onConflict).2.meetingProcessingReservations row.userId
      row.operationKey = some (upsertReservation t row onConflict).1.id := by
  unfold upsertReservation
  split
  · rename_i existing hexisting
    have hkeep := rewrites_replace_mem SameOwner.refl (mem_of_find? hexisting) (hf existing).id
      (hf existing)
    rw [reservationFor_rewrites hkeep, (hf existing).id, reservationFor]
    unfold findPostgresProcessingReservation at hexisting
    rw [hexisting, Option.map_some]
  · rename_i hnone
    unfold findPostgresProcessingReservation at hnone
    rw [reservationFor, find?_insert hfresh, hnone, Option.none_or, if_pos (by simp), Option.map_some]

/-! ### Each operation -/

section Operations

variable {hashPostgresClaimToken : ClaimToken → TokenHash} {now : Timestamp} {userId : UserId}
  {db db' : Database}

theorem change_reserveRealtime {newId : ReservationId} {input : ReserveRealtimeQuotaInput}
    {res : RealtimeQuotaClaim}
    (h : postgresReserveMeetingRealtimeQuota now newId userId input db = .ok (res, db')) :
    ReservationChange (.reserveRealtime userId input newId) db.meetingProcessingReservations
      db'.meetingProcessingReservations := by
  obtain ⟨t', h, ht⟩ := postgresTransaction_ok h
  rw [ht]
  simp only [bind_eq_ok] at h
  obtain ⟨user, -, -, -, -, -, h⟩ := h
  obtain ⟨-, h⟩ := guard_eq_ok.mp h
  obtain ⟨-, h⟩ := guard_eq_ok.mp h
  obtain ⟨target, -, h⟩ := bind_eq_ok.mp h
  cases h
  exact upsert_change rfl fun _ => ⟨rfl, rfl, rfl⟩

theorem reserve_answer {newId : ReservationId} {input : ReserveFinalizationQuotaInput}
    {res : MeetingProcessingReservation} (hfresh : db.meetingProcessingReservations.Fresh newId)
    (h : postgresReserveMeetingFinalizationQuota now newId userId input db = .ok (res, db')) :
    ReservationChange (.reserveFinalization userId input newId) db.meetingProcessingReservations
        db'.meetingProcessingReservations ∧
      reservationFor db'.meetingProcessingReservations userId input.operationKey = some res.id := by
  obtain ⟨t', h, ht⟩ := postgresTransaction_ok h
  rw [ht]
  simp only [bind_eq_ok] at h
  obtain ⟨user, -, -, -, -, -, h⟩ := h
  split at h
  · rename_i existing hexisting
    obtain ⟨hexisting, -⟩ := Option.filter_eq_some_iff.mp hexisting
    cases h
    refine ⟨reservationChange_same _ _, ?_⟩
    unfold findPostgresProcessingReservation at hexisting
    rw [reservationFor, hexisting]
    rfl
  · obtain ⟨target, -, h⟩ := bind_eq_ok.mp h
    cases h
    have hkeep : ∀ r : MeetingProcessingReservationRecord, SameOwner r { r with
        processedMinutes := (calculateMeetingUsage input.durationMs
          (((findPostgresProcessingReservation db.toTables userId input.operationKey).map
            (·.processingRoute)).getD input.processingRoute)).processedMinutes
        officialMinutesReserved := target
        reservationExpiresAt := now + DEFAULT_MEETING_RESERVATION_LEASE_MS
        releasedAt := none } := fun _ => ⟨rfl, rfl, rfl⟩
    exact ⟨upsert_change rfl hkeep, upsert_for hfresh hkeep⟩

theorem claim_answer {newId : ProviderStepId} {token : ClaimToken}
    {input : ClaimMeetingProviderStepInput} {res : MeetingProviderStepClaimResult}
    (hfresh : db.meetingProcessingProviderSteps.Fresh newId)
    (h : postgresClaimMeetingProviderStep hashPostgresClaimToken now newId token userId input db =
      .ok (res, db')) :
    KeepsOwners db.toTables db'.toTables ∧
      stageKeyOf input.stage = .ok res.step.stageKey ∧ res.step.reservationId = input.reservationId ∧
      StepAt db'.meetingProcessingProviderSteps res.step.id
        (res.step.reservationId, res.step.stageKey) ∧
      ∀ claimToken, res.outcome = .claimed → res.claimToken = some claimToken → claimToken = token := by
  obtain ⟨t', h, ht⟩ := postgresTransaction_ok h
  rw [ht]
  simp only [bind_eq_ok] at h
  obtain ⟨user, -, r, hr, stageKey, hkey, h⟩ := h
  obtain ⟨-, hid, -⟩ := findPostgresReservationById_ok hr
  cases hcur : selectStepByStage db.toTables r.id stageKey with
  | none =>
    -- a new step
    rw [hcur] at h
    obtain ⟨-, -, h⟩ := bind_eq_ok.mp h
    unfold upsertStep at h
    rw [hcur] at h
    cases h
    refine ⟨updateReservation_owners ?_ _ ?_, hkey, hid, ?_, ?_⟩
    · exact .of_eq rfl
    · exact fun _ => ⟨rfl, rfl, rfl⟩
    · rw [updateReservation_steps]
      exact ⟨_, (mem_insert hfresh).mpr (.inr rfl), rfl, rfl⟩
    · rintro claimToken - ⟨⟩
      rfl
  | some step =>
    obtain ⟨hstep, hres, hstage⟩ := selectStepByStage_spec hcur
    have hat : StepAt db.meetingProcessingProviderSteps step.id (step.reservationId, step.stageKey) :=
      ⟨step, hstep, rfl, rfl⟩
    have hkey : stageKeyOf input.stage = .ok step.stageKey := hkey.trans (by rw [hstage])
    rw [hcur] at h
    dsimp only at h
    split at h
    · cases h
      exact ⟨.of_eq rfl, hkey, hres.trans hid, hat, fun _ ho => by cases ho⟩
    · split at h
      · cases h
        exact ⟨.of_eq rfl, hkey, hres.trans hid, hat, fun _ ho => by cases ho⟩
      · split at h
        · cases h
          exact ⟨.of_eq rfl, hkey, hres.trans hid, hat, fun _ ho => by cases ho⟩
        · obtain ⟨-, -, h⟩ := bind_eq_ok.mp h
          unfold upsertStep at h
          rw [hcur] at h
          cases h
          refine ⟨updateReservation_owners ?_ _ ?_, hkey, hres.trans hid, ?_, ?_⟩
          · exact .of_eq rfl
          · exact fun _ => ⟨rfl, rfl, rfl⟩
          · rw [updateReservation_steps, putStep_steps]
            exact stepAt_replace hstep ⟨rfl, rfl⟩ hat
          · rintro claimToken - ⟨⟩
            rfl

variable {input : ProviderStepInput} {res : MeetingProviderStepTransitionResult}

theorem start_owners
    (h : postgresStartMeetingProviderStep hashPostgresClaimToken now userId input db = .ok (res, db')) :
    KeepsOwners db.toTables db'.toTables := by
  obtain ⟨t', h, ht⟩ := postgresTransaction_ok h
  rw [ht]
  simp only [bind_eq_ok] at h
  obtain ⟨user, -, step, -, h⟩ := h
  split at h
  · cases h
    exact .of_eq rfl
  · split at h
    · cases h
      exact .of_eq rfl
    · simp only [bind_eq_ok, Prod.exists] at h
      obtain ⟨_, -, r, -, _, -, delta, user', t1, hsettle, h⟩ := h
      have hkeep := settleReservation_owners hsettle
      cases h
      exact hkeep

theorem complete_answer
    (h : postgresCompleteMeetingProviderStep hashPostgresClaimToken now userId input db = .ok (res, db')) :
    KeepsOwners db.toTables db'.toTables ∧ (res.outcome = .completed →
        ∃ step ∈ db'.meetingProcessingProviderSteps, step.id = input.stepId ∧
          step.status = .completed) := by
  obtain ⟨t', h, ht⟩ := postgresTransaction_ok h
  rw [ht]
  simp only [bind_eq_ok] at h
  obtain ⟨user, -, step, hstep, h⟩ := h
  obtain ⟨hmem, hid, -⟩ := findPostgresProviderStep_ok hstep
  split at h
  · rename_i hdone
    cases h
    exact ⟨.of_eq rfl, fun _ => ⟨step, hmem, hid, hdone⟩⟩
  · split at h
    · cases h
      exact ⟨.of_eq rfl, fun hr => by cases hr⟩
    · cases h
      exact ⟨.of_eq rfl, fun _ => ⟨_, mem_replace_self hmem rfl, hid, rfl⟩⟩

theorem reconcile_answer {input : ReconcileMeetingProviderStepInput}
    (h : postgresReconcileMeetingProviderStep now userId input db = .ok (res, db')) :
    KeepsOwners db.toTables db'.toTables ∧ ∃ step ∈ db'.meetingProcessingProviderSteps,
      step.reservationId = input.reservationId ∧ stageKeyOf input.stage = .ok step.stageKey ∧
        step.status = .completed := by
  obtain ⟨t', h, ht⟩ := postgresTransaction_ok h
  rw [ht]
  simp only [bind_eq_ok] at h
  obtain ⟨user, -, r, hr, stageKey, hkey, h⟩ := h
  obtain ⟨-, hid, -⟩ := findPostgresReservationById_ok hr
  split at h
  · cases h
  rename_i step hcur
  obtain ⟨hstep, hres, hstage⟩ := selectStepByStage_spec hcur
  have hkey := hkey.trans (congrArg Except.ok hstage.symm)
  obtain ⟨-, h⟩ := guard_eq_ok.mp h
  split at h
  · rename_i hdone
    cases h
    exact ⟨.of_eq rfl, step, hstep, hres.trans hid, hkey, hdone⟩
  · cases h
    exact ⟨.of_eq rfl, _, mem_replace_self hstep rfl, hres.trans hid, hkey, rfl⟩

theorem releaseStep_owners
    (h : postgresReleaseMeetingProviderStep hashPostgresClaimToken now userId input db = .ok (res, db')) :
    KeepsOwners db.toTables db'.toTables := by
  obtain ⟨t', h, ht⟩ := postgresTransaction_ok h
  rw [ht]
  simp only [bind_eq_ok] at h
  obtain ⟨user, -, step, -, h⟩ := h
  split_ifs at h <;> cases h <;> exact .of_eq rfl

theorem reject_owners
    (h : postgresRejectMeetingProviderStep hashPostgresClaimToken now userId input db = .ok (res, db')) :
    KeepsOwners db.toTables db'.toTables := by
  obtain ⟨t', h, ht⟩ := postgresTransaction_ok h
  rw [ht]
  simp only [bind_eq_ok] at h
  obtain ⟨user, -, step, -, h⟩ := h
  obtain ⟨-, h⟩ := guard_eq_ok.mp h
  split at h
  · cases h
    exact .of_eq rfl
  · split at h
    · cases h
      exact .of_eq rfl
    · split at h
      · cases h
        dsimp only [Tables.putStep]
        split
        · exact updateReservation_owners (.of_eq rfl) _ fun _ => ⟨rfl, rfl, rfl⟩
        · exact .of_eq rfl
      · split at h
        · obtain ⟨t, hrefund, h⟩ := bind_eq_ok.mp h
          have hkeep := refundStep_owners hrefund
          cases h
          exact hkeep
        · cases h
          exact .of_eq rfl

theorem releaseReservation_owners {reservationId : ReservationId} {res : MeetingProcessingReservation}
    (h : postgresReleaseMeetingProcessingReservation now userId reservationId db = .ok (res, db')) :
    KeepsOwners db.toTables db'.toTables := by
  obtain ⟨t', h, ht⟩ := postgresTransaction_ok h
  rw [ht]
  simp only [bind_eq_ok] at h
  obtain ⟨user, -, r, hr, h⟩ := h
  split at h
  · cases h
    exact .of_eq rfl
  · obtain ⟨-, h⟩ := guard_eq_ok.mp h
    cases h
    exact rewrites_replace_mem SameOwner.refl (findPostgresReservationById_ok hr).1 rfl ⟨rfl, rfl, rfl⟩

theorem recordFinalizeUsage_owners {newId : UsageEventId} {input : RecordMeetingFinalizeUsageInput}
    {u : Unit} (h : recordFinalizeUsage now newId userId input db = .ok (u, db')) :
    KeepsOwners db.toTables db'.toTables := by
  obtain ⟨t', h, ht⟩ := postgresTransaction_ok h
  rw [ht]
  obtain ⟨user, -, h⟩ := bind_eq_ok.mp h
  split at h
  · cases h
    exact .of_eq rfl
  · split at h
    · obtain ⟨-, h⟩ := guard_eq_ok.mp h
      obtain ⟨⟨charged, t⟩, hsettle, h⟩ := bind_eq_ok.mp h
      unfold settlePostgresLegacyUsage at hsettle
      obtain ⟨-, hsettle⟩ := guard_eq_ok.mp hsettle
      cases hsettle
      cases h
      exact .of_eq (increment_reservations _ _ _)
    · rename_i r hr
      obtain ⟨-, h⟩ := guard_eq_ok.mp h
      obtain ⟨-, h⟩ := guard_eq_ok.mp h
      cases h
      have hmem : r ∈ db.meetingProcessingReservations := by
        unfold selectRecordedReservation at hr
        split at hr
        · exact mem_of_find? hr
        · exact mem_of_find? hr
        · cases hr
      exact rewrites_replace_mem SameOwner.refl hmem rfl ⟨rfl, rfl, rfl⟩

theorem getUserUsage_reservations {res : UserUsageSummary}
    (h : postgresGetUserUsage now userId db = .ok (res, db')) :
    db'.meetingProcessingReservations = db.meetingProcessingReservations := by
  obtain ⟨⟨user, mid⟩, hfind, h⟩ := bind_eq_ok.mp h
  obtain ⟨⟨u, mid'⟩, hrefresh, hmid⟩ := bind_eq_ok.mp hfind
  cases hmid
  obtain ⟨t, hbody, ht⟩ := postgresTransaction_ok hrefresh
  cases hbody
  have hkeep : mid.meetingProcessingReservations = db.meetingProcessingReservations := by
    rw [ht]
    exact refreshTables_reservations _ _ _
  dsimp only at h
  split at h
  · cases h
  · cases h
    exact hkeep

end Operations

variable {hashPostgresClaimToken : ClaimToken → TokenHash}

theorem change_of_execute {now : Timestamp} {call : QuotaCall} {db db' : Database}
    {res : QuotaResult} (hfresh : freshIn db call)
    (h : execute hashPostgresClaimToken now call db = (.ok res, db')) :
    ReservationChange call db.meetingProcessingReservations db'.meetingProcessingReservations := by
  replace h := commit_ok h
  cases call <;> simp only [map_eq_ok, Prod.exists, Prod.map, id_eq, Prod.mk.injEq] at h <;>
    obtain ⟨a, t, h, rfl, rfl⟩ := h
  · exact change_reserveRealtime h
  · exact (reserve_answer (hfresh.1 _ rfl).1 h).1
  · exact .kept (claim_answer (hfresh.2 _ rfl) h).1
  · exact .kept (start_owners h)
  · exact .kept (complete_answer h).1
  · exact .kept (reconcile_answer h).1
  · exact .kept (releaseStep_owners h)
  · exact .kept (reject_owners h)
  · exact .kept (releaseReservation_owners h)
  · obtain ⟨⟨u, mid⟩, hrecord, h⟩ := bind_eq_ok.mp h
    rw [getUserUsage_reservations h]
    exact .kept (recordFinalizeUsage_owners hrecord)

/-- What the operation of a call answered. -/
theorem answered_ok {s t : Clocked Database} {e : QuotaEvent} {call : QuotaCall} {res : QuotaResult}
    (h : QuotaStep hashPostgresClaimToken s e t) (hcall : e.call = call) (hres : e.result = .ok res) :
    freshIn s.store call ∧ execute hashPostgresClaimToken e.now call s.store = (.ok res, t.store) := by
  obtain ⟨-, hfresh, hexec, -⟩ := h
  rw [hcall] at hfresh hexec
  rw [hres] at hexec
  exact ⟨hfresh, hexec⟩

theorem error_of_call {s t : Clocked Database} {e : QuotaEvent} {err : AuthError}
    (h : QuotaStep hashPostgresClaimToken s e t) (hres : e.result = .error err) :
    t.store.meetingProcessingReservations = s.store.meetingProcessingReservations := by
  obtain ⟨-, -, hexec, -⟩ := h
  rw [hres] at hexec
  rw [execute_error hashPostgresClaimToken hexec]

/-- **The database is a ledger of finalizations.** -/
theorem finalizerLedger : FinalizerLedger hashPostgresClaimToken (QuotaStep hashPostgresClaimToken)
    (·.meetingProcessingProviderSteps) fun s => reservationFor s.meetingProcessingReservations := by
  refine finalizerLedger_of_calls _ _ _ Fencing.changesSteps (fun h => h.2.1)
    (fun h hres => change_of_execute (answered_ok h rfl hres).1 (answered_ok h rfl hres).2)
    error_of_call ?_ ?_ ?_ ?_
  · intro s e t userId input newId res h hcall hres
    obtain ⟨hfresh, hexec⟩ := answered_ok h hcall hres
    obtain ⟨⟨r, s'⟩, hok, heq⟩ := map_eq_ok.mp (commit_ok hexec)
    cases heq
    exact ⟨r, rfl, (reserve_answer (hfresh.1 newId rfl).1 hok).2⟩
  · intro s e t userId input newId token res h hcall hres
    obtain ⟨hfresh, hexec⟩ := answered_ok h hcall hres
    obtain ⟨⟨r, s'⟩, hok, heq⟩ := map_eq_ok.mp (commit_ok hexec)
    cases heq
    exact ⟨r, rfl, (claim_answer (hfresh.2 newId rfl) hok).2⟩
  · intro s e t userId input r h hcall hres hr
    obtain ⟨-, hexec⟩ := answered_ok h hcall hres
    obtain ⟨⟨r', s'⟩, hok, heq⟩ := map_eq_ok.mp (commit_ok hexec)
    cases heq
    exact (complete_answer hok).2 hr
  · intro s e t userId input r h hcall hres hr
    obtain ⟨-, hexec⟩ := answered_ok h hcall hres
    obtain ⟨⟨r', s'⟩, hok, heq⟩ := map_eq_ok.mp (commit_ok hexec)
    cases heq
    exact (reconcile_answer hok).2

end OwnMinutes.Postgres.FinalizerLedger
