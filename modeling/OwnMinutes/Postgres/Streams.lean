import OwnMinutes.Postgres.ProviderCost
import OwnMinutes.Quota.Streams

/-! # The streams that the database counts -/

namespace OwnMinutes.Postgres.Streams

open OwnMinutes.Lib.Keyed OwnMinutes.Lib.Keyed.Table OwnMinutes.Lib.Outcome OwnMinutes.Lib.Counters
open OwnMinutes.Auth.ProcessingRoute OwnMinutes.Auth.Records OwnMinutes.Auth.QuotaTypes OwnMinutes.Quota.Calls
open OwnMinutes.Quota.Reservations OwnMinutes.Quota.Streams OwnMinutes.Postgres.Store OwnMinutes.Postgres.Quota
open OwnMinutes.Postgres.Calls OwnMinutes.Postgres.FinalizerLedger OwnMinutes.Postgres.ProviderCost

variable {hashPostgresClaimToken : ClaimToken → TokenHash} {now : Timestamp} {userId : UserId} {t t' : Tables}
  {db db' : Database}

/-- The reservations keep their counters. -/
abbrev KeepsCounters (t t' : Tables) : Prop :=
  Rewrites Kept t.meetingProcessingReservations t'.meetingProcessingReservations

theorem KeepsCounters.of_eq (h : t'.meetingProcessingReservations = t.meetingProcessingReservations) :
    KeepsCounters t t' := by
  rw [KeepsCounters, h]
  exact Rewrites.refl Kept.refl _

/-- An update that leaves the counter, the status, the route and the minutes reserved. -/
theorem updateReservation_kept {t0 : Tables} (h : KeepsCounters t0 t) (id : ReservationId)
    {f : MeetingProcessingReservationRecord → MeetingProcessingReservationRecord} (hf : ∀ r, Kept r (f r)) :
    KeepsCounters t0 (t.updateReservation id f) := by
  unfold Tables.updateReservation
  split
  · exact h
  · rename_i r hr
    exact h.trans (fun _ _ _ => Kept.trans) (rewrites_replace_mem Kept.refl (mem_of_get? hr) (hf r).id (hf r))

/-! ### Calls that reserve nothing -/

theorem settleReservation_kept {user user' : UserRecord} {r : MeetingProcessingReservationRecord} {delta : ℤ}
    (h : settlePostgresReservationCapacity t user r now = .ok (delta, user', t')) : KeepsCounters t t' := by
  unfold settlePostgresReservationCapacity at h
  obtain ⟨-, h⟩ := guard_eq_ok.mp h
  split at h
  · cases h
    exact updateReservation_kept (.of_eq (increment_reservations t user _)) _ fun _ => ⟨⟨rfl, rfl, rfl⟩, rfl, rfl, id⟩
  · cases h
    exact .of_eq rfl

theorem refundStep_kept {user : UserRecord} {step : MeetingProviderStepRecord}
    (h : refundPostgresStep userId t user step = .ok t') : KeepsCounters t t' := by
  obtain ⟨r, -, h⟩ := bind_eq_ok.mp h
  obtain ⟨-, h⟩ := guard_eq_ok.mp h
  obtain ⟨-, h⟩ := guard_eq_ok.mp h
  obtain ⟨-, h⟩ := guard_eq_ok.mp h
  cases h
  exact updateReservation_kept (.of_eq (updateUser_reservations t _ _ _)) _ fun _ => ⟨⟨rfl, rfl, rfl⟩, rfl, rfl, id⟩

theorem claim_kept {newId : ProviderStepId} {token : ClaimToken} {input : ClaimMeetingProviderStepInput}
    {res : MeetingProviderStepClaimResult}
    (h : postgresClaimMeetingProviderStep hashPostgresClaimToken now newId token userId input db = .ok (res, db')) :
    KeepsCounters db.toTables db'.toTables := by
  obtain ⟨t', h, ht⟩ := postgresTransaction_ok h
  rw [ht]
  simp only [bind_eq_ok] at h
  obtain ⟨user, -, r, hr, stageKey, hkey, h⟩ := h
  unfold upsertStep at h
  cases hcur : selectStepByStage db.toTables r.id stageKey with
  | none =>
    rw [hcur] at h
    obtain ⟨-, -, h⟩ := bind_eq_ok.mp h
    cases h
    refine updateReservation_kept ?_ _ ?_
    · exact .of_eq rfl
    · exact fun _ => ⟨⟨rfl, rfl, rfl⟩, rfl, rfl, id⟩
  | some step =>
    rw [hcur] at h
    dsimp only at h
    split_ifs at h
    · cases h
      exact .of_eq rfl
    · cases h
      exact .of_eq rfl
    · cases h
      exact .of_eq rfl
    · obtain ⟨-, -, h⟩ := bind_eq_ok.mp h
      cases h
      refine updateReservation_kept ?_ _ ?_
      · exact .of_eq rfl
      · exact fun _ => ⟨⟨rfl, rfl, rfl⟩, rfl, rfl, id⟩

variable {input : ProviderStepInput} {res : MeetingProviderStepTransitionResult}

theorem start_kept (h : postgresStartMeetingProviderStep hashPostgresClaimToken now userId input db = .ok (res, db')) :
    KeepsCounters db.toTables db'.toTables := by
  obtain ⟨t', h, ht⟩ := postgresTransaction_ok h
  rw [ht]
  simp only [bind_eq_ok] at h
  obtain ⟨user, -, step, -, h⟩ := h
  split_ifs at h
  · cases h
    exact .of_eq rfl
  · cases h
    exact .of_eq rfl
  · simp only [bind_eq_ok, Prod.exists] at h
    obtain ⟨_, -, r, -, _, -, delta, user', t1, hsettle, h⟩ := h
    have hkeep := settleReservation_kept hsettle
    cases h
    exact hkeep

theorem complete_kept
    (h : postgresCompleteMeetingProviderStep hashPostgresClaimToken now userId input db = .ok (res, db')) :
    KeepsCounters db.toTables db'.toTables := by
  obtain ⟨t', h, ht⟩ := postgresTransaction_ok h
  rw [ht]
  simp only [bind_eq_ok] at h
  obtain ⟨user, -, step, -, h⟩ := h
  split_ifs at h <;> cases h <;> exact .of_eq rfl

theorem reconcile_kept {input : ReconcileMeetingProviderStepInput}
    (h : postgresReconcileMeetingProviderStep now userId input db = .ok (res, db')) :
    KeepsCounters db.toTables db'.toTables := by
  obtain ⟨t', h, ht⟩ := postgresTransaction_ok h
  rw [ht]
  simp only [bind_eq_ok] at h
  obtain ⟨user, -, r, -, stageKey, -, h⟩ := h
  split at h
  · cases h
  · obtain ⟨-, h⟩ := guard_eq_ok.mp h
    split_ifs at h <;> cases h <;> exact .of_eq rfl

theorem releaseStep_kept
    (h : postgresReleaseMeetingProviderStep hashPostgresClaimToken now userId input db = .ok (res, db')) :
    KeepsCounters db.toTables db'.toTables := by
  obtain ⟨t', h, ht⟩ := postgresTransaction_ok h
  rw [ht]
  simp only [bind_eq_ok] at h
  obtain ⟨user, -, step, -, h⟩ := h
  split_ifs at h <;> cases h <;> exact .of_eq rfl

theorem reject_kept
    (h : postgresRejectMeetingProviderStep hashPostgresClaimToken now userId input db = .ok (res, db')) :
    KeepsCounters db.toTables db'.toTables := by
  obtain ⟨t', h, ht⟩ := postgresTransaction_ok h
  rw [ht]
  simp only [bind_eq_ok] at h
  obtain ⟨user, -, step, -, h⟩ := h
  obtain ⟨-, h⟩ := guard_eq_ok.mp h
  split at h
  · cases h
    exact .of_eq rfl
  · split at h
    · cases h
      exact .of_eq rfl
    · split at h
      · cases h
        dsimp only [Tables.putStep]
        split
        · exact updateReservation_kept (.of_eq rfl) _ fun _ => ⟨⟨rfl, rfl, rfl⟩, rfl, rfl, id⟩
        · exact .of_eq rfl
      · split at h
        · obtain ⟨t, hrefund, h⟩ := bind_eq_ok.mp h
          have hkeep := refundStep_kept hrefund
          cases h
          exact hkeep
        · cases h
          exact .of_eq rfl

theorem releaseReservation_kept {reservationId : ReservationId} {res : MeetingProcessingReservation}
    (h : postgresReleaseMeetingProcessingReservation now userId reservationId db = .ok (res, db')) :
    KeepsCounters db.toTables db'.toTables := by
  obtain ⟨t', h, ht⟩ := postgresTransaction_ok h
  rw [ht]
  simp only [bind_eq_ok] at h
  obtain ⟨user, -, r, hr, h⟩ := h
  split at h
  · cases h
    exact .of_eq rfl
  · obtain ⟨-, h⟩ := guard_eq_ok.mp h
    cases h
    exact rewrites_replace_mem Kept.refl (findPostgresReservationById_ok hr).1 rfl ⟨⟨rfl, rfl, rfl⟩, rfl, rfl, id⟩

theorem recordUsage_kept {newId : UsageEventId} {input : RecordMeetingFinalizeUsageInput} {res : UserUsageSummary}
    (h : postgresRecordMeetingFinalizeUsage now newId userId input db = .ok (res, db')) :
    KeepsCounters db.toTables db'.toTables := by
  obtain ⟨⟨u, mid⟩, hrecord, h⟩ := bind_eq_ok.mp h
  rw [KeepsCounters, getUserUsage_reservations h]
  obtain ⟨t', h, ht⟩ := postgresTransaction_ok hrecord
  rw [ht]
  obtain ⟨user, -, h⟩ := bind_eq_ok.mp h
  split at h
  · cases h
    exact Rewrites.refl Kept.refl _
  · split at h
    · obtain ⟨-, h⟩ := guard_eq_ok.mp h
      obtain ⟨⟨charged, t⟩, hsettle, h⟩ := bind_eq_ok.mp h
      unfold settlePostgresLegacyUsage at hsettle
      obtain ⟨-, hsettle⟩ := guard_eq_ok.mp hsettle
      cases hsettle
      cases h
      exact KeepsCounters.of_eq (increment_reservations _ _ _)
    · rename_i r hr
      obtain ⟨-, h⟩ := guard_eq_ok.mp h
      obtain ⟨-, h⟩ := guard_eq_ok.mp h
      cases h
      have hmem : r ∈ db.meetingProcessingReservations := by
        unfold selectRecordedReservation at hr
        split at hr
        · exact mem_of_find? hr
        · exact mem_of_find? hr
        · cases hr
      exact rewrites_replace_mem Kept.refl hmem rfl ⟨⟨rfl, rfl, rfl⟩, rfl, rfl, fun _ hstatus => by cases hstatus⟩

/-! ### Calls that reserve -/

/-- The target is at least what is asked for and what is reserved. -/
theorem reservePostgresOfficialCapacity_target {user : UserRecord}
    {existing : Option MeetingProcessingReservationRecord} {targetMinutes target : ℤ}
    (h : reservePostgresOfficialCapacity t user existing targetMinutes now = .ok target) :
    targetMinutes ≤ target ∧ (existing.map (·.officialMinutesReserved)).getD 0 ≤ target := by
  unfold reservePostgresOfficialCapacity at h
  dsimp only at h
  split at h
  · cases h
  · cases h
    exact ⟨le_max_of_le_right (le_max_right _ _), le_max_left _ _⟩

theorem streamChange_reserveRealtime {newId : ReservationId} {input : ReserveRealtimeQuotaInput}
    {claim : RealtimeQuotaClaim} (hmetered : ∀ r ∈ db.meetingProcessingReservations, Metered r)
    (h : postgresReserveMeetingRealtimeQuota now newId userId input db = .ok (claim, db')) :
    StreamChange (some newId) (claimedChunk ⟨now, .reserveRealtime userId input newId, .ok (.realtime claim)⟩)
      db.meetingProcessingReservations db'.meetingProcessingReservations := by
  obtain ⟨t', h, ht⟩ := postgresTransaction_ok h
  rw [ht]
  simp only [bind_eq_ok] at h
  obtain ⟨user, huser, _, hmeeting, -, -, h⟩ := h
  obtain ⟨hopen, h⟩ := guard_eq_ok.mp h
  obtain ⟨hsequence, h⟩ := guard_eq_ok.mp h
  obtain ⟨target, htarget, h⟩ := bind_eq_ok.mp h
  have hcovers := (reservePostgresOfficialCapacity_target htarget).1
  unfold upsertReservation at h
  dsimp only at h
  cases hcur : findPostgresProcessingReservation db.toTables userId input.operationKey with
  | none =>
    rw [hcur] at h hcovers
    cases h
    refine .first (i := ⟨input.sequence, chunkMs input.durationMs⟩) (Rewrites.refl Kept.refl _) rfl hcur ?_
      (chunkMs_pos _) (fun _ _ => hcovers) rfl
    exact congrArg (Counter.mk input.sequence) (zero_add (chunkMs input.durationMs))
  | some before =>
    have hmem : before ∈ db.meetingProcessingReservations := mem_of_find? hcur
    have hmeeting : before.meetingId = input.meetingId := by
      rw [hcur] at hmeeting
      simpa using (guard_eq_ok.mp hmeeting).1
    have hstreamed : max 0 before.realtimeDurationMs = before.realtimeDurationMs :=
      max_eq_right (hmetered before hmem).streamed
    rw [hcur] at h hcovers hsequence
    by_cases hduplicate : input.sequence ≤ before.realtimeHighestSequence
    · simp only [Option.isSome_some, Option.map_some, Option.getD_some, hduplicate, decide_true, Bool.and_self, if_true,
        hstreamed] at h hcovers
      cases h
      exact streamChange_replace hmem ⟨⟨rfl, rfl, rfl⟩, rfl, rfl, fun _ _ _ => hcovers⟩
    · simp only [Option.isSome_some, Option.map_some, Option.getD_some, hduplicate, decide_false, Bool.and_false, if_false,
        if_true, Bool.false_eq_true, Bool.not_false, Bool.true_and, bne_iff_ne, ne_eq, not_not] at h hcovers hsequence
      cases h
      refine .next (k := (userId, input.operationKey)) (i := ⟨input.sequence, chunkMs input.durationMs⟩)
        (Rewrites.refl Kept.refl _) hcur ⟨rfl, rfl, rfl⟩ rfl hsequence (chunkMs_pos _) rfl (fun _ _ => hcovers) ?_
      exact congrArg (fun meetingId => some (ClaimedChunk.mk (userId, input.operationKey) meetingId ⟨input.sequence,
        chunkMs input.durationMs⟩)) hmeeting.symm

theorem streamChange_reserveFinalization {newId : ReservationId} {input : ReserveFinalizationQuotaInput}
    {res : MeetingProcessingReservation}
    (h : postgresReserveMeetingFinalizationQuota now newId userId input db = .ok (res, db')) :
    StreamChange (some newId) none db.meetingProcessingReservations db'.meetingProcessingReservations := by
  obtain ⟨t', h, ht⟩ := postgresTransaction_ok h
  rw [ht]
  simp only [bind_eq_ok] at h
  obtain ⟨user, huser, -, -, -, -, h⟩ := h
  split at h
  · cases h
    exact streamChange_same _ _
  · obtain ⟨target, htarget, h⟩ := bind_eq_ok.mp h
    have hkeeps := (reservePostgresOfficialCapacity_target htarget).2
    unfold upsertReservation at h
    dsimp only at h
    cases hcur : findPostgresProcessingReservation db.toTables userId input.operationKey with
    | none =>
      rw [hcur] at h
      cases h
      exact .opened (Rewrites.refl Kept.refl _) rfl rfl rfl
    | some before =>
      rw [hcur] at h hkeeps
      cases h
      exact streamChange_replace (mem_of_find? hcur)
        ⟨⟨rfl, rfl, rfl⟩, rfl, rfl, fun hcovered hstatus hpos => (hcovered hstatus hpos).trans hkeeps⟩

/-! ### Calls -/

theorem streamChange_of_execute {call : QuotaCall} {res : Except AuthError QuotaResult}
    (hmetered : ∀ r ∈ db.meetingProcessingReservations, Metered r)
    (h : execute hashPostgresClaimToken now call db = (res, db')) :
    StreamChange call.newReservationId? (claimedChunk ⟨now, call, res⟩) db.meetingProcessingReservations
      db'.meetingProcessingReservations := by
  cases res with
  | error e =>
    obtain rfl : db' = db := execute_error hashPostgresClaimToken h
    rw [claimedChunk_error]
    exact streamChange_same _ _
  | ok res =>
    replace h := commit_ok h
    cases call <;> simp only [map_eq_ok, Prod.exists, Prod.map, id_eq, Prod.mk.injEq] at h <;>
      obtain ⟨a, t, h, rfl, rfl⟩ := h
    · exact streamChange_reserveRealtime hmetered h
    · exact streamChange_reserveFinalization h
    · exact .kept (claim_kept h) rfl
    · exact .kept (start_kept h) rfl
    · exact .kept (complete_kept h) rfl
    · exact .kept (reconcile_kept h) rfl
    · exact .kept (releaseStep_kept h) rfl
    · exact .kept (reject_kept h) rfl
    · exact .kept (releaseReservation_kept h) rfl
    · exact .kept (recordUsage_kept h) rfl

theorem streamLedger : StreamLedger (QuotaStep hashPostgresClaimToken) (·.meetingProcessingReservations) where
  fresh _ _ _ hstep id hid := (hstep.2.1.1 id hid).1
  change _ _ _ hmetered hstep := streamChange_of_execute hmetered hstep.2.2.1

/-! ### Purges -/

/-- The purge that a transaction makes. The clean-up of a legacy meeting is not that of a meeting with streams. -/
def purgeOf : LedgerJob → Option LedgerPurge
  | .deleteAccount userId | .reconcileAccount userId => some (.account userId)
  | .purgeMeeting userId meetingId => some (.meeting userId meetingId)
  | .purgeLegacyMeeting .. => none

/-- A transaction, from its start to its commit; the row that it archives is left out. -/
def PurgeStep (s : Clocked Database) (p : LedgerPurge) (t : Clocked Database) : Prop :=
  ∃ job sha256 aggregates tx, purgeOf job = some p ∧ beginJob sha256 job s.store.toTables aggregates = some tx ∧
    s.clock ≤ t.clock ∧ commitTables () (job.committed t.clock (tx.erased.getD (job.found s.store.toTables))
      s.store.toTables) = .ok ((), t.store)

theorem covers_of_purgeOf {job : LedgerJob} {p : LedgerPurge} {r : MeetingProcessingReservationRecord}
    (hp : purgeOf job = some p) (h : job.covers r = true) : p.covers r.userId r.meetingId = true := by
  cases job with
  | deleteAccount =>
    cases hp
    exact beq_iff_eq.mpr (of_decide_eq_true h).symm
  | reconcileAccount =>
    cases hp
    exact beq_iff_eq.mpr (of_decide_eq_true h).symm
  | purgeMeeting =>
    cases hp
    obtain ⟨huser, hmeeting⟩ := of_decide_eq_true h
    exact Bool.and_eq_true_iff.mpr ⟨beq_iff_eq.mpr huser.symm, beq_iff_eq.mpr hmeeting.symm⟩
  | purgeLegacyMeeting => cases hp

theorem erased_of_begin {sha256 : String → String} {job : LedgerJob} {aggregates : List CostAggregate}
    {tx : LedgerTransaction} (h : beginJob sha256 job t aggregates = some tx) : tx.erased = none ∨ tx.erased = some [] := by
  unfold beginJob at h
  split at h
  · split at h
    · cases h
    · split_ifs at h <;> cases h
      · exact .inr rfl
      · exact .inl rfl
  · split at h <;> cases h
    exact .inl rfl
  · cases h
    exact .inl rfl
  · cases h
    exact .inl rfl

theorem purgeLedger : PurgeLedger (·.meetingProcessingReservations) PurgeStep := by
  rintro s p t' ⟨job, sha256, aggregates, tx, hp, hbegin, -, hcommit⟩
  have ht := (commitTables_ok hcommit).2
  change PurgeChange p s.store.meetingProcessingReservations t'.store.meetingProcessingReservations
  rw [ht]
  refine .removed (Rewrites.refl Kept.refl _) fun r hr h => ?_
  have hmem : r.id ∈ job.found s.store.toTables := by
    have h := of_decide_eq_true h
    rcases erased_of_begin hbegin with hnone | hnothing
    · rwa [hnone] at h
    · rw [hnothing] at h
      cases h
  obtain ⟨found, hfound, hid⟩ := List.mem_map.mp hmem
  obtain ⟨hin, hcovers⟩ := List.mem_filter.mp hfound
  obtain rfl : found = r := Table.eq_of_key hin hr hid
  exact covers_of_purgeOf hp hcovers

end OwnMinutes.Postgres.Streams
