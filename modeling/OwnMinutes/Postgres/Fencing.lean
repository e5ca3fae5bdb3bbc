import OwnMinutes.Postgres.Calls
import OwnMinutes.Quota.Fencing

/-! # Provider calls of the PostgreSQL backend are fenced

Every transaction of a quota call changes the provider steps as the fence allows. -/

namespace OwnMinutes.Postgres.Fencing

open OwnMinutes.Lib.Keyed OwnMinutes.Lib.Outcome OwnMinutes.Auth.ProcessingRoute
open OwnMinutes.Auth.Records OwnMinutes.Auth.QuotaTypes OwnMinutes.Quota.Calls
open OwnMinutes.Quota.Fencing OwnMinutes.Postgres.Store OwnMinutes.Postgres.Quota
open OwnMinutes.Postgres.Calls

section Operations

variable {hashPostgresClaimToken : ClaimToken → TokenHash} {now : Timestamp} {userId : UserId}
  {db db' : Database}

theorem reserveRealtime_steps {newId : ReservationId} {input : ReserveRealtimeQuotaInput}
    {res : RealtimeQuotaClaim}
    (h : postgresReserveMeetingRealtimeQuota now newId userId input db = .ok (res, db')) :
    db'.meetingProcessingProviderSteps = db.meetingProcessingProviderSteps := by
  obtain ⟨t', h, ht⟩ := postgresTransaction_ok h
  rw [ht]
  simp only [bind_eq_ok] at h
  obtain ⟨user, -, -, -, -, -, h⟩ := h
  obtain ⟨-, h⟩ := guard_eq_ok.mp h
  obtain ⟨-, h⟩ := guard_eq_ok.mp h
  obtain ⟨target, -, h⟩ := bind_eq_ok.mp h
  cases h
  exact upsertReservation_steps _ _ _

theorem reserveFinalization_steps {newId : ReservationId} {input : ReserveFinalizationQuotaInput}
    {res : MeetingProcessingReservation}
    (h : postgresReserveMeetingFinalizationQuota now newId userId input db = .ok (res, db')) :
    db'.meetingProcessingProviderSteps = db.meetingProcessingProviderSteps := by
  obtain ⟨t', h, ht⟩ := postgresTransaction_ok h
  rw [ht]
  simp only [bind_eq_ok] at h
  obtain ⟨user, -, -, -, -, -, h⟩ := h
  split at h
  · cases h
    rfl
  · obtain ⟨target, -, h⟩ := bind_eq_ok.mp h
    cases h
    exact upsertReservation_steps _ _ _

theorem stepChange_claim {newId : ProviderStepId} {token : ClaimToken}
    {input : ClaimMeetingProviderStepInput} {res : MeetingProviderStepClaimResult}
    (h : postgresClaimMeetingProviderStep hashPostgresClaimToken now newId token userId input db =
      .ok (res, db')) :
    StepChange hashPostgresClaimToken now (.claim userId input newId token)
      db.meetingProcessingProviderSteps (.claim res) db'.meetingProcessingProviderSteps := by
  obtain ⟨t', h, ht⟩ := postgresTransaction_ok h
  rw [ht]
  simp only [bind_eq_ok] at h
  obtain ⟨user, -, r, -, stageKey, -, h⟩ := h
  cases hcur : selectStepByStage db.toTables r.id stageKey with
  | none =>
    rw [hcur] at h
    obtain ⟨-, -, h⟩ := bind_eq_ok.mp h
    unfold upsertStep at h
    rw [hcur] at h
    cases h
    rw [updateReservation_steps]
    refine .claimFirst ⟨_, rfl, rfl⟩ rfl rfl ?_ rfl rfl
    rw [← hcur]
    exact Table.find?_congr fun x _ => rfl
  | some current =>
    rw [hcur] at h
    dsimp only at h
    obtain ⟨hmem, -, -⟩ := selectStepByStage_spec hcur
    split at h
    · cases h
      exact .same (by simp [Quiet])
    · rename_i hnc
      split at h
      · cases h
        exact .same (by simp [Quiet])
      · rename_i hns
        split at h
        · cases h
          exact .same (by simp [Quiet])
        · rename_i hnb
          obtain ⟨-, -, h⟩ := bind_eq_ok.mp h
          unfold upsertStep at h
          rw [hcur] at h
          cases h
          rw [updateReservation_steps, putStep_steps]
          refine .claimAgain ⟨_, rfl, rfl⟩ rfl hmem ⟨rfl, rfl⟩ ?_ rfl rfl
          by_cases hrel : current.status = .released
          · exact .inl hrel
          · have hclaimed := MeetingProviderStepStatus.eq_claimed hnc hns hrel
            exact .inr ⟨hclaimed, not_lt.mp fun hlt => hnb ⟨hclaimed, hlt⟩⟩

variable {input : ProviderStepInput} {res : MeetingProviderStepTransitionResult}

theorem stepChange_start
    (h : postgresStartMeetingProviderStep hashPostgresClaimToken now userId input db = .ok (res, db')) :
    StepChange hashPostgresClaimToken now (.start userId input)
      db.meetingProcessingProviderSteps (.transition res) db'.meetingProcessingProviderSteps := by
  obtain ⟨t', h, ht⟩ := postgresTransaction_ok h
  rw [ht]
  simp only [bind_eq_ok] at h
  obtain ⟨user, -, step, hstep, h⟩ := h
  obtain ⟨hmem, hid, -⟩ := findPostgresProviderStep_ok hstep
  split at h
  · cases h
    exact .same (by simp [Quiet])
  · split at h
    · cases h
      exact .same (by simp [Quiet])
    · simp only [bind_eq_ok, Prod.exists] at h
      obtain ⟨_, hclaim, r, -, _, -, delta, user', t1, hsettle, h⟩ := h
      obtain ⟨hclaimed, hhash, hlease⟩ := assertPostgresProviderClaim_ok _ hclaim
      cases h
      rw [putStep_steps, settleReservation_steps hsettle]
      exact .start ⟨_, rfl, rfl⟩ rfl hmem hid hhash ⟨rfl, rfl⟩ hclaimed hlease rfl rfl

theorem stepChange_complete
    (h : postgresCompleteMeetingProviderStep hashPostgresClaimToken now userId input db = .ok (res, db')) :
    StepChange hashPostgresClaimToken now (.complete userId input)
      db.meetingProcessingProviderSteps (.transition res) db'.meetingProcessingProviderSteps := by
  obtain ⟨t', h, ht⟩ := postgresTransaction_ok h
  rw [ht]
  simp only [bind_eq_ok] at h
  obtain ⟨user, -, step, hstep, h⟩ := h
  obtain ⟨hmem, hid, -⟩ := findPostgresProviderStep_ok hstep
  split at h
  · cases h
    exact .same (by simp [Quiet])
  · split at h
    · cases h
      exact .same (by simp [Quiet])
    · rename_i hc
      cases h
      obtain ⟨hstarted, hhash⟩ := not_or.mp hc
      exact .complete (by simp [Quiet]) (.inl ⟨input, rfl, hid, (not_not.mp hhash).symm⟩) hmem
        ⟨rfl, rfl⟩ (not_not.mp hstarted) rfl rfl

theorem stepChange_reconcile {input : ReconcileMeetingProviderStepInput}
    (h : postgresReconcileMeetingProviderStep now userId input db = .ok (res, db')) :
    StepChange hashPostgresClaimToken now (.reconcile userId input)
      db.meetingProcessingProviderSteps (.transition res) db'.meetingProcessingProviderSteps := by
  obtain ⟨t', h, ht⟩ := postgresTransaction_ok h
  rw [ht]
  simp only [bind_eq_ok] at h
  obtain ⟨user, -, r, -, stageKey, -, h⟩ := h
  split at h
  · cases h
  · rename_i step hstep
    obtain ⟨hmem, -, -⟩ := selectStepByStage_spec hstep
    obtain ⟨hopen, h⟩ := guard_eq_ok.mp h
    split at h
    · cases h
      exact .same (by simp [Quiet])
    · rename_i hnc
      cases h
      have hstarted : step.status = .started := by
        by_contra hns
        exact hopen ⟨hns, hnc⟩
      exact .complete (by simp [Quiet]) (.inr ⟨input, rfl⟩) hmem ⟨rfl, rfl⟩ hstarted rfl rfl

theorem stepChange_releaseStep
    (h : postgresReleaseMeetingProviderStep hashPostgresClaimToken now userId input db = .ok (res, db')) :
    StepChange hashPostgresClaimToken now (.releaseStep userId input)
      db.meetingProcessingProviderSteps (.transition res) db'.meetingProcessingProviderSteps := by
  obtain ⟨t', h, ht⟩ := postgresTransaction_ok h
  rw [ht]
  simp only [bind_eq_ok] at h
  obtain ⟨user, -, step, hstep, h⟩ := h
  obtain ⟨hmem, hid, -⟩ := findPostgresProviderStep_ok hstep
  split at h
  · cases h
    exact .same (by simp [Quiet])
  · rename_i hnc
    split at h
    · cases h
      exact .same (by simp [Quiet])
    · rename_i hns
      split at h
      · cases h
        exact .same (by simp [Quiet])
      · rename_i hnr
        obtain ⟨hhash, h⟩ := guard_eq_ok.mp h
        cases h
        exact .release (by simp [Quiet]) ⟨input, rfl, hid, (not_not.mp hhash).symm⟩ hmem ⟨rfl, rfl⟩
          (MeetingProviderStepStatus.eq_claimed hnc hns hnr) rfl rfl

theorem stepChange_reject
    (h : postgresRejectMeetingProviderStep hashPostgresClaimToken now userId input db = .ok (res, db')) :
    StepChange hashPostgresClaimToken now (.reject userId input)
      db.meetingProcessingProviderSteps (.transition res) db'.meetingProcessingProviderSteps := by
  obtain ⟨t', h, ht⟩ := postgresTransaction_ok h
  rw [ht]
  simp only [bind_eq_ok] at h
  obtain ⟨user, -, step, hstep, h⟩ := h
  obtain ⟨hmem, hid, -⟩ := findPostgresProviderStep_ok hstep
  obtain ⟨hhash, h⟩ := guard_eq_ok.mp h
  have hhash := (not_not.mp hhash).symm
  split at h
  · cases h
    exact .same (by simp [Quiet])
  · rename_i hnc
    split at h
    · cases h
      exact .same (by simp [Quiet])
    · rename_i hnr
      have hopen := MeetingProviderStepStatus.started_or_claimed hnc hnr
      split at h
      · cases h
        rw [putStep_steps]
        have hkeep : (if step.status = .started then
            db.toTables.updateReservation step.reservationId fun r => { r with
              officialMinutesSettled :=
                max (r.officialMinutesSettled - max 0 step.officialMinutesSettled) 0 }
          else db.toTables).meetingProcessingProviderSteps =
            db.meetingProcessingProviderSteps := by
          split
          · exact updateReservation_steps _ _ _
          · rfl
        rw [hkeep]
        exact .reject ⟨_, rfl, rfl⟩ rfl hmem hid hhash ⟨rfl, rfl⟩ hopen rfl rfl
      · split at h
        · obtain ⟨t, hrefund, h⟩ := bind_eq_ok.mp h
          cases h
          rw [putStep_steps, refundPostgresStep_steps hrefund]
          exact .reject ⟨_, rfl, rfl⟩ rfl hmem hid hhash ⟨rfl, rfl⟩ hopen rfl rfl
        · cases h
          rw [putStep_steps]
          exact .reject ⟨_, rfl, rfl⟩ rfl hmem hid hhash ⟨rfl, rfl⟩ hopen rfl rfl

theorem stepChange_releaseReservation {reservationId : ReservationId}
    {res : MeetingProcessingReservation}
    (h : postgresReleaseMeetingProcessingReservation now userId reservationId db = .ok (res, db')) :
    StepChange hashPostgresClaimToken now (.releaseReservation userId reservationId)
      db.meetingProcessingProviderSteps (.reservation res) db'.meetingProcessingProviderSteps := by
  obtain ⟨t', h, ht⟩ := postgresTransaction_ok h
  rw [ht]
  simp only [bind_eq_ok] at h
  obtain ⟨user, -, r, hr, h⟩ := h
  obtain ⟨-, hid, -⟩ := findPostgresReservationById_ok hr
  split at h
  · cases h
    exact .same trivial
  · obtain ⟨hidle, h⟩ := guard_eq_ok.mp h
    cases h
    refine .releaseAll trivial (by rw [hid]; rfl) fun step hstep hreservation hstarted => hidle ?_
    exact List.any_eq_true.mpr ⟨step, hstep, by simp [hreservation, hstarted]⟩

theorem recordFinalizeUsage_steps {newId : UsageEventId} {input : RecordMeetingFinalizeUsageInput}
    {u : Unit} (h : recordFinalizeUsage now newId userId input db = .ok (u, db')) :
    db'.meetingProcessingProviderSteps = db.meetingProcessingProviderSteps := by
  obtain ⟨t', h, ht⟩ := postgresTransaction_ok h
  rw [ht]
  obtain ⟨user, -, h⟩ := bind_eq_ok.mp h
  split at h
  · cases h
    rfl
  · split at h
    · obtain ⟨-, h⟩ := guard_eq_ok.mp h
      obtain ⟨⟨charged, t⟩, hsettle, h⟩ := bind_eq_ok.mp h
      have hsteps := settleLegacy_steps hsettle
      cases h
      exact hsteps
    · obtain ⟨-, h⟩ := guard_eq_ok.mp h
      obtain ⟨-, h⟩ := guard_eq_ok.mp h
      cases h
      rfl

theorem getUserUsage_steps {res : UserUsageSummary}
    (h : postgresGetUserUsage now userId db = .ok (res, db')) :
    db'.meetingProcessingProviderSteps = db.meetingProcessingProviderSteps := by
  obtain ⟨⟨user, mid⟩, hfind, h⟩ := bind_eq_ok.mp h
  obtain ⟨⟨u, mid'⟩, hrefresh, hmid⟩ := bind_eq_ok.mp hfind
  cases hmid
  obtain ⟨t, hbody, ht⟩ := postgresTransaction_ok hrefresh
  cases hbody
  have hsteps : mid.meetingProcessingProviderSteps = db.meetingProcessingProviderSteps := by
    rw [ht]
    exact refreshTables_steps _ _ _
  dsimp only at h
  split at h
  · cases h
  · cases h
    exact hsteps

theorem record_steps {newId : UsageEventId} {input : RecordMeetingFinalizeUsageInput}
    {res : UserUsageSummary}
    (h : postgresRecordMeetingFinalizeUsage now newId userId input db = .ok (res, db')) :
    db'.meetingProcessingProviderSteps = db.meetingProcessingProviderSteps := by
  obtain ⟨⟨u, mid⟩, hrecord, h⟩ := bind_eq_ok.mp h
  exact (getUserUsage_steps h).trans (recordFinalizeUsage_steps hrecord)

end Operations

variable {hashPostgresClaimToken : ClaimToken → TokenHash}

/-- Every call that succeeds is a step change. -/
theorem stepChange_of_execute {now : Timestamp} {call : QuotaCall} {db db' : Database}
    {res : QuotaResult} (h : execute hashPostgresClaimToken now call db = (.ok res, db')) :
    StepChange hashPostgresClaimToken now call db.meetingProcessingProviderSteps res
      db'.meetingProcessingProviderSteps := by
  replace h := commit_ok h
  cases call <;> simp only [map_eq_ok, Prod.exists, Prod.map, id_eq, Prod.mk.injEq] at h <;>
    obtain ⟨a, t, h, rfl, rfl⟩ := h
  · rw [reserveRealtime_steps h]
    exact .same trivial
  · rw [reserveFinalization_steps h]
    exact .same trivial
  · exact stepChange_claim h
  · exact stepChange_start h
  · exact stepChange_complete h
  · exact stepChange_reconcile h
  · exact stepChange_releaseStep h
  · exact stepChange_reject h
  · exact stepChange_releaseReservation h
  · rw [record_steps h]
    exact .same trivial

theorem changesSteps : ChangesSteps hashPostgresClaimToken (QuotaStep hashPostgresClaimToken)
    (·.meetingProcessingProviderSteps) where
  ok {s e t res} h hres := by
    obtain ⟨-, -, hexec, -⟩ := h
    rw [hres] at hexec
    exact stepChange_of_execute hexec
  error {s e t err} h hres := by
    obtain ⟨-, -, hexec, -⟩ := h
    rw [hres] at hexec
    rw [execute_error hashPostgresClaimToken hexec]
  fresh {s e t} h := h.2.1.2

end OwnMinutes.Postgres.Fencing
