import OwnMinutes.Postgres.FinalizerLedger

/-! # Whose the rows of the ledger are

A provider step belongs to a reservation of its user (`Linked`), and a quota call of a user touches no row of
another user: `OwnChange`, proved of the updates of one row and from these of each operation
(`ownChange_of_execute`). -/

namespace OwnMinutes.Postgres.LedgerOwners

open OwnMinutes.Lib.Keyed OwnMinutes.Lib.Keyed.Table OwnMinutes.Lib.Outcome
open OwnMinutes.Auth.ProcessingRoute OwnMinutes.Auth.Records OwnMinutes.Auth.QuotaTypes
open OwnMinutes.Quota.Calls OwnMinutes.Postgres.Store OwnMinutes.Postgres.Quota
open OwnMinutes.Postgres.Calls OwnMinutes.Postgres.FinalizerLedger

/-- Each provider step has its reservation, of the same user. -/
def Linked (t : Tables) : Prop :=
  ∀ step ∈ t.meetingProcessingProviderSteps, ∃ r ∈ t.meetingProcessingReservations,
    r.id = step.reservationId ∧ r.userId = step.userId

/-- The rows of other users stay as they are. -/
structure OthersKept (userId : UserId) (t t' : Tables) : Prop where
  reservations : ∀ r : MeetingProcessingReservationRecord, r.userId ≠ userId →
    (r ∈ t'.meetingProcessingReservations ↔ r ∈ t.meetingProcessingReservations)
  steps : ∀ step : MeetingProviderStepRecord, step.userId ≠ userId →
    (step ∈ t'.meetingProcessingProviderSteps ↔ step ∈ t.meetingProcessingProviderSteps)

/-- A change of the rows of one user, who keeps the reservations. -/
structure OwnChange (userId : UserId) (t t' : Tables) : Prop where
  linked : Linked t'
  others : OthersKept userId t t'
  own : ∀ r ∈ t.meetingProcessingReservations, r.userId = userId →
    ∃ r' ∈ t'.meetingProcessingReservations, r'.id = r.id ∧ r'.userId = userId

variable {userId : UserId} {t t' t'' : Tables}

/-! ### Updates of one row -/

theorem OwnChange.of_eq (h : Linked t)
    (hres : t'.meetingProcessingReservations = t.meetingProcessingReservations)
    (hsteps : t'.meetingProcessingProviderSteps = t.meetingProcessingProviderSteps) :
    OwnChange userId t t' where
  linked := by
    unfold Linked
    rw [hres, hsteps]
    exact h
  others := by
    constructor
    · intro r _
      rw [hres]
    · intro step _
      rw [hsteps]
  own r hr hu := by
    rw [hres]
    exact ⟨r, hr, rfl, hu⟩

theorem OwnChange.refl (h : Linked t) : OwnChange userId t t := .of_eq h rfl rfl

theorem OwnChange.trans (h : OwnChange userId t t') (h' : OwnChange userId t' t'') :
    OwnChange userId t t'' where
  linked := h'.linked
  others :=
    ⟨fun r hr => (h'.others.reservations r hr).trans (h.others.reservations r hr),
      fun step hs => (h'.others.steps step hs).trans (h.others.steps step hs)⟩
  own r hr hu := by
    obtain ⟨r1, hr1, hid1, hu1⟩ := h.own r hr hu
    obtain ⟨r2, hr2, hid2, hu2⟩ := h'.own r1 hr1 hu1
    exact ⟨r2, hr2, hid2.trans hid1, hu2⟩

/-- A reservation of the user is rewritten. -/
theorem OwnChange.replaceReservation (h : Linked t) {old new : MeetingProcessingReservationRecord}
    (hold : old ∈ t.meetingProcessingReservations) (hu : old.userId = userId)
    (hres : t'.meetingProcessingReservations = t.meetingProcessingReservations.replace new)
    (hsteps : t'.meetingProcessingProviderSteps = t.meetingProcessingProviderSteps)
    (hid : new.id = old.id) (hnew : new.userId = old.userId) :
    OwnChange userId t t' := by
  have hkey : HasKey.key old = HasKey.key new := hid.symm
  have hown : ∀ r ∈ t.meetingProcessingReservations, ∃ r' ∈ t'.meetingProcessingReservations,
      r'.id = r.id ∧ r'.userId = r.userId := by
    intro r hr
    rw [hres]
    by_cases he : HasKey.key r = HasKey.key new
    · have hsame : r = old := eq_of_key hr hold (he.trans hkey.symm)
      rw [hsame]
      exact ⟨new, mem_replace_self hold hkey, hid, hnew⟩
    · exact ⟨r, mem_replace_of_ne hr he, rfl, rfl⟩
  refine ⟨?_, ⟨fun r hr => ?_, fun step _ => by rw [hsteps]⟩, fun r hr hru => ?_⟩
  · intro step hstep
    rw [hsteps] at hstep
    obtain ⟨r, hr, hrid, hru⟩ := h step hstep
    obtain ⟨r', hr', hid', hu'⟩ := hown r hr
    exact ⟨r', hr', hid'.trans hrid, hu'.trans hru⟩
  · rw [hres, mem_replace]
    constructor
    · rintro (⟨hin, -⟩ | ⟨rfl, -⟩)
      · exact hin
      · exact absurd (hnew.trans hu) hr
    · intro hin
      refine .inl ⟨hin, fun he => hr ?_⟩
      rw [eq_of_key hin hold (he.trans hkey.symm)]
      exact hu
  · obtain ⟨r', hr', hid', hu'⟩ := hown r hr
    exact ⟨r', hr', hid', hu'.trans hru⟩

theorem OwnChange.insertReservation (h : Linked t) {new : MeetingProcessingReservationRecord}
    (hu : new.userId = userId)
    (hres : t'.meetingProcessingReservations = t.meetingProcessingReservations.insert new)
    (hsteps : t'.meetingProcessingProviderSteps = t.meetingProcessingProviderSteps) :
    OwnChange userId t t' := by
  refine ⟨?_, ⟨fun r hr => ?_, fun step _ => by rw [hsteps]⟩, fun r hr hru => ?_⟩
  · intro step hstep
    rw [hsteps] at hstep
    obtain ⟨r, hr, hrest⟩ := h step hstep
    rw [hres]
    exact ⟨r, mem_insert_of_mem hr, hrest⟩
  · rw [hres]
    constructor
    · intro hin
      rcases mem_of_mem_insert hin with hin | rfl
      · exact hin
      · exact absurd hu hr
    · exact mem_insert_of_mem
  · rw [hres]
    exact ⟨r, mem_insert_of_mem hr, rfl, hru⟩

/-- A provider step of the user is rewritten. -/
theorem OwnChange.putStep (h : Linked t) {old new : MeetingProviderStepRecord}
    (hold : old ∈ t.meetingProcessingProviderSteps) (hu : old.userId = userId) (hid : new.id = old.id)
    (hres : new.reservationId = old.reservationId) (hnew : new.userId = old.userId) :
    OwnChange userId t (t.putStep new) := by
  have hkey : HasKey.key old = HasKey.key new := hid.symm
  refine ⟨?_, ⟨fun r _ => Iff.rfl, fun step hs => ?_⟩, fun r hr hru => ⟨r, hr, rfl, hru⟩⟩
  · intro step hstep
    rcases mem_of_mem_replace hstep with hstep | rfl
    · exact h step hstep
    · obtain ⟨r, hr, hrid, hru⟩ := h old hold
      exact ⟨r, hr, hrid.trans hres.symm, hru.trans hnew.symm⟩
  · rw [putStep_steps, mem_replace]
    constructor
    · rintro (⟨hin, -⟩ | ⟨rfl, -⟩)
      · exact hin
      · exact absurd (hnew.trans hu) hs
    · intro hin
      refine .inl ⟨hin, fun he => hs ?_⟩
      rw [eq_of_key hin hold (he.trans hkey.symm)]
      exact hu

variable {r : MeetingProcessingReservationRecord}

/-- A provider step of a reservation of the user is inserted. -/
theorem OwnChange.insertStep (h : Linked t) {new : MeetingProviderStepRecord}
    (hr : r ∈ t.meetingProcessingReservations) (hru : r.userId = userId) (hid : r.id = new.reservationId)
    (hu : new.userId = userId) (hres : t'.meetingProcessingReservations = t.meetingProcessingReservations)
    (hsteps : t'.meetingProcessingProviderSteps = t.meetingProcessingProviderSteps.insert new) :
    OwnChange userId t t' := by
  refine ⟨?_, ⟨fun r _ => by rw [hres], fun step hs => ?_⟩, fun r hr hru => ?_⟩
  · intro step hstep
    rw [hsteps] at hstep
    rw [hres]
    rcases mem_of_mem_insert hstep with hstep | rfl
    · exact h step hstep
    · exact ⟨r, hr, hid, hru.trans hu.symm⟩
  · rw [hsteps]
    constructor
    · intro hin
      rcases mem_of_mem_insert hin with hin | rfl
      · exact hin
      · exact absurd hu hs
    · exact mem_insert_of_mem
  · rw [hres]
    exact ⟨r, hr, rfl, hru⟩

/-- A step of a reservation of the user is one of the user. -/
theorem userId_of_linked (h : Linked t) (hr : r ∈ t.meetingProcessingReservations) {step : MeetingProviderStepRecord}
    (hstep : step ∈ t.meetingProcessingProviderSteps) (hid : step.reservationId = r.id) : step.userId = r.userId := by
  obtain ⟨r', hr', hid', hu'⟩ := h step hstep
  have hsame : r' = r := eq_of_key hr' hr (hid'.trans hid)
  rw [← hu', hsame]

/-- The claimed steps of a reservation of the user are released. -/
theorem OwnChange.releaseClaimed (h : Linked t) {now : Timestamp} (hr : r ∈ t.meetingProcessingReservations)
    (hru : r.userId = userId) (hres : t'.meetingProcessingReservations = t.meetingProcessingReservations)
    (hsteps : t'.meetingProcessingProviderSteps = releaseClaimedSteps now r.id t.meetingProcessingProviderSteps) :
    OwnChange userId t t' := by
  have hrow : ∀ step, (releasedRow now r.id step).reservationId = step.reservationId ∧
      (releasedRow now r.id step).userId = step.userId := by
    intro step
    unfold releasedRow
    split_ifs <;> exact ⟨rfl, rfl⟩
  -- a row of another user is not one of the reservation
  have hother : ∀ step ∈ t.meetingProcessingProviderSteps, step.userId ≠ userId →
      releasedRow now r.id step = step := by
    intro step hstep hs
    refine if_neg fun hc => hs ?_
    exact (userId_of_linked h hr hstep hc.1).trans hru
  refine ⟨?_, ⟨fun r _ => by rw [hres], fun step hs => ?_⟩, fun r hr hru => ?_⟩
  · intro step hstep
    rw [hsteps] at hstep
    obtain ⟨old, hold, rfl⟩ := mem_releaseClaimedSteps.mp hstep
    obtain ⟨r', hr', hid', hu'⟩ := h old hold
    rw [hres]
    exact ⟨r', hr', hid'.trans (hrow old).1.symm, hu'.trans (hrow old).2.symm⟩
  · rw [hsteps, mem_releaseClaimedSteps]
    constructor
    · rintro ⟨old, hold, rfl⟩
      rw [(hrow old).2] at hs
      rw [hother old hold hs]
      exact hold
    · exact fun hin => ⟨step, hin, hother step hin hs⟩
  · rw [hres]
    exact ⟨r, hr, rfl, hru⟩

/-- `updateReservation` of a reservation of the user. -/
theorem OwnChange.updateReservation (h : Linked t) {id : ReservationId}
    {f : MeetingProcessingReservationRecord → MeetingProcessingReservationRecord}
    (hown : ∀ r ∈ t.meetingProcessingReservations, r.id = id → r.userId = userId)
    (hf : ∀ r, (f r).id = r.id ∧ (f r).userId = r.userId) :
    OwnChange userId t (t.updateReservation id f) := by
  unfold Tables.updateReservation
  split
  · exact .refl h
  · rename_i r hr
    have hmem := mem_of_get? hr
    exact .replaceReservation h hmem (hown r hmem (key_of_get? hr)) rfl rfl (hf r).1 (hf r).2

theorem OwnChange.thenUpdateReservation (h : OwnChange userId t t') {id : ReservationId}
    {f : MeetingProcessingReservationRecord → MeetingProcessingReservationRecord}
    (hown : ∀ r ∈ t'.meetingProcessingReservations, r.id = id → r.userId = userId)
    (hf : ∀ r, (f r).id = r.id ∧ (f r).userId = r.userId) :
    OwnChange userId t (t'.updateReservation id f) :=
  h.trans (.updateReservation h.linked hown hf)

theorem OwnChange.thenPutStep (h : OwnChange userId t t') {old new : MeetingProviderStepRecord}
    (hold : old ∈ t'.meetingProcessingProviderSteps) (hu : old.userId = userId) (hid : new.id = old.id)
    (hres : new.reservationId = old.reservationId) (hnew : new.userId = old.userId) :
    OwnChange userId t (t'.putStep new) :=
  h.trans (.putStep h.linked hold hu hid hres hnew)

/-- A reservation found by its identifier is the only one with it. -/
theorem userId_of_mem {id : ReservationId} (hr : r ∈ t.meetingProcessingReservations) (hid : r.id = id)
    (hu : r.userId = userId) : ∀ r' ∈ t.meetingProcessingReservations, r'.id = id → r'.userId = userId := by
  intro r' hr' hid'
  rw [eq_of_key hr' hr (hid'.trans hid.symm)]
  exact hu

theorem ownChange_settle (h : Linked t) {user user' : UserRecord} {now : Timestamp} {delta : ℤ}
    (hr : r ∈ t.meetingProcessingReservations) (hu : r.userId = userId)
    (hsettle : settlePostgresReservationCapacity t user r now = .ok (delta, user', t')) : OwnChange userId t t' := by
  unfold settlePostgresReservationCapacity at hsettle
  obtain ⟨-, hsettle⟩ := guard_eq_ok.mp hsettle
  split at hsettle
  · cases hsettle
    refine OwnChange.thenUpdateReservation
      (.of_eq h (increment_reservations t user _) (increment_steps t user _)) ?_ fun _ => ⟨rfl, rfl⟩
    rw [increment_reservations]
    exact userId_of_mem hr rfl hu
  · cases hsettle
    exact .refl h

theorem ownChange_refund (h : Linked t) {user : UserRecord} {step : MeetingProviderStepRecord}
    (hrefund : refundPostgresStep userId t user step = .ok t') : OwnChange userId t t' := by
  obtain ⟨r, hr, hrefund⟩ := bind_eq_ok.mp hrefund
  obtain ⟨-, hrefund⟩ := guard_eq_ok.mp hrefund
  obtain ⟨-, hrefund⟩ := guard_eq_ok.mp hrefund
  obtain ⟨-, hrefund⟩ := guard_eq_ok.mp hrefund
  obtain ⟨hmem, -, hu⟩ := findPostgresReservationById_ok hr
  cases hrefund
  refine OwnChange.thenUpdateReservation
    (.of_eq h (updateUser_reservations t _ _ _) (updateUser_steps t _ _ _)) ?_ fun _ => ⟨rfl, rfl⟩
  rw [updateUser_reservations]
  exact userId_of_mem hmem rfl hu

theorem ownChange_upsert (h : Linked t) {row : MeetingProcessingReservationRecord}
    {onConflict : MeetingProcessingReservationRecord → MeetingProcessingReservationRecord}
    (hrow : row.userId = userId) (hf : ∀ r, (onConflict r).id = r.id ∧ (onConflict r).userId = r.userId) :
    OwnChange userId t (upsertReservation t row onConflict).2 := by
  unfold upsertReservation
  split
  · rename_i existing hexisting
    have hp := of_find? hexisting
    simp only [Bool.and_eq_true, beq_iff_eq] at hp
    exact .replaceReservation h (mem_of_find? hexisting) (hp.1.trans hrow) rfl rfl
      (hf existing).1 (hf existing).2
  · exact .insertReservation h hrow rfl rfl

/-! ### Each operation -/

section Operations

variable {hashPostgresClaimToken : ClaimToken → TokenHash} {now : Timestamp} {db db' : Database}

theorem ownChange_reserveRealtime (hl : Linked db.toTables) {newId : ReservationId}
    {input : ReserveRealtimeQuotaInput} {res : RealtimeQuotaClaim}
    (h : postgresReserveMeetingRealtimeQuota now newId userId input db = .ok (res, db')) :
    OwnChange userId db.toTables db'.toTables := by
  obtain ⟨t', h, ht⟩ := postgresTransaction_ok h
  rw [ht]
  simp only [bind_eq_ok] at h
  obtain ⟨user, -, -, -, -, -, h⟩ := h
  obtain ⟨-, h⟩ := guard_eq_ok.mp h
  obtain ⟨-, h⟩ := guard_eq_ok.mp h
  obtain ⟨target, -, h⟩ := bind_eq_ok.mp h
  cases h
  exact ownChange_upsert hl rfl fun _ => ⟨rfl, rfl⟩

theorem ownChange_reserveFinalization (hl : Linked db.toTables) {newId : ReservationId}
    {input : ReserveFinalizationQuotaInput} {res : MeetingProcessingReservation}
    (h : postgresReserveMeetingFinalizationQuota now newId userId input db = .ok (res, db')) :
    OwnChange userId db.toTables db'.toTables := by
  obtain ⟨t', h, ht⟩ := postgresTransaction_ok h
  rw [ht]
  simp only [bind_eq_ok] at h
  obtain ⟨user, -, -, -, -, -, h⟩ := h
  split at h
  · cases h
    exact .refl hl
  · obtain ⟨target, -, h⟩ := bind_eq_ok.mp h
    cases h
    exact ownChange_upsert hl rfl fun _ => ⟨rfl, rfl⟩

theorem ownChange_claim (hl : Linked db.toTables) {newId : ProviderStepId} {token : ClaimToken}
    {input : ClaimMeetingProviderStepInput} {res : MeetingProviderStepClaimResult}
    (h : postgresClaimMeetingProviderStep hashPostgresClaimToken now newId token userId input db =
      .ok (res, db')) : OwnChange userId db.toTables db'.toTables := by
  obtain ⟨t', h, ht⟩ := postgresTransaction_ok h
  rw [ht]
  simp only [bind_eq_ok] at h
  obtain ⟨user, -, r, hr, stageKey, -, h⟩ := h
  obtain ⟨hmem, -, hu⟩ := findPostgresReservationById_ok hr
  cases hcur : selectStepByStage db.toTables r.id stageKey with
  | none =>
    rw [hcur] at h
    obtain ⟨-, -, h⟩ := bind_eq_ok.mp h
    unfold upsertStep at h
    rw [hcur] at h
    cases h
    refine OwnChange.thenUpdateReservation ?_ (userId_of_mem hmem rfl hu) fun _ => ⟨rfl, rfl⟩
    exact .insertStep hl hmem hu rfl rfl rfl rfl
  | some step =>
    obtain ⟨hstep, hres, -⟩ := selectStepByStage_spec hcur
    have hsu : step.userId = userId := (userId_of_linked hl hmem hstep hres).trans hu
    rw [hcur] at h
    dsimp only at h
    split at h
    · cases h
      exact .refl hl
    · split at h
      · cases h
        exact .refl hl
      · split at h
        · cases h
          exact .refl hl
        · obtain ⟨-, -, h⟩ := bind_eq_ok.mp h
          unfold upsertStep at h
          rw [hcur] at h
          cases h
          refine OwnChange.thenUpdateReservation ?_ (userId_of_mem hmem rfl hu) fun _ => ⟨rfl, rfl⟩
          exact .putStep hl hstep hsu rfl rfl rfl

variable {input : ProviderStepInput} {res : MeetingProviderStepTransitionResult}

theorem ownChange_start (hl : Linked db.toTables)
    (h : postgresStartMeetingProviderStep hashPostgresClaimToken now userId input db = .ok (res, db')) :
    OwnChange userId db.toTables db'.toTables := by
  obtain ⟨t', h, ht⟩ := postgresTransaction_ok h
  rw [ht]
  simp only [bind_eq_ok] at h
  obtain ⟨user, -, step, hstep, h⟩ := h
  obtain ⟨hmem, -, hsu⟩ := findPostgresProviderStep_ok hstep
  split at h
  · cases h
    exact .refl hl
  · split at h
    · cases h
      exact .refl hl
    · simp only [bind_eq_ok, Prod.exists] at h
      obtain ⟨_, -, r, hr, _, -, delta, user', t1, hsettle, h⟩ := h
      obtain ⟨hrmem, -, hu⟩ := findPostgresReservationById_ok hr
      have hfirst := ownChange_settle hl hrmem hu hsettle
      have hkept := settleReservation_steps hsettle
      cases h
      refine OwnChange.thenPutStep hfirst ?_ hsu rfl rfl rfl
      rw [hkept]
      exact hmem

theorem ownChange_complete (hl : Linked db.toTables)
    (h : postgresCompleteMeetingProviderStep hashPostgresClaimToken now userId input db = .ok (res, db')) :
    OwnChange userId db.toTables db'.toTables := by
  obtain ⟨t', h, ht⟩ := postgresTransaction_ok h
  rw [ht]
  simp only [bind_eq_ok] at h
  obtain ⟨user, -, step, hstep, h⟩ := h
  obtain ⟨hmem, -, hsu⟩ := findPostgresProviderStep_ok hstep
  split at h
  · cases h
    exact .refl hl
  · split at h
    · cases h
      exact .refl hl
    · cases h
      exact .putStep hl hmem hsu rfl rfl rfl

theorem ownChange_reconcile (hl : Linked db.toTables) {input : ReconcileMeetingProviderStepInput}
    (h : postgresReconcileMeetingProviderStep now userId input db = .ok (res, db')) :
    OwnChange userId db.toTables db'.toTables := by
  obtain ⟨t', h, ht⟩ := postgresTransaction_ok h
  rw [ht]
  simp only [bind_eq_ok] at h
  obtain ⟨user, -, r, hr, stageKey, -, h⟩ := h
  obtain ⟨hrmem, -, hu⟩ := findPostgresReservationById_ok hr
  split at h
  · cases h
  rename_i step hcur
  obtain ⟨hstep, hres, -⟩ := selectStepByStage_spec hcur
  obtain ⟨-, h⟩ := guard_eq_ok.mp h
  split at h
  · cases h
    exact .refl hl
  · cases h
    exact .putStep hl hstep ((userId_of_linked hl hrmem hstep hres).trans hu) rfl rfl rfl

theorem ownChange_releaseStep (hl : Linked db.toTables)
    (h : postgresReleaseMeetingProviderStep hashPostgresClaimToken now userId input db = .ok (res, db')) :
    OwnChange userId db.toTables db'.toTables := by
  obtain ⟨t', h, ht⟩ := postgresTransaction_ok h
  rw [ht]
  simp only [bind_eq_ok] at h
  obtain ⟨user, -, step, hstep, h⟩ := h
  obtain ⟨hmem, -, hsu⟩ := findPostgresProviderStep_ok hstep
  split_ifs at h
  · cases h
    exact .refl hl
  · cases h
    exact .refl hl
  · cases h
    exact .refl hl
  · cases h
    exact .putStep hl hmem hsu rfl rfl rfl

theorem ownChange_reject (hl : Linked db.toTables)
    (h : postgresRejectMeetingProviderStep hashPostgresClaimToken now userId input db = .ok (res, db')) :
    OwnChange userId db.toTables db'.toTables := by
  obtain ⟨t', h, ht⟩ := postgresTransaction_ok h
  rw [ht]
  simp only [bind_eq_ok] at h
  obtain ⟨user, -, step, hstep, h⟩ := h
  obtain ⟨hmem, -, hsu⟩ := findPostgresProviderStep_ok hstep
  obtain ⟨r, hrmem, hrid, hru⟩ := hl step hmem
  obtain ⟨-, h⟩ := guard_eq_ok.mp h
  split at h
  · cases h
    exact .refl hl
  · split at h
    · cases h
      exact .refl hl
    · split at h
      · cases h
        split
        · refine OwnChange.thenPutStep ?_ ?_ hsu rfl rfl rfl
          · exact .updateReservation hl (userId_of_mem hrmem hrid (hru.trans hsu)) fun _ => ⟨rfl, rfl⟩
          · rw [updateReservation_steps]
            exact hmem
        · exact .putStep hl hmem hsu rfl rfl rfl
      · split at h
        · obtain ⟨t, hrefund, h⟩ := bind_eq_ok.mp h
          have hfirst := ownChange_refund hl hrefund
          have hkept := refundPostgresStep_steps hrefund
          cases h
          refine OwnChange.thenPutStep hfirst ?_ hsu rfl rfl rfl
          rw [hkept]
          exact hmem
        · cases h
          exact .putStep hl hmem hsu rfl rfl rfl

theorem ownChange_releaseReservation (hl : Linked db.toTables) {reservationId : ReservationId}
    {res : MeetingProcessingReservation}
    (h : postgresReleaseMeetingProcessingReservation now userId reservationId db = .ok (res, db')) :
    OwnChange userId db.toTables db'.toTables := by
  obtain ⟨t', h, ht⟩ := postgresTransaction_ok h
  rw [ht]
  simp only [bind_eq_ok] at h
  obtain ⟨user, -, r, hr, h⟩ := h
  obtain ⟨hmem, -, hu⟩ := findPostgresReservationById_ok hr
  split at h
  · cases h
    exact .refl hl
  · obtain ⟨-, h⟩ := guard_eq_ok.mp h
    cases h
    have hfirst : OwnChange userId db.toTables { db.toTables with
        meetingProcessingProviderSteps := releaseClaimedSteps now r.id db.meetingProcessingProviderSteps } :=
      .releaseClaimed hl hmem hu rfl rfl
    exact hfirst.trans (.replaceReservation hfirst.linked hmem hu rfl rfl rfl rfl)

theorem ownChange_recordFinalizeUsage (hl : Linked db.toTables) {newId : UsageEventId}
    {input : RecordMeetingFinalizeUsageInput} {u : Unit}
    (h : recordFinalizeUsage now newId userId input db = .ok (u, db')) :
    OwnChange userId db.toTables db'.toTables := by
  have hsteps := Fencing.recordFinalizeUsage_steps h
  obtain ⟨t', h, ht⟩ := postgresTransaction_ok h
  rw [ht] at hsteps ⊢
  obtain ⟨user, -, h⟩ := bind_eq_ok.mp h
  split at h
  · cases h
    exact .refl hl
  · split at h
    · obtain ⟨-, h⟩ := guard_eq_ok.mp h
      obtain ⟨⟨charged, t⟩, hsettle, h⟩ := bind_eq_ok.mp h
      unfold settlePostgresLegacyUsage at hsettle
      obtain ⟨-, hsettle⟩ := guard_eq_ok.mp hsettle
      cases hsettle
      cases h
      exact .of_eq hl (increment_reservations _ _ _) hsteps
    · rename_i r hr
      obtain ⟨-, h⟩ := guard_eq_ok.mp h
      obtain ⟨-, h⟩ := guard_eq_ok.mp h
      cases h
      have hfound : r ∈ db.meetingProcessingReservations ∧ r.userId = userId := by
        unfold selectRecordedReservation at hr
        split at hr
        · have hp := of_find? hr
          simp only [Bool.and_eq_true, beq_iff_eq] at hp
          exact ⟨mem_of_find? hr, hp.2⟩
        · have hp := of_find? hr
          simp only [Bool.and_eq_true, beq_iff_eq] at hp
          exact ⟨mem_of_find? hr, hp.1⟩
        · cases hr
      exact .replaceReservation hl hfound.1 hfound.2 rfl hsteps rfl rfl

end Operations

variable {hashPostgresClaimToken : ClaimToken → TokenHash}

/-- **A quota call touches the rows of its user only.** -/
theorem ownChange_of_execute {now : Timestamp} {call : QuotaCall} {db db' : Database} {res : QuotaResult}
    (hl : Linked db.toTables) (h : execute hashPostgresClaimToken now call db = (.ok res, db')) :
    OwnChange call.userId db.toTables db'.toTables := by
  replace h := commit_ok h
  cases call <;> simp only [map_eq_ok, Prod.exists, Prod.map, id_eq, Prod.mk.injEq] at h <;>
    obtain ⟨a, t, h, rfl, rfl⟩ := h
  · exact ownChange_reserveRealtime hl h
  · exact ownChange_reserveFinalization hl h
  · exact ownChange_claim hl h
  · exact ownChange_start hl h
  · exact ownChange_complete hl h
  · exact ownChange_reconcile hl h
  · exact ownChange_releaseStep hl h
  · exact ownChange_reject hl h
  · exact ownChange_releaseReservation hl h
  · obtain ⟨⟨u, mid⟩, hrecord, h⟩ := bind_eq_ok.mp h
    have hfirst := ownChange_recordFinalizeUsage hl hrecord
    exact hfirst.trans (.of_eq hfirst.linked (getUserUsage_reservations h) (Fencing.getUserUsage_steps h))

end OwnMinutes.Postgres.LedgerOwners
