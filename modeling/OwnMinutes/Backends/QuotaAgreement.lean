import OwnMinutes.Backends.FittingRows
import OwnMinutes.Local.Ledger

/-! # The backends agree on quota

Each quota operation gives the same result on a local store and a database with the same rows, and leaves the same
rows, so a run of quota calls on one is a run on the other (`backends_agree`). -/

namespace OwnMinutes.Backends.QuotaAgreement

open OwnMinutes.Lib.Keyed OwnMinutes.Lib.Outcome OwnMinutes.Auth.ProcessingRoute OwnMinutes.Auth.Records
open OwnMinutes.Auth.Errors OwnMinutes.Auth.QuotaTypes
open OwnMinutes.Local.Store (AuthStore normalizeStore normalizeLocalProcessingReservation normalizeLocalFreeTrialFields
  localSettlementPeriodIdentity)
open OwnMinutes.Local.Quota
open OwnMinutes.Local.Calls (chargedUser settledReservation availableFor reserveLocalOfficialCapacity_ok
  settleLocalReservationCapacity_ok settleLocalLegacyUsage_ok)
open OwnMinutes.Local.Ledger (pendingMinutes_nonneg)
open OwnMinutes.Postgres.Store OwnMinutes.Postgres.Quota
open OwnMinutes.Postgres.Calls (lockPostgresQuotaUser_ok findPostgresReservationById_ok findPostgresProviderStep_ok
  selectStepByStage_spec)
open OwnMinutes.Backends.SameRows OwnMinutes.Backends.FittingRows

/-! ### Transactions -/

/-- Both operations fail with the same error, or return the same and leave the same rows. -/
inductive SameResult {α : Type} : Except AuthError (α × AuthStore) → Except AuthError (α × Database) → Prop
  | error (e : AuthError) : SameResult (.error e) (.error e)
  | ok (a : α) {s : AuthStore} {db : Database} (hrows : Agrees db.toTables s) (hfits : Fits db.toTables) :
      SameResult (.ok (a, s)) (.ok (a, db))

variable {db : Database} {input : ProviderStepInput}

theorem same_transaction {α : Type} {result : Except AuthError (α × AuthStore)}
    {body : Tables → Except AuthError (α × Tables)} (h : SameOutcome Fits result (body db.toTables)) :
    SameResult result (postgresTransaction body db) := by
  generalize hbody : body db.toTables = outcome at h
  unfold postgresTransaction
  rw [hbody]
  cases h with
  | error e => exact .error e
  | @ok a s t hrows hfits =>
    rw [ok_bind]
    dsimp only
    unfold commitTables
    rw [dif_pos hfits.constraints]
    exact .ok a hrows hfits

variable {t : Tables} {s : AuthStore} {now : Timestamp} {userId : UserId}

theorem normalize_reservation {r : MeetingProcessingReservationRecord} (h : ReservationChecks r) :
    normalizeLocalProcessingReservation r = r := by
  obtain ⟨-, hsettled, hle, -⟩ := h
  unfold normalizeLocalProcessingReservation
  have hreserved : max 0 r.officialMinutesReserved = r.officialMinutesReserved := by omega
  simp only [hreserved, min_eq_right hle, max_eq_right hsettled]

/-- Reading the store changes nothing. -/
theorem normalize_store (h : Agrees t s) (hfits : Fits t) : normalizeStore s = s := by
  have husers : ∀ user ∈ s.users, normalizeLocalFreeTrialFields user = user := by
    rw [h.users]
    exact fun user huser => (hfits.users user huser).normalize
  have hreservations : ∀ r ∈ s.meetingProcessingReservations, normalizeLocalProcessingReservation r = r := by
    rw [h.reservations]
    exact fun r hr => normalize_reservation (hfits.constraints.reservations r hr)
  unfold normalizeStore
  rw [Table.mapRows_id _ husers, Table.mapRows_id _ hreservations]

/-- A mutation of the store and a transaction, which both begin with the rows as they are. -/
theorem same_mutation {α : Type} {mutation : AuthStore → Except AuthError (α × AuthStore)}
    {body : Tables → Except AuthError (α × Tables)} (h : Agrees db.toTables s) (hfits : Fits db.toTables)
    (hsame : SameOutcome Fits (mutation s) (body db.toTables)) :
    SameResult (withLocalQuotaMutation mutation s) (postgresTransaction body db) := by
  unfold withLocalQuotaMutation
  rw [normalize_store h hfits]
  exact same_transaction hsame

theorem active_of_locked {user : UserRecord} (h : lockPostgresQuotaUser t userId = .ok user) : user.active = true := by
  obtain ⟨-, -, hdeleted⟩ := lockPostgresQuotaUser_ok h
  unfold UserRecord.active
  rw [hdeleted]
  rfl

theorem assert_meeting : assertLocalReservationMeeting = assertPostgresReservationMeeting := rfl

theorem assert_mode : assertLocalReservationProcessingMode = assertPostgresReservationProcessingMode := rfl

/-! ### Reserving -/

theorem upsert_none {row : MeetingProcessingReservationRecord}
    {onConflict : MeetingProcessingReservationRecord → MeetingProcessingReservationRecord}
    (hnone : findPostgresProcessingReservation t row.userId row.operationKey = none) :
    upsertReservation t row onConflict =
      (row, { t with meetingProcessingReservations := t.meetingProcessingReservations.insert row }) := by
  unfold upsertReservation
  rw [hnone]

theorem upsert_some {row e : MeetingProcessingReservationRecord}
    {onConflict : MeetingProcessingReservationRecord → MeetingProcessingReservationRecord}
    (hfound : findPostgresProcessingReservation t row.userId row.operationKey = some e) :
    upsertReservation t row onConflict = (onConflict e,
      { t with meetingProcessingReservations := t.meetingProcessingReservations.replace (onConflict e) }) := by
  unfold upsertReservation
  rw [hfound]

theorem save_none (r : MeetingProcessingReservationRecord) : saveReservation s none r =
    { s with meetingProcessingReservations := s.meetingProcessingReservations.insert r } := rfl

theorem save_some (e r : MeetingProcessingReservationRecord) : saveReservation s (some e) r =
    { s with meetingProcessingReservations := s.meetingProcessingReservations.replace r } := rfl

/-- The reservation that is found, or a new one. -/
theorem reserved_of {existing : Option MeetingProcessingReservationRecord} {operationKey : String}
    (hexisting : findPostgresProcessingReservation t userId operationKey = existing) {user : UserRecord}
    {newId : ReservationId} (hfresh : t.meetingProcessingReservations.Fresh newId) (meetingId : MeetingId)
    (route : MeetingProcessingRoute) :
    existing = some (existing.getD (createLocalProcessingReservation user newId meetingId operationKey route now)) ∨
      existing = none ∧
        t.meetingProcessingReservations.Fresh
          (existing.getD (createLocalProcessingReservation user newId meetingId operationKey route now)).id ∧
        (existing.getD (createLocalProcessingReservation user newId meetingId operationKey route
          now)).officialMinutesReserved = 0 ∧
        (existing.getD (createLocalProcessingReservation user newId meetingId operationKey route
          now)).officialMinutesSettled = 0 := by
  cases existing with
  | none => exact .inr ⟨rfl, hfresh, rfl, rfl⟩
  | some e => exact .inl rfl

theorem agree_reserveRealtime (h : Agrees db.toTables s) (hfits : Fits db.toTables) {newId : ReservationId}
    {input : ReserveRealtimeQuotaInput} (hfresh : db.meetingProcessingReservations.Fresh newId)
    (hsequence : 0 ≤ input.sequence) : SameResult (reserveMeetingRealtimeQuota now newId userId input s)
      (postgresReserveMeetingRealtimeQuota now newId userId input db) := by
  unfold reserveMeetingRealtimeQuota postgresReserveMeetingRealtimeQuota
  refine same_mutation h hfits ?_
  dsimp only
  rw [find_quotaUser h]
  refine same_bind fun user huser => ?_
  obtain ⟨-, rfl, -⟩ := lockPostgresQuotaUser_ok huser
  rw [find_byKey h, assert_meeting, assert_mode]
  refine same_bind fun _ _ => same_bind fun _ _ => ?_
  generalize hexisting : findPostgresProcessingReservation db.toTables user.id input.operationKey = existing
  refine same_ite (fun _ => .error _) fun _ => same_ite (fun _ => .error _) fun _ => ?_
  rw [← reserve_capacity h user _ now (reserved_of hexisting hfresh input.meetingId input.processingRoute)]
  refine same_bind fun target htarget => ?_
  obtain ⟨hreserved, -⟩ := reserveLocalOfficialCapacity_ok htarget
  cases existing with
  | none =>
    rw [upsert_none (by exact hexisting), save_none]
    refine .ok _ (h.insertReservation _) (hfits.insertReservation hfresh hexisting ?_)
    have htarget : 0 ≤ target := (le_max_right _ _).trans hreserved
    have hround : 1 ≤ max 1 (mathRound input.durationMs) := le_max_left _ _
    unfold ReservationChecks
    dsimp only [Option.map_none, Option.getD_none]
    split_ifs <;> omega
  | some e =>
    rw [upsert_some (by exact hexisting), save_some]
    have he : e ∈ db.meetingProcessingReservations := Table.mem_of_find? hexisting
    refine .ok _ (h.replaceReservation _) (hfits.replaceReservation he rfl rfl rfl ?_)
    obtain ⟨hprocessed, hsettled, hle, hstreamed, hhighest⟩ := hfits.constraints.reservations e he
    have htarget : e.officialMinutesReserved ≤ target := (le_max_left _ _).trans hreserved
    have hround : 1 ≤ max 1 (mathRound input.durationMs) := le_max_left _ _
    unfold ReservationChecks
    dsimp only [Option.map_some, Option.getD_some]
    split_ifs <;> omega

theorem processed_pos (durationMs : ℚ) (route : MeetingProcessingRoute) :
    0 ≤ (calculateMeetingUsage durationMs route).processedMinutes :=
  le_trans zero_le_one (le_max_left _ _)

theorem agree_reserveFinalization (h : Agrees db.toTables s) (hfits : Fits db.toTables) {newId : ReservationId}
    {input : ReserveFinalizationQuotaInput} (hfresh : db.meetingProcessingReservations.Fresh newId) :
    SameResult (reserveMeetingFinalizationQuota now newId userId input s)
      (postgresReserveMeetingFinalizationQuota now newId userId input db) := by
  unfold reserveMeetingFinalizationQuota postgresReserveMeetingFinalizationQuota
  refine same_mutation h hfits ?_
  dsimp only
  rw [find_quotaUser h]
  refine same_bind fun user huser => ?_
  obtain ⟨-, rfl, -⟩ := lockPostgresQuotaUser_ok huser
  rw [find_byKey h, assert_meeting, assert_mode]
  refine same_bind fun _ _ => same_bind fun _ _ => ?_
  generalize hexisting : findPostgresProcessingReservation db.toTables user.id input.operationKey = existing
  have hprocessed : 0 ≤ (calculateMeetingUsage input.durationMs
      ((existing.map (·.processingRoute)).getD input.processingRoute)).processedMinutes := processed_pos _ _
  cases existing with
  | none =>
    rw [if_neg (by simp), Option.filter_none]
    dsimp only
    rw [← reserve_capacity h user _ now (reserved_of hexisting hfresh input.meetingId input.processingRoute)]
    refine same_bind fun target htarget => ?_
    obtain ⟨hreserved, -⟩ := reserveLocalOfficialCapacity_ok htarget
    rw [upsert_none (by exact hexisting), save_none]
    refine .ok _ (h.insertReservation _) (hfits.insertReservation hfresh hexisting ?_)
    have htarget : 0 ≤ target := (le_max_right _ _).trans hreserved
    exact ⟨hprocessed, le_rfl, htarget, le_rfl, le_rfl⟩
  | some e =>
    by_cases hfinal : e.status = .finalized
    · rw [if_pos (by simp [hfinal]), Option.filter_some, if_pos (by simp [hfinal])]
      exact .ok _ h hfits
    · rw [if_neg (by simp [hfinal]), Option.filter_some, if_neg (by simp [hfinal])]
      dsimp only
      rw [← reserve_capacity h user _ now (reserved_of hexisting hfresh input.meetingId input.processingRoute)]
      refine same_bind fun target htarget => ?_
      obtain ⟨hreserved, -⟩ := reserveLocalOfficialCapacity_ok htarget
      rw [upsert_some (by exact hexisting), save_some]
      have he : e ∈ db.meetingProcessingReservations := Table.mem_of_find? hexisting
      refine .ok _ (h.replaceReservation _) (hfits.replaceReservation he rfl rfl rfl ?_)
      obtain ⟨-, hsettled, hle, hstreamed, hhighest⟩ := hfits.constraints.reservations e he
      have htarget : e.officialMinutesReserved ≤ target := (le_max_left _ _).trans hreserved
      exact ⟨hprocessed, hsettled, hle.trans htarget, hstreamed, hhighest⟩

/-! ### Provider steps -/

variable {hashToken : ClaimToken → TokenHash}

theorem upsertStep_none {row : MeetingProviderStepRecord}
    {onConflict : MeetingProviderStepRecord → MeetingProviderStepRecord}
    (hnone : selectStepByStage t row.reservationId row.stageKey = none) : upsertStep t row onConflict =
      (row, { t with meetingProcessingProviderSteps := t.meetingProcessingProviderSteps.insert row }) := by
  unfold upsertStep
  rw [hnone]

theorem upsertStep_some {row step : MeetingProviderStepRecord}
    {onConflict : MeetingProviderStepRecord → MeetingProviderStepRecord}
    (hfound : selectStepByStage t row.reservationId row.stageKey = some step) : upsertStep t row onConflict =
      (onConflict step, { t with
        meetingProcessingProviderSteps := t.meetingProcessingProviderSteps.replace (onConflict step) }) := by
  unfold upsertStep
  rw [hfound]
  rfl

theorem agree_claim (h : Agrees db.toTables s) (hfits : Fits db.toTables) {newId : ProviderStepId}
    {claimToken : ClaimToken} {input : ClaimMeetingProviderStepInput}
    (hfresh : db.meetingProcessingProviderSteps.Fresh newId) :
    SameResult (claimMeetingProviderStep hashToken now newId claimToken userId input s)
      (postgresClaimMeetingProviderStep hashToken now newId claimToken userId input db) := by
  unfold claimMeetingProviderStep postgresClaimMeetingProviderStep
  refine same_mutation h hfits ?_
  dsimp only
  rw [find_quotaUser h]
  refine same_bind fun user huser => ?_
  unfold findPostgresReservationById
  rw [find_byId h]
  rcases hfound : selectReservationById db.toTables userId input.reservationId with _ | r
  · exact .error _
  dsimp only
  rw [ok_bind]
  refine same_bind fun stageKey _ => ?_
  obtain ⟨-, rfl, -⟩ := lockPostgresQuotaUser_ok huser
  have hr : r ∈ db.meetingProcessingReservations := Table.mem_of_find? hfound
  have howner : r.id = input.reservationId ∧ r.userId = user.id := by
    have hp := Table.of_find? hfound
    rw [Bool.and_eq_true, beq_iff_eq, beq_iff_eq] at hp
    exact hp
  have hchecks := hfits.constraints.reservations r hr
  rw [find_byStage h, assert_active]
  cases hstep : selectStepByStage db.toTables r.id stageKey with
  | none =>
    rw [if_neg (by simp), if_neg (by simp), if_neg (by simp)]
    refine same_bind fun _ _ => ?_
    rw [upsertStep_none (by exact hstep)]
    dsimp only
    rw [update_reservation (t := { db.toTables with
      meetingProcessingProviderSteps := db.meetingProcessingProviderSteps.insert _ }) hr]
    refine .ok _ ((h.replaceReservation _).insertStep _) ?_
    exact (hfits.insertStep hfresh hstep hr rfl howner.2 (stepFits_claimed rfl rfl ⟨le_rfl, le_rfl⟩)).replaceReservation hr
      rfl rfl rfl hchecks
  | some step =>
    obtain ⟨hmem, hreservation, -⟩ := selectStepByStage_spec hstep
    dsimp only [Option.any_some, Option.getD_some, Option.isSome_some]
    by_cases hcompleted : step.status = .completed
    · rw [if_pos (by simp [hcompleted]), if_pos hcompleted]
      exact .ok _ h hfits
    rw [if_neg (by simp [hcompleted]), if_neg hcompleted]
    by_cases hstarted : step.status = .started
    · rw [if_pos (by simp [hstarted]), if_pos hstarted]
      exact .ok _ h hfits
    rw [if_neg (by simp [hstarted]), if_neg hstarted]
    by_cases hbusy : step.status = .claimed ∧ now < step.leaseExpiresAt
    · rw [if_pos (by simp [hbusy]), if_pos hbusy]
      exact .ok _ h hfits
    rw [if_neg (by simpa using hbusy), if_neg hbusy]
    refine same_bind fun _ _ => ?_
    rw [upsertStep_some (by exact hstep)]
    dsimp only
    rw [update_reservation (t := { db.toTables with
      meetingProcessingProviderSteps := db.meetingProcessingProviderSteps.replace _ }) hr]
    refine .ok _ ((h.replaceReservation _).replaceStep _) ?_
    refine Fits.replaceReservation (t := { db.toTables with
      meetingProcessingProviderSteps := db.meetingProcessingProviderSteps.replace _ }) ?_ hr rfl rfl rfl hchecks
    exact hfits.replaceStep hmem rfl rfl rfl rfl (stepFits_claimed rfl rfl ⟨le_rfl, le_rfl⟩)

theorem agree_complete (h : Agrees db.toTables s) (hfits : Fits db.toTables)
    (huser : (db.users.get? userId).isSome = true) :
    SameResult (completeMeetingProviderStep hashToken now userId input s)
      (postgresCompleteMeetingProviderStep hashToken now userId input db) := by
  unfold completeMeetingProviderStep postgresCompleteMeetingProviderStep
  refine same_mutation h hfits ?_
  dsimp only
  obtain ⟨user, huser⟩ := Option.isSome_iff_exists.mp huser
  unfold lockPostgresQuotaUserIncludingDeleted
  rw [huser, ok_bind, find_step h]
  refine same_bind fun step hstep => ?_
  obtain ⟨hmem, -, -⟩ := findPostgresProviderStep_ok hstep
  refine same_ite (fun _ => .ok _ h hfits) fun _ => ?_
  have hcondition : (step.status ≠ .started ∨ (!tokensMatch hashToken step.claimTokenHash input.claimToken) = true) ↔
      (step.status ≠ .started ∨ hashToken input.claimToken ≠ step.claimTokenHash) := by
    unfold tokensMatch
    simp
  by_cases hother : step.status ≠ .started ∨ hashToken input.claimToken ≠ step.claimTokenHash
  · rw [if_pos (hcondition.mpr hother), if_pos hother]
    exact .ok _ h hfits
  · rw [if_neg (fun hc => hother (hcondition.mp hc)), if_neg hother]
    refine .ok _ (h.replaceStep _) ?_
    exact hfits.replaceStep hmem rfl rfl rfl rfl (stepFits_closed (by simp) (hfits.constraints.steps step hmem))

theorem agree_reconcile (h : Agrees db.toTables s) (hfits : Fits db.toTables)
    (huser : (db.users.get? userId).isSome = true) {input : ReconcileMeetingProviderStepInput} :
    SameResult (reconcileMeetingProviderStep now userId input s)
      (postgresReconcileMeetingProviderStep now userId input db) := by
  unfold reconcileMeetingProviderStep postgresReconcileMeetingProviderStep
  refine same_mutation h hfits ?_
  dsimp only
  obtain ⟨user, huser⟩ := Option.isSome_iff_exists.mp huser
  unfold lockPostgresQuotaUserIncludingDeleted
  rw [huser, ok_bind]
  unfold findPostgresReservationById
  rw [find_byId h]
  rcases selectReservationById db.toTables userId input.reservationId with _ | r
  · exact .error _
  dsimp only
  rw [ok_bind]
  refine same_bind fun stageKey _ => ?_
  rw [find_byStage h]
  cases hstep : selectStepByStage db.toTables r.id stageKey with
  | none => exact .error _
  | some step =>
    obtain ⟨hmem, -, -⟩ := selectStepByStage_spec hstep
    refine same_ite (fun _ => .error _) fun hstatus => ?_
    by_cases hstarted : step.status = .started
    · rw [if_pos hstarted, if_neg (by simp [hstarted])]
      refine .ok _ (h.replaceStep _) ?_
      exact hfits.replaceStep hmem rfl rfl rfl rfl (stepFits_closed (by simp) (hfits.constraints.steps step hmem))
    · have hcompleted : step.status = .completed := by
        by_contra hne
        exact hstatus ⟨hstarted, hne⟩
      rw [if_neg hstarted, if_pos hcompleted]
      exact .ok _ h hfits

theorem agree_releaseStep (h : Agrees db.toTables s) (hfits : Fits db.toTables) :
    SameResult (releaseMeetingProviderStep hashToken now userId input s)
      (postgresReleaseMeetingProviderStep hashToken now userId input db) := by
  unfold releaseMeetingProviderStep postgresReleaseMeetingProviderStep
  refine same_mutation h hfits ?_
  dsimp only
  rw [find_quotaUser h, find_step h]
  refine same_bind fun _ _ => same_bind fun step hstep => ?_
  obtain ⟨hmem, -, -⟩ := findPostgresProviderStep_ok hstep
  refine same_ite (fun _ => .ok _ h hfits) fun _ => same_ite (fun _ => .ok _ h hfits) fun _ =>
    same_ite (fun _ => .ok _ h hfits) fun _ => ?_
  by_cases htoken : hashToken input.claimToken = step.claimTokenHash
  · rw [if_neg (by simp [tokensMatch, htoken]), if_neg (not_not.mpr htoken)]
    refine .ok _ (h.replaceStep _) ?_
    exact hfits.replaceStep hmem rfl rfl rfl rfl (stepFits_closed (by simp) (hfits.constraints.steps step hmem))
  · rw [if_pos (by simp [tokensMatch, htoken]), if_pos htoken]
    exact .error _

theorem agree_releaseReservation (h : Agrees db.toTables s) (hfits : Fits db.toTables)
    {reservationId : ReservationId} : SameResult (releaseMeetingProcessingReservation now userId reservationId s)
      (postgresReleaseMeetingProcessingReservation now userId reservationId db) := by
  unfold releaseMeetingProcessingReservation postgresReleaseMeetingProcessingReservation
  refine same_mutation h hfits ?_
  dsimp only
  rw [find_quotaUser h]
  refine same_bind fun _ _ => ?_
  unfold findPostgresReservationById
  rw [find_byId h]
  rcases hfound : selectReservationById db.toTables userId reservationId with _ | r
  · exact .error _
  dsimp only
  rw [ok_bind]
  have hr : r ∈ db.meetingProcessingReservations := Table.mem_of_find? hfound
  rw [h.steps]
  refine same_ite (fun _ => .ok _ h hfits) fun _ => same_ite (fun _ => .error _) fun _ => ?_
  refine .ok _ ?_ ((hfits.releaseSteps now r.id).replaceReservation hr rfl rfl rfl (hfits.constraints.reservations r hr))
  exact { h.replaceReservation _ with steps := rfl }

/-! ### Starting a step -/

theorem same_bind_map {α β γ : Type} {P : Tables → Prop} {x : Except AuthError β} {k : β → γ}
    {f : β → Except AuthError (α × AuthStore)} {g : γ → Except AuthError (α × Tables)}
    (h : ∀ b, x = .ok b → SameOutcome P (f b) (g (k b))) : SameOutcome P (x >>= f) (x.map k >>= g) := by
  cases x with
  | error e => exact .error e
  | ok b => exact h b rfl

theorem same_active {α : Type} {P : Tables → Prop} (h : Agrees t s) {reservationId : ReservationId}
    {f : MeetingProcessingReservationRecord → Except AuthError (α × AuthStore)}
    {g : MeetingProcessingReservationRecord → Except AuthError (α × Tables)}
    (hfound : ∀ r, selectReservationById t userId reservationId = some r → SameOutcome P (f r) (g r)) :
    SameOutcome P (findActiveLocalReservation s userId reservationId now >>= f)
      (findPostgresReservationById t userId reservationId >>= fun r =>
        assertPostgresReservationActive r now >>= fun _ => g r) := by
  unfold findActiveLocalReservation findPostgresReservationById
  rw [find_byId h]
  cases hselect : selectReservationById t userId reservationId with
  | none => exact .error _
  | some r =>
    dsimp only
    rw [assert_active, ok_bind]
    cases assertPostgresReservationActive r now with
    | error e => exact .error e
    | ok _ => exact hfound r hselect

theorem pending_nonneg (exclude : Option ReservationId) : 0 ≤ localPendingCapacity s userId now exclude := by
  refine Table.sum_nonneg fun r _ => ?_
  split_ifs
  · exact le_rfl
  · exact pendingMinutes_nonneg now r

theorem within_of_available {user : UserRecord} (hfits : UserFits user) {minutes : ℤ} {exclude : Option ReservationId}
    (h : minutes ≤ availableFor s user exclude now) : user.officialMinutesUsed + minutes ≤ user.officialMinutesTotal := by
  have hpending : 0 ≤ localPendingCapacity s user.id now exclude := pending_nonneg exclude
  have hchecks := hfits.checks.2.1
  unfold availableFor at h
  omega

/-- What the step of an account that is charged for it took of the trial. -/
theorem trial_settled {user : UserRecord} (hfits : UserFits user) (hplan : user.plan = .free) {minutes : ℤ}
    (hwithin : user.officialMinutesUsed + minutes ≤ user.officialMinutesTotal) (hminutes : 0 ≤ minutes) :
    min minutes (max 0 ((incremented user minutes).freeTrialMinutesUsed - user.freeTrialMinutesUsed)) = minutes := by
  obtain ⟨hused, htotal⟩ := hfits.trial hplan
  unfold incremented
  dsimp only
  rw [if_pos hplan]
  omega

theorem agree_start (h : Agrees db.toTables s) (hfits : Fits db.toTables) :
    SameResult (startMeetingProviderStep hashToken now userId input s)
      (postgresStartMeetingProviderStep hashToken now userId input db) := by
  unfold startMeetingProviderStep postgresStartMeetingProviderStep
  refine same_mutation h hfits ?_
  dsimp only
  rw [find_quotaUser h, find_step h]
  refine same_bind fun user huser => same_bind fun step hstep => ?_
  obtain ⟨hmem, rfl, -⟩ := lockPostgresQuotaUser_ok huser
  obtain ⟨hstepMem, -, hstepUser⟩ := findPostgresProviderStep_ok hstep
  have huserFits : UserFits user := hfits.users user hmem
  refine same_ite (fun _ => .ok _ h hfits) fun _ => same_ite (fun _ => .ok _ h hfits) fun _ => ?_
  rw [assert_claim]
  refine same_bind fun _ _ => same_active h fun r hfound => ?_
  have hr : r ∈ db.meetingProcessingReservations := Table.mem_of_find? hfound
  rw [huserFits.normalize, settle_capacity h hmem (active_of_locked huser) huserFits hr]
  refine same_bind_map fun minutes hminutes => ?_
  obtain ⟨hsettles, havailable⟩ := settleLocalReservationCapacity_ok hminutes
  have hnonneg : 0 ≤ minutes := hsettles ▸ le_max_left _ _
  have hwithin : user.officialMinutesUsed + minutes ≤ user.officialMinutesTotal := within_of_available huserFits havailable
  have hcharged : Local.Store.captureLocalFreeTrialUsage
      { user with officialMinutesUsed := user.officialMinutesUsed + minutes } = incremented user minutes :=
    charged_eq huserFits hnonneg
  rw [hcharged]
  refine .ok _ (((h.replaceUser _).replaceReservation _).replaceStep _) ?_
  have hchecks : ReservationChecks (settledReservation r minutes) := by
    obtain ⟨hprocessed, hsettled, hle, hrest⟩ := hfits.constraints.reservations r hr
    refine ⟨hprocessed, ?_, ?_, hrest⟩
    · exact add_nonneg hsettled hnonneg
    · show r.officialMinutesSettled + minutes ≤ r.officialMinutesReserved
      omega
  have hmid : Fits (settled db.toTables user r minutes) :=
    (hfits.replaceUser hmem (sameAccount_incremented user minutes) (huserFits.charged hnonneg hwithin)).replaceReservation hr
      rfl rfl rfl hchecks
  refine hmid.replaceStep hstepMem rfl rfl rfl rfl ⟨⟨hnonneg, ?_⟩, (fun hclaimed => by cases hclaimed),
    fun _ x hx hid hplan => ?_⟩
  · exact le_min hnonneg (le_max_left _ _)
  · -- the account is the one that is charged
    have hcharged : x = incremented user minutes := by
      refine Table.eq_of_key hx (Table.mem_replace_self hmem rfl) ?_
      exact hid.trans hstepUser
    have hplan : user.plan = .free := by
      rw [hcharged] at hplan
      exact hplan
    have hidentity : settlementPeriodIdentity x = settlementPeriodIdentity user := by
      rw [hcharged]
      rfl
    have htrial := trial_settled huserFits hplan hwithin hnonneg
    refine htrial.trans (if_pos ?_).symm
    exact congrArg some hidentity.symm

/-! ### Rejecting a step -/

/-- The reservation of a step is found. -/
theorem reservation_of_step (hfits : Fits t) {step : MeetingProviderStepRecord}
    (hstep : step ∈ t.meetingProcessingProviderSteps) : ∃ r ∈ t.meetingProcessingReservations,
      r.id = step.reservationId ∧ selectReservationById t step.userId step.reservationId = some r := by
  obtain ⟨r, hr, hid, huser⟩ := hfits.linked step hstep
  refine ⟨r, hr, hid, ?_⟩
  refine Table.find?_eq_some_of_unique hr (by simp [hid, huser]) fun y hy hp => ?_
  rw [Bool.and_eq_true, beq_iff_eq, beq_iff_eq] at hp
  exact Table.eq_of_key hy hr (hp.1.trans hid.symm)

/-- What the database does to the row of an account that gets the minutes of a step back. -/
def refunded (user : UserRecord) (step : MeetingProviderStepRecord) : UserRecord :=
  { user with
    officialMinutesUsed :=
      if step.settlementPeriodIdentity = some (settlementPeriodIdentity user) then
        user.officialMinutesUsed - max 0 step.officialMinutesSettled
      else user.officialMinutesUsed
    freeTrialMinutesUsed := max (user.freeTrialMinutesUsed - max 0 step.freeTrialMinutesSettled) 0 }

theorem sameAccount_refunded (user : UserRecord) (step : MeetingProviderStepRecord) :
    SameAccount user (refunded user step) := ⟨rfl, rfl, rfl, rfl, rfl, rfl, rfl, rfl⟩

theorem userFits_refunded {user : UserRecord} {step : MeetingProviderStepRecord} {users : Table UserRecord}
    (h : UserFits user) (hstep : StepFits users step) (huser : user ∈ users) (hid : user.id = step.userId)
    (hstarted : step.status = .started)
    (hused : step.settlementPeriodIdentity = some (settlementPeriodIdentity user) →
      max 0 step.officialMinutesSettled ≤ user.officialMinutesUsed) : UserFits (refunded user step) := by
  obtain ⟨hnonneg, htotal, htrialNonneg, htrialTotal⟩ := h.checks
  obtain ⟨hsettled, htrialSettled⟩ := hstep.checks
  unfold refunded
  refine ⟨?_, h.trialTotal, fun hplan => ?_⟩
  · unfold UserChecks
    dsimp only
    split_ifs with hperiod
    · have hle := hused hperiod
      omega
    · omega
  · have hsame := h.trial hplan
    have hshare := hstep.started hstarted user huser hid hplan
    dsimp only
    split_ifs at hshare ⊢ with hperiod
    · have hle := hused hperiod
      omega
    · omega

/-- The local store normalizes the trial of the account before it takes the share of the step off. -/
theorem local_refunded {user : UserRecord} (h : UserFits user) (step : MeetingProviderStepRecord) :
    let charged := normalizeLocalFreeTrialFields
      (if step.settlementPeriodIdentity = some (localSettlementPeriodIdentity user) then
        { user with officialMinutesUsed := user.officialMinutesUsed - max 0 step.officialMinutesSettled }
      else user)
    { charged with freeTrialMinutesUsed := max 0 (charged.freeTrialMinutesUsed - max 0 step.freeTrialMinutesSettled) } =
      refunded user step := by
  have hnormal : normalizeLocalFreeTrialFields
      { user with officialMinutesUsed := user.officialMinutesUsed - max 0 step.officialMinutesSettled } =
      { user with officialMinutesUsed := user.officialMinutesUsed - max 0 step.officialMinutesSettled } :=
    normalize_trial h.checks.2.2 h.trialTotal
  have hperiod : localSettlementPeriodIdentity user = settlementPeriodIdentity user := rfl
  unfold refunded
  rw [hperiod, max_comm (user.freeTrialMinutesUsed - _)]
  by_cases hmatch : step.settlementPeriodIdentity = some (settlementPeriodIdentity user)
  · simp only [if_pos hmatch, hnormal]
  · simp only [if_neg hmatch, h.normalize]

theorem update_user {user : UserRecord} (huser : user ∈ t.users) (hactive : user.active = true)
    (f : UserRecord → UserRecord) :
    t.updateUser user.id f (·.active) = { t with users := t.users.replace (f user) } := by
  have hrow : t.users.get? user.id = some user := Table.get?_key huser
  unfold Tables.updateUser
  rw [hrow]
  dsimp only
  rw [if_pos hactive]

/-- Both give the minutes of a started step back. -/
theorem agree_refund {user : UserRecord} {step : MeetingProviderStepRecord} (h : Agrees t s) (hfits : Fits t)
    (huser : user ∈ t.users) (hactive : user.active = true) (hstep : step ∈ t.meetingProcessingProviderSteps)
    (hid : user.id = step.userId) (hstarted : step.status = .started) :
    SameOutcome (fun t' => Fits t' ∧ t'.meetingProcessingProviderSteps = t.meetingProcessingProviderSteps)
      ((refundLocalStep user.id s user step).map ((), ·)) ((refundPostgresStep user.id t user step).map ((), ·)) := by
  obtain ⟨r, hr, hrid, hselect⟩ := reservation_of_step hfits hstep
  rw [← hid] at hselect
  have huserFits : UserFits user := hfits.users user huser
  obtain ⟨hprocessed, hnonneg, hle, hrest⟩ := hfits.constraints.reservations r hr
  unfold refundLocalStep refundPostgresStep findPostgresReservationById
  rw [find_byId h, hselect, ok_bind]
  dsimp only
  by_cases hfinal : r.status = .finalized
  · rw [if_pos hfinal, if_pos hfinal]
    exact .error _
  rw [if_neg hfinal, if_neg hfinal]
  by_cases hsettled : r.officialMinutesSettled < max 0 step.officialMinutesSettled
  · rw [if_pos hsettled, if_pos hsettled]
    exact .error _
  rw [if_neg hsettled, if_neg hsettled]
  have hmatch : ((step.settlementPeriodIdentity == some (postgresSettlementPeriodIdentity user)) = true ∧
      user.officialMinutesUsed < max 0 step.officialMinutesSettled) ↔
      (step.settlementPeriodIdentity = some (localSettlementPeriodIdentity user) ∧
        user.officialMinutesUsed < max 0 step.officialMinutesSettled) := by
    rw [beq_iff_eq]
    rfl
  by_cases hused : step.settlementPeriodIdentity = some (localSettlementPeriodIdentity user) ∧
      user.officialMinutesUsed < max 0 step.officialMinutesSettled
  · rw [if_pos hused, if_pos (hmatch.mpr hused)]
    exact .error _
  rw [if_neg hused, if_neg fun hc => hused (hmatch.mp hc), local_refunded huserFits step,
    update_user huser hactive,
    update_reservation (t := { t with users := t.users.replace _ }) hr]
  have hbits : ((step.settlementPeriodIdentity == some (postgresSettlementPeriodIdentity user)) = true) =
      (step.settlementPeriodIdentity = some (settlementPeriodIdentity user)) := propext beq_iff_eq
  simp only [hbits]
  refine .ok () ((h.replaceUser _).replaceReservation _) ⟨?_, rfl⟩
  have hrefunded : UserFits (refunded user step) := by
    refine userFits_refunded huserFits (hfits.steps step hstep) huser hid hstarted fun hperiod => ?_
    by_contra hlt
    exact hused ⟨hperiod, not_le.mp hlt⟩
  refine (hfits.replaceUser huser (sameAccount_refunded user step) hrefunded).replaceReservation hr rfl rfl rfl ?_
  have hdelta : 0 ≤ max 0 step.officialMinutesSettled := le_max_left _ _
  refine ⟨hprocessed, sub_nonneg.mpr (not_lt.mp hsettled), ?_, hrest⟩
  show r.officialMinutesSettled - max 0 step.officialMinutesSettled ≤ r.officialMinutesReserved
  omega

/-- Both go on from the rows that an operation leaves. -/
theorem same_then {α : Type} {P Q : Tables → Prop} {x : Except AuthError AuthStore} {y : Except AuthError Tables}
    {f : AuthStore → Except AuthError (α × AuthStore)} {g : Tables → Except AuthError (α × Tables)}
    (h : SameOutcome P (x.map ((), ·)) (y.map ((), ·)))
    (hrest : ∀ s t, Agrees t s → P t → SameOutcome Q (f s) (g t)) : SameOutcome Q (x >>= f) (y >>= g) := by
  cases x with
  | error e =>
    cases y with
    | error e' => cases h; exact .error e
    | ok t => cases h
  | ok s =>
    cases y with
    | error e => cases h
    | ok t =>
      cases h with
      | ok _ hrows hP => exact hrest s t hrows hP

/-- The reservation with the minutes of a step given back. -/
def returned (step : MeetingProviderStepRecord) (r : MeetingProcessingReservationRecord) :
    MeetingProcessingReservationRecord :=
  { r with officialMinutesSettled := max (r.officialMinutesSettled - max 0 step.officialMinutesSettled) 0 }

/-- A deleted account gets nothing back, its reservation does. -/
theorem agree_rejectForDeleted (now : Timestamp) {step : MeetingProviderStepRecord} (h : Agrees t s) (hfits : Fits t)
    (hstep : step ∈ t.meetingProcessingProviderSteps) (huser : step.userId = userId) :
    (rejectForDeletedAccount now userId s step).1 =
        { step with
          status := .released
          officialMinutesSettled := 0
          freeTrialMinutesSettled := 0
          releasedAt := some now } ∧
      let t' := if step.status = .started then
          t.updateReservation step.reservationId fun r => { r with
            officialMinutesSettled := max (r.officialMinutesSettled - max 0 step.officialMinutesSettled) 0 }
        else t
      Agrees (t'.putStep (rejectForDeletedAccount now userId s step).1) (rejectForDeletedAccount now userId s step).2 ∧
        Fits (t'.putStep (rejectForDeletedAccount now userId s step).1) := by
  obtain ⟨r, hr, hrid, hselect⟩ := reservation_of_step hfits hstep
  rw [huser] at hselect
  have hclosed : StepFits t.users { step with
      status := .released
      officialMinutesSettled := 0
      freeTrialMinutesSettled := 0
      releasedAt := some now } := stepFits_closed (by simp) ⟨le_rfl, le_rfl⟩
  unfold rejectForDeletedAccount Tables.putStep
  rw [find_byId h, hselect]
  refine ⟨rfl, ?_⟩
  dsimp only
  by_cases hstarted : step.status = .started
  · have hupdate : t.updateReservation step.reservationId (returned step) =
        { t with meetingProcessingReservations := t.meetingProcessingReservations.replace (returned step r) } := by
      rw [← hrid]
      exact update_reservation hr _
    have hlocal : { r with
        officialMinutesSettled := max 0 (r.officialMinutesSettled - max 0 step.officialMinutesSettled) } =
        returned step r := by
      unfold returned
      rw [max_comm]
    rw [if_pos hstarted, if_pos hstarted, hlocal]
    unfold returned at hupdate
    rw [hupdate]
    obtain ⟨hprocessed, hnonneg, hle, hrest⟩ := hfits.constraints.reservations r hr
    have hchecks : ReservationChecks (returned step r) := by
      refine ⟨hprocessed, le_max_right _ _, ?_, hrest⟩
      unfold returned
      dsimp only
      omega
    refine ⟨(h.replaceReservation _).replaceStep _, ?_⟩
    have hmid : Fits { t with
        meetingProcessingReservations := t.meetingProcessingReservations.replace (returned step r) } :=
      hfits.replaceReservation hr rfl rfl rfl hchecks
    exact hmid.replaceStep hstep rfl rfl rfl rfl hclosed
  · rw [if_neg hstarted, if_neg hstarted]
    exact ⟨h.replaceStep _, hfits.replaceStep hstep rfl rfl rfl rfl hclosed⟩

theorem agree_reject (h : Agrees db.toTables s) (hfits : Fits db.toTables) :
    SameResult (rejectMeetingProviderStep hashToken now userId input s)
      (postgresRejectMeetingProviderStep hashToken now userId input db) := by
  unfold rejectMeetingProviderStep postgresRejectMeetingProviderStep
  refine same_mutation h hfits ?_
  unfold lockPostgresQuotaUserIncludingDeleted
  dsimp only
  rw [h.users]
  cases huser : db.users.get? userId with
  | none => exact .error _
  | some user =>
    have hmem : user ∈ db.users := Table.mem_of_get? huser
    obtain rfl : user.id = userId := Table.key_of_get? huser
    dsimp only
    rw [ok_bind, find_step h]
    refine same_bind fun step hstep => ?_
    obtain ⟨hstepMem, -, hstepUser⟩ := findPostgresProviderStep_ok hstep
    by_cases htoken : hashToken input.claimToken = step.claimTokenHash
    · rw [if_neg (by simp [tokensMatch, htoken]), if_neg (not_not.mpr htoken)]
      refine same_ite (fun _ => .ok _ h hfits) fun hcompleted => same_ite (fun _ => .ok _ h hfits) fun hreleased => ?_
      by_cases hdeleted : user.deletedAt.isSome = true
      · obtain ⟨hrow, hrows, hfits'⟩ := agree_rejectForDeleted now h hfits hstepMem hstepUser
        rw [if_pos hdeleted, if_pos hdeleted]
        rw [← hrow]
        exact .ok _ hrows hfits'
      · have hactive : user.active = true := by
          unfold UserRecord.active
          simpa using hdeleted
        have hchecks := hfits.constraints.steps step hstepMem
        rw [if_neg hdeleted, if_neg hdeleted]
        by_cases hstarted : step.status = .started
        · simp only [if_pos hstarted]
          refine same_then (agree_refund h hfits hmem hactive hstepMem hstepUser.symm hstarted) fun s' t' h' hfits' => ?_
          have hmem' : step ∈ t'.meetingProcessingProviderSteps := by
            rw [hfits'.2]
            exact hstepMem
          refine .ok _ (h'.replaceStep _) (hfits'.1.replaceStep hmem' rfl rfl rfl rfl ?_)
          exact stepFits_closed (by simp) ⟨le_rfl, hchecks.2⟩
        · have hclaimed : step.status = .claimed := by
            cases hstatus : step.status <;> simp_all
          have hzero : step.officialMinutesSettled = 0 := (hfits.steps step hstepMem).claimed hclaimed
          simp only [if_neg hstarted, ok_bind, hzero]
          refine .ok _ (h.replaceStep _) (hfits.replaceStep hstepMem rfl rfl rfl rfl ?_)
          exact stepFits_closed (by simp) ⟨le_rfl, hchecks.2⟩
    · rw [if_pos (by simp [tokensMatch, htoken]), if_pos htoken]
      exact .error _

end OwnMinutes.Backends.QuotaAgreement
