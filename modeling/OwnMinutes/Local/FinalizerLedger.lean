import OwnMinutes.Finalizer.Ledger
import OwnMinutes.Local.Fencing

/-! # The local store as the ledger of finalizations -/

namespace OwnMinutes.Local.FinalizerLedger

open OwnMinutes.Lib.Keyed OwnMinutes.Lib.Keyed.Table OwnMinutes.Lib.Outcome
open OwnMinutes.Auth.ProcessingRoute OwnMinutes.Auth.Records OwnMinutes.Auth.QuotaTypes
open OwnMinutes.Quota.Calls OwnMinutes.Quota.Fencing OwnMinutes.Quota.Reservations
open OwnMinutes.Finalizer.Ledger OwnMinutes.Local.Store OwnMinutes.Local.Quota OwnMinutes.Local.Calls

variable {hashToken : ClaimToken → TokenHash}

theorem normalizeStore_owners (s : AuthStore) :
    Rewrites SameOwner s.meetingProcessingReservations
      (normalizeStore s).meetingProcessingReservations :=
  rewrites_mapRows normalizeLocalProcessingReservation_key fun _ _ => ⟨rfl, rfl, rfl⟩

theorem reservationFor_findReservationByKey (s : AuthStore) (userId : UserId) (operationKey : String) :
    reservationFor s.meetingProcessingReservations userId operationKey =
      (findReservationByKey s userId operationKey).map (·.id) := rfl

/-! ### Reservations -/

theorem recording_owners {now : Timestamp} {userId : UserId} {s s' : AuthStore}
    (h : Recording now userId s s') :
    Rewrites SameOwner s.meetingProcessingReservations s'.meetingProcessingReservations := by
  cases h with
  | recorded | charged => exact Rewrites.refl SameOwner.refl _
  | finalized _ hr => exact rewrites_replace_mem SameOwner.refl hr rfl ⟨rfl, rfl, rfl⟩

/-- A target and a lease do not change the owner. -/
theorem sameOwner_reserved {now : Timestamp} {s : AuthStore} {user : UserRecord}
    {r0 r : MeetingProcessingReservationRecord} (h : Reserved s now user r0 r) : SameOwner r0 r := by
  obtain ⟨_, _, _, _, hr, -⟩ := h
  rw [hr]
  exact ⟨rfl, rfl, rfl⟩

theorem reservationChange_of_effect {now : Timestamp} {call : QuotaCall} {s s' : AuthStore}
    {res : QuotaResult} (h : Effect hashToken now call s res s') :
    ReservationChange call s.meetingProcessingReservations s'.meetingProcessingReservations := by
  cases h with
  | unchanged => exact reservationChange_same call _
  | reserveNew _ _ hid _ hr =>
    refine .created (Rewrites.refl SameOwner.refl _) ?_
    rw [hid, (sameOwner_reserved hr).id]
  | reserveAgain _ _ _ hr0 _ _ hr => exact reservationChange_replace hr0 (sameOwner_reserved hr)
  | claimNew _ hr | claimAgain _ hr | start _ _ hr => exact reservationChange_replace hr ⟨rfl, rfl, rfl⟩
  | complete | releaseStep => exact reservationChange_same call _
  | refund _ _ _ hr => exact reservationChange_replace hr ⟨rfl, rfl, rfl⟩
  | @rejectDeleted user step step' s' input _ _ _ _ _ _ _ _ hs' =>
    cases hs'
    dsimp only
    split
    · rename_i r hr
      split_ifs
      · exact reservationChange_replace (findReservationById_spec hr).1 ⟨rfl, rfl, rfl⟩
      · exact reservationChange_same call _
    · exact reservationChange_same call _
  | releaseReservation _ _ hr => exact reservationChange_replace hr ⟨rfl, rfl, rfl⟩
  | @record input newId mid user hcall hmid huser =>
    rw [(refresh_rows now (normalizeStore mid) user).reservations]
    exact .kept ((recording_owners (recording_of_ok hmid)).trans (fun _ _ _ => SameOwner.trans)
      (normalizeStore_owners mid))

/-! ### Answers -/

section Answers

variable {now : Timestamp} {userId : UserId} {store s' : AuthStore}

theorem reservationFor_save {s : AuthStore} {operationKey : String} {meetingId : MeetingId}
    {route : MeetingProcessingRoute} {newId : ReservationId} {user : UserRecord}
    {r0 r : MeetingProcessingReservationRecord} (huser : user.id = userId)
    (hfresh : s.meetingProcessingReservations.Fresh newId)
    (hr0 : r0 = (findReservationByKey s userId operationKey).getD
      (createLocalProcessingReservation user newId meetingId operationKey route now))
    (hr : SameOwner r0 r) :
    reservationFor (saveReservation s (findReservationByKey s userId operationKey)
      r).meetingProcessingReservations userId operationKey = some r.id := by
  unfold saveReservation
  cases hcur : findReservationByKey s userId operationKey with
  | none =>
    rw [hcur, Option.getD_none] at hr0
    subst hr0
    have hkey : (r.userId == userId && r.operationKey == operationKey) = true := by
      rw [hr.userId, hr.operationKey]
      simp [createLocalProcessingReservation, huser]
    have hnew : s.meetingProcessingReservations.Fresh (HasKey.key r) := by
      have hid : HasKey.key r = newId := hr.id
      rwa [hid]
    rw [if_neg (by simp), reservationFor, find?_insert hnew]
    unfold findReservationByKey at hcur
    rw [hcur, Option.none_or, if_pos hkey, Option.map_some]
  | some cur =>
    rw [hcur, Option.getD_some] at hr0
    subst hr0
    rw [if_pos (by rfl), reservationFor_rewrites (rewrites_replace_mem SameOwner.refl
      (findReservationByKey_spec hcur).1 hr.id hr), reservationFor_findReservationByKey, hcur, hr.id]
    rfl

theorem reserve_answer {newId : ReservationId} {input : ReserveFinalizationQuotaInput}
    {res : MeetingProcessingReservation} (hfresh : store.meetingProcessingReservations.Fresh newId)
    (h : reserveMeetingFinalizationQuota now newId userId input store = .ok (res, s')) :
    reservationFor s'.meetingProcessingReservations userId input.operationKey = some res.id := by
  simp only [reserveMeetingFinalizationQuota, withLocalQuotaMutation, bind_eq_ok] at h
  obtain ⟨user, huser, -, -, -, -, h⟩ := h
  obtain ⟨-, huserId, -⟩ := findActiveUser_spec (findLocalQuotaUser_ok.mp huser)
  split at h
  · rename_i hopen
    cases h
    cases hcur : findReservationByKey (normalizeStore store) userId input.operationKey with
    | none =>
      rw [hcur] at hopen
      cases hopen
    | some cur =>
      rw [reservationFor_findReservationByKey, hcur]
      rfl
  · obtain ⟨target, -, h⟩ := bind_eq_ok.mp h
    cases h
    exact reservationFor_save huserId
      ((normalizeStore_owners store).fresh (fun _ _ h => h.id) hfresh) rfl ⟨rfl, rfl, rfl⟩

theorem stepAt_of_stage {s : AuthStore} {reservationId : ReservationId} {stageKey : String}
    {step : MeetingProviderStepRecord} (h : findStepByStage s reservationId stageKey = some step) :
    StepAt s.meetingProviderSteps step.id (step.reservationId, step.stageKey) :=
  ⟨step, (findStepByStage_spec h).1, rfl, rfl⟩

theorem claim_answer {newId : ProviderStepId} {token : ClaimToken}
    {input : ClaimMeetingProviderStepInput} {res : MeetingProviderStepClaimResult}
    (hfresh : store.meetingProviderSteps.Fresh newId)
    (h : claimMeetingProviderStep hashToken now newId token userId input store = .ok (res, s')) :
    stageKeyOf input.stage = .ok res.step.stageKey ∧ res.step.reservationId = input.reservationId ∧
      StepAt s'.meetingProviderSteps res.step.id (res.step.reservationId, res.step.stageKey) ∧
      ∀ claimToken, res.outcome = .claimed → res.claimToken = some claimToken → claimToken = token := by
  simp only [claimMeetingProviderStep, withLocalQuotaMutation, bind_eq_ok] at h
  obtain ⟨user, -, h⟩ := h
  split at h
  · cases h
  rename_i r hr
  obtain ⟨stageKey, hkey, h⟩ := bind_eq_ok.mp h
  obtain ⟨-, hid, -⟩ := findReservationById_spec hr
  cases hcur : findStepByStage (normalizeStore store) r.id stageKey with
  | none =>
    -- a new step
    rw [hcur] at h
    obtain ⟨-, -, h⟩ := bind_eq_ok.mp h
    cases h
    refine ⟨hkey, hid, ⟨_, (mem_insert (x := (_ : MeetingProviderStepRecord)) hfresh).mpr (.inr rfl),
      rfl, rfl⟩, ?_⟩
    rintro claimToken - ⟨⟩
    rfl
  | some step =>
    obtain ⟨hstep, hres, hstage⟩ := findStepByStage_spec hcur
    have hat := stepAt_of_stage hcur
    rw [hcur] at h
    dsimp only [Option.getD_some] at h
    have hsame : stageKeyOf input.stage = .ok step.stageKey ∧
        step.reservationId = input.reservationId := ⟨hkey.trans (by rw [hstage]), hres.trans hid⟩
    split at h
    · cases h
      exact ⟨hsame.1, hsame.2, hat, fun _ ho => by cases ho⟩
    · split at h
      · cases h
        exact ⟨hsame.1, hsame.2, hat, fun _ ho => by cases ho⟩
      · split at h
        · cases h
          exact ⟨hsame.1, hsame.2, hat, fun _ ho => by cases ho⟩
        · obtain ⟨-, -, h⟩ := bind_eq_ok.mp h
          cases h
          refine ⟨hsame.1, hsame.2, stepAt_replace hstep ⟨rfl, rfl⟩ hat, ?_⟩
          rintro claimToken - ⟨⟩
          rfl

theorem complete_answer {input : ProviderStepInput} {res : MeetingProviderStepTransitionResult}
    (h : completeMeetingProviderStep hashToken now userId input store = .ok (res, s'))
    (hr : res.outcome = .completed) :
    ∃ step ∈ s'.meetingProviderSteps, step.id = input.stepId ∧ step.status = .completed := by
  simp only [completeMeetingProviderStep, withLocalQuotaMutation, bind_eq_ok] at h
  obtain ⟨step, hstep, h⟩ := h
  obtain ⟨hmem, hid, -⟩ := findLocalProviderStep_spec hstep
  split at h
  · rename_i hdone
    cases h
    exact ⟨step, hmem, hid, hdone⟩
  · split at h
    · cases h
      cases hr
    · cases h
      exact ⟨_, mem_replace_self hmem rfl, hid, rfl⟩

theorem reconcile_answer {input : ReconcileMeetingProviderStepInput}
    {res : MeetingProviderStepTransitionResult}
    (h : reconcileMeetingProviderStep now userId input store = .ok (res, s')) :
    ∃ step ∈ s'.meetingProviderSteps, step.reservationId = input.reservationId ∧
      stageKeyOf input.stage = .ok step.stageKey ∧ step.status = .completed := by
  simp only [reconcileMeetingProviderStep, withLocalQuotaMutation] at h
  split at h
  · cases h
  rename_i r hr
  obtain ⟨stageKey, hkey, h⟩ := bind_eq_ok.mp h
  obtain ⟨-, hid, -⟩ := findReservationById_spec hr
  split at h
  · cases h
  rename_i step hcur
  obtain ⟨hstep, hres, hstage⟩ := findStepByStage_spec hcur
  have hkey := hkey.trans (congrArg Except.ok hstage.symm)
  split at h
  · cases h
  rename_i hopen
  split at h
  · cases h
    exact ⟨_, mem_replace_self hstep rfl, hres.trans hid, hkey, rfl⟩
  · rename_i hns
    cases h
    refine ⟨step, hstep, hres.trans hid, hkey, ?_⟩
    by_contra hnc
    exact hopen ⟨hns, hnc⟩

end Answers

/-- What the operation of a call answered. -/
theorem answered_ok {s t : Clocked AuthStore} {e : QuotaEvent} {call : QuotaCall} {res : QuotaResult}
    (h : QuotaStep hashToken s e t) (hcall : e.call = call) (hres : e.result = .ok res) :
    freshIn s.store call ∧ execute hashToken e.now call s.store = (.ok res, t.store) := by
  obtain ⟨-, hfresh, hexec, -⟩ := h
  rw [hcall] at hfresh hexec
  rw [hres] at hexec
  exact ⟨hfresh, hexec⟩

theorem change_of_call {s t : Clocked AuthStore} {e : QuotaEvent} {res : QuotaResult}
    (h : QuotaStep hashToken s e t) (hres : e.result = .ok res) : ReservationChange e.call
      s.store.meetingProcessingReservations t.store.meetingProcessingReservations :=
  (reservationChange_of_effect (effect_of_execute hashToken (answered_ok h rfl hres).2)).after
    (normalizeStore_owners _)

theorem error_of_call {s t : Clocked AuthStore} {e : QuotaEvent} {err : AuthError}
    (h : QuotaStep hashToken s e t) (hres : e.result = .error err) :
    t.store.meetingProcessingReservations = s.store.meetingProcessingReservations := by
  obtain ⟨-, -, hexec, -⟩ := h
  rw [hres] at hexec
  rw [execute_error hashToken hexec]

/-- **The local store is a ledger of finalizations.** -/
theorem finalizerLedger : FinalizerLedger hashToken (QuotaStep hashToken) (·.meetingProviderSteps)
    fun s => reservationFor s.meetingProcessingReservations := by
  refine finalizerLedger_of_calls _ _ _ Fencing.changesSteps (fun h => h.2.1) change_of_call
    error_of_call ?_ ?_ ?_ ?_
  · intro s e t userId input newId res h hcall hres
    obtain ⟨hfresh, hexec⟩ := answered_ok h hcall hres
    obtain ⟨⟨r, s'⟩, hok, heq⟩ := map_eq_ok.mp (commit_ok hexec)
    cases heq
    exact ⟨r, rfl, reserve_answer (hfresh.1 newId rfl).1 hok⟩
  · intro s e t userId input newId token res h hcall hres
    obtain ⟨hfresh, hexec⟩ := answered_ok h hcall hres
    obtain ⟨⟨r, s'⟩, hok, heq⟩ := map_eq_ok.mp (commit_ok hexec)
    cases heq
    exact ⟨r, rfl, claim_answer (hfresh.2 newId rfl) hok⟩
  · intro s e t userId input r h hcall hres hr
    obtain ⟨-, hexec⟩ := answered_ok h hcall hres
    obtain ⟨⟨r', s'⟩, hok, heq⟩ := map_eq_ok.mp (commit_ok hexec)
    cases heq
    exact complete_answer hok hr
  · intro s e t userId input r h hcall hres hr
    obtain ⟨-, hexec⟩ := answered_ok h hcall hres
    obtain ⟨⟨r', s'⟩, hok, heq⟩ := map_eq_ok.mp (commit_ok hexec)
    cases heq
    exact reconcile_answer hok

end OwnMinutes.Local.FinalizerLedger
