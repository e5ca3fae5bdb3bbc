import OwnMinutes.Local.Deletion
import OwnMinutes.Local.FinalizerLedger
import OwnMinutes.Quota.Streams

/-! # The streams that the local store counts -/

namespace OwnMinutes.Local.Streams

open OwnMinutes.Lib.Keyed OwnMinutes.Lib.Keyed.Table OwnMinutes.Lib.Outcome OwnMinutes.Lib.Counters
open OwnMinutes.Auth.ProcessingRoute OwnMinutes.Auth.Records OwnMinutes.Auth.QuotaTypes OwnMinutes.Quota.Calls
open OwnMinutes.Quota.Reservations OwnMinutes.Quota.Streams OwnMinutes.Local.Store OwnMinutes.Local.Quota
open OwnMinutes.Local.Calls OwnMinutes.Local.Deletion OwnMinutes.Local.FinalizerLedger

variable {hashToken : ClaimToken → TokenHash} {now : Timestamp} {userId : UserId} {store s s' : AuthStore}

theorem kept_normalizeStore (s : AuthStore) :
    Rewrites Kept s.meetingProcessingReservations (normalizeStore s).meetingProcessingReservations :=
  rewrites_mapRows normalizeLocalProcessingReservation_key fun _ _ =>
    ⟨⟨rfl, rfl, rfl⟩, rfl, rfl, fun h hstatus hpos => le_max_of_le_right (h hstatus hpos)⟩

/-! ### Calls that reserve nothing -/

theorem kept_recording (h : Recording now userId s s') :
    Rewrites Kept s.meetingProcessingReservations s'.meetingProcessingReservations := by
  cases h with
  | recorded | charged => exact Rewrites.refl Kept.refl _
  | finalized _ hr =>
    exact rewrites_replace_mem Kept.refl hr rfl ⟨⟨rfl, rfl, rfl⟩, rfl, rfl, fun _ hstatus => by cases hstatus⟩

theorem kept_of_effect {call : QuotaCall} {res : QuotaResult} (h : Effect hashToken now call s res s')
    (hcall : call.newReservationId? = none) :
    Rewrites Kept s.meetingProcessingReservations s'.meetingProcessingReservations := by
  have hreplace : ∀ {old new : MeetingProcessingReservationRecord}, old ∈ s.meetingProcessingReservations →
      Kept old new → Rewrites Kept s.meetingProcessingReservations (s.meetingProcessingReservations.replace new) :=
    fun hold h => rewrites_replace_mem Kept.refl hold h.id h
  cases h with
  | unchanged => exact Rewrites.refl Kept.refl _
  | reserveNew _ _ hid =>
    rw [hcall] at hid
    cases hid
  | reserveAgain _ _ hsome => exact absurd hcall hsome
  | claimNew _ hr | claimAgain _ hr | start _ _ hr => exact hreplace hr ⟨⟨rfl, rfl, rfl⟩, rfl, rfl, id⟩
  | complete | releaseStep => exact Rewrites.refl Kept.refl _
  | refund _ _ _ hr => exact hreplace hr ⟨⟨rfl, rfl, rfl⟩, rfl, rfl, id⟩
  | @rejectDeleted user step step' s' input _ _ _ _ _ _ _ _ hs' =>
    cases hs'
    dsimp only
    split
    · rename_i r hr
      split_ifs
      · exact hreplace (findReservationById_spec hr).1 ⟨⟨rfl, rfl, rfl⟩, rfl, rfl, id⟩
      · exact Rewrites.refl Kept.refl _
    · exact Rewrites.refl Kept.refl _
  | releaseReservation _ _ hr => exact hreplace hr ⟨⟨rfl, rfl, rfl⟩, rfl, rfl, id⟩
  | @record input newId mid user hcall hmid huser =>
    rw [(refresh_rows now (normalizeStore mid) user).reservations]
    exact (kept_recording (recording_of_ok hmid)).trans (fun _ _ _ => Kept.trans) (kept_normalizeStore mid)

/-! ### Calls that reserve -/

/-- The target is at least what is asked for and what is reserved. -/
theorem reserveLocalOfficialCapacity_target {user : UserRecord} {r : MeetingProcessingReservationRecord}
    {targetMinutes target : ℤ} (h : reserveLocalOfficialCapacity s user r targetMinutes now = .ok target) :
    targetMinutes ≤ target ∧ r.officialMinutesReserved ≤ target := by
  unfold reserveLocalOfficialCapacity at h
  dsimp only at h
  split at h
  · cases h
  · cases h
    exact ⟨le_max_of_le_right (le_max_right _ _), le_max_left _ _⟩

theorem streamChange_reserveRealtime {newId : ReservationId} {input : ReserveRealtimeQuotaInput}
    {claim : RealtimeQuotaClaim} (hmetered : ∀ r ∈ store.meetingProcessingReservations, Metered r)
    (h : reserveMeetingRealtimeQuota now newId userId input store = .ok (claim, s')) :
    StreamChange (some newId) (claimedChunk ⟨now, .reserveRealtime userId input newId, .ok (.realtime claim)⟩)
      store.meetingProcessingReservations s'.meetingProcessingReservations := by
  refine StreamChange.after (kept_normalizeStore store) ?_
  have hmetered := metered_kept (kept_normalizeStore store) hmetered
  simp only [reserveMeetingRealtimeQuota, withLocalQuotaMutation, bind_eq_ok] at h
  obtain ⟨user, huser, _, hmeeting, -, -, h⟩ := h
  obtain ⟨hopen, h⟩ := guard_eq_ok.mp h
  obtain ⟨hsequence, h⟩ := guard_eq_ok.mp h
  obtain ⟨target, htarget, h⟩ := bind_eq_ok.mp h
  have hid : user.id = userId := (findActiveUser_spec (findLocalQuotaUser_ok.mp huser)).2.1
  have hcovers := (reserveLocalOfficialCapacity_target htarget).1
  cases hcur : findReservationByKey (normalizeStore store) userId input.operationKey with
  | none =>
    rw [hcur] at h hcovers
    cases h
    subst hid
    refine .first (i := ⟨input.sequence, chunkMs input.durationMs⟩) (Rewrites.refl Kept.refl _) rfl hcur ?_
      (chunkMs_pos _) (fun _ _ => hcovers) rfl
    exact congrArg (Counter.mk input.sequence) (zero_add (chunkMs input.durationMs))
  | some before =>
    obtain ⟨hmem, -, -⟩ := findReservationByKey_spec hcur
    have hmeeting : before.meetingId = input.meetingId := by
      rw [hcur] at hmeeting
      simpa using (guard_eq_ok.mp hmeeting).1
    have hstreamed : max 0 before.realtimeDurationMs = before.realtimeDurationMs :=
      max_eq_right (hmetered before hmem).streamed
    rw [hcur] at h hcovers hsequence
    by_cases hduplicate : input.sequence ≤ before.realtimeHighestSequence
    · simp only [Option.isSome_some, Option.map_some, Option.getD_some, hduplicate, decide_true, Bool.and_self, if_true,
        hstreamed] at h hcovers
      cases h
      exact streamChange_replace hmem ⟨⟨rfl, rfl, rfl⟩, rfl, rfl, fun _ _ _ => hcovers⟩
    · simp only [Option.isSome_some, Option.map_some, Option.getD_some, hduplicate, decide_false, Bool.and_false, if_false,
        if_true, Bool.false_eq_true, Bool.not_false, Bool.true_and, bne_iff_ne, ne_eq, not_not] at h hcovers hsequence
      cases h
      refine .next (k := (userId, input.operationKey)) (i := ⟨input.sequence, chunkMs input.durationMs⟩)
        (Rewrites.refl Kept.refl _) hcur ⟨rfl, rfl, rfl⟩ rfl hsequence (chunkMs_pos _) rfl (fun _ _ => hcovers) ?_
      exact congrArg (fun meetingId => some (ClaimedChunk.mk (userId, input.operationKey) meetingId ⟨input.sequence,
        chunkMs input.durationMs⟩)) hmeeting.symm

theorem streamChange_reserveFinalization {newId : ReservationId} {input : ReserveFinalizationQuotaInput}
    {res : MeetingProcessingReservation}
    (h : reserveMeetingFinalizationQuota now newId userId input store = .ok (res, s')) :
    StreamChange (some newId) none store.meetingProcessingReservations s'.meetingProcessingReservations := by
  refine StreamChange.after (kept_normalizeStore store) ?_
  simp only [reserveMeetingFinalizationQuota, withLocalQuotaMutation, bind_eq_ok] at h
  obtain ⟨user, huser, -, -, -, -, h⟩ := h
  split at h
  · cases h
    exact streamChange_same _ _
  · obtain ⟨target, htarget, h⟩ := bind_eq_ok.mp h
    have hkeeps := (reserveLocalOfficialCapacity_target htarget).2
    cases hcur : findReservationByKey (normalizeStore store) userId input.operationKey with
    | none =>
      rw [hcur] at h
      cases h
      exact .opened (Rewrites.refl Kept.refl _) rfl rfl rfl
    | some before =>
      rw [hcur] at h hkeeps
      cases h
      exact streamChange_replace (findReservationByKey_spec hcur).1
        ⟨⟨rfl, rfl, rfl⟩, rfl, rfl, fun hcovered hstatus hpos => (hcovered hstatus hpos).trans hkeeps⟩

/-! ### Calls -/

theorem streamChange_of_execute {call : QuotaCall} {res : Except AuthError QuotaResult}
    (hmetered : ∀ r ∈ store.meetingProcessingReservations, Metered r)
    (h : execute hashToken now call store = (res, s')) :
    StreamChange call.newReservationId? (claimedChunk ⟨now, call, res⟩) store.meetingProcessingReservations
      s'.meetingProcessingReservations := by
  cases res with
  | error e =>
    obtain rfl : s' = store := execute_error hashToken h
    rw [claimedChunk_error]
    exact streamChange_same _ _
  | ok res =>
    have heffect : Effect hashToken now call (normalizeStore store) res s' := effect_of_execute hashToken h
    have hkept : call.newReservationId? = none →
        StreamChange call.newReservationId? none store.meetingProcessingReservations s'.meetingProcessingReservations :=
      fun hnone => .kept ((kept_normalizeStore store).trans (fun _ _ _ => Kept.trans) (kept_of_effect heffect hnone)) rfl
    cases call with
    | reserveRealtime userId input newId =>
      obtain ⟨⟨claim, t⟩, hreserve, ht⟩ := map_eq_ok.mp (commit_ok h)
      cases ht
      exact streamChange_reserveRealtime hmetered hreserve
    | reserveFinalization userId input newId =>
      obtain ⟨⟨reservation, t⟩, hreserve, ht⟩ := map_eq_ok.mp (commit_ok h)
      cases ht
      exact streamChange_reserveFinalization hreserve
    | claim | start | complete | reconcile | releaseStep | reject | releaseReservation => exact hkept rfl
    | recordUsage => exact hkept rfl

theorem streamLedger : StreamLedger (QuotaStep hashToken) (·.meetingProcessingReservations) where
  fresh _ _ _ hstep id hid := (hstep.2.1.1 id hid).1
  change _ _ _ hmetered hstep := streamChange_of_execute hmetered hstep.2.2.1

/-! ### Purges -/

def PurgeStep (s : Clocked AuthStore) (p : LedgerPurge) (t : Clocked AuthStore) : Prop :=
  s.clock ≤ t.clock ∧
    match p with
    | .meeting userId meetingId => t.store = purgeMeetingProcessingLedger userId meetingId s.store
    | .account userId => deleteAccount t.clock userId s.store = .ok t.store ∨
        t.store = (reconcileLocalAccountDeletionProcessing t.clock userId s.store).2

/-- A purge that removes nothing. -/
theorem purgeChange_kept {p : LedgerPurge} {old new : Table MeetingProcessingReservationRecord} (h : Rewrites Kept old new) :
    PurgeChange p old new := by
  have hall : new.removeWhere (fun _ => false) = new := Table.ext_rows (List.filter_eq_self.mpr fun _ _ => rfl)
  rw [← hall]
  exact .removed h fun _ _ hremoved => Bool.noConfusion hremoved

theorem purgeChange_account {userId : UserId} :
    PurgeChange (.account userId) store.meetingProcessingReservations
      ((normalizeStore store).meetingProcessingReservations.removeWhere (·.userId == userId)) :=
  .removed (kept_normalizeStore store) fun _ _ h => beq_iff_eq.mpr (beq_iff_eq.mp h).symm

theorem purgeLedger : PurgeLedger (·.meetingProcessingReservations) PurgeStep := by
  intro s p t ⟨_, hpurge⟩
  cases p with
  | meeting userId meetingId =>
    rw [show t.store = _ from hpurge]
    refine .removed (kept_normalizeStore s.store) fun r _ h => ?_
    obtain ⟨huser, hmeeting⟩ := Bool.and_eq_true_iff.mp h
    exact Bool.and_eq_true_iff.mpr ⟨beq_iff_eq.mpr (beq_iff_eq.mp huser).symm, beq_iff_eq.mpr (beq_iff_eq.mp hmeeting).symm⟩
  | account userId =>
    rcases hpurge with hdeleted | hreconciled
    · unfold deleteAccount at hdeleted
      dsimp only at hdeleted
      split at hdeleted
      · cases hdeleted
      · rw [← Except.ok.inj hdeleted]
        dsimp only
        split
        · exact purgeChange_kept (kept_normalizeStore s.store)
        · exact purgeChange_account
    · rw [hreconciled]
      unfold reconcileLocalAccountDeletionProcessing
      dsimp only
      split
      · exact purgeChange_kept (Rewrites.refl Kept.refl _)
      · split_ifs
        · exact purgeChange_kept (Rewrites.refl Kept.refl _)
        · exact purgeChange_account

end OwnMinutes.Local.Streams
