import Mathlib.Algebra.BigOperators.Group.List.Lemmas
import Mathlib.Algebra.Order.BigOperators.Group.List
import OwnMinutes.Audio.LeaseSteps
import OwnMinutes.Audio.Phases

/-! # The budget of uploads

A call that takes stock of the leases of its user holds the user's lock until it has written its own, so that
what it counted covers every lease that still counts (`Measured`). As long as the other writers of a lease
only renew one that counts, the leases of a user stay within the policy (`budget_run`). -/

namespace OwnMinutes.Audio.UploadBudget

open OwnMinutes.Auth.ProcessingRoute OwnMinutes.Auth.Records OwnMinutes.Lib.Crash OwnMinutes.Lib.Runs
open OwnMinutes.Audio.Records OwnMinutes.Audio.Store OwnMinutes.Audio.Runs OwnMinutes.Audio.Sections
open OwnMinutes.Audio.Changes OwnMinutes.Audio.Phases OwnMinutes.Audio.Replays OwnMinutes.Audio.Leases
open OwnMinutes.Audio.LeaseSteps

variable {H : Hashing} {policy : RecordingUploadResourcePolicy} {s t : AudioWorld}

/-! ### The calls and the locks of users -/

/-- What a call has counted, and the meetings that it still has to look at. -/
def Phase.measure? : Phase → Option (PartInput × List MeetingId × UploadUsage)
  | .sweeping input meetingIds usage | .sweepingLease input _ meetingIds usage
  | .sweepingStaged input _ meetingIds usage => some (input, meetingIds, usage)
  | .reserving input (some usage) => some (input, [], usage)
  | _ => none

variable {input : PartInput} {meetingIds : List MeetingId} {usage : UploadUsage}

theorem user?_of_measure {phase : Phase} (h : Phase.measure? phase = some (input, meetingIds, usage)) :
    phase.user? = some input.ownerUserId := by
  cases phase with
  | reserving input' usage' =>
    cases usage' with
    | none => cases h
    | some usage' =>
      cases h
      rfl
  | sweeping | sweepingLease | sweepingStaged =>
    cases h
    rfl
  | _ => cases h

theorem measure_withDeletion (phase : Phase) (deletion : Deletion) :
    Phase.measure? (phase.withDeletion deletion) = Phase.measure? phase := by
  cases phase <;> rfl

/-- What a move of a call does to what it has counted. -/
inductive MeasureMove (policy : RecordingUploadResourcePolicy) (s : AudioWorld) (e : AudioEvent)
    (phase phase' : Phase) : Prop
  | none (h : Phase.measure? phase' = none) : MeasureMove policy s e phase phase'
  | same (h : Phase.measure? phase' = Phase.measure? phase) : MeasureMove policy s e phase phase'
  | begins {callId : CallId} {input : PartInput} {meetingIds : List MeetingId}
      (hevent : e = .beginPart callId input meetingIds)
      (h : Phase.measure? phase' = some (input, meetingIds, [])) : MeasureMove policy s e phase phase'
  | visits {input : PartInput} {meetingId : MeetingId} {meetingIds : List MeetingId}
      {usage usage' : UploadUsage}
      (hphase : Phase.measure? phase = some (input, meetingId :: meetingIds, usage))
      (h : Phase.measure? phase' = some (input, meetingIds, usage'))
      (husage : usage' = usage ∧ liveLease policy s input.ownerUserId meetingId = Option.none ∨
        ∃ lease, leaseOf s input.ownerUserId meetingId = some lease ∧
          usage' = usage.set (meetingId, lease.uploadId) lease.totalBytes) :
      MeasureMove policy s e phase phase'

/-- The loop of a sweep looks at the next meeting. -/
theorem measure_sweepNext {callId : CallId} :
    MeasureMove policy s (.sweepNext callId) (.sweeping input meetingIds usage)
      ((stepSweepNext policy s callId input usage meetingIds).calls callId) := by
  unfold stepSweepNext
  cases meetingIds with
  | nil =>
    refine .same ?_
    rw [AudioWorld.setPhase_calls, Function.update_self]
    rfl
  | cons meetingId meetingIds =>
    have hlive : ∀ m, (s.meetings meetingId).manifest.map normalizeManifest = some m →
        (m.ownerUserId ≠ some input.ownerUserId ∨
          ∀ lease, m.recordingUpload = some lease →
            isRecordingUploadStale policy s.now lease.updatedAt = true) →
        liveLease policy s input.ownerUserId meetingId = none := by
      intro m hm hstale
      refine Option.eq_none_iff_forall_ne_some.mpr fun lease hlease => ?_
      obtain ⟨hlease, hcounts⟩ := Option.filter_eq_some_iff.mp hlease
      obtain ⟨m', hm', howner, hlease⟩ := leaseOf_eq_some.mp hlease
      rw [hm] at hm'
      cases hm'
      rcases hstale with hother | hstale
      · exact hother howner
      · rw [hstale lease hlease] at hcounts
        cases hcounts
    dsimp only
    split
    · rename_i m lease hm hlease
      rw [hm, Option.bind_some] at hlease
      split_ifs with hstale howner
      · rw [AudioWorld.setPhase_calls, Function.update_self]
        refine .visits rfl rfl (.inl ⟨rfl, hlive m hm (.inr fun lease' h => ?_)⟩)
        rw [hlease] at h
        cases h
        exact hstale
      · rw [AudioWorld.setPhase_calls, Function.update_self]
        exact .visits rfl rfl (.inr ⟨lease, leaseOf_eq_some.mpr ⟨m, hm, howner, hlease⟩, rfl⟩)
      · rw [AudioWorld.setPhase_calls, Function.update_self]
        exact .visits rfl rfl (.inl ⟨rfl, hlive m hm (.inl howner)⟩)
    · rename_i hnone
      rw [AudioWorld.setPhase_calls, Function.update_self]
      refine .visits rfl rfl (.inl ⟨rfl, ?_⟩)
      refine Option.eq_none_iff_forall_ne_some.mpr fun lease hlease => ?_
      obtain ⟨hlease, -⟩ := Option.filter_eq_some_iff.mp hlease
      obtain ⟨m, hm, -, hlease⟩ := leaseOf_eq_some.mp hlease
      exact hnone m lease hm (by rw [hm, Option.bind_some, hlease])

theorem measure_move {e : AudioEvent} {callId : CallId} {phase phase' : Phase}
    (h : PhaseMove H policy s callId e phase phase') : MeasureMove policy s e phase phase' := by
  cases h with
  | stays | swept | sweepsStaged | leaves => exact .same rfl
  | sweeping => exact .begins rfl rfl
  | looks => exact measure_sweepNext
  | lists | removes => exact .same (measure_withDeletion _ _)
  | _ => exact .none rfl

/-! ### What a call has counted -/

/-- A lease counts after a step that kept it only if it did before. -/
theorem live_of_kept {userId : UserId} {meetingId : MeetingId} {lease : RecordingUploadLease}
    (hnow : s.now ≤ t.now) (hkept : leaseOf t userId meetingId = none ∨
      leaseOf t userId meetingId = leaseOf s userId meetingId)
    (hlive : liveLease policy t userId meetingId = some lease) :
    liveLease policy s userId meetingId = some lease := by
  obtain ⟨hlease, hcounts⟩ := Option.filter_eq_some_iff.mp hlive
  rcases hkept with hnone | hsame
  · rw [hnone] at hlease
    cases hlease
  · rw [hsame] at hlease
    refine Option.filter_eq_some_iff.mpr ⟨hlease, ?_⟩
    rw [Bool.not_eq_true', Bool.eq_false_iff] at hcounts ⊢
    exact fun hstale => hcounts (isRecordingUploadStale_mono hnow hstale)

/-- Every lease that counts is counted, or its meeting is still to be looked at. -/
def Measured (policy : RecordingUploadResourcePolicy) (s : AudioWorld) (userId : UserId)
    (meetingIds : List MeetingId) (usage : UploadUsage) : Prop :=
  ∀ meetingId lease, liveLease policy s userId meetingId = some lease →
    meetingId ∈ meetingIds ∨ ((meetingId, lease.uploadId), lease.totalBytes) ∈ usage

theorem Measured.mono {userId : UserId} (h : Measured policy s userId meetingIds usage)
    (hlive : ∀ meetingId lease, liveLease policy t userId meetingId = some lease →
      liveLease policy s userId meetingId = some lease) : Measured policy t userId meetingIds usage :=
  fun meetingId lease hlease => h meetingId lease (hlive meetingId lease hlease)

theorem mem_set {key : MeetingId × UploadId} {bytes : ℕ} {entry : (MeetingId × UploadId) × ℕ} :
    entry ∈ usage.set key bytes ↔ entry = (key, bytes) ∨ entry ∈ usage ∧ entry.1 ≠ key := by
  unfold UploadUsage.set
  rw [List.mem_cons, List.mem_filter, decide_eq_true_iff]

theorem measured_visit {userId : UserId} {meetingId : MeetingId} {usage' : UploadUsage}
    (h : Measured policy s userId (meetingId :: meetingIds) usage)
    (husage : usage' = usage ∧ liveLease policy s userId meetingId = none ∨
      ∃ lease, leaseOf s userId meetingId = some lease ∧
        usage' = usage.set (meetingId, lease.uploadId) lease.totalBytes) :
    Measured policy s userId meetingIds usage' := by
  intro id lease hlease
  rcases husage with ⟨rfl, hnone⟩ | ⟨visited, hvisited, rfl⟩
  · rcases h id lease hlease with hmem | hcounted
    · rcases List.mem_cons.mp hmem with rfl | hmem
      · rw [hnone] at hlease
        cases hlease
      · exact .inl hmem
    · exact .inr hcounted
  · by_cases hid : id = meetingId
    · subst hid
      obtain ⟨hsome, -⟩ := Option.filter_eq_some_iff.mp hlease
      rw [hvisited] at hsome
      cases hsome
      exact .inr (mem_set.mpr (.inl rfl))
    · rcases h id lease hlease with hmem | hcounted
      · exact .inl ((List.mem_cons.mp hmem).resolve_left hid)
      · exact .inr (mem_set.mpr (.inr ⟨hcounted, fun hkey => hid (congrArg Prod.fst hkey)⟩))

/-! ### The budget -/

/-- The bytes of a lease that counts. -/
def liveBytes (policy : RecordingUploadResourcePolicy) (s : AudioWorld) (userId : UserId)
    (meetingId : MeetingId) : ℕ :=
  ((liveLease policy s userId meetingId).map (·.totalBytes)).getD 0

/-- The leases of a user that count, on whatever meetings, are as many and as large as the policy allows. -/
def WithinBudget (policy : RecordingUploadResourcePolicy) (s : AudioWorld) (userId : UserId) : Prop :=
  ∀ meetingIds : List MeetingId, meetingIds.Nodup →
    (∀ meetingId ∈ meetingIds, (liveLease policy s userId meetingId).isSome) →
    meetingIds.length ≤ policy.maxActiveUploadsPerUser ∧
      (meetingIds.map (liveBytes policy s userId)).sum ≤ policy.maxStagedBytesPerUser

theorem liveBytes_of_some {userId : UserId} {meetingId : MeetingId} {lease : RecordingUploadLease}
    (h : liveLease policy s userId meetingId = some lease) :
    liveBytes policy s userId meetingId = lease.totalBytes := by
  unfold liveBytes
  rw [h]
  rfl

/-- Fewer and smaller leases. -/
theorem WithinBudget.mono {userId : UserId} (h : WithinBudget policy s userId)
    (hlive : ∀ meetingId lease', liveLease policy t userId meetingId = some lease' →
      ∃ lease, liveLease policy s userId meetingId = some lease ∧ lease'.totalBytes ≤ lease.totalBytes) :
    WithinBudget policy t userId := by
  intro meetingIds hnodup hcount
  have hbefore : ∀ meetingId ∈ meetingIds, (liveLease policy s userId meetingId).isSome ∧
      liveBytes policy t userId meetingId ≤ liveBytes policy s userId meetingId := by
    intro meetingId hmem
    obtain ⟨lease', hlease'⟩ := Option.isSome_iff_exists.mp (hcount meetingId hmem)
    obtain ⟨lease, hlease, hle⟩ := hlive meetingId lease' hlease'
    rw [liveBytes_of_some hlease', liveBytes_of_some hlease, hlease]
    exact ⟨rfl, hle⟩
  obtain ⟨hlength, hbytes⟩ := h meetingIds hnodup fun meetingId hmem => (hbefore meetingId hmem).1
  refine ⟨hlength, le_trans (List.sum_le_sum fun meetingId hmem => ?_) hbytes⟩
  exact (hbefore meetingId hmem).2

/-- What is counted without an upload, and what is counted of it. -/
theorem usage_without (usage : UploadUsage) (key : MeetingId × UploadId) :
    (usage.filter (·.1 ≠ key)).length + (if (usage.get? key).isSome then 1 else 0) ≤ usage.length ∧
      ((usage.filter (·.1 ≠ key)).map Prod.snd).sum + (usage.get? key).getD 0 ≤ usage.reservedBytes := by
  unfold UploadUsage.reservedBytes UploadUsage.get?
  induction usage with
  | nil => exact ⟨le_rfl, le_rfl⟩
  | cons entry usage ih =>
    rw [List.find?_cons, List.length_cons, List.map_cons, List.sum_cons]
    by_cases hkey : entry.1 = key
    · have hlength : (usage.filter (·.1 ≠ key)).length ≤ usage.length := List.length_filter_le _ _
      have hsum : ((usage.filter (·.1 ≠ key)).map Prod.snd).sum ≤ (usage.map Prod.snd).sum :=
        (List.filter_sublist.map Prod.snd).sum_le_sum fun _ _ => Nat.zero_le _
      rw [List.filter_cons_of_neg (by simpa using hkey), beq_iff_eq.mpr hkey]
      constructor
      · simpa using hlength
      · simpa [add_comm] using hsum
    · rw [List.filter_cons_of_pos (by simpa using hkey), beq_eq_false_iff_ne.mpr hkey,
        List.length_cons, List.map_cons, List.sum_cons]
      obtain ⟨hlength, hsum⟩ := ih
      constructor
      · dsimp only
        omega
      · dsimp only
        omega

/-- The leases on other meetings are among what was counted besides the upload. -/
theorem counted_others {userId : UserId} (key : MeetingId × UploadId) (hmeasured : Measured policy s userId [] usage)
    (hnodup : meetingIds.Nodup) (hne : ∀ meetingId ∈ meetingIds, meetingId ≠ key.1)
    (hcount : ∀ meetingId ∈ meetingIds, (liveLease policy s userId meetingId).isSome) :
    meetingIds.length ≤ (usage.filter (·.1 ≠ key)).length ∧
      (meetingIds.map (liveBytes policy s userId)).sum ≤
        ((usage.filter (·.1 ≠ key)).map Prod.snd).sum := by
  let entry (meetingId : MeetingId) : (MeetingId × UploadId) × ℕ :=
    ((meetingId, ((liveLease policy s userId meetingId).map (·.uploadId)).getD ""),
      liveBytes policy s userId meetingId)
  have hentries : (meetingIds.map entry).Nodup :=
    hnodup.map fun _ _ h => congrArg (fun e => e.1.1) h
  have hsubset : meetingIds.map entry ⊆ usage.filter (·.1 ≠ key) := by
    intro e he
    obtain ⟨meetingId, hmem, rfl⟩ := List.mem_map.mp he
    obtain ⟨lease, hlease⟩ := Option.isSome_iff_exists.mp (hcount meetingId hmem)
    have hentry : entry meetingId = ((meetingId, lease.uploadId), lease.totalBytes) := by
      change ((meetingId, _), _) = _
      rw [hlease, liveBytes_of_some hlease]
      rfl
    rw [List.mem_filter, hentry, decide_eq_true_iff]
    refine ⟨(hmeasured meetingId lease hlease).resolve_left List.not_mem_nil, fun hkey => ?_⟩
    exact hne meetingId hmem (congrArg Prod.fst hkey)
  obtain ⟨sub, hperm, hsub⟩ := List.subperm_of_subset hentries hsubset
  have hlength := hperm.length_eq
  have hsum := (hperm.map Prod.snd).sum_eq
  rw [List.length_map] at hlength
  rw [List.map_map] at hsum
  constructor
  · rw [← hlength]
    exact hsub.length_le
  · have hbytes : (meetingIds.map (liveBytes policy s userId)).sum =
        (meetingIds.map (Prod.snd ∘ entry)).sum := rfl
    rw [hbytes, ← hsum]
    exact (hsub.map Prod.snd).sum_le_sum fun _ _ => Nat.zero_le _

theorem violation_none {usage : RecordingUploadUsage}
    (h : recordingUploadResourceViolation policy usage = none) :
    usage.activeUploads ≤ policy.maxActiveUploadsPerUser ∧
      usage.stagedBytes ≤ policy.maxStagedBytesPerUser := by
  unfold recordingUploadResourceViolation at h
  split_ifs at h with hactive hstaged
  exact ⟨not_lt.mp hactive, not_lt.mp hstaged⟩

theorem budget_ok (h : assertRecordingUploadBudget policy (some usage) input = .ok ()) :
    usage.length + (if (usage.get? (input.meetingId, input.metadata.uploadId)).isSome then 0 else 1) ≤
        policy.maxActiveUploadsPerUser ∧
      usage.reservedBytes - (usage.get? (input.meetingId, input.metadata.uploadId)).getD 0 +
        input.metadata.totalBytes ≤ policy.maxStagedBytesPerUser := by
  unfold assertRecordingUploadBudget at h
  dsimp only at h
  split at h
  · cases h
  · rename_i hnone
    exact violation_none hnone

/-- A lease that was checked against all others fits the budget. -/
theorem budget_reserved {userId : UserId} {lease : RecordingUploadLease}
    (hmeasured : Measured policy s userId [] usage)
    (hnew : NewLease policy (some usage) input (s.meetings input.meetingId) lease)
    (hlease : leaseOf t userId input.meetingId = some lease) (hnow : s.now ≤ t.now)
    (hothers : ∀ meetingId ≠ input.meetingId, leaseOf t userId meetingId = leaseOf s userId meetingId) :
    WithinBudget policy t userId := by
  obtain ⟨hactive, hstaged⟩ := budget_ok hnew.budget
  obtain ⟨hlength, hbytes⟩ := usage_without usage (input.meetingId, input.metadata.uploadId)
  have hbefore : ∀ meetingId lease', meetingId ≠ input.meetingId →
      liveLease policy t userId meetingId = some lease' →
      liveLease policy s userId meetingId = some lease' :=
    fun meetingId lease' hne hlive => live_of_kept hnow (.inr (hothers meetingId hne)) hlive
  intro meetingIds hnodup hcount
  -- the meeting of the call, if it is among them, and the others
  have hrest : ∀ meetingId ∈ meetingIds.erase input.meetingId,
      meetingId ≠ input.meetingId ∧ (liveLease policy s userId meetingId).isSome ∧
        liveBytes policy t userId meetingId = liveBytes policy s userId meetingId := by
    intro meetingId hmem
    have hne : meetingId ≠ input.meetingId := ((List.Nodup.mem_erase_iff hnodup).mp hmem).1
    obtain ⟨lease', hlive⟩ := Option.isSome_iff_exists.mp (hcount meetingId (List.mem_of_mem_erase hmem))
    have hsame := hbefore meetingId lease' hne hlive
    rw [liveBytes_of_some hlive, liveBytes_of_some hsame, hsame]
    exact ⟨hne, rfl, rfl⟩
  have hbound := counted_others (input.meetingId, input.metadata.uploadId) hmeasured
    (hnodup.erase input.meetingId) (fun meetingId hmem => (hrest meetingId hmem).1)
    fun meetingId hmem => (hrest meetingId hmem).2.1
  rw [← List.map_congr_left fun meetingId hmem => (hrest meetingId hmem).2.2] at hbound
  have hself : liveBytes policy t userId input.meetingId ≤ input.metadata.totalBytes := by
    cases hlive : liveLease policy t userId input.meetingId with
    | none =>
      unfold liveBytes
      rw [hlive]
      exact Nat.zero_le _
    | some lease' =>
      obtain ⟨hsome, -⟩ := Option.filter_eq_some_iff.mp hlive
      rw [hlease] at hsome
      cases hsome
      rw [liveBytes_of_some hlive, hnew.totalBytes]
  have hsplit : meetingIds.length ≤ (meetingIds.erase input.meetingId).length + 1 ∧
      (meetingIds.map (liveBytes policy t userId)).sum ≤
        ((meetingIds.erase input.meetingId).map (liveBytes policy t userId)).sum +
          input.metadata.totalBytes := by
    by_cases hmem : input.meetingId ∈ meetingIds
    · have hperm := List.perm_cons_erase hmem
      have hsum := (hperm.map (liveBytes policy t userId)).sum_eq
      rw [List.map_cons, List.sum_cons] at hsum
      rw [hperm.length_eq, List.length_cons]
      exact ⟨le_rfl, by omega⟩
    · rw [List.erase_of_not_mem hmem]
      exact ⟨Nat.le_succ _, Nat.le_add_right _ _⟩
  constructor
  · split_ifs at hactive hlength <;> omega
  · omega

/-! ### The budget over a run -/

/-- What holds for the uploads of a user between two steps. -/
structure UploadInv (policy : RecordingUploadResourcePolicy) (userId : UserId) (s : AudioWorld) :
    Prop where
  owned : AllOwned s
  held : UsersHeld s
  measured : ∀ callId input meetingIds usage,
    Phase.measure? (s.calls callId) = some (input, meetingIds, usage) → input.ownerUserId = userId →
      Measured policy s userId meetingIds usage
  budget : WithinBudget policy s userId

/-- While a call of a user takes stock, no lease of the user is written. -/
theorem live_of_measuring {userId : UserId} {callId : CallId} {e : AudioEvent × Option Answer}
    (hstep : AudioStep H policy s e t) (hs : UsersHeld s)
    (heffect : LeaseEffect policy s e.1 t userId) (huser : (t.calls callId).user? = some userId)
    (meetingId : MeetingId) (lease : RecordingUploadLease)
    (hlive : liveLease policy t userId meetingId = some lease) :
    liveLease policy s userId meetingId = some lease := by
  cases heffect with
  | kept hkept => exact live_of_kept (step_objects hstep).now (hkept meetingId) hlive
  | @reserved other input usage _ hphase howner _ _ _ hdone =>
    -- the call that reserves gives its lock back, and another cannot have it before
    have hother : (s.calls other).user? = some userId := by
      rw [hphase, ← howner]
      rfl
    have hne : callId ≠ other := by
      rintro rfl
      rw [hdone] at huser
      cases huser
    rcases step_calls hstep with ⟨-, hsame⟩ | ⟨moved, -, hmove⟩
    · rw [hsame.calls, hother] at hdone
      cases hdone
    · have hmoved : moved = other := by
        by_contra hid
        rw [hmove.others other (Ne.symm hid), hother] at hdone
        cases hdone
      rw [hmove.others callId (hmoved ▸ hne)] at huser
      exact absurd (hs.unique huser hother) hne
  | renewed hfree hevent =>
    have hfree' : t.userLocks userId = none := by
      rcases step_calls hstep with ⟨-, hsame⟩ | ⟨moved, -, hmove⟩
      · rw [hsame.users, hfree]
      · exact hmove.user.free hfree fun h => user?_of_move hmove.phase hevent h
    rw [(usersHeld_step hstep hs callId userId).mp huser] at hfree'
    cases hfree'

theorem measured_step {userId : UserId} {e : AudioEvent × Option Answer}
    (hstep : AudioStep H policy s e t) (hs : UploadInv policy userId s)
    (heffect : LeaseEffect policy s e.1 t userId) (callId : CallId) (input : PartInput)
    (meetingIds : List MeetingId) (usage : UploadUsage)
    (hmeasure : Phase.measure? (t.calls callId) = some (input, meetingIds, usage))
    (howner : input.ownerUserId = userId) : Measured policy t userId meetingIds usage := by
  have huser : (t.calls callId).user? = some userId := by
    rw [user?_of_measure hmeasure, howner]
  refine Measured.mono ?_ (live_of_measuring hstep hs.held heffect huser)
  have hbefore : Phase.measure? (t.calls callId) = Phase.measure? (s.calls callId) →
      Measured policy s userId meetingIds usage := by
    intro hsame
    rw [hsame] at hmeasure
    exact hs.measured callId input meetingIds usage hmeasure howner
  rcases step_calls hstep with ⟨-, hsame⟩ | ⟨moved, -, hmove⟩
  · exact hbefore (by rw [hsame.calls])
  by_cases hid : callId = moved
  · subst hid
    cases measure_move hmove.phase with
    | none h =>
      rw [h] at hmeasure
      cases hmeasure
    | same h => exact hbefore h
    | begins hevent h =>
      rw [h] at hmeasure
      cases hmeasure
      have hadmissible := hstep.1
      rw [hevent] at hadmissible
      intro meetingId lease hlease
      obtain ⟨hlease, -⟩ := Option.filter_eq_some_iff.mp hlease
      rw [← howner] at hlease
      exact .inl (hadmissible.2 meetingId (Option.isSome_iff_exists.mpr ⟨lease, hlease⟩))
    | visits hphase h husage =>
      rw [h] at hmeasure
      cases hmeasure
      exact measured_visit (hs.measured callId input _ _ hphase howner) (howner ▸ husage)
  · exact hbefore (by rw [hmove.others callId hid])

theorem budget_step {userId : UserId} {e : AudioEvent} (hs : UploadInv policy userId s)
    (hnow : s.now ≤ t.now) (heffect : LeaseEffect policy s e t userId) :
    WithinBudget policy t userId := by
  cases heffect with
  | kept hkept =>
    exact hs.budget.mono fun meetingId lease hlive =>
      ⟨lease, live_of_kept hnow (hkept meetingId) hlive, le_rfl⟩
  | @reserved callId input usage lease hphase howner hnew hlease hothers =>
    have hmeasured : Measured policy s userId [] usage := by
      refine hs.measured callId input [] usage ?_ howner
      rw [hphase]
      rfl
    exact budget_reserved hmeasured hnew hlease hnow hothers
  | @renewed meetingId lease _ _ hlease hcovers hothers =>
    refine hs.budget.mono fun other lease' hlive => ?_
    by_cases hid : other = meetingId
    · subst hid
      obtain ⟨hlease', -⟩ := Option.filter_eq_some_iff.mp hlive
      rw [hlease] at hlease'
      cases hlease'
      exact hcovers
    · exact ⟨lease', live_of_kept hnow (.inr (hothers other hid)) hlive, le_rfl⟩

/-- What a step keeps. -/
theorem uploadInv_step {userId : UserId} {step : AudioEvent × Option Answer}
    (hs : UploadInv policy userId s) (hstep : AudioStep H policy s step t)
    (hchecked : LeaseChecked policy s step.1) : UploadInv policy userId t := by
  obtain ⟨howned, heffects⟩ := step_leases hstep hs.owned hchecked
  exact ⟨howned, usersHeld_step hstep hs.held, measured_step hstep hs (heffects userId),
    budget_step hs (step_objects hstep).now (heffects userId)⟩

/-- No call is under way, and the leases that are there fit the budget of the user. -/
structure Resting (policy : RecordingUploadResourcePolicy) (userId : UserId) (s : AudioWorld) : Prop
    extends Quiet s where
  owned : AllOwned s
  budget : WithinBudget policy s userId

theorem Resting.uploadInv {userId : UserId} (h : Resting policy userId s) :
    UploadInv policy userId s := by
  refine ⟨h.owned, h.usersHeld, fun callId input meetingIds usage hmeasure _ => ?_, h.budget⟩
  rw [h.idle callId] at hmeasure
  cases hmeasure

/-- **The budget of a user is kept** over every run in which a lease is written after a look at the budget or
renews one that still counts. -/
theorem uploads_within_budget {userId : UserId} {es : List (AudioEvent × Option Answer)}
    (hs : Resting policy userId s)
    (hrun : Run (fun s e t => AudioStep H policy s e t ∧ LeaseChecked policy s e.1) s es t) :
    WithinBudget policy t userId :=
  (hrun.invariant (I := UploadInv policy userId)
    (fun _ _ _ hinv hstep => uploadInv_step hinv hstep.1 hstep.2) hs.uploadInv).budget

theorem resting_empty (policy : RecordingUploadResourcePolicy) (userId : UserId) :
    Resting policy userId {} := by
  refine ⟨quiet_empty, fun _ _ => rfl, fun meetingIds _ hlive => ?_⟩
  cases meetingIds with
  | nil => exact ⟨Nat.zero_le _, Nat.zero_le _⟩
  | cons meetingId meetingIds => cases hlive meetingId List.mem_cons_self

/-- `LeaseChecked`, where it can be looked up. -/
def CheckedHere (policy : RecordingUploadResourcePolicy) (s : AudioWorld) : AudioEvent → Bool
  | .reserve callId _ =>
    match s.calls callId with
    | .reserving _ none => false
    | _ => true
  | .publishPart callId _ =>
    match s.calls callId with
    | .publishingPart input _ => (liveLease policy s input.ownerUserId input.meetingId).any
        fun lease => decide (input.metadata.totalBytes ≤ lease.totalBytes)
    | _ => true
  | .readStatus .. => false
  | _ => true

theorem leaseChecked_of_here {e : AudioEvent} (h : CheckedHere policy s e = true) : LeaseChecked policy s e := by
  cases e with
  | reserve callId stop =>
    intro input hphase
    simp only [CheckedHere, hphase] at h
    cases h
  | publishPart callId stop =>
    intro input result hphase _ _ _ _ _
    simp only [CheckedHere, hphase] at h
    obtain ⟨lease, hlease, hle⟩ := (Option.any_eq_true _ _).mp h
    exact ⟨lease, hlease, of_decide_eq_true hle⟩
  | readStatus => cases h
  | _ => trivial

theorem uploads_within_budget_whole : ∃ es t, es.map Prod.fst = wholeUpload ∧
    Run (AudioStep textHashing {}) {} es t ∧ liveBytes {} t "user" "meeting" = 1 ∧
    WithinBudget {} t "user" := by
  obtain ⟨es, t, hes, hrun, hend⟩ := exists_run textHashing {}
    (fun s step _ => CheckedHere {} s step.1 = true) ["meeting"] 1 {} wholeUpload
    (fun _ t => liveBytes {} t "user" "meeting" == 1) (within_empty _ _) (by decide)
  exact ⟨es, t, hes, hrun.mono fun _ _ _ h => h.1, eq_of_beq hend,
    uploads_within_budget (resting_empty _ _)
      (hrun.mono fun _ _ _ h => ⟨h.1, leaseChecked_of_here h.2⟩)⟩

/-- The last part of a recording of almost 200 MiB. -/
def lastPart (meetingId : MeetingId) (uploadId : UploadId) : PartInput where
  buffer := [82]
  meetingId
  metadata :=
    { consent := .legacyUnknown, durationMs := 1000, mimeType := "audio/webm", recordedAt := 0,
      totalBytes := 205520897, totalParts := 50, uploadId }
  ownerUserId := "user"
  partIndex := 49
  sha256 := "R"

/-- While a part is stored for three days, another upload sweeps its lease and takes the budget; then the
part is published. -/
def slowPart : List AudioEvent :=
  [.beginPart "slow" (lastPart "first" "slow") [], .sweepNext "slow", .reserve "slow" none,
   .stage "slow", .tick 259200000, .beginPart "other" (lastPart "second" "other") ["first"],
   .sweepNext "other", .sweepLease "other" none, .list "other" [], .endDeletion "other",
   .sweepNext "other", .reserve "other" none, .putPart "slow", .putPartManifest "slow",
   .publishPart "slow" none]

/-- Both leases count at the end, and are larger than the policy allows. -/
theorem slow_part_exceeds_budget : ∃ es t, es.map Prod.fst = slowPart ∧
    Run (AudioStep textHashing {}) {} es t ∧ ¬ WithinBudget {} t "user" := by
  obtain ⟨es, t, hes, hrun, hend⟩ :=
    exists_run textHashing {} (fun _ _ _ => True) ["first", "second"] 50 {} slowPart
      (fun _ t => (liveLease {} t "user" "first").isSome && (liveLease {} t "user" "second").isSome &&
        decide (268435456 < liveBytes {} t "user" "first" + liveBytes {} t "user" "second"))
      (within_empty _ _) (by decide)
  rw [Bool.and_eq_true, Bool.and_eq_true, decide_eq_true_iff] at hend
  obtain ⟨⟨hfirst, hsecond⟩, hbytes⟩ := hend
  refine ⟨es, t, hes, hrun.mono fun _ _ _ h => h.1, fun hbudget => ?_⟩
  obtain ⟨-, hsum⟩ := hbudget ["first", "second"] (by decide) (by
    intro meetingId hmem
    rcases List.mem_pair.mp hmem with rfl | rfl
    · exact hfirst
    · exact hsecond)
  have hlimit : ({} : RecordingUploadResourcePolicy).maxStagedBytesPerUser = 268435456 := rfl
  rw [List.map_cons, List.map_cons, List.map_nil, List.sum_cons, List.sum_cons, List.sum_nil,
    hlimit] at hsum
  omega

end OwnMinutes.Audio.UploadBudget
