import OwnMinutes.Finalization.OwnProjection

/-! # A failing job and a published result

A run publishes while its worker holds the job, and until the job is completed nobody puts it off. So a job
that waits for a worker, and one that a worker is about to queue again, have no published result
(`ResultInv`), and with the claims of the jobs on their projections no failure and no requeue overwrites
the state of another job or that of a completed run. Outside the condition the failure of one job hits the
projection of the next. -/

namespace OwnMinutes.Finalization.FailingJobs

open OwnMinutes.Lib.Keyed OwnMinutes.Lib.Outcome OwnMinutes.Lib.Runs OwnMinutes.Auth.ProcessingRoute
open OwnMinutes.Auth.Records OwnMinutes.Finalization.Records OwnMinutes.Finalization.Queue
open OwnMinutes.Finalization.QueueSafety OwnMinutes.Finalization.Projection
open OwnMinutes.Finalization.Worker OwnMinutes.Finalization.WorkerRuns
open OwnMinutes.Finalization.OwnProjection

/-! ### What a step does to a row -/

/-- The row stays as it was, ends, or is claimed. -/
structure RowKept (claim : Option (WorkerId × JobId)) (row row' : JobRow) : Prop where
  id : row'.id = row.id
  meetingId : row'.meetingId = row.meetingId
  move : (row'.status = row.status ∧ row'.lockedBy = row.lockedBy) ∨
    (row'.status.active = false ∧ row'.lockedBy = none) ∨
    (row'.status = .processing ∧ ∃ workerId, claim = some (workerId, row.id) ∧
      row'.lockedBy = some workerId)

theorem RowKept.refl {claim : Option (WorkerId × JobId)} (row : JobRow) : RowKept claim row row :=
  ⟨rfl, rfl, .inl ⟨rfl, rfl⟩⟩

theorem RowKept.trans_none (row row' row'' : JobRow) (h : RowKept none row row')
    (h' : RowKept none row' row'') : RowKept none row row'' := by
  refine ⟨h'.id.trans h.id, h'.meetingId.trans h.meetingId, ?_⟩
  rcases h'.move with ⟨hs', hl'⟩ | hended | ⟨-, _, hclaim, -⟩
  · rcases h.move with ⟨hs, hl⟩ | ⟨hs, hl⟩ | ⟨-, _, hclaim, -⟩
    · exact .inl ⟨hs'.trans hs, hl'.trans hl⟩
    · exact .inr (.inl ⟨hs' ▸ hs, hl'.trans hl⟩)
    · cases hclaim
  · exact .inr (.inl hended)
  · cases hclaim

variable {s t : FinalizationSystem} {claim : Option (WorkerId × JobId)}

/-- An update of a row that keeps it. -/
theorem kept_updateJob {q q' : QueueState} {jobId : JobId} {p : JobRow → Bool} {f : JobRow → JobRow}
    {updated : Option JobRow} (hupdate : updateJob q jobId p f = (updated, q'))
    (h : ∀ row, RowKept none row (f row)) :
    q.jobs.Rewrites (RowKept none) q'.jobs := by
  rcases updateJob_cases q jobId p f with he | ⟨row, hrow, -, he⟩
  · rw [he] at hupdate
    cases hupdate
    exact .refl RowKept.refl _
  · rw [he] at hupdate
    cases hupdate
    exact Table.rewrites_replace_mem RowKept.refl (Table.mem_of_get? hrow) (h row).id (h row)

variable {leaseMs : ℕ} {job : JobRow}

section Calls

variable {sanitizeMessage : String → String} {now : Timestamp} {jobId : JobId} {workerId : WorkerId}
  {q q' : QueueState}

theorem kept_failExhausted : q.jobs.Rewrites (RowKept none) (failExhaustedJobs now q).2.jobs :=
  Table.rewrites_updateWhere (exhaustedJob_key now) RowKept.refl fun _ _ _ =>
    ⟨rfl, rfl, .inr (.inl ⟨rfl, rfl⟩)⟩

theorem kept_fail {error : WorkerError} {failed : Option JobRow}
    (h : failJob sanitizeMessage now jobId workerId error q = (failed, q')) :
    q.jobs.Rewrites (RowKept none) q'.jobs :=
  kept_updateJob h fun _ => ⟨rfl, rfl, .inr (.inl ⟨rfl, rfl⟩)⟩

theorem kept_cancel {error : WorkerError} :
    q.jobs.Rewrites (RowKept none) (cancelJob sanitizeMessage now jobId workerId error q).2.jobs :=
  kept_updateJob rfl fun _ => ⟨rfl, rfl, .inr (.inl ⟨rfl, rfl⟩)⟩

theorem kept_complete (h : completeJob now jobId workerId q = .ok ((), q')) :
    q.jobs.Rewrites (RowKept none) q'.jobs := by
  unfold completeJob at h
  split at h
  · cases h
  · rename_i hupdate
    cases h
    exact kept_updateJob hupdate fun _ => ⟨rfl, rfl, .inr (.inl ⟨rfl, rfl⟩)⟩

theorem kept_heartbeat (h : heartbeatJob now jobId workerId leaseMs q = .ok ((), q')) :
    q.jobs.Rewrites (RowKept none) q'.jobs := by
  unfold heartbeatJob at h
  split at h
  · cases h
  · rename_i hupdate
    cases h
    exact kept_updateJob hupdate fun _ => ⟨rfl, rfl, .inl ⟨rfl, rfl⟩⟩

theorem kept_claim {skipped : List JobId} :
    q.jobs.Rewrites (RowKept ((claimNextJob now skipped workerId leaseMs q).1.map fun row =>
      (workerId, row.id))) (claimNextJob now skipped workerId leaseMs q).2.jobs := by
  unfold claimNextJob
  cases hcandidate : claimCandidate now skipped q with
  | none => exact .refl RowKept.refl _
  | some row =>
    have hm := (List.mem_filter.mp (List.argmin_mem hcandidate)).1
    exact Table.rewrites_replace_mem RowKept.refl hm rfl
      ⟨rfl, rfl, .inr (.inr ⟨rfl, workerId, rfl, rfl⟩)⟩

/-- What a heartbeat does to the queue, and that it publishes nothing. -/
theorem kept_beat {allowed : Bool} {stored : Option StoredState} :
    let after := (heartbeat sanitizeMessage now job workerId leaseMs allowed q stored).2
    q.jobs.Rewrites (RowKept none) after.1.jobs ∧
      ∀ raw, after.2 = some raw → stored = some raw ∨ raw.status ≠ some .completed :=
  And.imp_right (fun h raw hraw => (h raw hraw).imp_right fun hraw => by simp [status_of_refresh hraw])
    (heartbeat_writes RowKept.refl RowKept.trans_none (fun _ => kept_heartbeat) fun _ _ => kept_cancel)

end Calls

/-! ### The invariant -/

/-- A worker that is to put off its job, or to queue it again, has no published result before it. -/
def PhaseKept (s : FinalizationSystem) (workerId : WorkerId) : Phase → Prop
  | .caught job error =>
    error.retryable = true → HoldsJob s workerId job → ¬Published s job.meetingId
  | .requeueing job _ => ¬Published s job.meetingId ∧ ∀ other, ¬HoldsJob s other job
  | _ => True

structure ResultInv (s : FinalizationSystem) : Prop where
  system : SystemInv s
  /-- A job that waits for a worker is not published. -/
  waiting : ∀ row ∈ s.queue.jobs, row.status.active = true → row.status ≠ .processing →
    ¬Published s row.meetingId
  phase : ∀ workerId, PhaseKept s workerId (s.phases workerId)

/-- A job that is held after a step in which rows are kept was held before it, or is claimed in it. -/
theorem holds_kept {workerId : WorkerId} (hkept : s.queue.jobs.Rewrites (RowKept claim) t.queue.jobs)
    (h : HoldsJob t workerId job) : HoldsJob s workerId job ∨ claim = some (workerId, job.id) := by
  obtain ⟨row', hm, hid, hheld⟩ := h
  obtain ⟨row, hrow, hr⟩ := hkept.old hm
  have hlocked := lockedBy_of_heldBy hheld
  rcases hr.move with ⟨-, hl⟩ | ⟨-, hl⟩ | ⟨-, other, hclaim, hl⟩
  · exact .inl ⟨row, hrow, hr.id.symm.trans hid, beq_iff_eq.mpr (hl ▸ hlocked)⟩
  · rw [hl] at hlocked
    cases hlocked
  · rw [hl] at hlocked
    cases hlocked
    exact .inr (hclaim.trans (by rw [← hid, hr.id]))

/-- What a worker has still to do is kept by a step that publishes nothing and does not claim its job. -/
theorem PhaseKept.transfer {workerId : WorkerId} {phase : Phase} (h : PhaseKept s workerId phase)
    (hheld : ∀ other job, HoldsJob t other job → HoldsJob s other job ∨ claim = some (other, job.id))
    (hpublished : ∀ meetingId, Published t meetingId → Published s meetingId)
    (hself : ∀ jobId, claim ≠ some (workerId, jobId))
    (hrequeue : ∀ job availableAt, phase = .requeueing job availableAt →
      ∀ other, claim ≠ some (other, job.id)) : PhaseKept t workerId phase := by
  cases phase with
  | caught job error =>
    intro hretry hholds hpub
    rcases hheld _ _ hholds with hholds | hclaim
    · exact h hretry hholds (hpublished _ hpub)
    · exact hself _ hclaim
  | requeueing job availableAt =>
    refine ⟨fun hpub => h.1 (hpublished _ hpub), fun other hholds => ?_⟩
    rcases hheld _ _ hholds with hholds | hclaim
    · exact h.2 other hholds
    · exact hrequeue job availableAt rfl other hclaim
  | _ => trivial

/-- The same where nothing is claimed. -/
theorem PhaseKept.unclaimed {workerId : WorkerId} {phase : Phase} (h : PhaseKept s workerId phase)
    (hheld : ∀ other job, HoldsJob t other job → HoldsJob s other job)
    (hpublished : ∀ meetingId, Published t meetingId → Published s meetingId) :
    PhaseKept t workerId phase := by
  have hnone : ∀ claimed : WorkerId × JobId, (none : Option (WorkerId × JobId)) ≠ some claimed :=
    fun _ hc => by cases hc
  exact h.transfer (fun other job hh => .inl (hheld other job hh)) hpublished (fun _ => hnone _)
    fun _ _ _ _ => hnone _

theorem holds_unclaimed (hkept : s.queue.jobs.Rewrites (RowKept none) t.queue.jobs) (workerId : WorkerId)
    (job : JobRow) (h : HoldsJob t workerId job) : HoldsJob s workerId job :=
  (holds_kept hkept h).resolve_right fun hc => by cases hc

/-- A step keeps the invariant where rows are kept and nothing is published. -/
theorem resultInv_kept (h : ResultInv s) (ht : SystemInv t)
    (hkept : s.queue.jobs.Rewrites (RowKept claim) t.queue.jobs)
    (hpublished : ∀ meetingId, Published t meetingId → Published s meetingId)
    (hphases : ∀ workerId, PhaseKept t workerId (t.phases workerId)) : ResultInv t where
  system := ht
  waiting row' hm hactive hstatus hpub := by
    obtain ⟨row, hrow, hr⟩ := hkept.old hm
    rcases hr.move with ⟨hs, -⟩ | ⟨hs, -⟩ | ⟨hs, -⟩
    · exact h.waiting row hrow (hs ▸ hactive) (hs ▸ hstatus) (hr.meetingId ▸ hpublished _ hpub)
    · rw [hs] at hactive
      cases hactive
    · exact hstatus hs
  phase := hphases

/-- The workers stay where they are, and nothing is published. -/
theorem resultInv_still (h : ResultInv s) (ht : SystemInv t)
    (hkept : s.queue.jobs.Rewrites (RowKept none) t.queue.jobs)
    (hpublished : ∀ meetingId, Published t meetingId → Published s meetingId)
    (hphases : t.phases = s.phases) : ResultInv t :=
  resultInv_kept h ht hkept hpublished fun other =>
    hphases ▸ (h.phase other).unclaimed (holds_unclaimed hkept) hpublished

/-- A worker takes a step that publishes nothing and claims nothing. -/
theorem resultInv_worker (h : ResultInv s) (ht : SystemInv t) {workerId : WorkerId} {phase : Phase}
    (hkept : s.queue.jobs.Rewrites (RowKept none) t.queue.jobs)
    (hpublished : ∀ meetingId, Published t meetingId → Published s meetingId)
    (hphases : t.phases = Function.update s.phases workerId phase)
    (hphase : PhaseKept t workerId phase) : ResultInv t := by
  refine resultInv_kept h ht hkept hpublished fun other => ?_
  rw [hphases]
  by_cases ho : other = workerId
  · rw [ho, Function.update_self]
    exact hphase
  · rw [Function.update_of_ne ho]
    exact (h.phase other).unclaimed (holds_unclaimed hkept) hpublished

theorem resultInv_queue (h : ResultInv s) {workerId : WorkerId} {phase : Phase} {queue : QueueState}
    (ht : SystemInv ((s.setQueue queue).setPhase workerId phase))
    (hkept : s.queue.jobs.Rewrites (RowKept none) queue.jobs)
    (hphase : PhaseKept ((s.setQueue queue).setPhase workerId phase) workerId phase) :
    ResultInv ((s.setQueue queue).setPhase workerId phase) :=
  resultInv_worker h ht hkept (fun _ hpub => hpub) rfl hphase

theorem resultInv_phase (h : ResultInv s) {workerId : WorkerId} {phase : Phase}
    (ht : SystemInv (s.setPhase workerId phase))
    (hphase : PhaseKept (s.setPhase workerId phase) workerId phase) :
    ResultInv (s.setPhase workerId phase) :=
  resultInv_worker h ht (.refl RowKept.refl _) (fun _ hpub => hpub) rfl hphase

variable {meetingId : MeetingId} {raw : StoredState}

/-- What is written is not completed. -/
theorem published_store {other : MeetingId} {written : Option StoredState}
    (hw : ∀ raw, written = some raw → s.projections meetingId = some raw ∨ raw.status ≠ some .completed)
    (h : Published (s.store meetingId written) other) : Published s other := by
  obtain ⟨raw, hraw, hstatus⟩ := h
  by_cases ho : other = meetingId
  · subst ho
    have hself : (s.store other written).projections other = (written <|> s.projections other) :=
      Function.update_self _ _ _
    rw [hself, Option.orElse_eq_orElse, Option.orElse_eq_or, Option.or_eq_some_iff] at hraw
    rcases hraw with hraw | ⟨-, hraw⟩
    · rcases hw raw hraw with hsame | hnot
      · exact ⟨raw, hsame, hstatus⟩
      · exact absurd hstatus hnot
    · exact ⟨raw, hraw, hstatus⟩
  · have hother : (s.store meetingId written).projections other = s.projections other :=
      Function.update_of_ne ho _ _
    exact ⟨raw, hother ▸ hraw, hstatus⟩

/-- A worker updates a projection and publishes nothing. -/
theorem resultInv_update (h : ResultInv s) {workerId : WorkerId} {written : Option StoredState} {denied next : Phase}
    (ht : SystemInv (s.update workerId meetingId written denied next))
    (hw : ∀ raw, written = some raw → raw.status ≠ some .completed)
    (hdenied : PhaseKept (s.setPhase workerId denied) workerId denied)
    (hnext : PhaseKept ((s.store meetingId written).setPhase workerId next) workerId next) :
    ResultInv (s.update workerId meetingId written denied next) := by
  unfold FinalizationSystem.update at ht ⊢
  split_ifs at ht ⊢
  · exact resultInv_worker h ht (.refl RowKept.refl _)
      (fun _ hpub => published_store (fun raw hraw => .inr (hw raw hraw)) hpub) rfl hnext
  · exact resultInv_phase h ht hdenied

/-- The job that a worker holds is the active one of its meeting. -/
theorem active_of_holds (h : SystemInv s) {workerId : WorkerId} (hrow : HasRow s job)
    (hholds : HoldsJob s workerId job) : ∃ row ∈ s.queue.jobs, row.id = job.id ∧
      row.meetingId = job.meetingId ∧ row.lockedBy = some workerId ∧ row.status = .processing := by
  obtain ⟨row, hm, hid, hheld⟩ := hholds
  obtain ⟨x, hx, hxid, hmeeting⟩ := hrow
  have hsame : x = row := Table.eq_of_key hx hm (hxid.trans hid.symm)
  have hlocked := lockedBy_of_heldBy hheld
  exact ⟨row, hm, hid, hsame ▸ hmeeting, hlocked, h.queue.held row hm (by rw [hlocked]; simp)⟩

theorem published_of_other {other : MeetingId} {written : Option StoredState} (ho : other ≠ meetingId)
    (h : Published (s.store meetingId written) other) : Published s other := by
  obtain ⟨raw, hraw, hstatus⟩ := h
  have hother : (s.store meetingId written).projections other = s.projections other :=
    Function.update_of_ne ho _ _
  exact ⟨raw, hother ▸ hraw, hstatus⟩

/-- A worker publishes the result of a job it holds: no other worker has anything to do with the job. -/
theorem resultInv_publish (h : ResultInv s) {workerId : WorkerId} {written : Option StoredState}
    (hmeeting : meetingId = job.meetingId) (hrow : HasRow s job) (hholds : HoldsJob s workerId job)
    (ht : SystemInv (s.update workerId meetingId written (.caught job meetingDeleted) (.published job))) :
    ResultInv (s.update workerId meetingId written (.caught job meetingDeleted) (.published job)) := by
  subst hmeeting
  obtain ⟨held, hheld, hid, hmeeting, hlocked, hprocessing⟩ := active_of_holds h.system hrow hholds
  have hactive : held.status.active = true := by rw [hprocessing]; rfl
  have hclaims : Claims s job.meetingId job.id := .active held hheld hid hmeeting hactive
  unfold FinalizationSystem.update at ht ⊢
  split_ifs at ht ⊢
  · refine ⟨ht, fun row hm ha hstatus hpub => ?_, fun other => ?_⟩
    · by_cases hsame : row.meetingId = job.meetingId
      · -- the one active job of the meeting is the one that is held
        have he := h.system.queue.single row hm held hheld (hsame.trans hmeeting.symm) ha hactive
        exact hstatus (he ▸ hprocessing)
      · exact h.waiting row hm ha hstatus (published_of_other hsame hpub)
    · by_cases ho : other = workerId
      · subst ho
        change PhaseKept _ other (Function.update s.phases other (.published job) other)
        rw [Function.update_self]
        trivial
      · change PhaseKept _ other (Function.update s.phases workerId (.published job) other)
        rw [Function.update_of_ne ho]
        have hphase := h.phase other
        cases hother : s.phases other with
        | caught job' error =>
          rw [hother] at hphase
          intro hretry hholds' hpub
          by_cases hsame : job'.meetingId = job.meetingId
          · obtain ⟨held', hheld', -, hmeeting', hlocked', hprocessing'⟩ :=
              active_of_holds h.system (h.system.row other job' (by rw [hother]; rfl)) hholds'
            have he := h.system.queue.single held' hheld' held hheld
              (hmeeting'.trans (hsame.trans hmeeting.symm)) (by rw [hprocessing']; rfl) hactive
            rw [he, hlocked] at hlocked'
            exact ho (Option.some.inj hlocked').symm
          · exact hphase hretry hholds' (published_of_other hsame hpub)
        | requeueing job' availableAt =>
          rw [hother] at hphase
          refine ⟨fun hpub => ?_, hphase.2⟩
          by_cases hsame : job'.meetingId = job.meetingId
          · have hclaims' : Claims s job'.meetingId job'.id :=
              .pending other job' (by rw [hother]; exact List.mem_cons_self) rfl rfl
            have hown := h.system.own _ _ hclaims'
            rw [hsame, h.system.own _ _ hclaims, Option.some.injEq, Option.some.injEq] at hown
            exact hphase.2 workerId ⟨held, hheld, hid.trans hown, beq_iff_eq.mpr hlocked⟩
          · exact hphase.1 (published_of_other hsame hpub)
        | _ => trivial
  · exact resultInv_phase h ht fun hretry => by cases hretry

/-! ### The steps -/

section Steps

variable {sanitizeMessage : String → String} {now : Timestamp} {workerId : WorkerId}

theorem result_claim (h : ResultInv s) (ht : SystemInv t) {skipped : List JobId}
    (hphase : s.phases workerId = .sweeping [])
    (horderly : Orderly sanitizeMessage ⟨now, .worker workerId (.claim skipped leaseMs)⟩ s)
    (hstep : workerStep sanitizeMessage now workerId (.claim skipped leaseMs) s = some t) : ResultInv t := by
  simp only [workerStep, hphase] at hstep
  split at hstep
  · cases hstep
    exact resultInv_phase h ht trivial
  · rename_i job queue hclaim
    cases hstep
    have hkept : s.queue.jobs.Rewrites (RowKept ((claimNextJob now skipped workerId leaseMs
        s.queue).1.map fun row => (workerId, row.id)))
        (claimNextJob now skipped workerId leaseMs s.queue).2.jobs := kept_claim
    rw [hclaim] at hkept
    refine resultInv_kept h ht hkept (fun _ hpub => hpub) fun other => ?_
    change PhaseKept _ other (Function.update s.phases workerId (.running job) other)
    by_cases ho : other = workerId
    · rw [ho, Function.update_self]
      trivial
    · rw [Function.update_of_ne ho]
      refine (h.phase other).transfer (fun _ _ => holds_kept hkept) (fun _ hpub => hpub)
        (fun jobId hclaimed => ?_) fun waiting availableAt hwaiting worker hclaimed => ?_
      · exact ho (congrArg Prod.fst (Option.some.inj hclaimed)).symm
      · exact horderly job queue hclaim other waiting availableAt hwaiting
          (congrArg Prod.snd (Option.some.inj hclaimed)).symm

/-- A state with an active lease is in processing. -/
theorem not_published_of_lease (h : isFinalizationLeaseActive now (s.read sanitizeMessage now meetingId) = true) :
    ¬Published s meetingId := by
  rintro ⟨raw, hraw, hstatus⟩
  simp [isFinalizationLeaseActive, FinalizationSystem.read, readMeetingFinalizationState, hraw,
    normalizeState, hstatus] at h

theorem result_start (h : ResultInv s) (ht : SystemInv t) {title : String} {processingMode : UserProcessingMode}
    {audioRevision : String} (hphase : s.phases workerId = .running job)
    (hstep : workerStep sanitizeMessage now workerId (.start title leaseMs processingMode audioRevision) s = some t) :
    ResultInv t := by
  simp only [workerStep, hphase] at hstep
  split_ifs at hstep with hactive
  · cases hstep
    exact resultInv_phase h ht fun _ _ => not_published_of_lease hactive
  · cases hstep
    refine resultInv_update h ht (fun raw hraw => ?_) (fun hretry => by cases hretry) trivial
    have hstatus := status_of_start (Prod.ext rfl hraw)
    simp [hstatus]

/-- A worker puts off the job it holds, of which nothing is published. -/
theorem result_retry (h : ResultInv s) {availableAt : Timestamp} {row' : JobRow} {error : WorkerError}
    {queue : QueueState} (hrow : HasRow s job) (hcaught : HoldsJob s workerId job → ¬Published s job.meetingId)
    (hlater : retryJobLater sanitizeMessage now job.id workerId error availableAt s.queue = (some row', queue))
    (ht : SystemInv ((s.setQueue queue).setPhase workerId (.requeueing job availableAt))) :
    ResultInv ((s.setQueue queue).setPhase workerId (.requeueing job availableAt)) := by
  obtain ⟨row, hget, hheld, hqueue⟩ : ∃ row, s.queue.jobs.get? job.id = some row ∧
      row.heldBy workerId = true ∧ queue.jobs = s.queue.jobs.replace (recordedError sanitizeMessage error
        { unlocked now .retryWait row with availableAt }) := by
    rcases updateJob_cases s.queue job.id (·.heldBy workerId) (fun row =>
        recordedError sanitizeMessage error { unlocked now .retryWait row with availableAt }) with
      he | ⟨row, hget, hheld, he⟩
    · rw [retryJobLater, he] at hlater
      cases hlater
    · rw [retryJobLater, he] at hlater
      cases hlater
      exact ⟨row, hget, hheld, rfl⟩
  set later := recordedError sanitizeMessage error { unlocked now .retryWait row with availableAt }
  have hm := Table.mem_of_get? hget
  have hid : row.id = job.id := Table.key_of_get? hget
  have hnot : ¬Published s job.meetingId := hcaught ⟨row, hm, hid, hheld⟩
  have hmeeting : row.meetingId = job.meetingId := by
    obtain ⟨x, hx, hxid, hxm⟩ := hrow
    exact Table.eq_of_key hx hm (hxid.trans hid.symm) ▸ hxm
  have hold : ∀ x ∈ queue.jobs, x ∈ s.queue.jobs ∨ x = later := fun x hx =>
    Table.mem_of_mem_replace (hqueue ▸ hx)
  have hholds : ∀ other job', HoldsJob ((s.setQueue queue).setPhase workerId (.requeueing job availableAt))
      other job' → HoldsJob s other job' := by
    rintro other job' ⟨x, hx, hxid, hxheld⟩
    rcases hold x hx with hx | rfl
    · exact ⟨x, hx, hxid, hxheld⟩
    · cases lockedBy_of_heldBy hxheld
  refine ⟨ht, fun x hx ha hstatus => ?_, fun other => ?_⟩
  · rcases hold x hx with hx | rfl
    · exact h.waiting x hx ha hstatus
    · exact hmeeting ▸ hnot
  · change PhaseKept _ other (Function.update s.phases workerId (.requeueing job availableAt) other)
    by_cases ho : other = workerId
    · rw [ho, Function.update_self]
      refine ⟨hnot, fun holder hheld' => ?_⟩
      obtain ⟨x, hx, hxid, hxheld⟩ := hheld'
      have hlater : later ∈ queue.jobs := hqueue ▸ Table.mem_replace_self hm rfl
      have he : x = later := Table.eq_of_key hx hlater (hxid.trans hid.symm)
      cases lockedBy_of_heldBy (he ▸ hxheld)
    · rw [Function.update_of_ne ho]
      exact (h.phase other).unclaimed hholds fun _ hpub => hpub

/-- The handler of an error puts off a job only where nothing is published. -/
theorem result_settle (h : ResultInv s) {availableAt : Timestamp} {error : WorkerError}
    (hphase : s.phases workerId = .caught job error)
    (ht : SystemInv (settle sanitizeMessage now workerId job error availableAt s)) :
    ResultInv (settle sanitizeMessage now workerId job error availableAt s) := by
  have hcaught := h.phase workerId
  rw [hphase] at hcaught
  unfold settle at ht ⊢
  split_ifs at ht ⊢ with hdeleted hretry
  · exact resultInv_queue h ht kept_cancel trivial
  · split at ht
    · exact resultInv_phase h ht trivial
    · rename_i row' queue hlater
      exact result_retry h (h.system.row workerId job (by rw [hphase]; rfl)) (hcaught hretry.1) hlater ht
  · split at ht
    · exact resultInv_phase h ht trivial
    · rename_i row' queue hfail
      exact resultInv_queue h ht (kept_fail hfail) trivial

/-- A job whose lease is active is completed. -/
theorem complete_of_lease {jobId : JobId} {q : QueueState} {error : QueueError}
    (h : hasActiveJobLease now jobId workerId q = true) :
    completeJob now jobId workerId q ≠ .error error := by
  obtain ⟨row, hrow, hp⟩ := (Option.any_eq_true _ _).mp h
  have hupdate : (q.jobs.get? jobId).filter (fun row => row.heldBy workerId &&
      row.status == .processing && row.leaseExpiresAt.any (now < ·)) = some row :=
    Option.filter_eq_some_iff.mpr ⟨hrow, hp⟩
  simp [completeJob, updateJob, hupdate]

theorem result_complete (h : ResultInv s) (ht : SystemInv t) (hphase : s.phases workerId = .published job)
    (horderly : Orderly sanitizeMessage ⟨now, .worker workerId .complete⟩ s)
    (hstep : workerStep sanitizeMessage now workerId .complete s = some t) : ResultInv t := by
  simp only [workerStep, hphase] at hstep
  split at hstep
  · rename_i error hlost
    cases hstep
    -- the lease is active where the job is held, so a completion that fails is of a job that is not
    exact resultInv_phase h ht fun _ hholds =>
      absurd hlost (complete_of_lease (horderly job hphase hholds))
  · rename_i queue hcomplete
    cases hstep
    exact resultInv_queue h ht (kept_complete hcomplete) trivial

theorem result_heartbeat (h : ResultInv s) (ht : SystemInv t)
    (hstep : workerStep sanitizeMessage now workerId (.heartbeat leaseMs) s = some t) : ResultInv t := by
  simp only [workerStep] at hstep
  obtain ⟨job, -, rfl⟩ := Option.map_eq_some_iff.mp hstep
  obtain ⟨hkept, hwritten⟩ := @kept_beat leaseMs job sanitizeMessage now workerId s.queue
    (s.allows job.meetingId) (s.projections job.meetingId)
  exact resultInv_still h ht hkept (fun _ hpub => published_store hwritten hpub) rfl

/-- An enqueue that creates a job: it waits, and its projection is queued. -/
theorem result_created (h : ResultInv s) (hfresh : s.queue.jobs.Fresh job.id) (hqueued : job.lockedBy = none)
    (hstatus : raw.status = some .queued)
    (ht : SystemInv ((s.setQueue { s.queue with jobs := s.queue.jobs.insert job }).store job.meetingId (some raw))) :
    ResultInv ((s.setQueue { s.queue with jobs := s.queue.jobs.insert job }).store job.meetingId
      (some raw)) := by
  have hpublished : ∀ other, Published ((s.setQueue { s.queue with
      jobs := s.queue.jobs.insert job }).store job.meetingId (some raw)) other → Published s other :=
    fun other hpub => published_store (s := s) (fun raw' hraw => .inr (by cases hraw; simp [hstatus])) hpub
  have hheld : ∀ other job', HoldsJob ((s.setQueue { s.queue with
      jobs := s.queue.jobs.insert job }).store job.meetingId (some raw)) other job' →
        HoldsJob s other job' := by
    rintro other job' ⟨row, hm, hid, hrow⟩
    rcases (Table.mem_insert hfresh).mp hm with hm | rfl
    · exact ⟨row, hm, hid, hrow⟩
    · cases hqueued.symm.trans (lockedBy_of_heldBy hrow)
  refine ⟨ht, fun row hm ha hwaits hpub => ?_, fun other =>
    (h.phase other).unclaimed hheld hpublished⟩
  rcases (Table.mem_insert hfresh).mp hm with hm | rfl
  · exact h.waiting row hm ha hwaits (hpublished _ hpub)
  · obtain ⟨raw', hraw, hcompleted⟩ := hpub
    have hself : ((s.setQueue { s.queue with jobs := s.queue.jobs.insert row }).store row.meetingId
        (some raw)).projections row.meetingId = some raw := Function.update_self _ _ _
    cases hself.symm.trans hraw
    cases hstatus.symm.trans hcompleted

theorem result_enqueue (h : ResultInv s) {jobId : JobId} {maxAttempts : ℕ} {input : EnqueueInput}
    {initialRoute : Option MeetingProcessingRoute}
    (ht : SystemInv (enqueue sanitizeMessage now jobId maxAttempts input initialRoute s)) :
    ResultInv (enqueue sanitizeMessage now jobId maxAttempts input initialRoute s) := by
  unfold enqueue at ht ⊢
  split_ifs at ht ⊢
  · exact h
  · split at ht
    · exact h
    · rename_i job queue hok
      obtain ⟨requested, -, htransaction⟩ := bind_eq_ok.mp hok
      rcases enqueueTransaction_cases htransaction with
        ⟨existing, hexisting, rfl, rfl⟩ | ⟨-, rfl, hfresh, rfl⟩
      · have hsame : RowKept none existing (hydratedJob now input requested existing) :=
          ⟨rfl, rfl, .inl ⟨rfl, rfl⟩⟩
        have hkept : s.queue.jobs.Rewrites (RowKept none)
            (s.queue.jobs.replace (hydratedJob now input requested existing)) :=
          Table.rewrites_replace_mem RowKept.refl (activeJob_some hexisting).1 rfl hsame
        split_ifs at ht ⊢
        · exact resultInv_still h ht hkept (fun _ hpub => hpub) rfl
        · exact resultInv_still h ht hkept
            (fun _ hpub => published_store (s := s) (fun raw hraw => .inr (by cases hraw; simp [writeState,
              queueMeetingFinalization])) hpub) rfl
      · rw [if_neg (by simp [queuedJob])] at ht ⊢
        exact result_created h hfresh rfl rfl ht

/-- A step of a worker keeps the invariant. -/
theorem result_worker (h : ResultInv s) (ht : SystemInv t) {call : WorkerCall}
    (horderly : Orderly sanitizeMessage ⟨now, .worker workerId call⟩ s)
    (hstep : workerStep sanitizeMessage now workerId call s = some t) : ResultInv t := by
  have hat := callAt_of_step hstep
  generalize hphase : s.phases workerId = phase at hat
  cases hat with
  | crash =>
    rw [workerStep_crash] at hstep
    cases hstep
    exact resultInv_phase h ht trivial
  | heartbeat => exact result_heartbeat h ht hstep
  | sweep =>
    simp only [workerStep, hphase] at hstep
    cases hstep
    exact resultInv_queue h ht kept_failExhausted trivial
  | readSwept | readFailed =>
    simp only [workerStep, hphase] at hstep
    split at hstep <;> cases hstep <;> exact resultInv_phase h ht trivial
  | failSwept | fail =>
    simp only [workerStep, hphase] at hstep
    cases hstep
    exact resultInv_update h ht (fun _ hraw => by simp [(status_of_fail hraw).1]) trivial trivial
  | claim => exact result_claim h ht hphase horderly hstep
  | start => exact result_start h ht hphase hstep
  | @publishExisting _ _ _ _ _ _ _ job =>
    have hholds := (horderly job hphase).1
    simp only [workerStep, hphase] at hstep
    cases hstep
    exact resultInv_publish h rfl (h.system.row workerId job (by rw [hphase]; rfl)) hholds ht
  | @publish _ _ job state =>
    have hholds := horderly job state hphase
    have hstate := h.system.state workerId job state (by rw [hphase]; rfl)
    simp only [workerStep, hphase] at hstep
    cases hstep
    exact resultInv_publish h hstate.meetingId (h.system.row workerId job (by rw [hphase]; rfl)) hholds ht
  | @failRun _ _ job _ =>
    have hkept := horderly job (by rw [hphase]; rfl)
    simp only [workerStep, hphase] at hstep
    cases hstep
    refine resultInv_update h ht (fun _ hraw => by simp [(status_of_fail hraw).1])
      (fun hretry => by cases hretry) fun hretry hholds hpub => hkept hretry hholds ?_
    exact published_store (fun _ hraw => .inr (by simp [(status_of_fail hraw).1])) hpub
  | @raise _ job _ hat =>
    rcases hat with rfl | ⟨state, rfl⟩ | rfl <;>
    · have hkept := horderly job (by rw [hphase]; rfl)
      simp only [workerStep, hphase] at hstep
      cases hstep
      exact resultInv_phase h ht hkept
  | complete => exact result_complete h ht hphase horderly hstep
  | settle =>
    simp only [workerStep, hphase] at hstep
    cases hstep
    exact result_settle h hphase ht
  | requeue =>
    simp only [workerStep, hphase] at hstep
    cases hstep
    refine resultInv_update h ht (fun raw hraw => ?_) trivial trivial
    cases hraw
    simp [writeState, queueMeetingFinalization]

end Steps

/-- A step that meets the condition keeps the invariant. -/
theorem resultInv_step {sanitizeMessage : String → String} {e : SystemEvent} (h : ResultInv s)
    (hstep : OrderlyStep sanitizeMessage s e t) : ResultInv t := by
  have ht := systemInv_step h.system hstep
  obtain ⟨hstep, horderly⟩ := hstep
  obtain ⟨now, call⟩ := e
  cases call with
  | enqueue jobId maxAttempts input initialRoute =>
    cases hstep
    exact result_enqueue h ht
  | worker workerId call => exact result_worker h ht horderly hstep

theorem resultInv_initial (tombstones : List MeetingId) : ResultInv (initialSystem tombstones) where
  system := systemInv_initial tombstones
  waiting _ hm := absurd hm (Table.not_mem_empty _)
  phase _ := trivial

/-! ### What a job overwrites -/

theorem overwrites_of_fail {sanitizeMessage : String → String} {now : Timestamp} {state : MeetingFinalizationState}
    {error : WorkerError} {jobId : JobId} (hs : StateOf job state)
    (h : failOverwrites sanitizeMessage now job state error s = some (jobId, raw)) :
    raw.jobId = some jobId ∧ raw.status ≠ some .completed := by
  unfold failOverwrites at h
  split_ifs at h with hwritten
  obtain ⟨old, hold, he⟩ := Option.map_eq_some_iff.mp h
  cases he
  obtain ⟨written, hwritten⟩ := Option.isSome_iff_exists.mp hwritten.2
  exact ⟨by rw [((stored_of_fail hwritten).2 raw hold).1, hs.jobId], (status_of_fail hwritten).2 raw hold⟩

/-- What is stored for a job that claims its projection is its own. -/
theorem own_of_claims (h : SystemInv s) {jobId : JobId} (hclaims : Claims s meetingId jobId)
    (hraw : s.projections meetingId = some raw) : raw.jobId = some jobId := by
  have hown := h.own meetingId jobId hclaims
  rwa [owner, hraw, Option.map_some, Option.some.injEq] at hown

theorem overwrites_of_enqueue (h : ResultInv s) {sanitizeMessage : String → String} {now : Timestamp}
    {jobId jobId' : JobId} {maxAttempts : ℕ} {input : EnqueueInput} {initialRoute : Option MeetingProcessingRoute}
    (horderly : Orderly sanitizeMessage ⟨now, .enqueue jobId maxAttempts input initialRoute⟩ s)
    (hnew : ¬StartsAnew ⟨now, .enqueue jobId maxAttempts input initialRoute⟩ s)
    (hw : overwrites sanitizeMessage ⟨now, .enqueue jobId maxAttempts input initialRoute⟩ s = some (jobId', raw)) :
    raw.jobId = some jobId' ∧ raw.status ≠ some .completed := by
  simp only [overwrites] at hw
  split_ifs at hw
  split at hw
  · cases hw
  · rename_i job queue hok
    have hprocessed := horderly.2 job queue hok
    obtain ⟨requested, -, htransaction⟩ := bind_eq_ok.mp hok
    split_ifs at hw with hprocessing
    obtain ⟨old, hold, he⟩ := Option.map_eq_some_iff.mp hw
    cases he
    rcases enqueueTransaction_cases htransaction with ⟨existing, hexisting, rfl, -⟩ | ⟨hnone, -, -, -⟩
    · obtain ⟨hm, -, ha⟩ := activeJob_some hexisting
      refine ⟨own_of_claims h.system (.active existing hm rfl rfl ha) hold, fun hcompleted => ?_⟩
      -- an enqueue that finds the job in processing writes nothing
      by_cases hstatus : existing.status = .processing
      · exact hprocessing (Bool.and_eq_true_iff.mpr ⟨beq_iff_eq.mpr hstatus, hprocessed hstatus⟩)
      · exact h.waiting existing hm ha hstatus ⟨raw, hold, hcompleted⟩
    · exact absurd hnone hnew

theorem overwrites_of_worker (h : ResultInv s) {sanitizeMessage : String → String} {now : Timestamp}
    {workerId : WorkerId} {call : WorkerCall} {jobId : JobId}
    (hw : overwrites sanitizeMessage ⟨now, .worker workerId call⟩ s = some (jobId, raw)) :
    raw.jobId = some jobId ∧ raw.status ≠ some .completed := by
  have hok : PhaseOk s (s.phases workerId) := h.system.phase rfl
  simp only [overwrites] at hw
  split at hw
  · rename_i job current rows hphase
    rw [hphase] at hok
    exact overwrites_of_fail (hok.state job current rfl) hw
  · rename_i job state hphase
    rw [hphase] at hok
    exact overwrites_of_fail (hok.state job state rfl) hw
  · rename_i job availableAt hphase
    rw [hphase] at hok
    have hkept := h.phase workerId
    rw [hphase] at hkept
    split_ifs at hw
    obtain ⟨old, hold, he⟩ := Option.map_eq_some_iff.mp hw
    cases he
    exact ⟨own_of_claims h.system (hok.pending job List.mem_cons_self) hold,
      fun hcompleted => hkept.1 ⟨raw, hold, hcompleted⟩⟩
  · rename_i job error current hphase
    rw [hphase] at hok
    exact overwrites_of_fail (hok.state job current rfl) hw
  · cases hw

/-- **A failing job fails its own projection**: in every run whose steps meet the condition, what a failure
or a requeue overwrites for a job is its own state, and not that of a completed run. -/
theorem fails_own_projection {sanitizeMessage : String → String} {tombstones : List MeetingId}
    {es : List SystemEvent} {s t : FinalizationSystem} {e : SystemEvent} {jobId : JobId}
    {raw : StoredState} (h : Run (OrderlyStep sanitizeMessage) (initialSystem tombstones) es s)
    (hstep : OrderlyStep sanitizeMessage s e t) (hnew : ¬StartsAnew e s)
    (hw : overwrites sanitizeMessage e s = some (jobId, raw)) :
    raw.jobId = some jobId ∧ raw.status ≠ some .completed := by
  have hinv : ResultInv s := h.invariant (fun _ _ _ h hstep => resultInv_step h hstep)
    (resultInv_initial tombstones)
  obtain ⟨now, call⟩ := e
  cases call with
  | enqueue => exact overwrites_of_enqueue hinv hstep.2 hnew hw
  | worker workerId call => exact overwrites_of_worker hinv hw

/-! ### A failure, and one with an enqueue in the middle of it -/

/-- The events one after the other. -/
def replay (s : FinalizationSystem) (es : List SystemEvent) : Option FinalizationSystem :=
  es.foldlM (fun s e => systemStep id e s) s

theorem run_replay {es : List SystemEvent} {s t : FinalizationSystem} (h : replay s es = some t) :
    Run (SystemStep id) s es t := by
  induction es generalizing s with
  | nil => cases h; exact Run.nil _
  | cons e es ih =>
    obtain ⟨u, hu, hrest⟩ := Option.bind_eq_some_iff.mp h
    exact Run.cons hu (ih hrest)

def enqueueFor (jobId : JobId) : SystemCall :=
  .enqueue jobId 5 { meetingId := "m", ownerUserId := "u", title := "weekly" } none

/-- A worker gives up the job of the meeting. -/
def givenUp : List SystemEvent :=
  [⟨10, .worker "w" .sweep⟩, ⟨20, .worker "w" (.claim [] 1000)⟩,
    ⟨30, .worker "w" (.raise ⟨"meeting_audio_empty", "no audio", false⟩)⟩,
    ⟨40, .worker "w" (.settle 0)⟩]

def failureOfFirst : SystemEvent := ⟨70, .worker "w" .fail⟩

/-- What the failure of the job overwrites: its id, and the job of what was stored. -/
def overwrittenBy (s : FinalizationSystem) : Option (JobId × Option JobId) :=
  (overwrites id failureOfFirst s).map fun p => (p.1, p.2.jobId)

theorem overwrites_of_overwrittenBy {s : FinalizationSystem} {jobId : JobId} {stored : Option JobId}
    (h : overwrittenBy s = some (jobId, stored)) :
    ∃ raw, overwrites id failureOfFirst s = some (jobId, raw) ∧ raw.jobId = stored := by
  obtain ⟨⟨jobId', raw⟩, hraw, he⟩ := Option.map_eq_some_iff.mp h
  obtain ⟨rfl, hjob⟩ := Prod.mk.inj he
  exact ⟨raw, hraw, hjob⟩

theorem run_orderly {es : List SystemEvent} {s t : FinalizationSystem}
    (h : Run (SystemStep id) s es t) (horderly : ∀ e ∈ es, ∀ s, Orderly id e s) :
    Run (OrderlyStep id) s es t := by
  induction h with
  | nil s => exact Run.nil s
  | cons hstep _ ih =>
    obtain ⟨he, hes⟩ := List.forall_mem_cons.mp horderly
    exact Run.cons ⟨hstep, he _⟩ (ih hes)

theorem enqueue_phases {sanitizeMessage : String → String} {now : Timestamp} {jobId : JobId}
    {maxAttempts : ℕ} {input : EnqueueInput} {initialRoute : Option MeetingProcessingRoute}
    (s : FinalizationSystem) :
    (enqueue sanitizeMessage now jobId maxAttempts input initialRoute s).phases = s.phases := by
  unfold enqueue
  split_ifs
  · rfl
  · split
    · rfl
    · split_ifs <;> rfl

/-- A first job, and a worker that looks for jobs: both steps meet the condition, and so does a claim. -/
theorem orderly_first {u v : FinalizationSystem}
    (hu : SystemStep id (initialSystem []) ⟨0, enqueueFor "first"⟩ u)
    (hv : SystemStep id u ⟨10, .worker "w" .sweep⟩ v) :
    Orderly id ⟨0, enqueueFor "first"⟩ (initialSystem []) ∧
      Orderly id ⟨20, .worker "w" (.claim [] 1000)⟩ v := by
  refine ⟨And.intro (fun _ _ _ h => by cases h) fun job queue hok hprocessing => ?_,
    fun _ _ _ other waiting availableAt hwaiting => ?_⟩
  · obtain ⟨requested, -, htransaction⟩ := bind_eq_ok.mp hok
    rcases enqueueTransaction_cases htransaction with ⟨existing, hexisting, -⟩ | ⟨-, rfl, -⟩
    · exact absurd (activeJob_some hexisting).1 (Table.not_mem_empty _)
    · cases hprocessing
  · have hphases : u.phases = fun _ => .idle := by
      cases hu
      exact enqueue_phases _
    change workerStep id 10 "w" .sweep u = some v at hv
    simp only [workerStep, hphases] at hv
    cases hv
    change Function.update u.phases "w" _ other = _ at hwaiting
    by_cases ho : other = "w"
    · rw [ho, Function.update_self] at hwaiting
      cases hwaiting
    · rw [Function.update_of_ne ho, hphases] at hwaiting
      cases hwaiting

theorem fails_own_projection_givenUp : ∃ es s raw, Run (OrderlyStep id) (initialSystem []) es s ∧
    overwrites id failureOfFirst s = some ("first", raw) ∧
      raw.jobId = some "first" ∧ raw.status ≠ some .completed := by
  have hreplay : (replay (initialSystem []) (⟨0, enqueueFor "first"⟩ :: givenUp ++
      [⟨60, .worker "w" .readFailed⟩])).map (fun s =>
        (overwrittenBy s, (systemStep id failureOfFirst s).isSome)) =
      some (some ("first", some "first"), true) := by decide
  obtain ⟨s, hs, h⟩ := Option.map_eq_some_iff.mp hreplay
  obtain ⟨hw, ht⟩ := Prod.mk.inj h
  obtain ⟨raw, hraw, -⟩ := overwrites_of_overwrittenBy hw
  obtain ⟨t, hstep⟩ := Option.isSome_iff_exists.mp ht
  obtain ⟨u, hfirst, hrest⟩ := Run.cons_iff.mp (run_replay hs)
  obtain ⟨v, hsweep, hrest⟩ := Run.cons_iff.mp hrest
  obtain ⟨w, hclaim, hrest⟩ := Run.cons_iff.mp hrest
  obtain ⟨henqueue, hclaimed⟩ := orderly_first hfirst hsweep
  have horderly : ∀ e ∈ ([⟨30, .worker "w" (.raise ⟨"meeting_audio_empty", "no audio", false⟩)⟩,
      ⟨40, .worker "w" (.settle 0)⟩, ⟨60, .worker "w" .readFailed⟩] : List SystemEvent),
      ∀ s, Orderly id e s := by
    simp only [List.forall_mem_cons]
    exact ⟨fun _ _ _ h => (by cases h), fun _ => trivial, fun _ => trivial, fun _ h => (by cases h)⟩
  have hrun : Run (OrderlyStep id) (initialSystem []) _ s := Run.cons ⟨hfirst, henqueue⟩
    (Run.cons ⟨hsweep, trivial⟩ (Run.cons ⟨hclaim, hclaimed⟩ (run_orderly hrest horderly)))
  exact ⟨_, s, raw, hrun, hraw, fails_own_projection hrun ⟨hstep, trivial⟩ (fun h => h) hraw⟩

/-- The meeting is enqueued again before the worker reads its projection. -/
theorem newer_job_failed : ∃ es s raw t, Run (SystemStep id) (initialSystem []) es s ∧
    overwrites id failureOfFirst s = some ("first", raw) ∧ raw.jobId = some "second" ∧
      systemStep id failureOfFirst s = some t ∧
        (t.projections "m").map (fun raw => (raw.jobId, raw.status)) =
          some (some "second", some .failed) := by
  have hreplay : (replay (initialSystem []) (⟨0, enqueueFor "first"⟩ :: givenUp ++
      [⟨50, enqueueFor "second"⟩, ⟨60, .worker "w" .readFailed⟩])).map (fun s => (overwrittenBy s,
        (systemStep id failureOfFirst s).map fun t =>
          (t.projections "m").map fun raw => (raw.jobId, raw.status))) =
      some (some ("first", some "second"), some (some (some "second", some .failed))) := by
    decide
  obtain ⟨s, hs, h⟩ := Option.map_eq_some_iff.mp hreplay
  obtain ⟨hw, ht⟩ := Prod.mk.inj h
  obtain ⟨raw, hraw, hjob⟩ := overwrites_of_overwrittenBy hw
  obtain ⟨t, hstep, hstored⟩ := Option.map_eq_some_iff.mp ht
  exact ⟨_, s, raw, t, run_replay hs, hraw, hjob, hstep, hstored⟩

end OwnMinutes.Finalization.FailingJobs
