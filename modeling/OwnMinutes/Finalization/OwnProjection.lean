import OwnMinutes.Finalization.QueueSafety
import OwnMinutes.Finalization.WorkerRuns

/-! # A failing job and the projection

A job claims the projection of its meeting while it is active, and while a worker that put it out of its
hands has still to update the projection. In runs in which no job is created for a meeting that has
such an update outstanding and runs start on the projection of their own job, the projection is that of
the job that claims it (`SystemInv`), so no failure and no requeue overwrites the state of another job.
Outside them the failure of one job hits the projection of the next: `readMeetingFinalizationState` reads
whatever is there, and `failMeetingFinalization` compares it with itself. -/

namespace OwnMinutes.Finalization.OwnProjection

open OwnMinutes.Lib.Keyed OwnMinutes.Lib.Outcome OwnMinutes.Lib.Runs OwnMinutes.Auth.ProcessingRoute
open OwnMinutes.Auth.Records OwnMinutes.Deletion.Store OwnMinutes.Finalization.Records
open OwnMinutes.Finalization.Queue OwnMinutes.Finalization.QueueSafety
open OwnMinutes.Finalization.Projection OwnMinutes.Finalization.Worker
open OwnMinutes.Finalization.WorkerRuns

/-! ### What is overwritten -/

section Messages

variable (sanitizeMessage : String → String)

/-- The state that `failMeetingFinalization` overwrites for a job. -/
def failOverwrites (now : Timestamp) (job : JobRow) (state : MeetingFinalizationState)
    (error : WorkerError) (s : FinalizationSystem) : Option (JobId × StoredState) :=
  if s.allows state.meetingId ∧ (failMeetingFinalization sanitizeMessage now state error
      (s.projections state.meetingId)).2.isSome then
    (s.projections state.meetingId).map (Prod.mk job.id)
  else none

/-- The job on whose behalf a step fails or queues a projection, and the stored state that is replaced. -/
def overwrites (e : SystemEvent) (s : FinalizationSystem) : Option (JobId × StoredState) :=
  match e.call with
  | .enqueue jobId maxAttempts input initialRoute =>
    if !s.allows input.meetingId then none
    else match enqueueMeetingFinalizationJob e.now jobId maxAttempts input initialRoute s.queue with
      | .error _ => none
      | .ok (job, _) =>
        if job.status == .processing &&
            (s.read sanitizeMessage e.now job.meetingId).any (processedFor job) then none
        else (s.projections job.meetingId).map (Prod.mk job.id)
  | .worker workerId call =>
    match call, s.phases workerId with
    | .failSwept, .sweepFailing job current _ =>
      failOverwrites sanitizeMessage e.now job current attemptsExhausted s
    | .failRun failure _, .started job state =>
      failOverwrites sanitizeMessage e.now job state failure s
    | .requeue, .requeueing job _ =>
      if s.allows job.meetingId then (s.projections job.meetingId).map (Prod.mk job.id) else none
    | .fail, .failing job error current =>
      failOverwrites sanitizeMessage e.now job current { error with retryable := false } s
    | _, _ => none

/-- An enqueue for a meeting that has no active job: the job it creates follows the runs before it. -/
def StartsAnew (e : SystemEvent) (s : FinalizationSystem) : Prop :=
  match e.call with
  | .enqueue _ _ input _ => activeJob s.queue input.meetingId = none
  | .worker _ _ => False

/-! ### The condition -/

/-- The row of the job is in the hands of the worker. -/
def HoldsJob (s : FinalizationSystem) (workerId : WorkerId) (job : JobRow) : Prop :=
  ∃ row ∈ s.queue.jobs, row.id = job.id ∧ row.heldBy workerId = true

/-- The stored state of the meeting is completed. -/
def Published (s : FinalizationSystem) (meetingId : MeetingId) : Prop :=
  ∃ raw, s.projections meetingId = some raw ∧ raw.status = some .completed

/-- No job is created for a meeting whose projection is still to be updated for another, and none is
claimed that is still to be queued again. An enqueue that finds a job in processing finds its projection in
processing. A run that starts finds the state of its job, and one that finds a published result finds no
state of another owner. A run publishes while it holds its job; after that it throws nothing that is
retried, and completes its job before the lease runs out. -/
def Orderly (e : SystemEvent) (s : FinalizationSystem) : Prop :=
  match e.call with
  | .enqueue jobId maxAttempts input initialRoute =>
    (activeJob s.queue input.meetingId = none →
      ∀ workerId, ∀ job ∈ (s.phases workerId).pending, job.meetingId ≠ input.meetingId) ∧
    ∀ job queue,
      enqueueMeetingFinalizationJob e.now jobId maxAttempts input initialRoute s.queue = .ok (job, queue) →
        job.status = .processing →
          (s.read sanitizeMessage e.now job.meetingId).any (processedFor job) = true
  | .worker workerId (.claim skipped leaseMs) =>
    ∀ job queue, claimNextJob e.now skipped workerId leaseMs s.queue = (some job, queue) →
      ∀ other waiting availableAt, s.phases other = .requeueing waiting availableAt →
        waiting.id ≠ job.id
  | .worker workerId (.start title leaseMs processingMode audioRevision) =>
    ∀ job, s.phases workerId = .running job →
      isFinalizationLeaseActive e.now (s.read sanitizeMessage e.now job.meetingId) = false →
      ∃ previous, s.read sanitizeMessage e.now job.meetingId = some previous ∧
        recognized (startInput job title leaseMs (some processingMode) (usageOperationKey job)
          audioRevision) previous = true ∧ previous.jobId = some job.id
  | .worker workerId (.publishExisting _ _ _ _ _ _ _) =>
    ∀ job, s.phases workerId = .running job → HoldsJob s workerId job ∧ ∀ previous,
      s.read sanitizeMessage e.now job.meetingId = some previous →
        previous.ownerUserId = job.ownerUserId
  | .worker workerId (.publish _ _) =>
    ∀ job state, s.phases workerId = .started job state → HoldsJob s workerId job
  | .worker workerId (.failRun _ error) | .worker workerId (.raise error) =>
    ∀ job, (s.phases workerId).job? = some job → error.retryable = true → HoldsJob s workerId job →
      ¬Published s job.meetingId
  | .worker workerId .complete =>
    ∀ job, s.phases workerId = .published job → HoldsJob s workerId job →
      hasActiveJobLease e.now job.id workerId s.queue = true
  | _ => True

/-- A step that meets the condition. -/
def OrderlyStep (s : FinalizationSystem) (e : SystemEvent) (t : FinalizationSystem) : Prop :=
  SystemStep sanitizeMessage s e t ∧ Orderly sanitizeMessage e s

end Messages

/-! ### The invariant -/

/-- The job of the stored projection; `none` where nothing is stored. -/
def owner (s : FinalizationSystem) (meetingId : MeetingId) : Option (Option JobId) :=
  (s.projections meetingId).map (·.jobId)

/-- A job claims the projection of its meeting. -/
inductive Claims (s : FinalizationSystem) (meetingId : MeetingId) (jobId : JobId) : Prop
  | active (row : JobRow) (h : row ∈ s.queue.jobs) (hid : row.id = jobId)
      (hm : row.meetingId = meetingId) (ha : row.status.active = true)
  | pending (workerId : WorkerId) (job : JobRow) (h : job ∈ (s.phases workerId).pending)
      (hid : job.id = jobId) (hm : job.meetingId = meetingId)

/-- The job and the state that a worker passes to its next update of the projection. -/
def heldState : Phase → Option (JobRow × MeetingFinalizationState)
  | .started job state => some (job, state)
  | .sweepFailing job current _ => some (job, current)
  | .failing job _ current => some (job, current)
  | _ => none

/-- The job has a row. -/
def HasRow (s : FinalizationSystem) (job : JobRow) : Prop :=
  ∃ row ∈ s.queue.jobs, row.id = job.id ∧ row.meetingId = job.meetingId

/-- The state is that of the job. -/
structure StateOf (job : JobRow) (state : MeetingFinalizationState) : Prop where
  jobId : state.jobId = some job.id
  meetingId : state.meetingId = job.meetingId

structure SystemInv (s : FinalizationSystem) : Prop where
  queue : QueueInv s.queue
  own : ∀ meetingId jobId, Claims s meetingId jobId → owner s meetingId = some (some jobId)
  /-- What is stored carries the id of its meeting. -/
  stored : ∀ meetingId raw, s.projections meetingId = some raw →
    orText raw.meetingId meetingId = meetingId
  row : ∀ workerId job, (s.phases workerId).job? = some job → HasRow s job
  state : ∀ workerId job state, heldState (s.phases workerId) = some (job, state) → StateOf job state

/-- What a step does to the projection of a meeting: a stored state keeps its job. -/
structure ProjectionMove (s t : FinalizationSystem) (meetingId : MeetingId) : Prop where
  owner : owner s meetingId ≠ none → owner t meetingId = owner s meetingId
  stored : ∀ raw, t.projections meetingId = some raw → orText raw.meetingId meetingId = meetingId

variable {s t : FinalizationSystem} {claim : Option (WorkerId × JobId)}

theorem projectionMove_same (h : SystemInv s) (hp : t.projections = s.projections)
    (meetingId : MeetingId) : ProjectionMove s t meetingId where
  owner _ := by rw [owner, owner, hp]
  stored raw hraw := h.stored meetingId raw (hp ▸ hraw)

/-- What is stored for a meeting carries its id, and the job of what it replaces. -/
theorem projectionMove_store (h : SystemInv s) {meetingId : MeetingId} {written : Option StoredState}
    (hw : ∀ raw, written = some raw → orText raw.meetingId meetingId = meetingId ∧
      ∀ old, s.projections meetingId = some old → raw.jobId = old.jobId)
    (hp : t.projections = (s.store meetingId written).projections) (other : MeetingId) :
    ProjectionMove s t other := by
  by_cases ho : other = meetingId
  · subst ho
    have hself : t.projections other = (written <|> s.projections other) := by
      rw [hp, FinalizationSystem.store]
      exact Function.update_self _ _ _
    cases hwritten : written with
    | none =>
      have hsame : t.projections other = s.projections other := by rw [hself, hwritten]; rfl
      exact ⟨fun _ => by rw [owner, owner, hsame], fun raw hraw => h.stored other raw (hsame ▸ hraw)⟩
    | some raw =>
      have hraw : t.projections other = some raw := by rw [hself, hwritten]; rfl
      obtain ⟨hmeeting, hjob⟩ := hw raw hwritten
      refine ⟨fun hne => ?_, fun raw' h' => ?_⟩
      · cases hold : s.projections other with
        | none => exact absurd (by rw [owner, hold]; rfl) hne
        | some old => rw [owner, owner, hraw, hold, Option.map_some, Option.map_some, hjob old hold]
      · rw [hraw] at h'
        cases h'
        exact hmeeting
  · have hother : t.projections other = s.projections other := by
      rw [hp, FinalizationSystem.store]
      exact Function.update_of_ne ho _ _
    exact ⟨fun _ => by rw [owner, owner, hother], fun raw hraw => h.stored other raw (hother ▸ hraw)⟩

/-- The jobs that a worker's phase refers to. -/
structure PhaseOk (s : FinalizationSystem) (phase : Phase) : Prop where
  row : ∀ job, phase.job? = some job → HasRow s job
  pending : ∀ job ∈ phase.pending, Claims s job.meetingId job.id
  state : ∀ job state, heldState phase = some (job, state) → StateOf job state

theorem SystemInv.phase (h : SystemInv s) {workerId : WorkerId} {phase : Phase}
    (hphase : s.phases workerId = phase) : PhaseOk s phase where
  row job hj := h.row workerId job (hphase ▸ hj)
  pending job hm := .pending workerId job (hphase ▸ hm) rfl rfl
  state job state hs := h.state workerId job state (hphase ▸ hs)

theorem phaseOk_idle : PhaseOk s .idle where
  row _ h := by cases h
  pending _ h := by cases h
  state _ _ h := by cases h

variable {job : JobRow}

theorem phaseOk_caught {error : WorkerError} (h : HasRow s job) :
    PhaseOk s (.caught job error) where
  row _ hj := by cases hj; exact h
  pending _ h := by cases h
  state _ _ h := by cases h

theorem phaseOk_published (h : HasRow s job) : PhaseOk s (.published job) where
  row _ hj := by cases hj; exact h
  pending _ h := by cases h
  state _ _ h := by cases h

theorem phaseOk_started {state : MeetingFinalizationState} (h : HasRow s job) (hs : StateOf job state) :
    PhaseOk s (.started job state) where
  row _ hj := by cases hj; exact h
  pending _ h := by cases h
  state _ _ h := by cases h; exact hs

theorem hasRow_moved (h : HasRow s job) (hmove : s.queue.jobs.Rewrites (JobMove claim) t.queue.jobs) :
    HasRow t job := by
  obtain ⟨row, hm, hid, hmeeting⟩ := h
  obtain ⟨row', hm', hr⟩ := hmove.new hm
  exact ⟨row', hm', hr.id.trans hid, hr.meetingId.trans hmeeting⟩

/-- A step keeps the invariant where rows are moved, a stored projection keeps its job, and what the
workers have still to update was claimed before. -/
theorem systemInv_moved (h : SystemInv s) (hmove : s.queue.jobs.Rewrites (JobMove claim) t.queue.jobs)
    (hphases : ∀ workerId, PhaseOk s (t.phases workerId))
    (hproj : ∀ meetingId, ProjectionMove s t meetingId) : SystemInv t where
  queue := queueInv_moved h.queue hmove
  own meetingId jobId hclaims := by
    have hold : Claims s meetingId jobId := by
      cases hclaims with
      | active row' hm hid hmeeting ha =>
        obtain ⟨row, hrow, hr⟩ := hmove.old hm
        exact .active row hrow (hr.id.symm.trans hid) (hr.meetingId.symm.trans hmeeting)
          (hr.active (h.queue.held row hrow) ha)
      | pending workerId job hm hid hmeeting => exact hid ▸ hmeeting ▸ (hphases workerId).pending job hm
    have hown := h.own meetingId jobId hold
    rw [(hproj meetingId).owner (by rw [hown]; simp), hown]
  stored meetingId raw hraw := (hproj meetingId).stored raw hraw
  row workerId job hj := hasRow_moved ((hphases workerId).row job hj) hmove
  state workerId job state hs := (hphases workerId).state job state hs

/-- A step of a worker. -/
theorem systemInv_worker (h : SystemInv s) {workerId : WorkerId} {phase : Phase}
    (hmove : s.queue.jobs.Rewrites (JobMove claim) t.queue.jobs)
    (hphases : t.phases = Function.update s.phases workerId phase)
    (hproj : ∀ meetingId, ProjectionMove s t meetingId) (hphase : PhaseOk s phase) :
    SystemInv t := by
  refine systemInv_moved h hmove (fun other => ?_) hproj
  rw [hphases]
  by_cases ho : other = workerId
  · rw [ho, Function.update_self]
    exact hphase
  · rw [Function.update_of_ne ho]
    exact h.phase rfl

/-- A worker goes on without touching the projections. -/
theorem systemInv_queue (h : SystemInv s) {workerId : WorkerId} {phase : Phase} {queue : QueueState}
    (hmove : s.queue.jobs.Rewrites (JobMove claim) queue.jobs) (hphase : PhaseOk s phase) :
    SystemInv ((s.setQueue queue).setPhase workerId phase) :=
  systemInv_worker h hmove rfl (projectionMove_same h rfl) hphase

theorem unmoved (s : FinalizationSystem) : s.queue.jobs.Rewrites (JobMove none) s.queue.jobs :=
  .refl JobMove.refl _

theorem systemInv_phase (h : SystemInv s) {workerId : WorkerId} {phase : Phase}
    (hphase : PhaseOk s phase) : SystemInv (s.setPhase workerId phase) :=
  systemInv_worker h (unmoved s) rfl (projectionMove_same h rfl) hphase

theorem orText_some (text : String) : orText (some text) text = text := by
  rw [orText]
  by_cases he : text = ""
  · rw [he]; rfl
  · simp [Option.filter, he]

/-- A worker updates the projection of a meeting. -/
theorem systemInv_update (h : SystemInv s) {workerId : WorkerId} {meetingId : MeetingId}
    {written : Option StoredState} {denied next : Phase}
    (hw : ∀ raw, written = some raw → raw.meetingId = some meetingId ∧
      ∀ old, s.projections meetingId = some old → raw.jobId = old.jobId)
    (hdenied : PhaseOk s denied) (hnext : PhaseOk s next) :
    SystemInv (s.update workerId meetingId written denied next) := by
  unfold FinalizationSystem.update
  split_ifs
  · refine systemInv_worker h (unmoved s) rfl (fun other => ?_) hnext
    refine projectionMove_store (t := (s.store meetingId written).setPhase workerId next) h
      (fun raw hraw => ⟨?_, (hw raw hraw).2⟩) rfl other
    rw [(hw raw hraw).1, orText_some]
  · exact systemInv_phase h hdenied

/-- What is read for a job that claims its projection is the state of the job. -/
theorem stateOf_read (h : SystemInv s) {sanitizeMessage : String → String} {now : Timestamp}
    {current : MeetingFinalizationState} (hclaim : Claims s job.meetingId job.id)
    (hread : s.read sanitizeMessage now job.meetingId = some current) : StateOf job current := by
  obtain ⟨raw, hraw, rfl⟩ := Option.map_eq_some_iff.mp hread
  have hown := h.own _ _ hclaim
  rw [owner, hraw, Option.map_some, Option.some.injEq] at hown
  exact ⟨hown, h.stored _ _ hraw⟩

/-- A row that a worker holds is active, and its job claims the projection. -/
theorem claims_of_held (h : SystemInv s) {workerId : WorkerId} {row : JobRow} (hrow : HasRow s job)
    (hget : s.queue.jobs.get? job.id = some row) (hheld : row.heldBy workerId = true) :
    Claims s job.meetingId job.id := by
  obtain ⟨x, hx, hid, hmeeting⟩ := hrow
  obtain ⟨hm, hk⟩ := Table.get?_eq_some.mp hget
  have hsame : x = row := Table.eq_of_key hx hm (hid.trans hk.symm)
  have hactive : row.status.active = true := by
    rw [h.queue.held row hm (by rw [lockedBy_of_heldBy hheld]; simp)]
    rfl
  exact .active row hm hk (hsame ▸ hmeeting) hactive

/-! ### The steps of a worker -/

section Steps

variable {sanitizeMessage : String → String} {now : Timestamp} {workerId : WorkerId}

theorem inv_sweep (h : SystemInv s) :
    SystemInv ((s.setQueue (failExhaustedJobs now s.queue).2).setPhase workerId
      (.sweeping (failExhaustedJobs now s.queue).1)) := by
  refine systemInv_queue h rewrites_failExhausted ⟨fun _ h => (by cases h), fun job hjob => ?_,
    fun _ _ h => (by cases h)⟩
  obtain ⟨row, hrow, rfl⟩ := List.mem_map.mp hjob
  obtain ⟨hm, hp⟩ := List.mem_filter.mp hrow
  simp only [exhausted, Bool.and_eq_true] at hp
  exact .active row hm rfl rfl hp.1.1.1

theorem inv_readSwept (h : SystemInv s) {rows : List JobRow} (hphase : s.phases workerId = .sweeping (job :: rows))
    (hstep : workerStep sanitizeMessage now workerId .readSwept s = some t) : SystemInv t := by
  have hok := h.phase hphase
  simp only [workerStep, hphase] at hstep
  split at hstep
  · cases hstep
    exact systemInv_phase h ⟨fun _ h => (by cases h),
      fun x hx => hok.pending x (List.mem_cons_of_mem _ hx), fun _ _ h => (by cases h)⟩
  · rename_i current hcurrent
    cases hstep
    refine systemInv_phase h ⟨fun _ h => (by cases h), hok.pending, fun _ _ hs => ?_⟩
    cases hs
    exact stateOf_read h (hok.pending job List.mem_cons_self)
      (Option.filter_eq_some_iff.mp hcurrent).1

variable {leaseMs : ℕ}

theorem inv_claim (h : SystemInv s) {skipped : List JobId} (hphase : s.phases workerId = .sweeping [])
    (hstep : workerStep sanitizeMessage now workerId (.claim skipped leaseMs) s = some t) : SystemInv t := by
  simp only [workerStep, hphase] at hstep
  split at hstep
  · cases hstep
    exact systemInv_phase h phaseOk_idle
  · rename_i job queue hclaim
    cases hstep
    have hmove : s.queue.jobs.Rewrites (JobMove ((claimNextJob now skipped workerId leaseMs
        s.queue).1.map fun row => (workerId, row.id)))
        (claimNextJob now skipped workerId leaseMs s.queue).2.jobs := rewrites_claim
    rw [hclaim] at hmove
    refine systemInv_queue h hmove ⟨fun _ hj => ?_, fun _ h => (by cases h), fun _ _ h => (by cases h)⟩
    cases hj
    exact mem_of_claim hclaim

theorem inv_start (h : SystemInv s) {title : String} {processingMode : UserProcessingMode} {audioRevision : String}
    (hphase : s.phases workerId = .running job) (horderly : Orderly sanitizeMessage
      ⟨now, .worker workerId (.start title leaseMs processingMode audioRevision)⟩ s)
    (hstep : workerStep sanitizeMessage now workerId (.start title leaseMs processingMode audioRevision) s = some t) :
    SystemInv t := by
  have hrow := (h.phase hphase).row job rfl
  have horderly := horderly job hphase
  simp only [workerStep, hphase] at hstep
  split_ifs at hstep with hactive
  · cases hstep
    exact systemInv_phase h (phaseOk_caught hrow)
  · obtain ⟨previous, hread, hrecognized, hjob⟩ := horderly (by simpa using hactive)
    obtain ⟨old, hold, hprevious⟩ := Option.map_eq_some_iff.mp hread
    cases hstep
    have hmeeting : previous.meetingId = job.meetingId := by
      rw [← hprevious]
      exact h.stored _ _ hold
    rcases start_cases sanitizeMessage now (startInput job title leaseMs (some processingMode)
        (usageOperationKey job) audioRevision) (s.projections job.meetingId) with
      ⟨previous', hread', -, -, he⟩ | ⟨state, he, hs⟩
    · rw [he]
      cases Option.some.inj (hread.symm.trans hread')
      exact systemInv_update h (fun raw hraw => by cases hraw) (phaseOk_caught hrow)
        (phaseOk_started hrow ⟨hjob, hmeeting⟩)
    · rw [he]
      have hown : (s.read sanitizeMessage now job.meetingId).filter (recognized (startInput job title
          leaseMs (some processingMode) (usageOperationKey job) audioRevision)) = some previous :=
        Option.filter_eq_some_iff.mpr ⟨hread, hrecognized⟩
      have hstate : state.jobId = some job.id := by
        have hbind : ((s.read sanitizeMessage now job.meetingId).filter (recognized (startInput job title
            leaseMs (some processingMode) (usageOperationKey job) audioRevision))).bind
              (·.jobId) = some job.id := by rw [hown]; exact hjob
        rw [hs]
        exact hbind
      refine systemInv_update h ?_ (phaseOk_caught hrow) (phaseOk_started hrow ⟨hstate, by rw [hs]; rfl⟩)
      rintro raw ⟨⟩
      refine ⟨by rw [hs]; rfl, fun old' hold' => ?_⟩
      cases Option.some.inj (hold.symm.trans hold')
      exact hstate.trans (hjob.symm.trans (by rw [← hprevious]; rfl))

theorem inv_publishExisting (h : SystemInv s) {title : String} {processingMode : Option UserProcessingMode}
    {audioRevision operationKey : String} {resultGeneratedAt : Timestamp} {qualityStatus : QualityStatus}
    (hphase : s.phases workerId = .running job)
    (horderly : Orderly sanitizeMessage ⟨now, .worker workerId (.publishExisting title leaseMs
      processingMode audioRevision operationKey resultGeneratedAt qualityStatus)⟩ s)
    (hstep : workerStep sanitizeMessage now workerId (.publishExisting title leaseMs processingMode
      audioRevision operationKey resultGeneratedAt qualityStatus) s = some t) : SystemInv t := by
  have hrow := (h.phase hphase).row job rfl
  have howner := (horderly job hphase).2
  simp only [workerStep, hphase] at hstep
  cases hstep
  refine systemInv_update h ?_ (phaseOk_caught hrow) (phaseOk_published hrow)
  unfold existingState
  cases hread : s.read sanitizeMessage now job.meetingId with
  | some previous =>
    -- the state that is there is completed
    obtain ⟨old, hold, hprevious⟩ := Option.map_eq_some_iff.mp hread
    have hown : (readMeetingFinalizationState sanitizeMessage now job.meetingId
        (s.projections job.meetingId)).filter (·.ownerUserId == job.ownerUserId) = some previous :=
      Option.filter_eq_some_iff.mpr ⟨hread, by simp [howner previous hread]⟩
    rw [hown]
    intro raw hraw
    have hmeeting : previous.meetingId = job.meetingId := by
      rw [← hprevious]
      exact h.stored _ _ hold
    rw [Option.orElse_eq_orElse, Option.orElse_eq_or, Option.or_none] at hraw
    obtain ⟨hid, hjob⟩ := stored_of_complete hraw
    exact ⟨by rw [hid, hmeeting], fun old hold => (hjob old hold).2⟩
  | none =>
    -- nothing is stored: whatever is written replaces nothing
    have hnone : s.projections job.meetingId = none := Option.map_eq_none_iff.mp hread
    have hown : (readMeetingFinalizationState sanitizeMessage now job.meetingId
        (s.projections job.meetingId)).filter (·.ownerUserId == job.ownerUserId) = none := by
      rw [hnone]; rfl
    rw [hown]
    intro raw hraw
    refine ⟨?_, fun old hold => by rw [hnone] at hold; cases hold⟩
    rcases start_cases sanitizeMessage now (startInput job title leaseMs processingMode operationKey
        audioRevision) (s.projections job.meetingId) with ⟨_, hread', -⟩ | ⟨state, he, hs⟩
    · rw [hnone] at hread'; cases hread'
    · have hmeeting : state.meetingId = job.meetingId := by rw [hs]; rfl
      simp only [he] at hraw
      rw [Option.orElse_eq_orElse, Option.orElse_eq_or, Option.or_eq_some_iff] at hraw
      rcases hraw with hraw | ⟨-, hraw⟩
      · rw [(stored_of_complete hraw).1, hmeeting]
      · cases hraw
        rw [writeState, hmeeting]

theorem updateJob_some {jobId : JobId} {p : JobRow → Bool} {f : JobRow → JobRow} {q q' : QueueState}
    {row' : JobRow} (h : updateJob q jobId p f = (some row', q')) :
    ∃ row, q.jobs.get? jobId = some row ∧ p row = true := by
  rcases updateJob_cases q jobId p f with he | ⟨row, hrow, hp, -⟩
  · rw [he] at h; cases h
  · exact ⟨row, hrow, hp⟩

theorem inv_settle (h : SystemInv s) {availableAt : Timestamp} {error : WorkerError}
    (hphase : s.phases workerId = .caught job error) :
    SystemInv (settle sanitizeMessage now workerId job error availableAt s) := by
  have hrow := (h.phase hphase).row job rfl
  unfold settle
  split_ifs
  · exact systemInv_queue h rewrites_cancel phaseOk_idle
  · split
    · exact systemInv_phase h phaseOk_idle
    · rename_i row' queue hretry
      have hmove : s.queue.jobs.Rewrites (JobMove none)
          (retryJobLater sanitizeMessage now job.id workerId error availableAt s.queue).2.jobs :=
        rewrites_retryLater
      rw [hretry] at hmove
      obtain ⟨row, hget, hheld⟩ := updateJob_some hretry
      refine systemInv_queue h hmove ⟨fun _ hj => by cases hj; exact hrow, fun x hx => ?_,
        fun _ _ h => (by cases h)⟩
      cases List.mem_singleton.mp hx
      exact claims_of_held h hrow hget hheld
  · split
    · exact systemInv_phase h phaseOk_idle
    · rename_i row' queue hfail
      have hmove : s.queue.jobs.Rewrites (JobMove none)
          (failJob sanitizeMessage now job.id workerId error s.queue).2.jobs := rewrites_fail
      rw [hfail] at hmove
      obtain ⟨row, hget, hheld⟩ := updateJob_some hfail
      refine systemInv_queue h hmove ⟨fun _ hj => by cases hj; exact hrow, fun x hx => ?_,
        fun _ _ h => (by cases h)⟩
      cases List.mem_singleton.mp hx
      exact claims_of_held h hrow hget hheld

theorem inv_requeue (h : SystemInv s) {availableAt : Timestamp}
    (hphase : s.phases workerId = .requeueing job availableAt) :
    SystemInv (s.update workerId job.meetingId (some (writeState (queueMeetingFinalization
      sanitizeMessage now (queueInput job availableAt) (s.projections job.meetingId)))) .idle .idle) := by
  refine systemInv_update h ?_ phaseOk_idle phaseOk_idle
  rintro raw ⟨⟩
  refine ⟨rfl, fun old hold => ?_⟩
  have hown := h.own _ _ ((h.phase hphase).pending job List.mem_cons_self)
  rw [owner, hold, Option.map_some, Option.some.injEq] at hown
  exact hown.symm

theorem inv_readFailed (h : SystemInv s) {error : WorkerError} (hphase : s.phases workerId = .failed job error)
    (hstep : workerStep sanitizeMessage now workerId .readFailed s = some t) : SystemInv t := by
  have hok := h.phase hphase
  simp only [workerStep, hphase] at hstep
  split at hstep
  · cases hstep
    exact systemInv_phase h phaseOk_idle
  · rename_i current hcurrent
    cases hstep
    refine systemInv_phase h ⟨hok.row, hok.pending, fun _ _ hs => ?_⟩
    cases hs
    exact stateOf_read h (hok.pending job List.mem_cons_self)
      (Option.filter_eq_some_iff.mp hcurrent).1

/-- A heartbeat renews the row, or cancels it where the projection went on without it; the projection stays or is
renewed. -/
theorem heartbeat_writes {R : JobRow → JobRow → Prop} (hrefl : ∀ row, R row row)
    (htrans : ∀ row row' row'', R row row' → R row' row'' → R row row'') {allowed : Bool} {q : QueueState}
    {stored : Option StoredState}
    (hbeat : ∀ q', heartbeatJob now job.id workerId leaseMs q = .ok ((), q') → q.jobs.Rewrites R q'.jobs)
    (hcancel : ∀ (q' : QueueState) error, q'.jobs.Rewrites R (cancelJob sanitizeMessage now job.id workerId error q').2.jobs) :
    let after := (heartbeat sanitizeMessage now job workerId leaseMs allowed q stored).2
    q.jobs.Rewrites R after.1.jobs ∧ ∀ raw, after.2 = some raw → stored = some raw ∨
      (refreshMeetingFinalizationLease sanitizeMessage now job.meetingId (jobIdentity job) leaseMs stored).2 =
        some raw := by
  unfold heartbeat
  cases hresult : heartbeatJob now job.id workerId leaseMs q with
  | error e => exact ⟨.refl hrefl _, fun raw hraw => .inl hraw⟩
  | ok p =>
    have hkept := hbeat p.2 hresult
    have hwritten : ∀ raw, ((refreshMeetingFinalizationLease sanitizeMessage now job.meetingId
        (jobIdentity job) leaseMs stored).2 <|> stored) = some raw → stored = some raw ∨
        (refreshMeetingFinalizationLease sanitizeMessage now job.meetingId (jobIdentity job) leaseMs stored).2 =
          some raw := by
      intro raw hraw
      rw [Option.orElse_eq_orElse, Option.orElse_eq_or, Option.or_eq_some_iff] at hraw
      exact hraw.symm.imp_left And.right
    simp only [heartbeatProjection]
    split_ifs
    · exact ⟨hkept.trans htrans (hcancel _ _), fun raw hraw => .inl hraw⟩
    · exact ⟨hkept, hwritten⟩
    · exact ⟨hkept.trans htrans (hcancel _ _), hwritten⟩

theorem heartbeat_moves {allowed : Bool} {q : QueueState} {stored : Option StoredState} :
    let after := (heartbeat sanitizeMessage now job workerId leaseMs allowed q stored).2
    q.jobs.Rewrites (JobMove none) after.1.jobs ∧ ∀ raw, after.2 = some raw → stored = some raw ∨
      raw.meetingId = some job.meetingId ∧ ∀ old, stored = some old → raw.jobId = old.jobId :=
  And.imp_right (fun h raw hraw => (h raw hraw).imp_right stored_of_refresh)
    (heartbeat_writes JobMove.refl JobMove.trans_none (fun _ => rewrites_heartbeat) fun _ _ => rewrites_cancel)

theorem inv_heartbeat (h : SystemInv s)
    (hstep : workerStep sanitizeMessage now workerId (.heartbeat leaseMs) s = some t) : SystemInv t := by
  simp only [workerStep] at hstep
  obtain ⟨job, -, rfl⟩ := Option.map_eq_some_iff.mp hstep
  obtain ⟨hmove, hstored⟩ := @heartbeat_moves _ sanitizeMessage now workerId leaseMs
    (s.allows job.meetingId) s.queue (s.projections job.meetingId)
  refine systemInv_moved h hmove (fun other => h.phase rfl)
    (projectionMove_store h (fun raw hraw => ?_) rfl)
  rcases hstored raw hraw with hsame | ⟨hmeeting, hjob⟩
  · refine ⟨h.stored _ _ hsame, fun old hold => ?_⟩
    rw [Option.some.inj (hsame.symm.trans hold)]
  · exact ⟨by rw [hmeeting, orText_some], hjob⟩

/-- The run, or the worker for it, fails or completes the projection of the job. -/
theorem inv_written (h : SystemInv s) {state : MeetingFinalizationState} {written : Option StoredState}
    {denied next : Phase}
    (hw : ∀ raw, written = some raw → raw.meetingId = some state.meetingId ∧
      ∀ old, s.projections state.meetingId = some old → old.jobId = state.jobId ∧ raw.jobId = old.jobId)
    (hdenied : PhaseOk s denied) (hnext : PhaseOk s next) :
    SystemInv (s.update workerId state.meetingId written denied next) :=
  systemInv_update h (fun raw hraw => ⟨(hw raw hraw).1, fun old hold => ((hw raw hraw).2 old hold).2⟩)
    hdenied hnext

theorem inv_failSwept (h : SystemInv s) {current : MeetingFinalizationState} {rows : List JobRow}
    (hphase : s.phases workerId = .sweepFailing job current rows) :
    SystemInv (s.update workerId current.meetingId (failMeetingFinalization sanitizeMessage now current
      attemptsExhausted (s.projections current.meetingId)).2 .idle (.sweeping rows)) :=
  inv_written h (fun _ => stored_of_fail) phaseOk_idle
    ⟨fun _ h => (by cases h), fun x hx => (h.phase hphase).pending x (List.mem_cons_of_mem _ hx),
      fun _ _ h => (by cases h)⟩

theorem inv_complete (h : SystemInv s) (hphase : s.phases workerId = .published job)
    (hstep : workerStep sanitizeMessage now workerId .complete s = some t) : SystemInv t := by
  simp only [workerStep, hphase] at hstep
  split at hstep
  · cases hstep
    exact systemInv_phase h (phaseOk_caught ((h.phase hphase).row job rfl))
  · rename_i queue hcomplete
    cases hstep
    exact systemInv_queue h (rewrites_complete hcomplete) phaseOk_idle

/-- Where a worker is when it makes a call. -/
inductive CallAt : WorkerCall → Phase → Prop
  | sweep : CallAt .sweep .idle
  | readSwept {job : JobRow} {rows : List JobRow} : CallAt .readSwept (.sweeping (job :: rows))
  | failSwept {job : JobRow} {current : MeetingFinalizationState} {rows : List JobRow} :
      CallAt .failSwept (.sweepFailing job current rows)
  | claim {skipped : List JobId} {leaseMs : ℕ} : CallAt (.claim skipped leaseMs) (.sweeping [])
  | start {title : String} {leaseMs : ℕ} {processingMode : UserProcessingMode} {audioRevision : String} {job : JobRow} :
      CallAt (.start title leaseMs processingMode audioRevision) (.running job)
  | publishExisting {title : String} {leaseMs : ℕ} {processingMode : Option UserProcessingMode}
      {audioRevision operationKey : String} {resultGeneratedAt : Timestamp} {qualityStatus : QualityStatus}
      {job : JobRow} : CallAt (.publishExisting title leaseMs processingMode audioRevision operationKey
        resultGeneratedAt qualityStatus) (.running job)
  | publish {resultGeneratedAt : Timestamp} {qualityStatus : QualityStatus} {job : JobRow}
      {state : MeetingFinalizationState} : CallAt (.publish resultGeneratedAt qualityStatus) (.started job state)
  | failRun {failure error : WorkerError} {job : JobRow} {state : MeetingFinalizationState} :
      CallAt (.failRun failure error) (.started job state)
  | raise {error : WorkerError} {job : JobRow} {phase : Phase}
      (h : phase = .running job ∨ (∃ state, phase = .started job state) ∨ phase = .published job) :
      CallAt (.raise error) phase
  | complete {job : JobRow} : CallAt .complete (.published job)
  | settle {availableAt : Timestamp} {job : JobRow} {error : WorkerError} :
      CallAt (.settle availableAt) (.caught job error)
  | requeue {job : JobRow} {availableAt : Timestamp} : CallAt .requeue (.requeueing job availableAt)
  | readFailed {job : JobRow} {error : WorkerError} : CallAt .readFailed (.failed job error)
  | fail {job : JobRow} {error : WorkerError} {current : MeetingFinalizationState} :
      CallAt .fail (.failing job error current)
  | heartbeat {leaseMs : ℕ} {phase : Phase} : CallAt (.heartbeat leaseMs) phase
  | crash {phase : Phase} : CallAt .crash phase

theorem callAt_of_step {call : WorkerCall} (h : workerStep sanitizeMessage now workerId call s = some t) :
    CallAt call (s.phases workerId) := by
  unfold workerStep at h
  split at h <;> first
    | cases h; done
    | exact .heartbeat
    | exact .crash
    | (rename_i hphase; rw [hphase]; first
        | exact .raise (.inl rfl)
        | exact .raise (.inr (.inl ⟨_, rfl⟩))
        | exact .raise (.inr (.inr rfl))
        | constructor)

/-- A step of a worker keeps the invariant. -/
theorem inv_worker (h : SystemInv s) {call : WorkerCall}
    (horderly : Orderly sanitizeMessage ⟨now, .worker workerId call⟩ s)
    (hstep : workerStep sanitizeMessage now workerId call s = some t) : SystemInv t := by
  have hat := callAt_of_step hstep
  generalize hphase : s.phases workerId = phase at hat
  have hok := h.phase hphase
  cases hat with
  | crash =>
    rw [workerStep_crash] at hstep
    cases hstep
    exact systemInv_phase h phaseOk_idle
  | heartbeat => exact inv_heartbeat h hstep
  | sweep =>
    simp only [workerStep, hphase] at hstep
    cases hstep
    exact inv_sweep h
  | readSwept => exact inv_readSwept h hphase hstep
  | failSwept =>
    simp only [workerStep, hphase] at hstep
    cases hstep
    exact inv_failSwept h hphase
  | claim => exact inv_claim h hphase hstep
  | start => exact inv_start h hphase horderly hstep
  | publishExisting => exact inv_publishExisting h hphase horderly hstep
  | publish =>
    simp only [workerStep, hphase] at hstep
    cases hstep
    exact inv_written h (fun _ => stored_of_complete) (phaseOk_caught (hok.row _ rfl)) (phaseOk_published (hok.row _ rfl))
  | failRun =>
    simp only [workerStep, hphase] at hstep
    cases hstep
    exact inv_written h (fun _ => stored_of_fail) (phaseOk_caught (hok.row _ rfl)) (phaseOk_caught (hok.row _ rfl))
  | raise hat =>
    rcases hat with rfl | ⟨state, rfl⟩ | rfl <;>
    · simp only [workerStep, hphase] at hstep
      cases hstep
      exact systemInv_phase h (phaseOk_caught (hok.row _ rfl))
  | complete => exact inv_complete h hphase hstep
  | settle =>
    simp only [workerStep, hphase] at hstep
    cases hstep
    exact inv_settle h hphase
  | requeue =>
    simp only [workerStep, hphase] at hstep
    cases hstep
    exact inv_requeue h hphase
  | readFailed => exact inv_readFailed h hphase hstep
  | fail =>
    simp only [workerStep, hphase] at hstep
    cases hstep
    exact inv_written h (fun _ => stored_of_fail) phaseOk_idle phaseOk_idle

/-- What an enqueue writes for a job. -/
theorem stored_of_queued {availableAt : Timestamp} {stored : Option StoredState} :
    let raw := writeState (queueMeetingFinalization sanitizeMessage now (queueInput job availableAt) stored)
    raw.jobId = some job.id ∧ orText raw.meetingId job.meetingId = job.meetingId :=
  ⟨rfl, orText_some _⟩

/-- An enqueue that finds an active job: the projection is that of the job. -/
theorem inv_enqueue_existing (h : SystemInv s) {queue : QueueState} {existing : JobRow}
    (hm : existing ∈ s.queue.jobs) (ha : existing.status.active = true) (hid : job.id = existing.id)
    (hmeeting : job.meetingId = existing.meetingId) (hmove : s.queue.jobs.Rewrites (JobMove none) queue.jobs) :
    SystemInv (s.setQueue queue) ∧ SystemInv ((s.setQueue queue).store job.meetingId (some (writeState
      (queueMeetingFinalization sanitizeMessage now (queueInput job job.availableAt)
        (s.projections job.meetingId))))) := by
  have hown := h.own _ _ (.active existing hm rfl rfl ha)
  refine ⟨systemInv_moved h hmove (fun _ => h.phase rfl) (projectionMove_same h rfl),
    systemInv_moved h hmove (fun _ => h.phase rfl) (projectionMove_store h (fun raw hraw => ?_) rfl)⟩
  obtain ⟨hjob, hstored⟩ := @stored_of_queued job sanitizeMessage now job.availableAt
    (s.projections job.meetingId)
  cases hraw
  refine ⟨hstored, fun old hold => ?_⟩
  rw [owner, ← hmeeting, hold, Option.map_some, Option.some.injEq] at hown
  rw [hjob, hown, hid]

/-- An enqueue that creates a job: nothing else claims the projection. -/
theorem inv_enqueue_created (h : SystemInv s) (hfresh : s.queue.jobs.Fresh job.id)
    (hmove : JobsMove none s.queue.jobs (s.queue.jobs.insert job)) (hnone : activeJob s.queue job.meetingId = none)
    (hpending : ∀ workerId, ∀ other ∈ (s.phases workerId).pending, other.meetingId ≠ job.meetingId) :
    SystemInv ((s.setQueue { s.queue with jobs := s.queue.jobs.insert job }).store job.meetingId
      (some (writeState (queueMeetingFinalization sanitizeMessage now (queueInput job job.availableAt)
        (s.projections job.meetingId))))) := by
  obtain ⟨hjob, hstored⟩ := @stored_of_queued job sanitizeMessage now job.availableAt
    (s.projections job.meetingId)
  set raw := writeState (queueMeetingFinalization sanitizeMessage now (queueInput job job.availableAt)
    (s.projections job.meetingId))
  have hself : Function.update s.projections job.meetingId (some raw) job.meetingId = some raw :=
    Function.update_self _ _ _
  have hother : ∀ m, m ≠ job.meetingId →
      Function.update s.projections job.meetingId (some raw) m = s.projections m :=
    fun m hm => Function.update_of_ne hm _ _
  refine ⟨queueInv_jobsMove h.queue hmove, fun m id hclaims => ?_, fun m raw' hraw => ?_,
    fun w x hx => ?_, h.state⟩
  · have hold : m ≠ job.meetingId → Claims s m id → (Function.update s.projections job.meetingId
        (some raw) m).map (·.jobId) = some (some id) := fun hm hc => by
      rw [hother m hm]
      exact h.own m id hc
    cases hclaims with
    | active row hm hid hmeeting ha =>
      rcases (Table.mem_insert hfresh).mp hm with hrow | rfl
      · refine hold (fun hsame => ?_) (.active row hrow hid hmeeting ha)
        rw [activeJob_none hnone row hrow (hmeeting.trans hsame)] at ha
        cases ha
      · change (Function.update s.projections row.meetingId (some raw) m).map _ = _
        rw [← hmeeting, hself, Option.map_some, hjob, hid]
    | pending w other hm hid hmeeting =>
      exact hold (fun hsame => hpending w other hm (hmeeting.trans hsame)) (.pending w other hm hid hmeeting)
  · change Function.update s.projections job.meetingId (some raw) m = some raw' at hraw
    by_cases hm : m = job.meetingId
    · rw [hm, hself] at hraw
      cases hraw
      rw [hm]
      exact hstored
    · exact h.stored m raw' ((hother m hm).symm.trans hraw)
  · obtain ⟨row, hrow, he⟩ := h.row w x hx
    exact ⟨row, (Table.mem_insert hfresh).mpr (.inl hrow), he⟩

theorem inv_enqueue (h : SystemInv s) {jobId : JobId} {maxAttempts : ℕ} {input : EnqueueInput}
    {initialRoute : Option MeetingProcessingRoute}
    (horderly : Orderly sanitizeMessage ⟨now, .enqueue jobId maxAttempts input initialRoute⟩ s) :
    SystemInv (enqueue sanitizeMessage now jobId maxAttempts input initialRoute s) := by
  unfold enqueue
  split_ifs
  · exact h
  · split
    · exact h
    · rename_i job queue hok
      obtain ⟨requested, -, htransaction⟩ := bind_eq_ok.mp hok
      have hmove := jobsMove_enqueue htransaction
      rcases enqueueTransaction_cases htransaction with
        ⟨existing, hexisting, rfl, rfl⟩ | ⟨hnone, rfl, hfresh, rfl⟩
      · obtain ⟨hm, -, ha⟩ := activeJob_some hexisting
        have hrewrites : s.queue.jobs.Rewrites (JobMove none)
            (s.queue.jobs.replace (hydratedJob now input requested existing)) :=
          rewrites_replace hm ⟨rfl, rfl, rfl, Or.inl ⟨rfl, rfl, rfl⟩⟩
        obtain ⟨hsame, hstored⟩ := @inv_enqueue_existing s
          (hydratedJob now input requested existing) sanitizeMessage now h
          { s.queue with jobs := s.queue.jobs.replace (hydratedJob now input requested existing) }
          existing hm ha rfl rfl hrewrites
        split_ifs
        · exact hsame
        · exact hstored
      · rw [if_neg (by simp [queuedJob])]
        exact inv_enqueue_created h hfresh hmove hnone (horderly.1 hnone)

end Steps

/-- A step that meets the condition keeps the invariant. -/
theorem systemInv_step {sanitizeMessage : String → String} {e : SystemEvent} (h : SystemInv s)
    (hstep : OrderlyStep sanitizeMessage s e t) : SystemInv t := by
  obtain ⟨hstep, horderly⟩ := hstep
  obtain ⟨now, call⟩ := e
  cases call with
  | enqueue jobId maxAttempts input initialRoute =>
    cases hstep
    exact inv_enqueue h horderly
  | worker workerId call => exact inv_worker h horderly hstep

/-- Nothing is queued and nothing is stored; some meetings are deleted. -/
def initialSystem (tombstones : List MeetingId) : FinalizationSystem where
  queue := ⟨.empty, tombstones⟩

theorem systemInv_initial (tombstones : List MeetingId) : SystemInv (initialSystem tombstones) where
  queue := queueInv_empty tombstones
  own _ _ hclaims := by
    cases hclaims with
    | active row hm => exact absurd hm (Table.not_mem_empty row)
    | pending _ _ hm => cases hm
  stored _ _ h := by cases h
  row _ _ h := by cases h
  state _ _ _ h := by cases h

end OwnMinutes.Finalization.OwnProjection
