import OwnMinutes.Finalization.Queue
import OwnMinutes.Lib.Runs

/-! # Leases of finalization jobs

Workers and routes call the queue in any order, with the clock of the database and the tombstones
anything they like. `JobMove` says all that a call can do to a row: leave its status and its holder,
claim it for a worker, or put it out of a worker's hands. From it follow the invariant `QueueInv`,
that a job which is not held by a worker stays so until the worker claims it, and that a job which
is completed, failed or cancelled stays so (`LeaseSafe`). -/

namespace OwnMinutes.Finalization.QueueSafety

open OwnMinutes.Lib.Keyed OwnMinutes.Lib.Outcome OwnMinutes.Lib.Runs OwnMinutes.Auth.ProcessingRoute
open OwnMinutes.Auth.Records OwnMinutes.Finalization.Records OwnMinutes.Finalization.Queue

/-! ### Calls -/

inductive QueueCall
  | enqueue (jobId : JobId) (maxAttempts : ℕ) (input : EnqueueInput)
      (initialRoute : Option MeetingProcessingRoute)
  | claim (skipped : List JobId) (workerId : WorkerId) (leaseMs : ℕ)
  | heartbeat (jobId : JobId) (workerId : WorkerId) (leaseMs : ℕ)
  | complete (jobId : JobId) (workerId : WorkerId)
  | retryLater (jobId : JobId) (workerId : WorkerId) (error : WorkerError) (availableAt : Timestamp)
  | fail (jobId : JobId) (workerId : WorkerId) (error : WorkerError)
  | cancel (jobId : JobId) (workerId : WorkerId) (error : WorkerError)
  | failExhausted
  | cancelMeeting (meetingId : MeetingId) (ownerUserId : UserId)

/-- The worker and the job of a call that a worker makes on its job. -/
def QueueCall.worker? : QueueCall → Option (WorkerId × JobId)
  | .heartbeat jobId workerId _ => some (workerId, jobId)
  | .complete jobId workerId => some (workerId, jobId)
  | .retryLater jobId workerId _ _ => some (workerId, jobId)
  | .fail jobId workerId _ => some (workerId, jobId)
  | .cancel jobId workerId _ => some (workerId, jobId)
  | _ => none

structure QueueEvent where
  now : Timestamp
  call : QueueCall

section Sanitized

variable (sanitizeMessage : String → String)

/-- The state after a call. -/
def apply (e : QueueEvent) (s : QueueState) : QueueState :=
  match e.call with
  | .enqueue jobId maxAttempts input initialRoute =>
    (commit s (enqueueMeetingFinalizationJob e.now jobId maxAttempts input initialRoute s)).2
  | .claim skipped workerId leaseMs => (claimNextJob e.now skipped workerId leaseMs s).2
  | .heartbeat jobId workerId leaseMs => (commit s (heartbeatJob e.now jobId workerId leaseMs s)).2
  | .complete jobId workerId => (commit s (completeJob e.now jobId workerId s)).2
  | .retryLater jobId workerId error availableAt =>
    (retryJobLater sanitizeMessage e.now jobId workerId error availableAt s).2
  | .fail jobId workerId error => (failJob sanitizeMessage e.now jobId workerId error s).2
  | .cancel jobId workerId error => (cancelJob sanitizeMessage e.now jobId workerId error s).2
  | .failExhausted => (failExhaustedJobs e.now s).2
  | .cancelMeeting meetingId ownerUserId =>
    cancelMeetingFinalizationJobs e.now meetingId ownerUserId s

/-- The worker that claims a job in the call, and the job. -/
def claimOf (e : QueueEvent) (s : QueueState) : Option (WorkerId × JobId) :=
  match e.call with
  | .claim skipped workerId leaseMs =>
    (claimNextJob e.now skipped workerId leaseMs s).1.map fun row => (workerId, row.id)
  | _ => none

/-- One call; the tombstones are written by others. -/
def QueueStep (s : QueueState) (e : QueueEvent) (t : QueueState) : Prop :=
  t.jobs = (apply sanitizeMessage e s).jobs

/-- A call in which the worker does not claim the job. -/
def QueueStepWithout (workerId : WorkerId) (jobId : JobId) (s : QueueState) (e : QueueEvent)
    (t : QueueState) : Prop :=
  QueueStep sanitizeMessage s e t ∧ claimOf e s ≠ some (workerId, jobId)

end Sanitized

/-! ### What a call does to a row -/

/-- What a call in which `claim` happens may do to a row. -/
structure JobMove (claim : Option (WorkerId × JobId)) (row row' : JobRow) : Prop where
  id : row'.id = row.id
  meetingId : row'.meetingId = row.meetingId
  maxAttempts : row'.maxAttempts = row.maxAttempts
  move :
    (row'.status = row.status ∧ row'.lockedBy = row.lockedBy ∧ row'.attempt = row.attempt) ∨
    (row.status.active = true ∧ row.attempt < row.maxAttempts ∧ row'.status = .processing ∧
      row'.attempt = row.attempt + 1 ∧
      ∃ workerId, claim = some (workerId, row.id) ∧ row'.lockedBy = some workerId) ∨
    ((row.status.active = true ∨ row.lockedBy ≠ none) ∧ row'.status ≠ .processing ∧
      row'.lockedBy = none ∧ row'.attempt = row.attempt)

theorem JobMove.refl {claim : Option (WorkerId × JobId)} (row : JobRow) : JobMove claim row row :=
  ⟨rfl, rfl, rfl, Or.inl ⟨rfl, rfl, rfl⟩⟩

/-- Without a claim, two calls do no more than one. -/
theorem JobMove.trans_none (row row' row'' : JobRow) (h : JobMove none row row')
    (h' : JobMove none row' row'') : JobMove none row row'' := by
  refine ⟨h'.id.trans h.id, h'.meetingId.trans h.meetingId, h'.maxAttempts.trans h.maxAttempts, ?_⟩
  rcases h.move with ⟨hs, hl, ha⟩ | ⟨-, -, -, -, _, hclaim, -⟩ | ⟨hwas, hs, hl, ha⟩
  · rcases h'.move with ⟨hs', hl', ha'⟩ | ⟨-, -, -, -, _, hclaim, -⟩ | ⟨hwas, hs', hl', ha'⟩
    · exact .inl ⟨hs'.trans hs, hl'.trans hl, ha'.trans ha⟩
    · cases hclaim
    · exact .inr (.inr ⟨hs ▸ hl ▸ hwas, hs', hl', ha'.trans ha⟩)
  · cases hclaim
  · rcases h'.move with ⟨hs', hl', ha'⟩ | ⟨-, -, -, -, _, hclaim, -⟩ | ⟨-, hs', hl', ha'⟩
    · exact .inr (.inr ⟨hwas, hs' ▸ hs, hl'.trans hl, ha'.trans ha⟩)
    · cases hclaim
    · exact .inr (.inr ⟨hwas, hs', hl', ha'.trans ha⟩)

theorem JobMove.key {claim : Option (WorkerId × JobId)} (x y : JobRow) (h : JobMove claim x y) :
    HasKey.key y = HasKey.key x := h.id

/-- The rows moved, and at most one new job, of a meeting that has no active one. -/
inductive JobsMove (claim : Option (WorkerId × JobId)) (jobs jobs' : Table JobRow) : Prop
  | moved (h : jobs.Rewrites (JobMove claim) jobs')
  | added (row : JobRow) (hfresh : jobs.Fresh row.id) (he : jobs' = jobs.insert row)
      (hqueued : row.status = .queued ∧ row.lockedBy = none ∧ row.attempt = 0)
      (halone : ∀ x ∈ jobs, x.meetingId = row.meetingId → x.status.active = false)

theorem jobsMove_refl {claim : Option (WorkerId × JobId)} (jobs : Table JobRow) :
    JobsMove claim jobs jobs := .moved (.refl JobMove.refl jobs)

theorem rewrites_replace {claim : Option (WorkerId × JobId)} {s : QueueState} {x y : JobRow}
    (hy : y ∈ s.jobs) (h : JobMove claim y x) :
    s.jobs.Rewrites (JobMove claim) (s.jobs.replace x) :=
  Table.rewrites_replace_mem JobMove.refl hy h.id h

theorem updateJob_cases (s : QueueState) (jobId : JobId) (p : JobRow → Bool) (f : JobRow → JobRow) :
    updateJob s jobId p f = (none, s) ∨ ∃ row, s.jobs.get? jobId = some row ∧ p row = true ∧
      updateJob s jobId p f = (some (f row), { s with jobs := s.jobs.replace (f row) }) := by
  unfold updateJob
  cases h : (s.jobs.get? jobId).filter p with
  | none => exact Or.inl rfl
  | some row =>
    obtain ⟨hrow, hp⟩ := Option.filter_eq_some_iff.mp h
    exact Or.inr ⟨row, hrow, hp, rfl⟩

/-- A worker's update of the job it holds. -/
theorem rewrites_updateJob {s : QueueState} {jobId : JobId} {p : JobRow → Bool}
    {f : JobRow → JobRow} (h : ∀ row, p row = true → JobMove none row (f row)) :
    s.jobs.Rewrites (JobMove none) (updateJob s jobId p f).2.jobs := by
  rcases updateJob_cases s jobId p f with he | ⟨row, hrow, hp, he⟩
  · rw [he]; exact .refl JobMove.refl _
  · rw [he]; exact rewrites_replace (Table.mem_of_get? hrow) (h row hp)

variable {row : JobRow}

/-- A job that is put out of the hands of its worker. -/
theorem jobMove_released {row' : JobRow} (h : row.status.active = true ∨ row.lockedBy ≠ none)
    (hid : row'.id = row.id) (hmeeting : row'.meetingId = row.meetingId) (hmax : row'.maxAttempts = row.maxAttempts)
    (hstatus : row'.status ≠ .processing) (hlocked : row'.lockedBy = none) (hattempt : row'.attempt = row.attempt) :
    JobMove none row row' := ⟨hid, hmeeting, hmax, Or.inr (Or.inr ⟨h, hstatus, hlocked, hattempt⟩)⟩

theorem lockedBy_of_heldBy {workerId : WorkerId} (h : row.heldBy workerId = true) :
    row.lockedBy = some workerId := beq_iff_eq.mp h

theorem active_of_claimable {now : Timestamp} {tombstones : List MeetingId} (h : claimable now tombstones row = true) :
    row.status.active = true ∧ row.attempt < row.maxAttempts := by
  simp only [claimable, Bool.and_eq_true, Bool.or_eq_true, decide_eq_true_eq, beq_iff_eq] at h
  refine ⟨?_, h.1.1⟩
  rcases h.2 with ⟨hs | hs, -⟩ | ⟨hs, -⟩ <;> rw [hs] <;> rfl

/-- An enqueue fills in the active job of the meeting, or creates a job where there is none. -/
theorem enqueueTransaction_cases {now : Timestamp} {jobId : JobId} {maxAttempts : ℕ} {input : EnqueueInput}
    {requested : UserProcessingMode} {s t : QueueState}
    (h : enqueueTransaction now jobId maxAttempts input requested s = .ok (row, t)) :
    (∃ existing, activeJob s input.meetingId = some existing ∧
      row = hydratedJob now input requested existing ∧
        t = { s with jobs := s.jobs.replace row }) ∨
    activeJob s input.meetingId = none ∧ row = queuedJob now jobId maxAttempts input requested ∧
      s.jobs.Fresh row.id ∧ t = { s with jobs := s.jobs.insert row } := by
  unfold enqueueTransaction at h
  split at h
  · rename_i existing hexisting
    obtain ⟨-, h⟩ := guard_eq_ok.mp h
    obtain ⟨-, h⟩ := guard_eq_ok.mp h
    obtain ⟨-, h⟩ := guard_eq_ok.mp h
    dsimp only at h
    split at h
    · cases h
      exact .inl ⟨existing, hexisting, rfl, rfl⟩
    · cases h
  · rename_i hnone
    dsimp only at h
    split at h
    · rename_i hvalid
      cases h
      exact .inr ⟨hnone, rfl, hvalid.2, rfl⟩
    · cases h

theorem activeJob_some {s : QueueState} {meetingId : MeetingId} (h : activeJob s meetingId = some row) :
    row ∈ s.jobs ∧ row.meetingId = meetingId ∧ row.status.active = true := by
  obtain ⟨hm, hp⟩ := List.mem_filter.mp (List.argmax_mem h)
  rw [Bool.and_eq_true, beq_iff_eq] at hp
  exact ⟨hm, hp⟩

theorem activeJob_none {s : QueueState} {meetingId : MeetingId} (h : activeJob s meetingId = none) :
    ∀ row ∈ s.jobs, row.meetingId = meetingId → row.status.active = false := by
  intro row hm hmeeting
  have hfilter := List.filter_eq_nil_iff.mp (List.argmax_eq_none.mp h) row hm
  simpa [hmeeting] using hfilter

theorem jobsMove_enqueue {now : Timestamp} {jobId : JobId} {maxAttempts : ℕ} {input : EnqueueInput}
    {requested : UserProcessingMode} {s t : QueueState}
    (h : enqueueTransaction now jobId maxAttempts input requested s = .ok (row, t)) :
    JobsMove none s.jobs t.jobs := by
  rcases enqueueTransaction_cases h with ⟨existing, hexisting, rfl, rfl⟩ | ⟨hnone, rfl, hfresh, rfl⟩
  · exact .moved (rewrites_replace (activeJob_some hexisting).1
      ⟨rfl, rfl, rfl, Or.inl ⟨rfl, rfl, rfl⟩⟩)
  · exact .added _ hfresh rfl ⟨rfl, rfl, rfl⟩ (activeJob_none hnone)

section Moves

variable {sanitizeMessage : String → String} {now : Timestamp} {jobId : JobId} {workerId : WorkerId}
  {s t : QueueState}

theorem rewrites_claim {skipped : List JobId} {leaseMs : ℕ} :
    s.jobs.Rewrites (JobMove ((claimNextJob now skipped workerId leaseMs s).1.map fun row =>
      (workerId, row.id))) (claimNextJob now skipped workerId leaseMs s).2.jobs := by
  unfold claimNextJob
  cases hcandidate : claimCandidate now skipped s with
  | none => exact .refl JobMove.refl _
  | some row =>
    obtain ⟨hm, hp⟩ := List.mem_filter.mp (List.argmin_mem hcandidate)
    obtain ⟨hactive, hattempt⟩ := active_of_claimable (Bool.and_eq_true_iff.mp hp).1
    exact rewrites_replace hm ⟨rfl, rfl, rfl,
      Or.inr (Or.inl ⟨hactive, hattempt, rfl, rfl, workerId, rfl, rfl⟩)⟩

/-- The job that a worker claims is one of the queue. -/
theorem mem_of_claim {skipped : List JobId} {leaseMs : ℕ} {job : JobRow}
    (h : claimNextJob now skipped workerId leaseMs s = (some job, t)) :
    ∃ row ∈ s.jobs, row.id = job.id ∧ row.meetingId = job.meetingId := by
  unfold claimNextJob at h
  cases hcandidate : claimCandidate now skipped s with
  | none => rw [hcandidate] at h; cases h
  | some row =>
    rw [hcandidate] at h
    cases h
    exact ⟨row, (List.mem_filter.mp (List.argmin_mem hcandidate)).1, rfl, rfl⟩

theorem rewrites_heartbeat {leaseMs : ℕ} (h : heartbeatJob now jobId workerId leaseMs s = .ok ((), t)) :
    s.jobs.Rewrites (JobMove none) t.jobs := by
  unfold heartbeatJob at h
  rcases updateJob_cases s jobId (fun row => row.heldBy workerId && row.status == .processing)
      (fun row => { row with leaseExpiresAt := some (now + leaseMs), updatedAt := now }) with
    he | ⟨row, hrow, -, he⟩
  · rw [he] at h; cases h
  · rw [he] at h
    cases h
    exact rewrites_replace (Table.mem_of_get? hrow) ⟨rfl, rfl, rfl, Or.inl ⟨rfl, rfl, rfl⟩⟩

theorem rewrites_complete (h : completeJob now jobId workerId s = .ok ((), t)) :
    s.jobs.Rewrites (JobMove none) t.jobs := by
  unfold completeJob at h
  rcases updateJob_cases s jobId (fun row => row.heldBy workerId && row.status == .processing &&
      row.leaseExpiresAt.any (now < ·))
      (fun row => { unlocked now .completed row with completedAt := some now }) with
    he | ⟨row, hrow, hp, he⟩
  · rw [he] at h; cases h
  · rw [he] at h
    cases h
    simp only [Bool.and_eq_true] at hp
    have hlocked : row.lockedBy ≠ none := by rw [lockedBy_of_heldBy hp.1.1]; simp
    exact rewrites_replace (Table.mem_of_get? hrow)
      (jobMove_released (Or.inr hlocked) rfl rfl rfl (by simp [unlocked]) rfl rfl)

theorem rewrites_retryLater {error : WorkerError} {availableAt : Timestamp} :
    s.jobs.Rewrites (JobMove none)
      (retryJobLater sanitizeMessage now jobId workerId error availableAt s).2.jobs := by
  refine rewrites_updateJob fun row hp => ?_
  have hlocked : row.lockedBy ≠ none := by rw [lockedBy_of_heldBy hp]; simp
  exact jobMove_released (Or.inr hlocked) rfl rfl rfl (by simp [recordedError, unlocked]) rfl rfl

theorem rewrites_fail {error : WorkerError} :
    s.jobs.Rewrites (JobMove none) (failJob sanitizeMessage now jobId workerId error s).2.jobs := by
  refine rewrites_updateJob fun row hp => ?_
  have hlocked : row.lockedBy ≠ none := by rw [lockedBy_of_heldBy hp]; simp
  exact jobMove_released (Or.inr hlocked) rfl rfl rfl (by simp [recordedError, unlocked]) rfl rfl

theorem rewrites_cancel {error : WorkerError} :
    s.jobs.Rewrites (JobMove none) (cancelJob sanitizeMessage now jobId workerId error s).2.jobs := by
  refine rewrites_updateJob fun row hp => ?_
  have hlocked : row.lockedBy ≠ none := by rw [lockedBy_of_heldBy hp]; simp
  exact jobMove_released (Or.inr hlocked) rfl rfl rfl (by simp [recordedError, unlocked]) rfl rfl

theorem rewrites_failExhausted :
    s.jobs.Rewrites (JobMove none) (failExhaustedJobs now s).2.jobs := by
  refine Table.rewrites_updateWhere (exhaustedJob_key now) JobMove.refl fun row _ hp => ?_
  simp only [exhausted, Bool.and_eq_true] at hp
  exact jobMove_released (Or.inl hp.1.1.1) rfl rfl rfl (by simp [exhaustedJob, unlocked]) rfl rfl

theorem rewrites_cancelMeeting {meetingId : MeetingId} {ownerUserId : UserId} :
    s.jobs.Rewrites (JobMove none)
      (cancelMeetingFinalizationJobs now meetingId ownerUserId s).jobs := by
  refine Table.rewrites_updateWhere (unlocked_key now .cancelled) JobMove.refl fun row _ hp => ?_
  simp only [activeOf, Bool.and_eq_true] at hp
  exact jobMove_released (Or.inl hp.2) rfl rfl rfl (by simp [unlocked]) rfl rfl

end Moves

/-- What a call does to the jobs. -/
theorem jobsMove_apply (sanitizeMessage : String → String) (e : QueueEvent) (s : QueueState) :
    JobsMove (claimOf e s) s.jobs (apply sanitizeMessage e s).jobs := by
  obtain ⟨now, call⟩ := e
  cases call with
  | enqueue jobId maxAttempts input initialRoute =>
    change JobsMove none s.jobs (commit s (enqueueMeetingFinalizationJob now jobId maxAttempts input
      initialRoute s)).2.jobs
    cases hok : enqueueMeetingFinalizationJob now jobId maxAttempts input initialRoute s with
    | error e => exact jobsMove_refl _
    | ok p =>
      obtain ⟨requested, -, h⟩ := bind_eq_ok.mp hok
      exact jobsMove_enqueue h
  | claim skipped workerId leaseMs => exact .moved rewrites_claim
  | heartbeat jobId workerId leaseMs =>
    change JobsMove none s.jobs (commit s (heartbeatJob now jobId workerId leaseMs s)).2.jobs
    cases hok : heartbeatJob now jobId workerId leaseMs s with
    | error e => exact jobsMove_refl _
    | ok p => exact .moved (rewrites_heartbeat hok)
  | complete jobId workerId =>
    change JobsMove none s.jobs (commit s (completeJob now jobId workerId s)).2.jobs
    cases hok : completeJob now jobId workerId s with
    | error e => exact jobsMove_refl _
    | ok p => exact .moved (rewrites_complete hok)
  | retryLater jobId workerId error availableAt => exact .moved rewrites_retryLater
  | fail jobId workerId error => exact .moved rewrites_fail
  | cancel jobId workerId error => exact .moved rewrites_cancel
  | failExhausted => exact .moved rewrites_failExhausted
  | cancelMeeting meetingId ownerUserId => exact .moved rewrites_cancelMeeting

/-! ### The invariant -/

structure QueueInv (s : QueueState) : Prop where
  /-- Only a job in processing is held. -/
  held : ∀ row ∈ s.jobs, row.lockedBy ≠ none → row.status = .processing
  attempts : ∀ row ∈ s.jobs, row.attempt ≤ row.maxAttempts
  /-- A meeting has one active job. -/
  single : ∀ row ∈ s.jobs, ∀ row' ∈ s.jobs, row.meetingId = row'.meetingId →
    row.status.active = true → row'.status.active = true → row = row'

theorem queueInv_empty (tombstones : List MeetingId) : QueueInv ⟨.empty, tombstones⟩ where
  held _ h := absurd h (Table.not_mem_empty _)
  attempts _ h := absurd h (Table.not_mem_empty _)
  single _ h := absurd h (Table.not_mem_empty _)

/-- A job that is active after a call was active before it. -/
theorem JobMove.active {claim : Option (WorkerId × JobId)} {row' : JobRow} (h : JobMove claim row row')
    (hheld : row.lockedBy ≠ none → row.status = .processing) (hactive : row'.status.active = true) :
    row.status.active = true := by
  rcases h.move with ⟨hs, -⟩ | ⟨hs, -⟩ | ⟨hs | hl, -⟩
  · rw [← hs]; exact hactive
  · exact hs
  · exact hs
  · rw [hheld hl]; rfl

theorem queueInv_moved {claim : Option (WorkerId × JobId)} {s t : QueueState} (h : QueueInv s)
    (hmove : s.jobs.Rewrites (JobMove claim) t.jobs) : QueueInv t where
  held row' hm hlocked := by
    obtain ⟨row, hrow, hr⟩ := hmove.old hm
    rcases hr.move with ⟨hs, hl, -⟩ | ⟨-, -, hs, -⟩ | ⟨-, -, hl, -⟩
    · rw [hs]; exact h.held row hrow (hl ▸ hlocked)
    · exact hs
    · exact absurd hl hlocked
  attempts row' hm := by
    obtain ⟨row, hrow, hr⟩ := hmove.old hm
    have hold := h.attempts row hrow
    rw [hr.maxAttempts]
    rcases hr.move with ⟨-, -, ha⟩ | ⟨-, hlt, -, ha, -⟩ | ⟨-, -, -, ha⟩
    · rw [ha]; exact hold
    · rw [ha]; exact hlt
    · rw [ha]; exact hold
  single x' hx' y' hy' hmeeting hax hay := by
    obtain ⟨x, hx, hxx⟩ := hmove.old hx'
    obtain ⟨y, hy, hyy⟩ := hmove.old hy'
    have hxy : x = y := h.single x hx y hy (by rw [← hxx.meetingId, ← hyy.meetingId, hmeeting])
      (hxx.active (h.held x hx) hax) (hyy.active (h.held y hy) hay)
    exact Table.eq_of_key hx' hy' (by rw [hxx.key, hyy.key, hxy])

theorem queueInv_jobsMove {claim : Option (WorkerId × JobId)} {s t : QueueState} (h : QueueInv s)
    (hmove : JobsMove claim s.jobs t.jobs) : QueueInv t := by
  cases hmove with
  | moved hmove => exact queueInv_moved h hmove
  | added row hfresh he hqueued halone =>
    have hmem : ∀ {x}, x ∈ t.jobs ↔ x ∈ s.jobs ∨ x = row := by
      intro x
      rw [he]
      exact Table.mem_insert hfresh
    constructor
    · intro x hx hlocked
      rcases hmem.mp hx with hx | rfl
      · exact h.held x hx hlocked
      · exact absurd hqueued.2.1 hlocked
    · intro x hx
      rcases hmem.mp hx with hx | rfl
      · exact h.attempts x hx
      · rw [hqueued.2.2]; exact Nat.zero_le _
    · intro x hx y hy hmeeting hax hay
      rcases hmem.mp hx with hx | rfl
      · rcases hmem.mp hy with hy | rfl
        · exact h.single x hx y hy hmeeting hax hay
        · rw [halone x hx hmeeting] at hax; cases hax
      · rcases hmem.mp hy with hy | rfl
        · rw [halone y hy hmeeting.symm] at hay; cases hay
        · rfl

variable {e : QueueEvent}

theorem queueInv_step {sanitizeMessage : String → String} {s t : QueueState} (h : QueueInv s)
    (hstep : QueueStep sanitizeMessage s e t) : QueueInv t := by
  have hmove := jobsMove_apply sanitizeMessage e s
  rw [← hstep] at hmove
  exact queueInv_jobsMove h hmove

/-! ### What becomes of a job -/

/-- The row of a job after a call. -/
theorem jobMove_step {sanitizeMessage : String → String} {s t : QueueState} (hstep : QueueStep sanitizeMessage s e t)
    {jobId : JobId} (hrow : s.jobs.get? jobId = some row) :
    ∃ row', t.jobs.get? jobId = some row' ∧ JobMove (claimOf e s) row row' := by
  have hmove := jobsMove_apply sanitizeMessage e s
  rw [← hstep] at hmove
  cases hmove with
  | moved hmove => exact hmove.get?_some JobMove.key hrow
  | added new hfresh he _ _ =>
    have hne : HasKey.key new ≠ jobId := fun hk =>
      hfresh row (Table.mem_of_get? hrow) ((Table.key_of_get? hrow).trans hk.symm)
    exact ⟨row, by rw [he, Table.get?_insert_of_ne hne]; exact hrow, JobMove.refl row⟩

/-- A job that is completed, failed or cancelled. -/
def Finished (s : QueueState) (jobId : JobId) (status : FinalizationJobStatus) : Prop :=
  ∃ row, s.jobs.get? jobId = some row ∧ row.status = status ∧ status.active = false

theorem finished_step {sanitizeMessage : String → String} {s t : QueueState} (hinv : QueueInv s)
    (hstep : QueueStep sanitizeMessage s e t) {jobId : JobId} {status : FinalizationJobStatus}
    (h : Finished s jobId status) : Finished t jobId status := by
  obtain ⟨row, hrow, rfl, hfinal⟩ := h
  obtain ⟨row', hrow', hmove⟩ := jobMove_step hstep hrow
  refine ⟨row', hrow', ?_, hfinal⟩
  have hheld := hinv.held row (Table.mem_of_get? hrow)
  rcases hmove.move with ⟨hs, -⟩ | ⟨hs, -⟩ | ⟨hs | hl, -⟩
  · exact hs
  · rw [hfinal] at hs; cases hs
  · rw [hfinal] at hs; cases hs
  · rw [hheld hl] at hfinal; cases hfinal

/-- The worker does not hold the job. -/
def NotHeld (s : QueueState) (workerId : WorkerId) (jobId : JobId) : Prop :=
  ∃ row, s.jobs.get? jobId = some row ∧ row.lockedBy ≠ some workerId

theorem notHeld_step {sanitizeMessage : String → String} {s t : QueueState} {workerId : WorkerId} {jobId : JobId}
    (hstep : QueueStepWithout sanitizeMessage workerId jobId s e t) (h : NotHeld s workerId jobId) :
    NotHeld t workerId jobId := by
  obtain ⟨row, hrow, hlocked⟩ := h
  obtain ⟨row', hrow', hmove⟩ := jobMove_step hstep.1 hrow
  refine ⟨row', hrow', ?_⟩
  rcases hmove.move with ⟨-, hl, -⟩ | ⟨-, -, -, -, worker, hclaim, hl⟩ | ⟨-, -, hl, -⟩
  · rw [hl]; exact hlocked
  · rw [hl]
    intro he
    have hid : row.id = jobId := Table.key_of_get? hrow
    exact hstep.2 (by rw [hclaim, Option.some.inj he, hid])
  · rw [hl]; simp

/-- The calls of a worker on a job it does not hold change nothing. -/
theorem apply_of_notHeld {sanitizeMessage : String → String} {s : QueueState} {now : Timestamp}
    {call : QueueCall} {workerId : WorkerId} {jobId : JobId} (h : NotHeld s workerId jobId)
    (hcall : call.worker? = some (workerId, jobId)) : apply sanitizeMessage ⟨now, call⟩ s = s := by
  obtain ⟨row, hrow, hlocked⟩ := h
  have hfree : ∀ (p : JobRow → Bool) (f : JobRow → JobRow),
      (∀ x, p x = true → x.heldBy workerId = true) → updateJob s jobId p f = (none, s) := by
    intro p f hp
    rcases updateJob_cases s jobId p f with he | ⟨x, hx, hpx, -⟩
    · exact he
    · have hxr : x = row := Option.some.inj (hx.symm.trans hrow)
      exact absurd (lockedBy_of_heldBy (hp x hpx)) (hxr ▸ hlocked)
  cases call with
  | heartbeat id worker leaseMs =>
    cases hcall
    have he := hfree (fun row => row.heldBy workerId && row.status == .processing)
      (fun row => { row with leaseExpiresAt := some (now + leaseMs), updatedAt := now })
      fun x hx => (Bool.and_eq_true_iff.mp hx).1
    change (commit s (heartbeatJob now jobId workerId leaseMs s)).2 = s
    rw [heartbeatJob, he]
    rfl
  | complete id worker =>
    cases hcall
    have he := hfree (fun row => row.heldBy workerId && row.status == .processing &&
        row.leaseExpiresAt.any (now < ·))
      (fun row => { unlocked now .completed row with completedAt := some now })
      fun x hx => by simp only [Bool.and_eq_true] at hx; exact hx.1.1
    change (commit s (completeJob now jobId workerId s)).2 = s
    rw [completeJob, he]
    rfl
  | retryLater id worker error availableAt =>
    cases hcall
    exact congrArg Prod.snd (hfree _ _ fun _ hx => hx)
  | fail id worker error =>
    cases hcall
    exact congrArg Prod.snd (hfree _ _ fun _ hx => hx)
  | cancel id worker error =>
    cases hcall
    exact congrArg Prod.snd (hfree _ _ fun _ hx => hx)
  | enqueue | claim | failExhausted | cancelMeeting => cases hcall

/-! ### Lease safety -/

/-- The guarantees of the queue in a state that calls can reach. -/
structure LeaseSafe (sanitizeMessage : String → String) (s : QueueState) : Prop where
  /-- A meeting has at most one job in `queued`, `processing` or `retry_wait`. -/
  one_active : ∀ row ∈ s.jobs, ∀ row' ∈ s.jobs, row.meetingId = row'.meetingId →
    row.status.active = true → row'.status.active = true → row = row'
  /-- At every instant at most one worker has the lease of a job. -/
  one_lease : ∀ (now : Timestamp) (jobId : JobId) (workerId workerId' : WorkerId),
    hasActiveJobLease now jobId workerId s = true →
      hasActiveJobLease now jobId workerId' s = true → workerId = workerId'
  attempts : ∀ row ∈ s.jobs, row.attempt ≤ row.maxAttempts
  /-- A worker whose job is claimed by another, or is completed, failed or cancelled, can do nothing
  to it any more, unless it claims it again. -/
  lost : ∀ (workerId : WorkerId) (jobId : JobId) (row : JobRow), s.jobs.get? jobId = some row →
    (row.status.active = false ∨ ∃ other, other ≠ workerId ∧ row.lockedBy = some other) →
      ∀ es t, Run (QueueStepWithout sanitizeMessage workerId jobId) s es t →
        ¬ (∃ now, hasActiveJobLease now jobId workerId t = true) ∧
          ∀ now call, call.worker? = some (workerId, jobId) → apply sanitizeMessage ⟨now, call⟩ t = t
  /-- A job that is completed, failed or cancelled keeps its status. -/
  final : ∀ (jobId : JobId) (row : JobRow), s.jobs.get? jobId = some row →
    row.status.active = false → ∀ es t, Run (QueueStep sanitizeMessage) s es t →
      ∃ row', t.jobs.get? jobId = some row' ∧ row'.status = row.status

theorem hasActiveJobLease_held {now : Timestamp} {jobId : JobId} {workerId : WorkerId} {s : QueueState}
    (h : hasActiveJobLease now jobId workerId s = true) :
    ∃ row, s.jobs.get? jobId = some row ∧ row.lockedBy = some workerId := by
  obtain ⟨row, hrow, hp⟩ := (Option.any_eq_true _ _).mp h
  simp only [Bool.and_eq_true] at hp
  exact ⟨row, hrow, lockedBy_of_heldBy hp.1.1⟩

theorem leaseSafe_of_inv {sanitizeMessage : String → String} {s : QueueState} (h : QueueInv s) :
    LeaseSafe sanitizeMessage s where
  one_active := h.single
  one_lease now jobId workerId workerId' hl hl' := by
    obtain ⟨row, hrow, hlocked⟩ := hasActiveJobLease_held hl
    obtain ⟨row', hrow', hlocked'⟩ := hasActiveJobLease_held hl'
    cases Option.some.inj (hrow.symm.trans hrow')
    exact Option.some.inj (hlocked.symm.trans hlocked')
  attempts := h.attempts
  lost workerId jobId row hrow hlost es t hrun := by
    have hstart : NotHeld s workerId jobId := by
      refine ⟨row, hrow, fun hlocked => ?_⟩
      rcases hlost with hfinal | ⟨other, hne, hother⟩
      · have hp := h.held row (Table.mem_of_get? hrow) (by rw [hlocked]; simp)
        rw [hp] at hfinal
        cases hfinal
      · exact hne (Option.some.inj (hother.symm.trans hlocked))
    have hend : NotHeld t workerId jobId :=
      hrun.invariant (fun _ _ _ h hstep => notHeld_step hstep h) hstart
    refine ⟨?_, fun now call hcall => apply_of_notHeld hend hcall⟩
    rintro ⟨now, hlease⟩
    obtain ⟨row', hrow', hlocked⟩ := hasActiveJobLease_held hlease
    obtain ⟨row'', hrow'', hfree⟩ := hend
    cases Option.some.inj (hrow'.symm.trans hrow'')
    exact hfree hlocked
  final jobId row hrow hfinal es t hrun := by
    have hstart : QueueInv s ∧ Finished s jobId row.status := ⟨h, row, hrow, rfl, hfinal⟩
    obtain ⟨-, row', hrow', hstatus, -⟩ := hrun.invariant (I := fun x => QueueInv x ∧
      Finished x jobId row.status) (fun _ _ _ h hstep => ⟨queueInv_step h.1 hstep,
        finished_step h.1 hstep h.2⟩) hstart
    exact ⟨row', hrow', hstatus⟩

/-- **Leases are safe** in every state that calls reach from an empty queue. -/
theorem lease_safe {sanitizeMessage : String → String} {tombstones : List MeetingId}
    {es : List QueueEvent} {s : QueueState}
    (h : Run (QueueStep sanitizeMessage) ⟨.empty, tombstones⟩ es s) : LeaseSafe sanitizeMessage s :=
  leaseSafe_of_inv (h.invariant (fun _ _ _ h hstep => queueInv_step h hstep)
    (queueInv_empty tombstones))

/-! ### A job claimed twice -/

/-- The calls one after the other, without a tombstone. -/
def replay (sanitizeMessage : String → String) (s : QueueState) (es : List QueueEvent) : QueueState :=
  es.foldl (fun s e => apply sanitizeMessage e s) s

theorem run_replay (sanitizeMessage : String → String) : ∀ (es : List QueueEvent) (s : QueueState),
    Run (QueueStep sanitizeMessage) s es (replay sanitizeMessage s es)
  | [], s => Run.nil s
  | _ :: es, _ => Run.cons rfl (run_replay sanitizeMessage es _)

/-- The lease of the first worker runs out, and the second claims the job and completes it. -/
def claimedTwice : List QueueEvent :=
  [⟨0, .enqueue "j" 5 { meetingId := "m", ownerUserId := "u", title := "weekly" } none⟩,
    ⟨10, .claim [] "first" 1000⟩, ⟨2000, .claim [] "second" 1000⟩, ⟨2100, .complete "j" "first"⟩,
    ⟨2200, .complete "j" "second"⟩, ⟨2300, .fail "j" "first" ⟨"timeout", "timed out", true⟩⟩]

theorem lease_safe_claimedTwice : LeaseSafe id (replay id {} claimedTwice) :=
  lease_safe (run_replay id claimedTwice {})

example : (replay id {} claimedTwice).jobs.rows.map (fun row => (row.status, row.attempt)) =
    [(.completed, 2)] := by decide

end OwnMinutes.Finalization.QueueSafety
