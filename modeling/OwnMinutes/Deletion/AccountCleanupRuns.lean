import OwnMinutes.Deletion.AccountCleanup

/-! # No cleanup of a deleted account is lost

Every step leaves the job of a user as it is or does one of a few things to it. From these: the row of a job tells who
holds it and since when, the attempts of a job are the claims of it, and the job of a deleted account stays until a call
that claimed it after the deletion has found nothing left. -/

namespace OwnMinutes.Deletion.AccountCleanupRuns

open OwnMinutes.Lib.Runs OwnMinutes.Auth.ProcessingRoute OwnMinutes.Auth.Records
open OwnMinutes.Deletion.AccountCleanup

/-! ### Labels -/

/-- The job of the user starts over, or gets another holder. -/
def Restarts (userId : UserId) (l : Label) : Prop :=
  (∃ delivery, l.action = .schedule userId delivery ∧ delivery.executed = true) ∨
    (∃ workerId claimToken delivery, l.action = .claim workerId userId claimToken delivery) ∨
      ∃ operatorRef, l.action = .replay userId operatorRef

def Deletes (userId : UserId) (l : Label) : Prop :=
  ∃ delivery, l.action = .deleteAccount userId delivery ∧ delivery.executed = true

/-- The claims of the job since it has started over. -/
def countAttempt (userId : UserId) (n : ℕ) (l : Label) : ℕ :=
  match l.action with
  | .schedule userId' delivery => if userId' = userId ∧ delivery.executed = true then 0 else n
  | .claim _ userId' _ _ => if userId' = userId then n + 1 else n
  | .replay userId' _ => if userId' = userId then 0 else n
  | _ => n

def attempts (userId : UserId) (labels : List Label) : ℕ := labels.foldl (countAttempt userId) 0

/-- The time of the claim with a token, or of its last heartbeat. -/
def holdTime (claimToken : ClaimToken) (last : Option Timestamp) (l : Label) : Option Timestamp :=
  match l.action with
  | .claim _ _ claimToken' _ => if claimToken' = claimToken then some l.now else last
  | .heartbeat claimToken' delivery =>
    if claimToken' = claimToken ∧ delivery.executed = true then some l.now else last
  | _ => last

def lastHeld (claimToken : ClaimToken) (labels : List Label) : Option Timestamp :=
  labels.foldl (holdTime claimToken) none

/-- After the account was deleted, a call claimed the job of the user, found nothing left, and the statement that
removes the job was executed, which nobody else claimed and nobody started over in between. -/
def CleanedUp (userId : UserId) (labels : List Label) : Prop :=
  ∃ (claimToken : ClaimToken) (before during after : List Label) (claimed completed : Label),
    labels = before ++ claimed :: (during ++ completed :: after) ∧
    (∃ l ∈ before, Deletes userId l) ∧
    (∃ workerId delivery, claimed.action = .claim workerId userId claimToken delivery) ∧
    (∃ l ∈ during, l.action = .deletionEnds claimToken (.returned false)) ∧
    (∀ l ∈ during, ¬ Restarts userId l) ∧
    ∃ delivery : Delivery, delivery.executed = true ∧ completed.action = .complete claimToken delivery

theorem CleanedUp.snoc {userId : UserId} {labels : List Label} (h : CleanedUp userId labels) (l : Label) :
    CleanedUp userId (labels ++ [l]) := by
  obtain ⟨claimToken, before, during, after, claimed, completed, rfl, hrest⟩ := h
  exact ⟨claimToken, before, during, after ++ [l], claimed, completed, by simp, hrest⟩

theorem attempts_snoc (userId : UserId) (labels : List Label) (l : Label) :
    attempts userId (labels ++ [l]) = countAttempt userId (attempts userId labels) l := by
  rw [attempts, List.foldl_append]
  rfl

theorem lastHeld_snoc (claimToken : ClaimToken) (labels : List Label) (l : Label) :
    lastHeld claimToken (labels ++ [l]) = holdTime claimToken (lastHeld claimToken labels) l := by
  rw [lastHeld, List.foldl_append]
  rfl

theorem countAttempt_of_not_restarts {userId : UserId} {l : Label} (h : ¬ Restarts userId l) (n : ℕ) :
    countAttempt userId n l = n := by
  obtain ⟨now, action⟩ := l
  cases action with
  | schedule userId' delivery =>
    refine if_neg ?_
    rintro ⟨rfl, hexecuted⟩
    exact h (Or.inl ⟨delivery, rfl, hexecuted⟩)
  | claim workerId userId' claimToken delivery =>
    refine if_neg ?_
    rintro rfl
    exact h (Or.inr (Or.inl ⟨workerId, claimToken, delivery, rfl⟩))
  | replay userId' operatorRef =>
    refine if_neg ?_
    rintro rfl
    exact h (Or.inr (Or.inr ⟨operatorRef, rfl⟩))
  | _ => rfl

/-! ### Statements -/

variable {job : CleanupJob}

section Statements
variable {userId : UserId} {p : CleanupJob → Bool} {f : CleanupJob → CleanupJob} {jobs : JobTable}

theorem updateJob_of (hjob : jobs userId = some job) (hp : p job = true) :
    updateJob userId p f jobs = (true, Function.update jobs userId (some (f job))) := by
  unfold updateJob
  rw [hjob, Option.filter_some, if_pos hp]

theorem updateJob_of_not (h : ∀ job, jobs userId = some job → p job = false) :
    updateJob userId p f jobs = (false, jobs) := by
  have hnone : (jobs userId).filter p = none := by
    rw [Option.filter_eq_none_iff]
    exact fun job hjob => by simp [h job hjob]
  unfold updateJob
  rw [hnone]

theorem deleteJob_of (hjob : jobs userId = some job) (hp : p job = true) :
    deleteJob userId p jobs = (true, Function.update jobs userId none) := by
  unfold deleteJob
  rw [hjob, Option.filter_some, if_pos hp]

theorem deleteJob_of_not (h : ∀ job, jobs userId = some job → p job = false) :
    deleteJob userId p jobs = (false, jobs) := by
  have hnone : (jobs userId).filter p = none := by
    rw [Option.filter_eq_none_iff]
    exact fun job hjob => by simp [h job hjob]
  unfold deleteJob
  rw [hnone]

/-- An update leaves a row as it is, or it is the row that it is about. -/
theorem updateJob_row (userId : UserId) (p : CleanupJob → Bool) (f : CleanupJob → CleanupJob) (jobs : JobTable)
    (u : UserId) :
    (updateJob userId p f jobs).2 u = jobs u ∨
      ∃ job, userId = u ∧ jobs u = some job ∧ p job = true ∧ (updateJob userId p f jobs).2 u = some (f job) := by
  by_cases hrow : ∃ job, jobs userId = some job ∧ p job = true
  · obtain ⟨job, hjob, hp⟩ := hrow
    rw [updateJob_of hjob hp]
    by_cases hu : userId = u
    · subst hu
      exact Or.inr ⟨job, rfl, hjob, hp, Function.update_self ..⟩
    · exact Or.inl (Function.update_of_ne (Ne.symm hu) ..)
  · have hnot : ∀ job, jobs userId = some job → p job = false := fun job hjob =>
      Bool.eq_false_iff.mpr fun hp => hrow ⟨job, hjob, hp⟩
    exact Or.inl (by rw [updateJob_of_not hnot])

theorem deleteJob_row (userId : UserId) (p : CleanupJob → Bool) (jobs : JobTable) (u : UserId) :
    (deleteJob userId p jobs).2 u = jobs u ∨
      ∃ job, userId = u ∧ jobs u = some job ∧ p job = true ∧ (deleteJob userId p jobs).2 u = none := by
  by_cases hrow : ∃ job, jobs userId = some job ∧ p job = true
  · obtain ⟨job, hjob, hp⟩ := hrow
    rw [deleteJob_of hjob hp]
    by_cases hu : userId = u
    · subst hu
      exact Or.inr ⟨job, rfl, hjob, hp, Function.update_self ..⟩
    · exact Or.inl (Function.update_of_ne (Ne.symm hu) ..)
  · have hnot : ∀ job, jobs userId = some job → p job = false := fun job hjob =>
      Bool.eq_false_iff.mpr fun hp => hrow ⟨job, hjob, hp⟩
    exact Or.inl (by rw [deleteJob_of_not hnot])

end Statements

theorem holds_iff {claim : CleanupClaim} :
    claim.holds job = true ↔ job.claimToken = some claim.claimToken := beq_iff_eq

/-! ### What a step does to the job of a user -/

variable {sanitize : String → String} {s t : System} {l : Label} {u : UserId}

/-- A job that no call holds. -/
structure Released (job : CleanupJob) : Prop where
  status : job.status = .pending
  claimToken : job.claimToken = none
  claimedAt : job.claimedAt = none

/-- **All that a step can do to a job.** -/
inductive JobChange (s : System) (l : Label) (t : System) (u : UserId) : Prop
  | kept (hjob : t.jobs u = s.jobs u) (hlabel : ¬ Restarts u l)
  | reset (job : CleanupJob) (hjob : t.jobs u = some job) (hreleased : Released job) (hattempt : job.attempt = 0)
      (hdead : job.deadLetteredAt = none) (hcount : ∀ n, countAttempt u n l = 0) (hlabel : Restarts u l)
  | claimed (workerId : String) (claimToken : ClaimToken) (delivery : Delivery) (job : CleanupJob) (call : CleanupCall)
      (hlabel : l.action = .claim workerId u claimToken delivery) (hbefore : s.jobs u = some job)
      (hdue : isDue s.users l.now u job = true) (hjob : t.jobs u = some (claimedJob l.now workerId claimToken job))
      (hcall : t.calls claimToken = some call) (hclaim : call.claim = ⟨job.attempt + 1, claimToken, u⟩)
      (hphase : call.phase ≠ .completing)
  | renewed (call : CleanupCall) (delivery : Delivery) (job : CleanupJob)
      (hlabel : l.action = .heartbeat call.claim.claimToken delivery) (hexecuted : delivery.executed = true)
      (hbefore : s.jobs u = some job) (hholds : job.claimToken = some call.claim.claimToken)
      (hjob : t.jobs u = some { job with claimedAt := some l.now, updatedAt := l.now })
  | released (call : CleanupCall) (delivery : Delivery) (job job' : CleanupJob)
      (hlabel : l.action = .retry call.claim.claimToken delivery)
      (hcall : s.calls call.claim.claimToken = some call) (hbefore : s.jobs u = some job)
      (hholds : job.claimToken = some call.claim.claimToken) (hjob : t.jobs u = some job') (hreleased : Released job')
      (hattempt : job'.attempt = job.attempt)
      (hdead : job'.deadLetteredAt.isSome = true → accountDeletionCleanupMaxAttempts ≤ call.claim.attempt)
  | removed (call : CleanupCall) (delivery : Delivery) (job : CleanupJob)
      (hlabel : l.action = .complete call.claim.claimToken delivery) (hexecuted : delivery.executed = true)
      (hcall : s.calls call.claim.claimToken = some call) (hphase : call.phase = .completing)
      (hbefore : s.jobs u = some job) (hholds : job.claimToken = some call.claim.claimToken)
      (hjob : t.jobs u = none)
  | cancelled (delivery : Delivery) (hlabel : l.action = .cancel u delivery) (hphase : s.requests u = some .failed)
      (hactive : isActive s.users u = true) (hjob : t.jobs u = none)

theorem leaves_eq {α : Type} (delivery : Delivery) (before after : α) :
    delivery.executed = true ∧ delivery.leaves before after = after ∨
      delivery.executed = false ∧ delivery.leaves before after = before := by
  cases delivery with
  | answered | lost message => exact Or.inl ⟨rfl, rfl⟩
  | failed message => exact Or.inr ⟨rfl, rfl⟩

variable {users : UserTable} {now : Timestamp} {claimToken : ClaimToken} {delivery : Delivery}

theorem claimCleanup_eq {workerId : String} {userId : UserId} {claim : CleanupClaim} {jobs jobs' : JobTable}
    (h : claimCleanup users now workerId userId claimToken jobs = some (claim, jobs')) :
    ∃ job, jobs userId = some job ∧ isDue users now userId job = true ∧
      claim = ⟨job.attempt + 1, claimToken, userId⟩ ∧
      jobs' = Function.update jobs userId (some (claimedJob now workerId claimToken job)) := by
  obtain ⟨job, hjob, heq⟩ := Option.map_eq_some_iff.mp h
  obtain ⟨hrow, hdue⟩ := Option.filter_eq_some_iff.mp hjob
  obtain ⟨rfl, rfl⟩ := Prod.mk.inj heq
  exact ⟨job, hrow, hdue, rfl, rfl⟩

theorem replay_eq {userId : UserId} {operatorRef : String} {jobs jobs' : JobTable}
    (h : replayDeadLetteredAccountDeletionCleanup users now userId operatorRef jobs = .ok jobs') :
    ∃ job, jobs userId = some job ∧ isDeleted users userId = true ∧ job.deadLetteredAt.isSome = true ∧
      jobs' = Function.update jobs userId (some (replayedJob now operatorRef job)) := by
  unfold replayDeadLetteredAccountDeletionCleanup at h
  by_cases hrow : ∃ job, jobs userId = some job ∧ (isDeleted users userId && job.deadLetteredAt.isSome) = true
  · obtain ⟨job, hjob, hp⟩ := hrow
    rw [updateJob_of hjob hp] at h
    have hand := Bool.and_eq_true_iff.mp hp
    exact ⟨job, hjob, hand.1, hand.2, (Except.ok.inj h).symm⟩
  · have hnot : ∀ job, jobs userId = some job → (isDeleted users userId && job.deadLetteredAt.isSome) = false :=
      fun job hjob => Bool.eq_false_iff.mpr fun hp => hrow ⟨job, hjob, hp⟩
    rw [updateJob_of_not hnot] at h
    cases h

theorem retryCleanup_row (sanitize : String → String) (now : Timestamp) (claim : CleanupClaim) (error : String)
    (jobs : JobTable) (u : UserId) :
    (retryCleanup sanitize now claim error jobs).2 u = jobs u ∨
      ∃ job job', jobs u = some job ∧ job.claimToken = some claim.claimToken ∧
        (retryCleanup sanitize now claim error jobs).2 u = some job' ∧ Released job' ∧ job'.attempt = job.attempt ∧
        (job'.deadLetteredAt.isSome = true → accountDeletionCleanupMaxAttempts ≤ claim.attempt) := by
  unfold retryCleanup
  by_cases hmax : accountDeletionCleanupMaxAttempts ≤ claim.attempt
  · rw [if_pos hmax]
    rcases updateJob_row claim.userId claim.holds (deadLetteredJob now (sanitize error)) jobs u with
      hsame | ⟨job, -, hjob, hholds, hwritten⟩
    · exact Or.inl hsame
    · exact Or.inr ⟨job, _, hjob, holds_iff.mp hholds, hwritten, ⟨rfl, rfl, rfl⟩, rfl, fun _ => hmax⟩
  · rw [if_neg hmax]
    rcases updateJob_row claim.userId claim.holds
      (retriedJob now (accountDeletionCleanupRetryDelayMs claim.attempt) (sanitize error)) jobs u with
      hsame | ⟨job, -, hjob, hholds, hwritten⟩
    · exact Or.inl hsame
    · exact Or.inr ⟨job, _, hjob, holds_iff.mp hholds, hwritten, ⟨rfl, rfl, rfl⟩, rfl, fun hdead => by cases hdead⟩

theorem scheduled_row (now : Timestamp) (userId : UserId) (jobs : JobTable) :
    ∃ job, scheduleAccountDeletionCleanup now userId jobs userId = some job ∧ Released job ∧ job.attempt = 0 ∧
      job.deadLetteredAt = none := by
  refine ⟨_, Function.update_self .., ?_⟩
  rcases jobs userId with _ | job
  · exact ⟨⟨rfl, rfl, rfl⟩, rfl, rfl⟩
  · exact ⟨⟨rfl, rfl, rfl⟩, rfl, rfl⟩

/-- A label of another kind restarts nothing. -/
theorem not_restarts {action : Action} (hschedule : ∀ delivery, action ≠ .schedule u delivery)
    (hclaim : ∀ workerId claimToken delivery, action ≠ .claim workerId u claimToken delivery)
    (hreplay : ∀ operatorRef, action ≠ .replay u operatorRef) : ¬ Restarts u ⟨now, action⟩ := by
  rintro (⟨delivery, h, -⟩ | ⟨workerId, claimToken, delivery, h⟩ | ⟨operatorRef, h⟩)
  · exact hschedule delivery h
  · exact hclaim workerId claimToken delivery h
  · exact hreplay operatorRef h

theorem step_job (h : Step sanitize s l t) (u : UserId) : JobChange s l t u := by
  cases h with
  | register | enter => exact .kept rfl (not_restarts nofun nofun nofun)
  | @schedule now userId delivery hphase =>
    rcases leaves_eq delivery s.jobs (scheduleAccountDeletionCleanup now userId s.jobs) with
      ⟨hexecuted, hleaves⟩ | ⟨hfailed, hleaves⟩
    · by_cases hu : userId = u
      · subst hu
        obtain ⟨job, hjob, hreleased, hattempt, hdead⟩ := scheduled_row now userId s.jobs
        exact .reset job ((congrFun hleaves userId).trans hjob) hreleased hattempt hdead (fun n => if_pos ⟨rfl, hexecuted⟩)
          (Or.inl ⟨delivery, rfl, hexecuted⟩)
      · refine .kept ((congrFun hleaves u).trans (Function.update_of_ne (Ne.symm hu) ..)) (not_restarts ?_ nofun nofun)
        rintro _ ⟨⟩
        exact hu rfl
    · refine .kept (congrFun hleaves u) ?_
      rintro (⟨_, ⟨⟩, hexecuted⟩ | ⟨_, _, _, ⟨⟩⟩ | ⟨_, ⟨⟩⟩)
      rw [hfailed] at hexecuted
      cases hexecuted
  | deleteAccount | deleteMissing => exact .kept rfl (not_restarts nofun nofun nofun)
  | @cancel now userId delivery hphase =>
    have hlabel : ¬ Restarts u ⟨now, .cancel userId delivery⟩ := not_restarts nofun nofun nofun
    rcases leaves_eq delivery s.jobs (cancelAccountDeletionCleanupForActiveUser s.users userId s.jobs).2 with
      ⟨-, hleaves⟩ | ⟨-, hleaves⟩
    · rcases deleteJob_row userId (fun _ => isActive s.users userId) s.jobs u with hsame | ⟨job, rfl, -, hactive, hnone⟩
      · exact .kept ((congrFun hleaves u).trans hsame) hlabel
      · exact .cancelled delivery rfl hphase hactive ((congrFun hleaves userId).trans hnone)
    · exact .kept (congrFun hleaves u) hlabel
  | leave => exact .kept rfl (not_restarts nofun nofun nofun)
  | @claim now workerId userId claimToken claim jobs delivery hexecuted hfresh hclaim =>
    obtain ⟨job, hjob, hdue, rfl, rfl⟩ := claimCleanup_eq hclaim
    by_cases hu : userId = u
    · subst hu
      refine .claimed workerId claimToken delivery job _ rfl hjob hdue (Function.update_self ..)
        (Function.update_self ..) rfl ?_
      cases delivery <;> simp [Delivery.error]
    · refine .kept (Function.update_of_ne (Ne.symm hu) ..) (not_restarts nofun ?_ nofun)
      rintro _ _ _ ⟨⟩
      exact hu rfl
  | @heartbeat now call delivery hcall =>
    have hlabel : ¬ Restarts u ⟨now, .heartbeat call.claim.claimToken delivery⟩ := not_restarts nofun nofun nofun
    rcases leaves_eq delivery s.jobs (heartbeatCleanup now call.claim s.jobs).2 with
      ⟨hexecuted, hleaves⟩ | ⟨-, hleaves⟩
    · rcases updateJob_row call.claim.userId
        (fun job => call.claim.holds job && job.status == .processing && job.deadLetteredAt.isNone)
        (fun job => { job with claimedAt := some now, updatedAt := now }) s.jobs u with hsame | ⟨job, -, hjob, hp, hwritten⟩
      · exact .kept ((congrFun hleaves u).trans hsame) hlabel
      · simp only [Bool.and_eq_true] at hp
        exact .renewed call delivery job rfl hexecuted hjob (holds_iff.mp hp.1.1) ((congrFun hleaves u).trans hwritten)
    · exact .kept (congrFun hleaves u) hlabel
  | deletionEnds => exact .kept rfl (not_restarts nofun nofun nofun)
  | @complete now call delivery hcall hphase =>
    have hlabel : ¬ Restarts u ⟨now, .complete call.claim.claimToken delivery⟩ := not_restarts nofun nofun nofun
    rcases leaves_eq delivery s.jobs (completeCleanup call.claim s.jobs).2 with
      ⟨hexecuted, hleaves⟩ | ⟨-, hleaves⟩
    · rcases deleteJob_row call.claim.userId call.claim.holds s.jobs u with hsame | ⟨job, -, hjob, hholds, hnone⟩
      · exact .kept ((congrFun hleaves u).trans hsame) hlabel
      · exact .removed call delivery job rfl hexecuted hcall hphase hjob (holds_iff.mp hholds)
          ((congrFun hleaves u).trans hnone)
    · exact .kept (congrFun hleaves u) hlabel
  | @retry now call error caught delivery hcall hphase =>
    have hlabel : ¬ Restarts u ⟨now, .retry call.claim.claimToken delivery⟩ := not_restarts nofun nofun nofun
    rcases leaves_eq delivery s.jobs (retryCleanup sanitize now call.claim error s.jobs).2 with
      ⟨-, hleaves⟩ | ⟨-, hleaves⟩
    · rcases retryCleanup_row sanitize now call.claim error s.jobs u with
        hsame | ⟨job, job', hjob, hholds, hwritten, hreleased, hattempt, hdead⟩
      · exact .kept ((congrFun hleaves u).trans hsame) hlabel
      · exact .released call delivery job job' rfl hcall hjob hholds ((congrFun hleaves u).trans hwritten) hreleased
          hattempt hdead
    · exact .kept (congrFun hleaves u) hlabel
  | stop => exact .kept rfl (not_restarts nofun nofun nofun)
  | @replay now userId operatorRef jobs hreplay =>
    obtain ⟨job, hjob, -, -, rfl⟩ := replay_eq hreplay
    by_cases hu : userId = u
    · subst hu
      exact .reset _ (Function.update_self ..) ⟨rfl, rfl, rfl⟩ rfl rfl (fun n => if_pos rfl)
        (Or.inr (Or.inr ⟨operatorRef, rfl⟩))
    · refine .kept (Function.update_of_ne (Ne.symm hu) ..) (not_restarts nofun nofun ?_)
      rintro _ ⟨⟩
      exact hu rfl

/-! ### What a step does to the rest -/

theorem not_deleted_of_active (h : isActive users u = true) : isDeleted users u = false := by
  have hrow : users u = some none := eq_of_beq h
  rw [isDeleted, hrow]
  rfl

/-- An account is deleted by a request that has scheduled the cleanup. -/
theorem step_user (h : Step sanitize s l t) (u : UserId) :
    (isDeleted t.users u = isDeleted s.users u ∧ (isActive s.users u = true → isActive t.users u = true)) ∨
      (Deletes u l ∧ s.requests u = some .scheduled ∧ t.jobs u = s.jobs u ∧ isDeleted t.users u = true ∧
        ∀ phase, t.requests u = some phase → phase = .failed) := by
  cases h with
  | @register now userId hfresh =>
    refine Or.inl ?_
    by_cases hu : userId = u
    · subst hu
      simp [isDeleted, isActive, hfresh]
    · have hrow : Function.update s.users userId (some none) u = s.users u := Function.update_of_ne (Ne.symm hu) ..
      simp [isDeleted, isActive, hrow]
  | @deleteAccount now userId delivery hphase hactive =>
    rcases leaves_eq delivery s.users (Function.update s.users userId (some (some now))) with
      ⟨hexecuted, hleaves⟩ | ⟨-, hleaves⟩
    · by_cases hu : userId = u
      · subst hu
        refine Or.inr ⟨⟨delivery, rfl, hexecuted⟩, hphase, rfl, ?_, fun phase hrequest => ?_⟩
        · have hrow : (delivery.leaves s.users (Function.update s.users userId (some (some now)))) userId =
              some (some now) := (congrFun hleaves userId).trans (Function.update_self ..)
          simp [isDeleted, System.setRequest, hrow]
        · have hset : Function.update s.requests userId (if delivery.error.isNone then none else some .failed) userId =
              some phase := hrequest
          rw [Function.update_self] at hset
          split_ifs at hset
          exact (Option.some.inj hset).symm
      · have hrow : (delivery.leaves s.users (Function.update s.users userId (some (some now)))) u = s.users u :=
          (congrFun hleaves u).trans (Function.update_of_ne (Ne.symm hu) ..)
        exact Or.inl (by simp [isDeleted, isActive, System.setRequest, hrow])
    · exact Or.inl (by simp [isDeleted, isActive, System.setRequest, hleaves])
  | _ => exact Or.inl ⟨rfl, fun hactive => hactive⟩

theorem deleted_step (h : Step sanitize s l t) (hu : isDeleted s.users u = true) : isDeleted t.users u = true := by
  rcases step_user h u with ⟨hsame, -⟩ | ⟨-, -, -, hdeleted, -⟩
  · rw [hsame]
    exact hu
  · exact hdeleted

/-- A request goes on only for an active account, and has scheduled a job once it says so. -/
theorem step_request (h : Step sanitize s l t) (u : UserId) :
    t.requests u = s.requests u ∨ t.requests u = none ∨ t.requests u = some .failed ∨
      (t.requests u = some .entered ∧ isActive t.users u = true) ∨
      (t.requests u = some .scheduled ∧ s.requests u = some .entered ∧ (t.jobs u).isSome = true) := by
  have hset : ∀ {s : System} {userId : UserId} {phase : Option RequestPhase},
      (s.setRequest userId phase).requests u = if userId = u then phase else s.requests u := by
    intro s userId phase
    by_cases hu : userId = u
    · subst hu
      rw [if_pos rfl]
      exact Function.update_self ..
    · rw [if_neg hu]
      exact Function.update_of_ne (Ne.symm hu) ..
  cases h with
  | @enter now userId hfree hactive =>
    rw [hset]
    by_cases hu : userId = u
    · subst hu
      rw [if_pos rfl]
      exact Or.inr (Or.inr (Or.inr (Or.inl ⟨rfl, hactive⟩)))
    · exact Or.inl (if_neg hu)
  | @schedule now userId delivery hphase =>
    rw [hset]
    by_cases hu : userId = u
    · subst hu
      rw [if_pos rfl]
      rcases hanswer : delivery.error with _ | message
      · have hexecuted : delivery.leaves s.jobs (scheduleAccountDeletionCleanup now userId s.jobs) =
            scheduleAccountDeletionCleanup now userId s.jobs := by
          cases delivery with
          | answered => rfl
          | lost message | failed message => cases hanswer
        obtain ⟨job, hjob, -⟩ := scheduled_row now userId s.jobs
        refine Or.inr (Or.inr (Or.inr (Or.inr ⟨rfl, hphase, ?_⟩)))
        exact Option.isSome_iff_exists.mpr ⟨job, (congrFun hexecuted userId).trans hjob⟩
      · exact Or.inr (Or.inl rfl)
    · exact Or.inl (if_neg hu)
  | @deleteAccount now userId delivery hphase hactive =>
    rw [hset]
    by_cases hu : userId = u
    · rw [if_pos hu]
      rcases delivery.error with _ | message
      · exact Or.inr (Or.inl rfl)
      · exact Or.inr (Or.inr (Or.inl rfl))
    · exact Or.inl (if_neg hu)
  | @deleteMissing now userId message hphase hactive =>
    rw [hset]
    by_cases hu : userId = u
    · exact Or.inr (Or.inr (Or.inl (if_pos hu)))
    · exact Or.inl (if_neg hu)
  | @cancel now userId delivery hphase =>
    rw [hset]
    by_cases hu : userId = u
    · exact Or.inr (Or.inl (if_pos hu))
    · exact Or.inl (if_neg hu)
  | @leave now userId =>
    rw [hset]
    by_cases hu : userId = u
    · exact Or.inr (Or.inl (if_pos hu))
    · exact Or.inl (if_neg hu)
  | _ => exact Or.inl rfl

/-- A call keeps its claim, and completes once its deletion has returned that nothing is left. -/
theorem step_call (h : Step sanitize s l t) {call : CleanupCall} (hcall : s.calls claimToken = some call) :
    ∃ call', t.calls claimToken = some call' ∧ call'.claim = call.claim ∧
      (call'.phase = .completing → call.phase = .completing ∨
        l.action = .deletionEnds claimToken (.returned false)) := by
  have hset : ∀ {s' : System} {old new : CleanupCall}, s'.calls = s.calls →
      s.calls old.claim.claimToken = some old → new.claim = old.claim →
      (old.claim.claimToken = claimToken → new.phase = .completing →
        old.phase = .completing ∨ l.action = .deletionEnds claimToken (.returned false)) →
      ∃ call', (s'.setCall new).calls claimToken = some call' ∧ call'.claim = call.claim ∧
        (call'.phase = .completing → call.phase = .completing ∨
          l.action = .deletionEnds claimToken (.returned false)) := by
    intro s' old new hcalls hold hclaim hphase
    have hupdate : (s'.setCall new).calls = Function.update s.calls old.claim.claimToken (some new) := by
      rw [← hcalls, ← hclaim]
      rfl
    rw [hupdate]
    by_cases htoken : old.claim.claimToken = claimToken
    · subst htoken
      obtain rfl : old = call := Option.some.inj (hold.symm.trans hcall)
      exact ⟨new, Function.update_self .., hclaim, hphase rfl⟩
    · exact ⟨call, (Function.update_of_ne (Ne.symm htoken) ..).trans hcall, rfl, Or.inl⟩
  cases h with
  | @claim now workerId userId claimToken' claim jobs delivery hexecuted hfresh hclaim =>
    obtain ⟨job, -, -, rfl, -⟩ := claimCleanup_eq hclaim
    have hne : claimToken ≠ claimToken' := by
      rintro rfl
      rw [hfresh] at hcall
      cases hcall
    exact ⟨call, (Function.update_of_ne hne ..).trans hcall, rfl, Or.inl⟩
  | heartbeat delivery hold => exact hset rfl hold rfl fun _ => Or.inl
  | @deletionEnds now old outcome hold hphase =>
    refine hset rfl hold rfl fun htoken hcompleting => Or.inr ?_
    subst htoken
    rcases outcome with cleanupPending | message
    · cases haborted : old.aborted <;> cases cleanupPending <;> simp [afterDeletion, haborted] at hcompleting
      rfl
    · cases haborted : old.aborted <;> simp [afterDeletion, haborted] at hcompleting
  | @complete now old delivery hold hphase => exact hset rfl hold rfl fun _ _ => Or.inl hphase
  | @retry now old error caught delivery hold hphase =>
    refine hset rfl hold rfl fun _ hcompleting => ?_
    cases delivery with
    | answered => cases hcompleting
    | lost message | failed message =>
      cases caught <;> cases haborted : old.aborted <;> simp [afterRetry, Delivery.error, haborted] at hcompleting
  | @stop now old hold hlive =>
    refine hset rfl hold rfl fun _ hcompleting => ?_
    cases hcompleting
  | _ => exact ⟨call, hcall, rfl, Or.inl⟩

/-- A claim draws a fresh token. -/
theorem claim_fresh (h : Step sanitize s l t) {workerId : String} {userId : UserId}
    (haction : l.action = .claim workerId userId claimToken delivery) : s.calls claimToken = none := by
  cases h with
  | claim delivery hexecuted hfresh hclaim =>
    cases haction
    exact hfresh
  | _ => cases haction

/-- The heartbeat of the holder is written. -/
theorem heartbeat_writes (h : Step sanitize s l t) {call : CleanupCall}
    (haction : l.action = .heartbeat claimToken delivery) (hexecuted : delivery.executed = true)
    (hjob : s.jobs u = some job) (hholds : job.claimToken = some claimToken) (hstatus : job.status = .processing)
    (halive : job.deadLetteredAt = none) (hcall : s.calls claimToken = some call) (huser : call.claim.userId = u) :
    ∃ job', t.jobs u = some job' ∧ job'.claimedAt = some l.now := by
  cases h with
  | @heartbeat now call' delivery' hcall' =>
    cases haction
    obtain rfl : call' = call := Option.some.inj (hcall'.symm.trans hcall)
    subst huser
    have hp : (call'.claim.holds job && job.status == .processing && job.deadLetteredAt.isNone) = true := by
      rw [holds_iff.mpr hholds, hstatus, halive]
      rfl
    have hleaves : delivery.leaves s.jobs (heartbeatCleanup now call'.claim s.jobs).2 =
        (heartbeatCleanup now call'.claim s.jobs).2 := if_pos hexecuted
    refine ⟨{ job with claimedAt := some now, updatedAt := now }, (congrFun hleaves _).trans ?_, rfl⟩
    unfold heartbeatCleanup
    rw [updateJob_of hjob hp]
    exact Function.update_self ..
  | _ => cases haction

theorem holdTime_cases (claimToken : ClaimToken) (last : Option Timestamp) (l : Label) :
    holdTime claimToken last l = last ∨
      ((∃ workerId userId delivery, l.action = .claim workerId userId claimToken delivery) ∧
        holdTime claimToken last l = some l.now) ∨
      ((∃ delivery, l.action = .heartbeat claimToken delivery ∧ delivery.executed = true) ∧
        holdTime claimToken last l = some l.now) := by
  obtain ⟨now, action⟩ := l
  cases action with
  | claim workerId userId claimToken' delivery =>
    by_cases htoken : claimToken' = claimToken
    · subst htoken
      exact Or.inr (Or.inl ⟨⟨workerId, userId, delivery, rfl⟩, if_pos rfl⟩)
    · exact Or.inl (if_neg htoken)
  | heartbeat claimToken' delivery =>
    by_cases hwritten : claimToken' = claimToken ∧ delivery.executed = true
    · obtain ⟨rfl, hexecuted⟩ := hwritten
      exact Or.inr (Or.inr ⟨⟨delivery, rfl, hexecuted⟩, if_pos ⟨rfl, hexecuted⟩⟩)
    · exact Or.inl (if_neg hwritten)
  | _ => exact Or.inl rfl

/-! ### The invariant -/

variable {labels : List Label}

/-- The call that claimed a job with a token, since when nobody has claimed the job or started it over. -/
structure ClaimedBy (u : UserId) (claimToken : ClaimToken) (attempt : ℕ) (labels : List Label) (s : System) : Prop where
  call : ∃ call, s.calls claimToken = some call ∧ call.claim = ⟨attempt, claimToken, u⟩ ∧
    ∃ (before during : List Label) (claimed : Label), labels = before ++ claimed :: during ∧
      (∃ l ∈ before, Deletes u l) ∧ (∃ workerId delivery, claimed.action = .claim workerId u claimToken delivery) ∧
      (∀ l ∈ during, ¬ Restarts u l) ∧
      (call.phase = .completing → ∃ l ∈ during, l.action = .deletionEnds claimToken (.returned false))

theorem ClaimedBy.snoc {attempt : ℕ} (hclaimed : ClaimedBy u claimToken attempt labels s) (h : Step sanitize s l t)
    (hlabel : ¬ Restarts u l) : ClaimedBy u claimToken attempt (labels ++ [l]) t := by
  obtain ⟨call, hcall, hclaim, before, during, claimed, rfl, hdeleted, hlabels, hduring, hphase⟩ := hclaimed
  obtain ⟨call', hcall', hclaim', hphase'⟩ := step_call h hcall
  refine ⟨call', hcall', hclaim'.trans hclaim, before, during ++ [l], claimed, by simp, hdeleted, hlabels, ?_, ?_⟩
  · intro l' hl'
    rcases List.mem_append.mp hl' with hl' | hl'
    · exact hduring l' hl'
    · rw [List.mem_singleton.mp hl']
      exact hlabel
  · intro hcompleting
    rcases hphase' hcompleting with hbefore | hnow
    · obtain ⟨l', hl', haction⟩ := hphase hbefore
      exact ⟨l', List.mem_append_left _ hl', haction⟩
    · exact ⟨l, List.mem_append_right _ List.mem_cons_self, hnow⟩

/-- What the row of a job tells. -/
structure HeldBy (u : UserId) (claimToken : ClaimToken) (job : CleanupJob) (labels : List Label) (s : System) : Prop where
  deleted : isDeleted s.users u = true
  status : job.status = .processing
  alive : job.deadLetteredAt = none
  since : ∃ time, job.claimedAt = some time ∧ lastHeld claimToken labels = some time
  claimed : ClaimedBy u claimToken job.attempt labels s

/-- **The invariant**: `labels` have led to the state. -/
structure Traced (labels : List Label) (s : System) : Prop where
  active : ∀ u phase, s.requests u = some phase → phase ≠ .failed → isActive s.users u = true
  scheduled : ∀ u, s.requests u = some .scheduled → (s.jobs u).isSome = true
  deletes : ∀ u, isDeleted s.users u = true → ∃ l ∈ labels, Deletes u l
  free : ∀ u job, s.jobs u = some job → job.claimToken = none →
    Released job ∧ (job.deadLetteredAt.isSome = true → accountDeletionCleanupMaxAttempts ≤ job.attempt)
  held : ∀ u job claimToken, s.jobs u = some job → job.claimToken = some claimToken → HeldBy u claimToken job labels s
  counted : ∀ u job, s.jobs u = some job → job.attempt = attempts u labels
  kept : ∀ u, isDeleted s.users u = true → (s.jobs u).isSome = true ∨ CleanedUp u labels

theorem traced_empty : Traced [] {} where
  active := fun _ _ h => by cases h
  scheduled := fun _ h => by cases h
  deletes := fun _ h => by cases h
  free := fun _ _ h => by cases h
  held := fun _ _ _ h => by cases h
  counted := fun _ _ h => by cases h
  kept := fun _ h => by cases h

theorem isDeleted_of_due (h : isDue users now u job = true) : isDeleted users u = true := by
  simp only [isDue, Bool.and_eq_true] at h
  exact h.1.1.1

theorem expired_of_due {time : Timestamp} (h : isDue users now u job = true) (hat : job.claimedAt = some time) :
    time + CLAIM_MS < now := by
  unfold isDue at h
  have hall := (Bool.and_eq_true_iff.mp h).2
  rw [hat, Option.all_some] at hall
  exact of_decide_eq_true hall

/-- The last step of a completed cleanup. -/
theorem cleanedUp_of_removed (hs : Traced labels s) {call : CleanupCall}
    (hlabel : l.action = .complete call.claim.claimToken delivery) (hexecuted : delivery.executed = true)
    (hcall : s.calls call.claim.claimToken = some call) (hphase : call.phase = .completing)
    (hjob : s.jobs u = some job) (hholds : job.claimToken = some call.claim.claimToken) :
    CleanedUp u (labels ++ [l]) := by
  obtain ⟨call', hcall', -, before, during, claimed, rfl, hdeleted, hclaimed, hduring, hcompleting⟩ :=
    (hs.held u job _ hjob hholds).claimed.call
  obtain rfl : call = call' := Option.some.inj (hcall.symm.trans hcall')
  exact ⟨_, before, during, [], claimed, l, by simp, hdeleted, hclaimed, hcompleting hphase, hduring, delivery,
    hexecuted, hlabel⟩

theorem not_held_of_active (hs : Traced labels s) (hactive : isActive s.users u = true) (hjob : s.jobs u = some job)
    (hholds : job.claimToken = some claimToken) : False := by
  have hdeleted := (hs.held u job claimToken hjob hholds).deleted
  rw [not_deleted_of_active hactive] at hdeleted
  cases hdeleted

section StepKeeps
variable (hs : Traced labels s) (h : Step sanitize s l t)
include hs h

theorem active_step : ∀ u phase, t.requests u = some phase → phase ≠ .failed → isActive t.users u = true := by
  intro u phase hrequest hphase
  rcases step_user h u with ⟨-, hactive⟩ | ⟨-, -, -, -, hfailed⟩
  · rcases step_request h u with hsame | hnone | hfailed | ⟨-, hentered⟩ | ⟨-, hbefore, -⟩
    · exact hactive (hs.active u phase (hsame ▸ hrequest) hphase)
    · rw [hnone] at hrequest
      cases hrequest
    · rw [hfailed] at hrequest
      exact absurd (Option.some.inj hrequest).symm hphase
    · exact hentered
    · exact hactive (hs.active u .entered hbefore (by decide))
  · exact absurd (hfailed phase hrequest) hphase

theorem scheduled_step : ∀ u, t.requests u = some .scheduled → (t.jobs u).isSome = true := by
  intro u hrequest
  rcases step_request h u with hsame | hnone | hfailed | ⟨hentered, -⟩ | ⟨-, -, hjob⟩
  · have hbefore : s.requests u = some .scheduled := hsame.symm.trans hrequest
    have hactive := hs.active u .scheduled hbefore (by decide)
    cases step_job h u with
    | kept hjob =>
      rw [hjob]
      exact hs.scheduled u hbefore
    | reset job hjob => exact Option.isSome_iff_exists.mpr ⟨job, hjob⟩
    | claimed workerId claimToken delivery job call hlabel hbefore hdue hjob =>
      exact Option.isSome_iff_exists.mpr ⟨_, hjob⟩
    | renewed call delivery job hlabel hexecuted hbefore hholds hjob =>
      exact Option.isSome_iff_exists.mpr ⟨_, hjob⟩
    | released call delivery job job' hlabel hcall hbefore hholds hjob =>
      exact Option.isSome_iff_exists.mpr ⟨_, hjob⟩
    | removed call delivery job hlabel hexecuted hcall hphase hjob hholds =>
      exact (not_held_of_active hs hactive hjob hholds).elim
    | cancelled delivery hlabel hphase =>
      rw [hbefore] at hphase
      cases hphase
  · rw [hnone] at hrequest
    cases hrequest
  · rw [hfailed] at hrequest
    cases hrequest
  · rw [hentered] at hrequest
    cases hrequest
  · exact hjob

theorem deletes_step : ∀ u, isDeleted t.users u = true → ∃ l' ∈ labels ++ [l], Deletes u l' := by
  intro u hdeleted
  rcases step_user h u with ⟨hsame, -⟩ | ⟨hdeletes, -⟩
  · obtain ⟨l', hl', hdeletes⟩ := hs.deletes u (hsame ▸ hdeleted)
    exact ⟨l', List.mem_append_left _ hl', hdeletes⟩
  · exact ⟨l, List.mem_append_right _ List.mem_cons_self, hdeletes⟩

theorem free_step : ∀ u job, t.jobs u = some job → job.claimToken = none →
    Released job ∧ (job.deadLetteredAt.isSome = true → accountDeletionCleanupMaxAttempts ≤ job.attempt) := by
  intro u job hjob hfree
  cases step_job h u with
  | kept hsame => exact hs.free u job (hsame ▸ hjob) hfree
  | reset job' hjob' hreleased hattempt hdead =>
    obtain rfl : job = job' := Option.some.inj (hjob.symm.trans hjob')
    exact ⟨hreleased, fun hsome => by rw [hdead] at hsome; cases hsome⟩
  | claimed workerId claimToken delivery job' call hlabel hbefore hdue hjob' =>
    obtain rfl := Option.some.inj (hjob.symm.trans hjob')
    cases hfree
  | renewed call delivery job' hlabel hexecuted hbefore hholds hjob' =>
    obtain rfl := Option.some.inj (hjob.symm.trans hjob')
    rw [show job'.claimToken = none from hfree] at hholds
    cases hholds
  | released call delivery before job' hlabel hcall hbefore hholds hjob' hreleased hattempt hdead =>
    obtain rfl : job = job' := Option.some.inj (hjob.symm.trans hjob')
    refine ⟨hreleased, fun hsome => ?_⟩
    obtain ⟨call', hcall', hclaim, -⟩ := (hs.held u before _ hbefore hholds).claimed.call
    obtain rfl : call = call' := Option.some.inj (hcall.symm.trans hcall')
    have hmax := hdead hsome
    rw [hclaim] at hmax
    rw [hattempt]
    exact hmax
  | removed call delivery job' hlabel hexecuted hcall hphase hbefore hholds hnone =>
    rw [hnone] at hjob
    cases hjob
  | cancelled delivery hlabel hphase hactive hnone =>
    rw [hnone] at hjob
    cases hjob

theorem counted_step : ∀ u job, t.jobs u = some job → job.attempt = attempts u (labels ++ [l]) := by
  intro u job hjob
  rw [attempts_snoc]
  cases step_job h u with
  | kept hsame hlabel =>
    rw [countAttempt_of_not_restarts hlabel]
    exact hs.counted u job (hsame ▸ hjob)
  | reset job' hjob' hreleased hattempt hdead hcount =>
    obtain rfl : job = job' := Option.some.inj (hjob.symm.trans hjob')
    rw [hcount, hattempt]
  | claimed workerId claimToken delivery job' call hlabel hbefore hdue hjob' =>
    obtain rfl := Option.some.inj (hjob.symm.trans hjob')
    have hcount : countAttempt u (attempts u labels) l = attempts u labels + 1 := by
      unfold countAttempt
      rw [hlabel]
      exact if_pos rfl
    rw [hcount, ← hs.counted u job' hbefore]
    rfl
  | renewed call delivery job' hlabel hexecuted hbefore hholds hjob' =>
    obtain rfl := Option.some.inj (hjob.symm.trans hjob')
    have hcount : countAttempt u (attempts u labels) l = attempts u labels := by
      unfold countAttempt
      rw [hlabel]
    rw [hcount, ← hs.counted u job' hbefore]
  | released call delivery before job' hlabel hcall hbefore hholds hjob' hreleased hattempt hdead =>
    obtain rfl : job = job' := Option.some.inj (hjob.symm.trans hjob')
    have hcount : countAttempt u (attempts u labels) l = attempts u labels := by
      unfold countAttempt
      rw [hlabel]
    rw [hcount, hattempt, hs.counted u before hbefore]
  | removed call delivery job' hlabel hexecuted hcall hphase hbefore hholds hnone =>
    rw [hnone] at hjob
    cases hjob
  | cancelled delivery hlabel hphase hactive hnone =>
    rw [hnone] at hjob
    cases hjob

theorem held_step : ∀ u job claimToken, t.jobs u = some job → job.claimToken = some claimToken →
    HeldBy u claimToken job (labels ++ [l]) t := by
  intro u job claimToken hjob hholds
  cases step_job h u with
  | kept hsame hlabel =>
    have hbefore : s.jobs u = some job := hsame.symm.trans hjob
    obtain ⟨hdeleted, hstatus, halive, hsince, hclaimed⟩ := hs.held u job claimToken hbefore hholds
    refine ⟨deleted_step h hdeleted, hstatus, halive, ?_, hclaimed.snoc h hlabel⟩
    obtain ⟨call, hcall, hclaim, -⟩ := hclaimed.call
    rw [lastHeld_snoc]
    rcases holdTime_cases claimToken (lastHeld claimToken labels) l with
      hlast | ⟨⟨workerId, userId, delivery, haction⟩, -⟩ | ⟨⟨delivery, haction, hexecuted⟩, hnow⟩
    · rw [hlast]
      exact hsince
    · rw [claim_fresh h haction] at hcall
      cases hcall
    · obtain ⟨job', hjob', hat⟩ := heartbeat_writes h haction hexecuted hbefore hholds hstatus halive hcall
        (congrArg CleanupClaim.userId hclaim)
      obtain rfl : job = job' := Option.some.inj (hjob.symm.trans hjob')
      exact ⟨l.now, hat, hnow⟩
  | reset job' hjob' hreleased =>
    obtain rfl : job = job' := Option.some.inj (hjob.symm.trans hjob')
    rw [hreleased.claimToken] at hholds
    cases hholds
  | claimed workerId claimToken' delivery job' call hlabel hbefore hdue hjob' hcall hclaim hphase =>
    obtain rfl := Option.some.inj (hjob.symm.trans hjob')
    obtain rfl : claimToken' = claimToken := Option.some.inj hholds
    have hdeleted := isDeleted_of_due hdue
    have halive : job'.deadLetteredAt = none := by
      simp only [isDue, Bool.and_eq_true, Option.isNone_iff_eq_none] at hdue
      exact hdue.1.1.2
    refine ⟨deleted_step h hdeleted, rfl, halive, ?_, ⟨call, hcall, hclaim, labels, [], l, rfl, hs.deletes u hdeleted,
      ⟨workerId, delivery, hlabel⟩, fun l' hl' => absurd hl' List.not_mem_nil, fun hcompleting =>
      absurd hcompleting hphase⟩⟩
    refine ⟨l.now, rfl, ?_⟩
    rw [lastHeld_snoc]
    unfold holdTime
    rw [hlabel]
    exact if_pos rfl
  | renewed call delivery job' hlabel hexecuted hbefore hholds' hjob' =>
    obtain rfl := Option.some.inj (hjob.symm.trans hjob')
    obtain rfl : call.claim.claimToken = claimToken := Option.some.inj (hholds'.symm.trans hholds)
    obtain ⟨hdeleted, hstatus, halive, -, hclaimed⟩ := hs.held u job' _ hbefore hholds'
    have hnot : ¬ Restarts u l := by
      unfold Restarts
      rw [hlabel]
      rintro (⟨_, ⟨⟩, -⟩ | ⟨_, _, _, ⟨⟩⟩ | ⟨_, ⟨⟩⟩)
    refine ⟨deleted_step h hdeleted, hstatus, halive, ?_, hclaimed.snoc h hnot⟩
    refine ⟨l.now, rfl, ?_⟩
    rw [lastHeld_snoc]
    unfold holdTime
    rw [hlabel]
    exact if_pos ⟨rfl, hexecuted⟩
  | released call delivery before job' hlabel hcall hbefore hholds' hjob' hreleased =>
    obtain rfl : job = job' := Option.some.inj (hjob.symm.trans hjob')
    rw [hreleased.claimToken] at hholds
    cases hholds
  | removed call delivery job' hlabel hexecuted hcall hphase hbefore hholds' hnone =>
    rw [hnone] at hjob
    cases hjob
  | cancelled delivery hlabel hphase hactive hnone =>
    rw [hnone] at hjob
    cases hjob

theorem kept_step : ∀ u, isDeleted t.users u = true → (t.jobs u).isSome = true ∨ CleanedUp u (labels ++ [l]) := by
  intro u hdeleted
  rcases step_user h u with ⟨hsame, -⟩ | ⟨-, hscheduled, hjobs, -⟩
  · have hbefore : isDeleted s.users u = true := hsame ▸ hdeleted
    rcases hs.kept u hbefore with hjob | hcleaned
    · cases step_job h u with
      | kept hsame =>
        rw [hsame]
        exact Or.inl hjob
      | reset job hjob => exact Or.inl (Option.isSome_iff_exists.mpr ⟨job, hjob⟩)
      | claimed workerId claimToken delivery job call hlabel hbefore hdue hjob =>
        exact Or.inl (Option.isSome_iff_exists.mpr ⟨_, hjob⟩)
      | renewed call delivery job hlabel hexecuted hbefore hholds hjob =>
        exact Or.inl (Option.isSome_iff_exists.mpr ⟨_, hjob⟩)
      | released call delivery job job' hlabel hcall hbefore hholds hjob =>
        exact Or.inl (Option.isSome_iff_exists.mpr ⟨_, hjob⟩)
      | removed call delivery job hlabel hexecuted hcall hphase hjob hholds =>
        exact Or.inr (cleanedUp_of_removed hs hlabel hexecuted hcall hphase hjob hholds)
      | cancelled delivery hlabel hphase hactive =>
        rw [not_deleted_of_active hactive] at hbefore
        cases hbefore
    · exact Or.inr (hcleaned.snoc l)
  · rw [hjobs]
    exact Or.inl (hs.scheduled u hscheduled)

end StepKeeps

theorem traced_step (hs : Traced labels s) (h : Step sanitize s l t) : Traced (labels ++ [l]) t where
  active := active_step hs h
  scheduled := scheduled_step hs h
  deletes := deletes_step hs h
  free := free_step hs h
  held := held_step hs h
  counted := counted_step hs h
  kept := kept_step hs h

theorem traced_of_run (h : Run (Step sanitize) {} labels s) : Traced labels s :=
  h.induction_last traced_empty fun _ _ _ _ _ hs hstep => traced_step hs hstep

/-! ### Every run -/

/-- What holds of the jobs in every run. -/
structure AccountCleanupSound (sanitize : String → String) (labels : List Label) (s : System) : Prop where
  /-- The job of a deleted account stays until the cleanup is done. -/
  kept : ∀ u, isDeleted s.users u = true → (s.jobs u).isSome = true ∨ CleanedUp u labels
  /-- A status `deleted` that is answered for an account there was, with a job read in this state, is true. -/
  answered : ∀ {before after : List Label} {past : System} {u : UserId} {reads : StatusReads},
    labels = before ++ after → Run (Step sanitize) {} before past → Run (Step sanitize) past after s →
    (past.users u).isSome = true → reads.active = isActive past.users u →
    reads.discoveryPending = hasPendingAccountDeletionCleanup u s.jobs →
    resolveAccountDeletionStatus reads = .deleted → CleanedUp u labels
  /-- A job is claimed from a call only five minutes after its claim and its last heartbeat. -/
  leased : ∀ {u job claimToken workerId claimToken' delivery now t}, s.jobs u = some job →
    job.claimToken = some claimToken → Step sanitize s ⟨now, .claim workerId u claimToken' delivery⟩ t →
    ∃ time, lastHeld claimToken labels = some time ∧ time + CLAIM_MS < now
  /-- The heartbeats, the retry and the completion of a call that does not hold a job leave it alone. -/
  superseded : ∀ {u claimToken now delivery t}, (∀ job, s.jobs u = some job → job.claimToken ≠ some claimToken) →
    Step sanitize s ⟨now, .heartbeat claimToken delivery⟩ t ∨ Step sanitize s ⟨now, .retry claimToken delivery⟩ t ∨
      Step sanitize s ⟨now, .complete claimToken delivery⟩ t → t.jobs u = s.jobs u
  /-- The attempts of a job are its claims since it was scheduled or replayed. A dead letter had twelve at least, and is
  not claimed. -/
  attempts : ∀ {u job}, s.jobs u = some job → job.attempt = attempts u labels ∧
    (job.deadLetteredAt.isSome = true → accountDeletionCleanupMaxAttempts ≤ job.attempt ∧
      ∀ {now workerId claimToken delivery t}, ¬ Step sanitize s ⟨now, .claim workerId u claimToken delivery⟩ t)

theorem due_of_claim {workerId : String} (h : Step sanitize s ⟨now, .claim workerId u claimToken delivery⟩ t) :
    ∃ job, s.jobs u = some job ∧ isDue s.users now u job = true := by
  cases h with
  | claim delivery hexecuted hfresh hclaim =>
    obtain ⟨job, hjob, hdue, -⟩ := claimCleanup_eq hclaim
    exact ⟨job, hjob, hdue⟩

/-- A call that does not hold the job of a user leaves it alone. -/
theorem superseded_step {action : Action} (hnot : ∀ job, s.jobs u = some job → job.claimToken ≠ some claimToken)
    (haction : (∃ delivery, action = .heartbeat claimToken delivery) ∨ (∃ delivery, action = .retry claimToken delivery) ∨
      ∃ delivery, action = .complete claimToken delivery) (h : Step sanitize s ⟨now, action⟩ t) :
    t.jobs u = s.jobs u := by
  have hrestarts : ¬ Restarts u ⟨now, action⟩ := by
    rcases haction with ⟨delivery, rfl⟩ | ⟨delivery, rfl⟩ | ⟨delivery, rfl⟩
    · exact not_restarts nofun nofun nofun
    · exact not_restarts nofun nofun nofun
    · exact not_restarts nofun nofun nofun
  have htoken : ∀ call delivery, action = .heartbeat call delivery ∨ action = .retry call delivery ∨
      action = .complete call delivery → call = claimToken := by
    intro call delivery hcall
    rcases haction with ⟨delivery', rfl⟩ | ⟨delivery', rfl⟩ | ⟨delivery', rfl⟩ <;>
      rcases hcall with hcall | hcall | hcall <;> cases hcall <;> rfl
  cases step_job h u with
  | kept hjob => exact hjob
  | reset job hjob hreleased hattempt hdead hcount hlabel => exact absurd hlabel hrestarts
  | claimed workerId claimToken' delivery job call hlabel =>
    exact absurd (Or.inr (Or.inl ⟨workerId, claimToken', delivery, hlabel⟩)) hrestarts
  | renewed call delivery job hlabel hexecuted hbefore hholds =>
    exact absurd (htoken _ delivery (Or.inl hlabel) ▸ hholds) (hnot job hbefore)
  | released call delivery job job' hlabel hcall hbefore hholds =>
    exact absurd (htoken _ delivery (Or.inr (Or.inl hlabel)) ▸ hholds) (hnot job hbefore)
  | removed call delivery job hlabel hexecuted hcall hphase hbefore hholds =>
    exact absurd (htoken _ delivery (Or.inr (Or.inr hlabel)) ▸ hholds) (hnot job hbefore)
  | cancelled delivery hlabel =>
    rcases haction with ⟨delivery', rfl⟩ | ⟨delivery', rfl⟩ | ⟨delivery', rfl⟩ <;> cases hlabel

theorem deleted_run (h : Run (Step sanitize) s labels t) (hu : isDeleted s.users u = true) :
    isDeleted t.users u = true :=
  h.invariant (fun _ _ _ hdeleted hstep => deleted_step hstep hdeleted) hu

theorem isDeleted_of_not_active (hrow : (users u).isSome = true) (h : isActive users u = false) :
    isDeleted users u = true := by
  obtain ⟨deletedAt, hrow⟩ := Option.isSome_iff_exists.mp hrow
  rw [isActive, hrow] at h
  rw [isDeleted, hrow]
  cases deletedAt with
  | none => cases h
  | some time => rfl

theorem reads_of_deleted {reads : StatusReads} (h : resolveAccountDeletionStatus reads = .deleted) :
    reads.active = false ∧ reads.discoveryPending = false := by
  unfold resolveAccountDeletionStatus at h
  split_ifs at h with hactive hpending
  refine ⟨by simpa using hactive, ?_⟩
  simp only [Bool.or_eq_true, not_or, Bool.not_eq_true] at hpending
  exact hpending.1.1.1.2

/-- **No cleanup of a deleted account is lost**, in any run of requests, workers, lost answers and crashes: the job of a
deleted account stays until a call that claimed it after the deletion has found nothing left, so a status `deleted` is
never a false positive; no call takes a job from a holder with a live lease, or touches a job that it does not hold; and
only jobs with twelve claims become dead letters, which nobody claims. -/
theorem account_cleanup_kept (h : Run (Step sanitize) {} labels s) : AccountCleanupSound sanitize labels s := by
  have hs := traced_of_run h
  refine ⟨hs.kept, ?_, ?_, ?_, ?_⟩
  · intro before after past u reads _ _ hafter hrow hactive hpending hstatus
    obtain ⟨hnotActive, hnone⟩ := reads_of_deleted hstatus
    have hpast : isDeleted past.users u = true := isDeleted_of_not_active hrow (hactive.symm.trans hnotActive)
    rcases hs.kept u (deleted_run hafter hpast) with hjob | hcleaned
    · rw [hpending] at hnone
      rw [hasPendingAccountDeletionCleanup, hjob] at hnone
      cases hnone
    · exact hcleaned
  · intro u job claimToken workerId claimToken' delivery now t hjob hholds hstep
    obtain ⟨job', hjob', hdue⟩ := due_of_claim hstep
    obtain rfl : job = job' := Option.some.inj (hjob.symm.trans hjob')
    obtain ⟨time, hat, hlast⟩ := (hs.held u job claimToken hjob hholds).since
    exact ⟨time, hlast, expired_of_due hdue hat⟩
  · intro u claimToken now delivery t hnot hstep
    rcases hstep with hstep | hstep | hstep
    · exact superseded_step hnot (Or.inl ⟨delivery, rfl⟩) hstep
    · exact superseded_step hnot (Or.inr (Or.inl ⟨delivery, rfl⟩)) hstep
    · exact superseded_step hnot (Or.inr (Or.inr ⟨delivery, rfl⟩)) hstep
  · intro u job hjob
    refine ⟨hs.counted u job hjob, fun hdead => ?_⟩
    rcases htoken : job.claimToken with _ | claimToken
    · refine ⟨(hs.free u job hjob htoken).2 hdead, fun {now workerId claimToken delivery t} hstep => ?_⟩
      obtain ⟨job', hjob', hdue⟩ := due_of_claim hstep
      obtain rfl : job = job' := Option.some.inj (hjob.symm.trans hjob')
      simp only [isDue, Bool.and_eq_true, Option.isNone_iff_eq_none] at hdue
      rw [hdue.1.1.2] at hdead
      cases hdead
    · rw [(hs.held u job claimToken hjob htoken).alive] at hdead
      cases hdead

/-- The answer to the deletion is lost, the lease of the first worker runs out, and the second finishes. -/
def takenOverLabels : List Label :=
  [⟨1, .register "u"⟩, ⟨2, .enter "u"⟩, ⟨3, .schedule "u" .answered⟩, ⟨4, .deleteAccount "u" (.lost "connection")⟩,
    ⟨5, .cancel "u" .answered⟩, ⟨6, .claim "first" "u" "k1" .answered⟩, ⟨7, .heartbeat "k1" .answered⟩,
    ⟨300008, .claim "second" "u" "k2" .answered⟩, ⟨300009, .deletionEnds "k1" (.threw "timeout")⟩,
    ⟨300010, .retry "k1" .answered⟩, ⟨300011, .deletionEnds "k2" (.returned false)⟩, ⟨300012, .complete "k2" .answered⟩]

theorem account_cleanup_kept_takenOver :
    ∃ s, Run (Step id) {} takenOverLabels s ∧ isDeleted s.users "u" = true ∧ CleanedUp "u" takenOverLabels := by
  have hrun : ∃ s, Run (Step id) {} takenOverLabels s ∧ isDeleted s.users "u" = true ∧ (s.jobs "u").isSome = false := by
    refine ⟨_, .cons (.register rfl) (.cons (.enter rfl rfl) (.cons (.schedule _ rfl) (.cons (.deleteAccount _ rfl rfl)
      (.cons (.cancel _ rfl) (.cons (.claim _ rfl rfl rfl)
      (.cons (@Step.heartbeat _ _ _ ⟨⟨1, "k1", "u"⟩, false, .deleting⟩ _ rfl) (.cons (.claim _ rfl rfl rfl)
      (.cons (@Step.deletionEnds _ _ _ ⟨⟨1, "k1", "u"⟩, false, .deleting⟩ _ rfl rfl)
      (.cons (@Step.retry _ _ _ ⟨⟨1, "k1", "u"⟩, false, .retrying "timeout" false⟩ "timeout" false _ rfl rfl)
      (.cons (@Step.deletionEnds _ _ _ ⟨⟨2, "k2", "u"⟩, false, .deleting⟩ _ rfl rfl)
      (.cons (@Step.complete _ _ _ ⟨⟨2, "k2", "u"⟩, false, .completing⟩ _ rfl rfl) (.nil _)))))))))))), rfl, rfl⟩
  obtain ⟨s, h, hdeleted, hnone⟩ := hrun
  refine ⟨s, h, hdeleted, ((account_cleanup_kept h).kept "u" hdeleted).resolve_left ?_⟩
  rw [hnone]
  exact Bool.false_ne_true

end OwnMinutes.Deletion.AccountCleanupRuns
