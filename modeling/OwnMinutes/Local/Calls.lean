import OwnMinutes.Local.Quota
import OwnMinutes.Quota.Calls

/-! # Calls on the local store

`execute` answers a quota call; `Effect` says, in one case for each kind of write, what a call that
succeeded did to the store it read (`effect_of_execute`). -/

namespace OwnMinutes.Local.Calls

open OwnMinutes.Lib.Keyed OwnMinutes.Lib.Outcome OwnMinutes.Auth.ProcessingRoute
open OwnMinutes.Auth.Records OwnMinutes.Auth.Errors OwnMinutes.Auth.QuotaTypes
open OwnMinutes.Local.Store OwnMinutes.Local.Quota OwnMinutes.Quota.Calls

variable (hashToken : ClaimToken → TokenHash)

/-- The store and the result of a call; an error leaves the store as it was. -/
def execute (now : Timestamp) (call : QuotaCall) (store : AuthStore) :
    Except AuthError QuotaResult × AuthStore :=
  commit store <| match call with
    | .reserveRealtime userId input newId =>
      (reserveMeetingRealtimeQuota now newId userId input store).map (Prod.map .realtime id)
    | .reserveFinalization userId input newId =>
      (reserveMeetingFinalizationQuota now newId userId input store).map (Prod.map .reservation id)
    | .claim userId input newId claimToken =>
      (claimMeetingProviderStep hashToken now newId claimToken userId input store).map
        (Prod.map .claim id)
    | .start userId input =>
      (startMeetingProviderStep hashToken now userId input store).map (Prod.map .transition id)
    | .complete userId input =>
      (completeMeetingProviderStep hashToken now userId input store).map (Prod.map .transition id)
    | .reconcile userId input =>
      (reconcileMeetingProviderStep now userId input store).map (Prod.map .transition id)
    | .releaseStep userId input =>
      (releaseMeetingProviderStep hashToken now userId input store).map (Prod.map .transition id)
    | .reject userId input =>
      (rejectMeetingProviderStep hashToken now userId input store).map (Prod.map .transition id)
    | .releaseReservation userId reservationId =>
      (releaseMeetingProcessingReservation now userId reservationId store).map
        (Prod.map .reservation id)
    | .recordUsage userId input newId =>
      (recordMeetingFinalizeUsage now newId userId input store).map (Prod.map .usage id)

/-- The identifiers a call draws are not in use in the store. -/
def freshIn (store : AuthStore) (call : QuotaCall) : Prop :=
  FreshIds store.meetingProcessingReservations store.meetingProviderSteps call

instance (store : AuthStore) (call : QuotaCall) : Decidable (freshIn store call) :=
  inferInstanceAs (Decidable (FreshIds _ _ _))

/-- One call on the local store. -/
def QuotaStep : Clocked AuthStore → QuotaEvent → Clocked AuthStore → Prop :=
  CallStep (execute hashToken) freshIn

/-! ### Rows the operations find -/

theorem findActiveUser_spec {store : AuthStore} {userId : UserId} {user : UserRecord}
    (h : findActiveUser store userId = some user) :
    user ∈ store.users ∧ user.id = userId ∧ user.deletedAt = none := by
  have hp := Table.of_find? h
  simp only [Bool.and_eq_true, UserRecord.active, Option.isNone_iff_eq_none, beq_iff_eq] at hp
  exact ⟨Table.mem_of_find? h, hp.2, hp.1⟩

theorem findLocalQuotaUser_ok {store : AuthStore} {userId : UserId} {user : UserRecord} :
    findLocalQuotaUser store userId = .ok user ↔ findActiveUser store userId = some user := by
  unfold findLocalQuotaUser
  split <;> simp_all

variable {r : MeetingProcessingReservationRecord} {now : Timestamp}

theorem findReservationById_spec {store : AuthStore} {userId : UserId} {id : ReservationId}
    (h : findReservationById store userId id = some r) :
    r ∈ store.meetingProcessingReservations ∧ r.id = id ∧ r.userId = userId := by
  have hp := Table.of_find? h
  simp only [Bool.and_eq_true, beq_iff_eq] at hp
  exact ⟨Table.mem_of_find? h, hp⟩

theorem findReservationByKey_spec {store : AuthStore} {userId : UserId} {operationKey : String}
    (h : findReservationByKey store userId operationKey = some r) :
    r ∈ store.meetingProcessingReservations ∧ r.userId = userId ∧
      r.operationKey = operationKey := by
  have hp := Table.of_find? h
  simp only [Bool.and_eq_true, beq_iff_eq] at hp
  exact ⟨Table.mem_of_find? h, hp⟩

theorem findLocalProviderStep_spec {store : AuthStore} {userId : UserId} {stepId : ProviderStepId}
    {step : MeetingProviderStepRecord} (h : findLocalProviderStep store userId stepId = .ok step) :
    step ∈ store.meetingProviderSteps ∧ step.id = stepId ∧ step.userId = userId := by
  unfold findLocalProviderStep at h
  split at h
  · cases h
  · rename_i s hs
    cases h
    have hp := Table.of_find? hs
    simp only [Bool.and_eq_true, beq_iff_eq] at hp
    exact ⟨Table.mem_of_find? hs, hp⟩

theorem findStepByStage_spec {store : AuthStore} {reservationId : ReservationId}
    {stageKey : String} {step : MeetingProviderStepRecord}
    (h : findStepByStage store reservationId stageKey = some step) :
    step ∈ store.meetingProviderSteps ∧ step.reservationId = reservationId ∧
      step.stageKey = stageKey := by
  have hp := Table.of_find? h
  simp only [Bool.and_eq_true, beq_iff_eq] at hp
  exact ⟨Table.mem_of_find? h, hp⟩

theorem assertLocalReservationActive_ok :
    assertLocalReservationActive r now = .ok () ↔
      r.status = .reserved ∧ isLocalReservationCapacityActive r now = true := by
  unfold assertLocalReservationActive
  have : isLocalReservationCapacityActive r now = true → r.status = .reserved := fun h => by
    simp only [isLocalReservationCapacityActive, Bool.and_eq_true, beq_iff_eq] at h
    exact h.1.1
  split_ifs with h1 h2
  · simp [h1]
  · simp [this h2, h2]
  · simp [h2]

theorem findActiveLocalReservation_ok {store : AuthStore} {userId : UserId} {id : ReservationId} :
    findActiveLocalReservation store userId id now = .ok r ↔
      findReservationById store userId id = some r ∧ r.status = .reserved ∧
        isLocalReservationCapacityActive r now = true := by
  unfold findActiveLocalReservation
  split
  · simp_all
  · rename_i r' hr
    rw [bind_eq_ok, hr]
    constructor
    · rintro ⟨u, h, he⟩
      cases he
      exact ⟨rfl, assertLocalReservationActive_ok.mp h⟩
    · rintro ⟨he, h⟩
      cases he
      exact ⟨(), assertLocalReservationActive_ok.mpr h, rfl⟩

theorem assertLocalProviderStepClaim_ok {step : MeetingProviderStepRecord} {token : ClaimToken} :
    assertLocalProviderStepClaim hashToken step token now = .ok () ↔
      step.status = .claimed ∧ step.claimTokenHash = hashToken token ∧ now < step.leaseExpiresAt := by
  unfold assertLocalProviderStepClaim tokensMatch
  split_ifs with h1 h2 h3
  · simp [h1]
  · rw [Bool.not_eq_true', beq_eq_false_iff_ne] at h2
    exact iff_of_false (by simp) fun h => h2 h.2.1.symm
  · exact iff_of_false (by simp) fun h => absurd h.2.2 (not_lt.mpr h3)
  · rw [Bool.not_eq_true', beq_eq_false_iff_ne, not_not] at h2
    exact iff_of_true rfl ⟨not_not.mp h1, h2.symm, not_le.mp h3⟩

/-! ### What a call does -/

/-- The minutes free for the reservation `r` besides what the account's other reservations hold. -/
def availableFor (s : AuthStore) (user : UserRecord) (exclude : Option ReservationId)
    (now : Timestamp) : ℤ :=
  max 0 (user.officialMinutesTotal - user.officialMinutesUsed -
    localPendingCapacity s user.id now exclude)

/-- `r` is `r0` with a target of reserved minutes that fits, and a new lease. -/
def Reserved (s : AuthStore) (now : Timestamp) (user : UserRecord)
    (r0 r : MeetingProcessingReservationRecord) : Prop :=
  ∃ processed target streamed sequence,
    r = reactivateLocalReservation { r0 with
      processedMinutes := processed
      officialMinutesReserved := target
      realtimeDurationMs := streamed
      realtimeHighestSequence := sequence } now ∧
    max r0.officialMinutesReserved 0 ≤ target ∧
    max 0 (target - r0.officialMinutesSettled) ≤ availableFor s user (some r0.id) now

/-- `step` claimed with `token`. -/
def claimedStep (step : MeetingProviderStepRecord) (token : ClaimToken)
    (leaseExpiresAt : Timestamp) : MeetingProviderStepRecord :=
  { step with
    status := .claimed
    claimTokenHash := hashToken token
    leaseExpiresAt
    startedAt := none
    completedAt := none
    releasedAt := none
    officialMinutesSettled := 0
    freeTrialMinutesSettled := 0
    settlementPeriodIdentity := none }

/-- `r` held at least as long as a claim on it. -/
def extendedLease (r : MeetingProcessingReservationRecord) (leaseExpiresAt : Timestamp) :
    MeetingProcessingReservationRecord :=
  { r with
    releasedAt := none
    reservationExpiresAt := max r.reservationExpiresAt leaseExpiresAt }

/-- `user` charged `minutes`. -/
def chargedUser (user : UserRecord) (minutes : ℤ) : UserRecord :=
  captureLocalFreeTrialUsage { user with officialMinutesUsed := user.officialMinutesUsed + minutes }

/-- `step` started for `user`, who paid `minutes`. -/
def startedStep (step : MeetingProviderStepRecord) (user : UserRecord) (minutes : ℤ)
    (now : Timestamp) : MeetingProviderStepRecord :=
  { step with
    status := .started
    officialMinutesSettled := minutes
    freeTrialMinutesSettled := min minutes
      (max 0 ((chargedUser user minutes).freeTrialMinutesUsed - user.freeTrialMinutesUsed))
    settlementPeriodIdentity := some (localSettlementPeriodIdentity user)
    startedAt := some now }

/-- `user` after the refund of `step`. -/
def refundedUser (user : UserRecord) (step : MeetingProviderStepRecord) : UserRecord :=
  let user :=
    if step.settlementPeriodIdentity = some (localSettlementPeriodIdentity user) then
      { user with
        officialMinutesUsed := user.officialMinutesUsed - max 0 step.officialMinutesSettled }
    else user
  let user := normalizeLocalFreeTrialFields user
  { user with
    freeTrialMinutesUsed :=
      max 0 (user.freeTrialMinutesUsed - max 0 step.freeTrialMinutesSettled) }

/-- `r` with `minutes` more settled. -/
def settledReservation (r : MeetingProcessingReservationRecord) (minutes : ℤ) :
    MeetingProcessingReservationRecord :=
  { r with officialMinutesSettled := r.officialMinutesSettled + minutes }

@[simp] theorem settledReservation_id (r : MeetingProcessingReservationRecord) (minutes : ℤ) :
    (settledReservation r minutes).id = r.id := rfl

@[simp] theorem settledReservation_settled (r : MeetingProcessingReservationRecord) (minutes : ℤ) :
    (settledReservation r minutes).officialMinutesSettled = r.officialMinutesSettled + minutes := rfl

/-- What the mutation of `recordMeetingFinalizeUsage` does. -/
inductive Recording (now : Timestamp) (userId : UserId) (s : AuthStore) : AuthStore → Prop
  /-- The usage is recorded already. -/
  | recorded : Recording now userId s s
  /-- Without a reservation the minutes are charged now. -/
  | charged {user : UserRecord} {minutes : ℤ} {event : UsageEventRecord}
      (huser : findActiveUser s userId = some user) (hpos : 0 ≤ minutes)
      (hcap : minutes ≤ availableFor s user none now)
      (hevent : event.userId = userId ∧ event.type = .meetingFinalize ∧
        event.minutes = minutes ∧ event.processingReservationId = none) :
      Recording now userId s
        { s.putUser (chargedUser user minutes) with usageEvents := s.usageEvents ++ [event] }
  /-- The reservation is finalized; its provider calls were charged when they started. -/
  | finalized {user : UserRecord} {r : MeetingProcessingReservationRecord}
      {route : MeetingProcessingRoute} {processed : ℤ} {resultGeneratedAt : String}
      {event : UsageEventRecord} (huser : findActiveUser s userId = some user)
      (hr : r ∈ s.meetingProcessingReservations) (howner : r.userId = userId)
      (hevent : event.processingReservationId = some r.id) :
      Recording now userId s
        { (s.putUser (captureLocalFreeTrialUsage user)).putReservation { r with
            processingRoute := route
            processedMinutes := processed
            status := .finalized
            releasedAt := none
            resultGeneratedAt := some resultGeneratedAt
            finalizedAt := some now } with usageEvents := s.usageEvents ++ [event] }

/-- What a call that succeeds does to the store it read, one case for each kind of write. -/
inductive Effect (now : Timestamp) (call : QuotaCall) (s : AuthStore) :
    QuotaResult → AuthStore → Prop
  | unchanged {res : QuotaResult} (hquiet : Quiet res)
      (hreject : ∀ input, call = .reject call.userId input → ∀ step ∈ s.meetingProviderSteps,
        step.id = input.stepId → step.status ≠ .started) : Effect now call s res s
  | reserveNew {res : QuotaResult} {user : UserRecord} {r0 r : MeetingProcessingReservationRecord}
      (hquiet : Quiet res) (huser : findActiveUser s call.userId = some user)
      (hid : call.newReservationId? = some r0.id)
      (hr0 : ∃ meetingId operationKey route, r0 =
        createLocalProcessingReservation user r0.id meetingId operationKey route now)
      (hr : Reserved s now user r0 r) :
      Effect now call s res
        { s with meetingProcessingReservations := s.meetingProcessingReservations.insert r }
  | reserveAgain {res : QuotaResult} {user : UserRecord}
      {r0 r : MeetingProcessingReservationRecord}
      (hquiet : Quiet res) (huser : findActiveUser s call.userId = some user)
      (hcall : call.newReservationId? ≠ none)
      (hr0 : r0 ∈ s.meetingProcessingReservations) (howner : r0.userId = call.userId)
      (hstatus : r0.status = .reserved) (hr : Reserved s now user r0 r) :
      Effect now call s res (s.putReservation r)
  | claimNew {user : UserRecord} {r : MeetingProcessingReservationRecord}
      {step : MeetingProviderStepRecord} {token : ClaimToken} {leaseExpiresAt : Timestamp}
      (huser : findActiveUser s call.userId = some user)
      (hr : r ∈ s.meetingProcessingReservations) (howner : r.userId = call.userId)
      (hactive : isLocalReservationCapacityActive r now = true)
      (hid : call.newStepId? = some step.id) (htoken : call.newToken? = some token)
      (hstep : step.reservationId = r.id ∧ step.userId = call.userId)
      (hfree : findStepByStage s r.id step.stageKey = none) :
      Effect now call s
        (.claim { outcome := .claimed
                  step := toMeetingProviderStep (claimedStep hashToken step token leaseExpiresAt)
                  claimToken := some token })
        { s.putReservation (extendedLease r leaseExpiresAt) with
          meetingProviderSteps :=
            s.meetingProviderSteps.insert (claimedStep hashToken step token leaseExpiresAt) }
  | claimAgain {user : UserRecord} {r : MeetingProcessingReservationRecord}
      {step : MeetingProviderStepRecord} {token : ClaimToken} {leaseExpiresAt : Timestamp}
      (huser : findActiveUser s call.userId = some user)
      (hr : r ∈ s.meetingProcessingReservations) (howner : r.userId = call.userId)
      (hactive : isLocalReservationCapacityActive r now = true)
      (htoken : call.newToken? = some token)
      (hstep : step ∈ s.meetingProviderSteps) (hres : step.reservationId = r.id)
      (hstatus : step.status = .released ∨ (step.status = .claimed ∧ step.leaseExpiresAt ≤ now)) :
      Effect now call s
        (.claim { outcome := .claimed
                  step := toMeetingProviderStep (claimedStep hashToken step token leaseExpiresAt)
                  claimToken := some token })
        ((s.putReservation (extendedLease r leaseExpiresAt)).putStep
          (claimedStep hashToken step token leaseExpiresAt))
  | start {user : UserRecord} {r : MeetingProcessingReservationRecord}
      {step : MeetingProviderStepRecord} {input : ProviderStepInput} {minutes : ℤ}
      (hcall : call = .start user.id input) (huser : findActiveUser s user.id = some user)
      (hr : r ∈ s.meetingProcessingReservations) (howner : r.userId = user.id)
      (hactive : isLocalReservationCapacityActive r now = true)
      (hstep : step ∈ s.meetingProviderSteps) (hid : step.id = input.stepId)
      (hstepOwner : step.userId = user.id) (hres : step.reservationId = r.id)
      (hstatus : step.status = .claimed) (hhash : step.claimTokenHash = hashToken input.claimToken)
      (hlease : now < step.leaseExpiresAt)
      (hminutes : minutes = max 0 (r.officialMinutesReserved - r.officialMinutesSettled))
      (hcap : minutes ≤ availableFor s user (some r.id) now) :
      Effect now call s
        (.transition { outcome := .started
                       step := toMeetingProviderStep
                         (startedStep step (normalizeLocalFreeTrialFields user) minutes now) })
        (((s.putUser (chargedUser (normalizeLocalFreeTrialFields user) minutes)).putReservation
          (settledReservation r minutes)).putStep
            (startedStep step (normalizeLocalFreeTrialFields user) minutes now))
  | complete {res : QuotaResult} {step : MeetingProviderStepRecord} (hquiet : Quiet res)
      (hcall : (∃ input, call = .complete call.userId input ∧ step.id = input.stepId ∧
          step.claimTokenHash = hashToken input.claimToken) ∨
        ∃ input, call = .reconcile call.userId input)
      (hstep : step ∈ s.meetingProviderSteps) (hstatus : step.status = .started) :
      Effect now call s res
        (s.putStep { step with status := .completed, completedAt := some now })
  | releaseStep {res : QuotaResult} {step : MeetingProviderStepRecord} {input : ProviderStepInput}
      (hres : ∃ r, res = .transition r ∧ r.outcome = .released)
      (hcall : call = .releaseStep call.userId input ∨ call = .reject call.userId input)
      (hstep : step ∈ s.meetingProviderSteps) (hid : step.id = input.stepId)
      (hstatus : step.status = .claimed) (hhash : step.claimTokenHash = hashToken input.claimToken) :
      Effect now call s res (s.putStep { step with status := .released, releasedAt := some now })
  | refund {user : UserRecord} {r : MeetingProcessingReservationRecord}
      {step : MeetingProviderStepRecord} {input : ProviderStepInput}
      (hcall : call = .reject user.id input) (huser : user ∈ s.users)
      (huserActive : user.deletedAt = none)
      (hr : r ∈ s.meetingProcessingReservations) (howner : r.userId = user.id)
      (hrstatus : r.status = .reserved)
      (hstep : step ∈ s.meetingProviderSteps) (hid : step.id = input.stepId)
      (hstepOwner : step.userId = user.id) (hres : step.reservationId = r.id)
      (hstatus : step.status = .started) (hhash : step.claimTokenHash = hashToken input.claimToken)
      (hsettled : max 0 step.officialMinutesSettled ≤ r.officialMinutesSettled)
      (hused : step.settlementPeriodIdentity = some (localSettlementPeriodIdentity user) →
        max 0 step.officialMinutesSettled ≤ user.officialMinutesUsed) :
      Effect now call s
        (.transition { outcome := .released
                       step := toMeetingProviderStep { step with
                         status := .released
                         officialMinutesSettled := 0
                         releasedAt := some now } })
        (((s.putUser (refundedUser user step)).putReservation
          (settledReservation r (-max 0 step.officialMinutesSettled))).putStep { step with
            status := .released
            officialMinutesSettled := 0
            releasedAt := some now })
  /-- The account is deleted. -/
  | rejectDeleted {user : UserRecord} {step step' : MeetingProviderStepRecord} {s' : AuthStore}
      {input : ProviderStepInput}
      (hcall : call = .reject user.id input) (huser : user ∈ s.users)
      (huserDeleted : user.deletedAt ≠ none)
      (hstep : step ∈ s.meetingProviderSteps) (hid : step.id = input.stepId)
      (hstepOwner : step.userId = user.id)
      (hstatus : step.status = .started ∨ step.status = .claimed)
      (hhash : step.claimTokenHash = hashToken input.claimToken)
      (hs' : rejectForDeletedAccount now user.id s step = (step', s')) :
      Effect now call s (.transition { outcome := .released, step := toMeetingProviderStep step' }) s'
  | releaseReservation {res : QuotaResult} {r : MeetingProcessingReservationRecord}
      (hquiet : Quiet res) (hcall : call = .releaseReservation call.userId r.id)
      (hr : r ∈ s.meetingProcessingReservations) (howner : r.userId = call.userId)
      (hstatus : r.status = .reserved)
      (hidle : ∀ step ∈ s.meetingProviderSteps, step.reservationId = r.id → step.status ≠ .started) :
      Effect now call s res
        { s.putReservation { r with releasedAt := some now, reservationExpiresAt := now } with
          meetingProviderSteps := releaseClaimedSteps now r.id s.meetingProviderSteps }
  | record {input : RecordMeetingFinalizeUsageInput} {newId : UsageEventId} {mid : AuthStore}
      {user : UserRecord} (hcall : call = .recordUsage user.id input newId)
      (hmid : recordFinalizeUsage now newId user.id input s = .ok ((), mid))
      (huser : findActiveUser (normalizeStore mid) user.id = some user) :
      Effect now call s
        (.usage (userUsageSummary (refreshLocalUserEntitlements now (normalizeStore mid) user).2))
        (refreshLocalUserEntitlements now (normalizeStore mid) user).1

/-! ### The capacity checks -/

variable {s s' : AuthStore} {input : ProviderStepInput} {res : MeetingProviderStepTransitionResult}

theorem reserveLocalOfficialCapacity_ok {user : UserRecord} {targetMinutes target : ℤ}
    (h : reserveLocalOfficialCapacity s user r targetMinutes now = .ok target) :
    max r.officialMinutesReserved 0 ≤ target ∧
      max 0 (target - r.officialMinutesSettled) ≤ availableFor s user (some r.id) now := by
  unfold reserveLocalOfficialCapacity at h
  dsimp only at h
  split at h
  · cases h
  · rename_i hcap
    cases h
    exact ⟨max_le_max le_rfl (le_max_left _ _), not_lt.mp hcap⟩

theorem settleLocalReservationCapacity_ok {user : UserRecord} {minutes : ℤ}
    (h : settleLocalReservationCapacity s user r now = .ok minutes) :
    minutes = max 0 (r.officialMinutesReserved - r.officialMinutesSettled) ∧
      minutes ≤ availableFor s user (some r.id) now := by
  unfold settleLocalReservationCapacity at h
  dsimp only at h
  split at h
  · cases h
  · rename_i hcap
    cases h
    exact ⟨rfl, not_lt.mp hcap⟩

theorem settleLocalLegacyUsage_ok {user : UserRecord} {targetMinutes minutes : ℤ}
    (h : settleLocalLegacyUsage s user targetMinutes now = .ok minutes) :
    0 ≤ minutes ∧ minutes ≤ availableFor s user none now := by
  unfold settleLocalLegacyUsage at h
  dsimp only at h
  split at h
  · cases h
  · rename_i hcap
    cases h
    exact ⟨le_max_left _ _, not_lt.mp hcap⟩

/-! ### Each operation -/

/-- Saving a reservation that was found by its key, or a new one. -/
theorem effect_save {call : QuotaCall} {res : QuotaResult} {user : UserRecord} {operationKey : String}
    {meetingId : MeetingId} {route : MeetingProcessingRoute} {newId : ReservationId}
    {r0 : MeetingProcessingReservationRecord} (hquiet : Quiet res) (huser : findActiveUser s call.userId = some user)
    (hid : call.newReservationId? = some newId) (hr0 : r0 = (findReservationByKey s call.userId operationKey).getD
      (createLocalProcessingReservation user newId meetingId operationKey route now))
    (hopen : (findReservationByKey s call.userId operationKey).any (·.status == .finalized) = false)
    (hr : Reserved s now user r0 r) :
    Effect hashToken now call s res
      (saveReservation s (findReservationByKey s call.userId operationKey) r) := by
  cases hcur : findReservationByKey s call.userId operationKey with
  | none =>
    rw [hcur, Option.getD_none] at hr0
    subst hr0
    exact .reserveNew hquiet huser hid ⟨meetingId, operationKey, route, rfl⟩ hr
  | some cur =>
    rw [hcur, Option.getD_some] at hr0
    subst hr0
    obtain ⟨hmem, howner, -⟩ := findReservationByKey_spec hcur
    have hstatus : r0.status = .reserved := by
      rw [hcur] at hopen
      cases hs : r0.status with
      | reserved => rfl
      | finalized => simp [hs] at hopen
    exact .reserveAgain hquiet huser (by simp [hid]) hmem howner hstatus hr

theorem effect_reserveRealtime {newId : ReservationId} {userId : UserId} {input : ReserveRealtimeQuotaInput}
    {store : AuthStore} {claim : RealtimeQuotaClaim}
    (h : reserveMeetingRealtimeQuota now newId userId input store = .ok (claim, s')) :
    Effect hashToken now (.reserveRealtime userId input newId) (normalizeStore store)
      (.realtime claim) s' := by
  simp only [reserveMeetingRealtimeQuota, withLocalQuotaMutation, bind_eq_ok] at h
  obtain ⟨user, huser, -, -, -, -, h⟩ := h
  obtain ⟨hopen, h⟩ := guard_eq_ok.mp h
  obtain ⟨-, h⟩ := guard_eq_ok.mp h
  obtain ⟨target, htarget, h⟩ := bind_eq_ok.mp h
  cases h
  exact effect_save hashToken trivial (findLocalQuotaUser_ok.mp huser) rfl rfl
    (Bool.eq_false_iff.mpr hopen) ⟨_, _, _, _, rfl, reserveLocalOfficialCapacity_ok htarget⟩

theorem effect_reserveFinalization {newId : ReservationId} {userId : UserId} {input : ReserveFinalizationQuotaInput}
    {store : AuthStore} {res : MeetingProcessingReservation}
    (h : reserveMeetingFinalizationQuota now newId userId input store = .ok (res, s')) :
    Effect hashToken now (.reserveFinalization userId input newId) (normalizeStore store)
      (.reservation res) s' := by
  simp only [reserveMeetingFinalizationQuota, withLocalQuotaMutation, bind_eq_ok] at h
  obtain ⟨user, huser, -, -, -, -, h⟩ := h
  split at h
  · cases h
    exact .unchanged trivial fun _ hcall => by cases hcall
  · rename_i hopen
    obtain ⟨target, htarget, h⟩ := bind_eq_ok.mp h
    cases h
    exact effect_save hashToken trivial (findLocalQuotaUser_ok.mp huser) rfl rfl
      (Bool.eq_false_iff.mpr hopen) ⟨_, _, _, _, rfl, reserveLocalOfficialCapacity_ok htarget⟩

theorem effect_claim {newId : ProviderStepId} {token : ClaimToken} {userId : UserId}
    {input : ClaimMeetingProviderStepInput} {store : AuthStore} {res : MeetingProviderStepClaimResult}
    (h : claimMeetingProviderStep hashToken now newId token userId input store = .ok (res, s')) :
    Effect hashToken now (.claim userId input newId token) (normalizeStore store)
      (.claim res) s' := by
  simp only [claimMeetingProviderStep, withLocalQuotaMutation, bind_eq_ok] at h
  obtain ⟨user, huser, h⟩ := h
  split at h
  · cases h
  · rename_i r hr
    obtain ⟨stageKey, -, h⟩ := bind_eq_ok.mp h
    obtain ⟨hmem, -, howner⟩ := findReservationById_spec hr
    split at h
    · cases h
      exact .unchanged (by simp [Quiet]) fun _ hcall => by cases hcall
    · rename_i hnc
      split at h
      · cases h
        exact .unchanged (by simp [Quiet]) fun _ hcall => by cases hcall
      · rename_i hns
        split at h
        · cases h
          exact .unchanged (by simp [Quiet]) fun _ hcall => by cases hcall
        · rename_i hnb
          obtain ⟨_, hactive, h⟩ := bind_eq_ok.mp h
          have hactive := (assertLocalReservationActive_ok.mp hactive).2
          cases hcur : findStepByStage (normalizeStore store) r.id stageKey with
          | none =>
            rw [hcur] at h
            cases h
            exact .claimNew
              (findLocalQuotaUser_ok.mp huser) hmem howner hactive rfl rfl ⟨rfl, rfl⟩ hcur
          | some step =>
            rw [hcur] at h
            cases h
            simp only [hcur, Option.any_some, beq_iff_eq, Bool.and_eq_true, decide_eq_true_eq,
              not_and, not_lt] at hnc hns hnb
            obtain ⟨hstep, hres, -⟩ := findStepByStage_spec hcur
            refine .claimAgain
              (findLocalQuotaUser_ok.mp huser) hmem howner hactive rfl hstep hres ?_
            by_cases hrel : step.status = .released
            · exact .inl hrel
            · have hclaimed := MeetingProviderStepStatus.eq_claimed hnc hns hrel
              exact .inr ⟨hclaimed, hnb hclaimed⟩

theorem effect_start {userId : UserId} {store : AuthStore}
    (h : startMeetingProviderStep hashToken now userId input store = .ok (res, s')) :
    Effect hashToken now (.start userId input) (normalizeStore store) (.transition res) s' := by
  simp only [startMeetingProviderStep, withLocalQuotaMutation, bind_eq_ok] at h
  obtain ⟨user, huser, step, hstep, h⟩ := h
  have huser := findLocalQuotaUser_ok.mp huser
  obtain ⟨-, rfl, -⟩ := findActiveUser_spec huser
  obtain ⟨hmem, hid, hstepOwner⟩ := findLocalProviderStep_spec hstep
  split at h
  · cases h
    exact .unchanged (by simp [Quiet]) fun _ hcall => by cases hcall
  · split at h
    · cases h
      exact .unchanged (by simp [Quiet]) fun _ hcall => by cases hcall
    · obtain ⟨_, hclaim, h⟩ := bind_eq_ok.mp h
      obtain ⟨r, hr, h⟩ := bind_eq_ok.mp h
      obtain ⟨minutes, hminutes, h⟩ := bind_eq_ok.mp h
      obtain ⟨hstatus, hhash, hlease⟩ := (assertLocalProviderStepClaim_ok hashToken).mp hclaim
      obtain ⟨hr, -, hactive⟩ := findActiveLocalReservation_ok.mp hr
      obtain ⟨hrmem, hrid, howner⟩ := findReservationById_spec hr
      obtain ⟨hminutes, hcap⟩ := settleLocalReservationCapacity_ok hminutes
      cases h
      exact .start rfl huser hrmem howner hactive hmem hid hstepOwner hrid.symm hstatus hhash hlease
        hminutes hcap

theorem effect_complete {userId : UserId} {store : AuthStore}
    (h : completeMeetingProviderStep hashToken now userId input store = .ok (res, s')) :
    Effect hashToken now (.complete userId input) (normalizeStore store) (.transition res) s' := by
  simp only [completeMeetingProviderStep, withLocalQuotaMutation, bind_eq_ok] at h
  obtain ⟨step, hstep, h⟩ := h
  obtain ⟨hmem, hid, -⟩ := findLocalProviderStep_spec hstep
  split at h
  · cases h
    exact .unchanged (by simp [Quiet]) fun _ hcall => by cases hcall
  · split at h
    · cases h
      exact .unchanged (by simp [Quiet]) fun _ hcall => by cases hcall
    · rename_i hc
      cases h
      simp only [tokensMatch, not_or, Bool.not_eq_true', beq_eq_false_iff_ne,
        ne_eq, not_not] at hc
      exact .complete (by simp [Quiet]) (.inl ⟨input, rfl, hid, hc.2.symm⟩) hmem hc.1

theorem effect_reconcile {userId : UserId} {input : ReconcileMeetingProviderStepInput} {store : AuthStore}
    (h : reconcileMeetingProviderStep now userId input store = .ok (res, s')) :
    Effect hashToken now (.reconcile userId input) (normalizeStore store) (.transition res) s' := by
  simp only [reconcileMeetingProviderStep, withLocalQuotaMutation] at h
  split at h
  · cases h
  · obtain ⟨stageKey, -, h⟩ := bind_eq_ok.mp h
    split at h
    · cases h
    · rename_i step hstep
      obtain ⟨hmem, -, -⟩ := findStepByStage_spec hstep
      obtain ⟨-, h⟩ := guard_eq_ok.mp h
      split at h
      · rename_i hs
        cases h
        exact .complete (by simp [Quiet]) (.inr ⟨input, rfl⟩) hmem hs
      · cases h
        exact .unchanged (by simp [Quiet]) fun _ hcall => by cases hcall

theorem effect_releaseStep {userId : UserId} {store : AuthStore}
    (h : releaseMeetingProviderStep hashToken now userId input store = .ok (res, s')) :
    Effect hashToken now (.releaseStep userId input) (normalizeStore store) (.transition res) s' := by
  simp only [releaseMeetingProviderStep, withLocalQuotaMutation, bind_eq_ok] at h
  obtain ⟨user, -, step, hstep, h⟩ := h
  obtain ⟨hmem, hid, -⟩ := findLocalProviderStep_spec hstep
  split at h
  · cases h
    exact .unchanged (by simp [Quiet]) fun _ hcall => by cases hcall
  · rename_i hnc
    split at h
    · cases h
      exact .unchanged (by simp [Quiet]) fun _ hcall => by cases hcall
    · rename_i hns
      split at h
      · cases h
        exact .unchanged (by simp [Quiet]) fun _ hcall => by cases hcall
      · rename_i hnr
        obtain ⟨htok, h⟩ := guard_eq_ok.mp h
        simp only [tokensMatch, Bool.not_eq_true', Bool.not_eq_false, beq_iff_eq] at htok
        cases h
        exact .releaseStep ⟨_, rfl, rfl⟩ (.inl rfl) hmem hid
          (MeetingProviderStepStatus.eq_claimed hnc hns hnr) htok.symm

theorem refundLocalStep_ok {user : UserRecord} {step : MeetingProviderStepRecord}
    (h : refundLocalStep user.id s user step = .ok s') :
    ∃ r ∈ s.meetingProcessingReservations, r.id = step.reservationId ∧ r.userId = user.id ∧
      r.status = .reserved ∧ max 0 step.officialMinutesSettled ≤ r.officialMinutesSettled ∧
      (step.settlementPeriodIdentity = some (localSettlementPeriodIdentity user) →
        max 0 step.officialMinutesSettled ≤ user.officialMinutesUsed) ∧
      s' = (s.putUser (refundedUser user step)).putReservation
        (settledReservation r (-max 0 step.officialMinutesSettled)) := by
  unfold refundLocalStep at h
  split at h
  · cases h
  · rename_i r hr
    obtain ⟨hmem, hid, howner⟩ := findReservationById_spec hr
    obtain ⟨hstatus, h⟩ := guard_eq_ok.mp h
    obtain ⟨hsettled, h⟩ := guard_eq_ok.mp h
    obtain ⟨hused, h⟩ := guard_eq_ok.mp h
    cases h
    refine ⟨r, hmem, hid, howner, ReservationStatus.eq_reserved hstatus, not_lt.mp hsettled, fun hm => ?_, rfl⟩
    exact not_lt.mp fun hlt => hused ⟨hm, hlt⟩

theorem effect_reject {userId : UserId} {store : AuthStore}
    (h : rejectMeetingProviderStep hashToken now userId input store = .ok (res, s')) :
    Effect hashToken now (.reject userId input) (normalizeStore store) (.transition res) s' := by
  simp only [rejectMeetingProviderStep, withLocalQuotaMutation] at h
  split at h
  · cases h
  · rename_i user huser
    obtain ⟨humem, rfl⟩ := Table.get?_eq_some.mp huser
    obtain ⟨step, hstep, h⟩ := bind_eq_ok.mp h
    obtain ⟨hmem, hid, hstepOwner⟩ := findLocalProviderStep_spec hstep
    obtain ⟨htok, h⟩ := guard_eq_ok.mp h
    simp only [tokensMatch, Bool.not_eq_true', Bool.not_eq_false, beq_iff_eq] at htok
    have hsame : ∀ other ∈ (normalizeStore store).meetingProviderSteps, other.id = input.stepId →
        other = step := fun other hother hoid =>
      Table.eq_of_key hother hmem (hoid.trans hid.symm)
    split at h
    · rename_i hs
      cases h
      refine .unchanged (by simp [Quiet]) fun _ hcall other hother hoid => ?_
      cases hcall
      rw [hsame other hother hoid, hs]; simp
    · rename_i hnc
      split at h
      · rename_i hs
        cases h
        refine .unchanged (by simp [Quiet]) fun _ hcall other hother hoid => ?_
        cases hcall
        rw [hsame other hother hoid, hs]; simp
      · rename_i hnr
        have hopen := MeetingProviderStepStatus.started_or_claimed hnc hnr
        split at h
        · rename_i hdel
          cases h
          exact .rejectDeleted rfl humem (Option.isSome_iff_ne_none.mp hdel) hmem hid hstepOwner
            hopen htok.symm rfl
        · rename_i hdel
          have hactive : user.deletedAt = none := by simpa using hdel
          rcases hopen with hs | hs
          · rw [if_pos hs] at h
            obtain ⟨refunded, hrefund, h⟩ := bind_eq_ok.mp h
            obtain ⟨r, hrmem, hrid, howner, hrstatus, hsettled, hused, rfl⟩ :=
              refundLocalStep_ok hrefund
            simp only [hs, if_true] at h
            cases h
            exact .refund rfl humem hactive hrmem howner hrstatus hmem hid hstepOwner hrid.symm hs
              htok.symm hsettled hused
          · have hns : step.status ≠ .started := by simp [hs]
            rw [if_neg hns] at h
            simp only [ok_bind, if_neg hns] at h
            cases h
            exact .releaseStep ⟨_, rfl, rfl⟩ (.inr rfl) hmem hid hs htok.symm

theorem effect_releaseReservation {userId : UserId} {reservationId : ReservationId} {store : AuthStore}
    {res : MeetingProcessingReservation}
    (h : releaseMeetingProcessingReservation now userId reservationId store = .ok (res, s')) :
    Effect hashToken now (.releaseReservation userId reservationId) (normalizeStore store)
      (.reservation res) s' := by
  simp only [releaseMeetingProcessingReservation, withLocalQuotaMutation, bind_eq_ok] at h
  obtain ⟨user, -, h⟩ := h
  split at h
  · cases h
  · rename_i r hr
    obtain ⟨hmem, rfl, howner⟩ := findReservationById_spec hr
    split at h
    · cases h
      exact .unchanged trivial fun _ hcall => by cases hcall
    · rename_i hnf
      obtain ⟨hidle, h⟩ := guard_eq_ok.mp h
      cases h
      have hstatus := ReservationStatus.eq_reserved hnf
      refine .releaseReservation trivial rfl hmem howner hstatus fun step hstep hid hs => hidle ?_
      exact List.any_eq_true.mpr ⟨step, hstep, by simp [hid, hs]⟩

theorem recording_of_ok {newId : UsageEventId} {userId : UserId} {input : RecordMeetingFinalizeUsageInput} {u : Unit}
    (h : recordFinalizeUsage now newId userId input s = .ok (u, s')) : Recording now userId s s' := by
  simp only [recordFinalizeUsage, bind_eq_ok] at h
  obtain ⟨user, huser, h⟩ := h
  have huser := findLocalQuotaUser_ok.mp huser
  split at h
  · cases h
    exact .recorded
  · split at h
    · obtain ⟨-, h⟩ := guard_eq_ok.mp h
      obtain ⟨minutes, hminutes, h⟩ := bind_eq_ok.mp h
      obtain ⟨hpos, hcap⟩ := settleLocalLegacyUsage_ok hminutes
      cases h
      exact .charged huser hpos hcap ⟨rfl, rfl, rfl, rfl⟩
    · rename_i r hr
      obtain ⟨-, h⟩ := guard_eq_ok.mp h
      obtain ⟨-, h⟩ := guard_eq_ok.mp h
      cases h
      have hmem : r ∈ s.meetingProcessingReservations ∧ r.userId = userId := by
        unfold findRecordedReservation at hr
        split at hr
        · exact ⟨(findReservationById_spec hr).1, (findReservationById_spec hr).2.2⟩
        · exact ⟨(findReservationByKey_spec hr).1, (findReservationByKey_spec hr).2.1⟩
        · cases hr
      exact .finalized huser hmem.1 hmem.2 rfl

theorem effect_record {newId : UsageEventId} {userId : UserId} {input : RecordMeetingFinalizeUsageInput}
    {store : AuthStore} {res : UserUsageSummary}
    (h : recordMeetingFinalizeUsage now newId userId input store = .ok (res, s')) :
    Effect hashToken now (.recordUsage userId input newId) (normalizeStore store)
      (.usage res) s' := by
  simp only [recordMeetingFinalizeUsage, withLocalQuotaMutation, bind_eq_ok] at h
  obtain ⟨⟨u, mid⟩, hmid, h⟩ := h
  unfold getUserUsage at h
  dsimp only at h
  split at h
  · cases h
  · rename_i user huser
    cases h
    obtain ⟨-, rfl, -⟩ := findActiveUser_spec huser
    exact .record rfl hmid huser

/-- **What a call does.** A call that succeeds has one of the effects; a call that fails leaves the
store as it was. -/
theorem effect_of_execute {call : QuotaCall} {store : AuthStore} {res : QuotaResult}
    (h : execute hashToken now call store = (.ok res, s')) :
    Effect hashToken now call (normalizeStore store) res s' := by
  replace h := commit_ok h
  cases call <;> simp only [map_eq_ok, Prod.exists, Prod.map, id_eq, Prod.mk.injEq] at h <;>
    obtain ⟨a, t, h, rfl, rfl⟩ := h
  · exact effect_reserveRealtime hashToken h
  · exact effect_reserveFinalization hashToken h
  · exact effect_claim hashToken h
  · exact effect_start hashToken h
  · exact effect_complete hashToken h
  · exact effect_reconcile hashToken h
  · exact effect_releaseStep hashToken h
  · exact effect_reject hashToken h
  · exact effect_releaseReservation hashToken h
  · exact effect_record hashToken h

theorem execute_error {call : QuotaCall} {store : AuthStore} {e : AuthError}
    (h : execute hashToken now call store = (.error e, s')) : s' = store := (commit_error h).1

end OwnMinutes.Local.Calls
