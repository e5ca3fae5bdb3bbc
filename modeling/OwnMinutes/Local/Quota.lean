import OwnMinutes.Local.Store

/-! # The quota operations of the local store

`reserveMeetingRealtimeQuota` to `recordMeetingFinalizeUsage` of `auth-store.ts`. `hashToken` is
the digest the store keeps of a claim token. An operation takes the time it runs at and the
identifiers and tokens it draws at random. -/

namespace OwnMinutes.Local.Quota

open OwnMinutes.Lib.Keyed OwnMinutes.Auth.ProcessingRoute OwnMinutes.Auth.Records
open OwnMinutes.Auth.Errors OwnMinutes.Auth.QuotaTypes OwnMinutes.Local.Store

variable (hashToken : ClaimToken → TokenHash)

/-- Read the store, run the mutation and write the store back, all under the quota lock. -/
def withLocalQuotaMutation {α : Type} (mutation : AuthStore → Except AuthError (α × AuthStore))
    (store : AuthStore) : Except AuthError (α × AuthStore) := mutation (normalizeStore store)

/-! ### Looking up and checking records -/

def findLocalQuotaUser (store : AuthStore) (userId : UserId) : Except AuthError UserRecord :=
  match findActiveUser store userId with
  | none => .error accountMissing
  | some user => .ok user

def findReservationByKey (store : AuthStore) (userId : UserId) (operationKey : String) :
    Option MeetingProcessingReservationRecord :=
  store.meetingProcessingReservations.find? fun r =>
    r.userId == userId && r.operationKey == operationKey

def findReservationById (store : AuthStore) (userId : UserId) (reservationId : ReservationId) :
    Option MeetingProcessingReservationRecord :=
  store.meetingProcessingReservations.find? fun r => r.id == reservationId && r.userId == userId

def findStepByStage (store : AuthStore) (reservationId : ReservationId) (stageKey : String) :
    Option MeetingProviderStepRecord :=
  store.meetingProviderSteps.find? fun s => s.reservationId == reservationId && s.stageKey == stageKey

def assertLocalReservationMeeting (reservation : Option MeetingProcessingReservationRecord)
    (meetingId : MeetingId) : Except AuthError Unit :=
  if reservation.any (·.meetingId != meetingId) then .error reservationMeetingMismatch else .ok ()

def assertLocalReservationProcessingMode (reservation : Option MeetingProcessingReservationRecord)
    (requestedRoute : MeetingProcessingRoute) : Except AuthError Unit :=
  if reservation.any (·.processingRoute != requestedRoute) then .error processingModeConflict
  else .ok ()

def isLocalReservationCapacityActive (reservation : MeetingProcessingReservationRecord)
    (now : Timestamp) : Bool :=
  reservation.status == .reserved && reservation.releasedAt.isNone &&
    decide (now < reservation.reservationExpiresAt)

def assertLocalReservationActive (reservation : MeetingProcessingReservationRecord)
    (now : Timestamp) : Except AuthError Unit :=
  if reservation.status = .finalized then .error meetingProcessingFinalized
  else if isLocalReservationCapacityActive reservation now then .ok ()
  else .error reservationExpired

def findActiveLocalReservation (store : AuthStore) (userId : UserId) (reservationId : ReservationId)
    (now : Timestamp) : Except AuthError MeetingProcessingReservationRecord :=
  match findReservationById store userId reservationId with
  | none => .error reservationMissing
  | some reservation => do
    assertLocalReservationActive reservation now
    .ok reservation

def findLocalProviderStep (store : AuthStore) (userId : UserId) (stepId : ProviderStepId) :
    Except AuthError MeetingProviderStepRecord :=
  match store.meetingProviderSteps.find? fun s => s.id == stepId && s.userId == userId with
  | none => .error providerStepMissing
  | some step => .ok step

def tokensMatch (expectedHash : TokenHash) (token : ClaimToken) : Bool :=
  hashToken token == expectedHash

def assertLocalProviderStepClaim (step : MeetingProviderStepRecord) (claimToken : ClaimToken)
    (now : Timestamp) : Except AuthError Unit :=
  if step.status ≠ .claimed then .error providerStepNotClaimed
  else if !tokensMatch hashToken step.claimTokenHash claimToken then .error providerStepClaimMismatch
  else if step.leaseExpiresAt ≤ now then .error providerStepClaimExpired
  else .ok ()

/-! ### Capacity -/

/-- The minutes a reservation holds and has not settled. -/
def pendingMinutes (now : Timestamp) (r : MeetingProcessingReservationRecord) : ℤ :=
  if isLocalReservationCapacityActive r now then
    max 0 (r.officialMinutesReserved - r.officialMinutesSettled)
  else 0

def localPendingCapacity (store : AuthStore) (userId : UserId) (now : Timestamp)
    (excludeReservationId : Option ReservationId := none) : ℤ :=
  store.meetingProcessingReservations.sum fun r =>
    if r.userId ≠ userId ∨ some r.id = excludeReservationId then 0 else pendingMinutes now r

/-- Minutes are whole, so `Math.round(targetMinutes)` is `targetMinutes`. -/
def reserveLocalOfficialCapacity (store : AuthStore) (user : UserRecord)
    (reservation : MeetingProcessingReservationRecord) (targetMinutes : ℤ) (now : Timestamp) :
    Except AuthError ℤ :=
  let target := max reservation.officialMinutesReserved (max 0 targetMinutes)
  let pendingTarget := max 0 (target - reservation.officialMinutesSettled)
  let otherPending := localPendingCapacity store user.id now (some reservation.id)
  let available := max 0 (user.officialMinutesTotal - user.officialMinutesUsed - otherPending)
  if pendingTarget > available then .error (quotaInsufficientToReserve target available)
  else .ok target

/-- The minutes to settle now; the account and the reservation are changed by the caller. -/
def settleLocalReservationCapacity (store : AuthStore) (user : UserRecord)
    (reservation : MeetingProcessingReservationRecord) (now : Timestamp) : Except AuthError ℤ :=
  let delta := max 0 (reservation.officialMinutesReserved - reservation.officialMinutesSettled)
  let otherPending := localPendingCapacity store user.id now (some reservation.id)
  let available := max 0 (user.officialMinutesTotal - user.officialMinutesUsed - otherPending)
  if delta > available then .error (quotaInsufficientToSettle delta available)
  else .ok delta

def settleLocalLegacyUsage (store : AuthStore) (user : UserRecord) (targetMinutes : ℤ)
    (now : Timestamp) : Except AuthError ℤ :=
  let target := max 0 targetMinutes
  let pending := localPendingCapacity store user.id now
  let available := max 0 (user.officialMinutesTotal - user.officialMinutesUsed - pending)
  if target > available then .error (quotaInsufficientToRecord target available)
  else .ok target

/-! ### Reserving -/

def createLocalProcessingReservation (user : UserRecord) (newId : ReservationId)
    (meetingId : MeetingId) (operationKey : String) (processingRoute : MeetingProcessingRoute)
    (now : Timestamp) : MeetingProcessingReservationRecord where
  id := newId
  userId := user.id
  meetingId
  operationKey
  processingRoute
  reservationExpiresAt := now + DEFAULT_MEETING_RESERVATION_LEASE_MS
  quotaPeriodSource := user.officialMinutesPeriodSource
  quotaPeriodStartAt := user.officialMinutesPeriodStartAt
  quotaBillingOrderId := user.officialMinutesBillingOrderId

def reactivateLocalReservation (reservation : MeetingProcessingReservationRecord)
    (now : Timestamp) : MeetingProcessingReservationRecord :=
  { reservation with
    releasedAt := none
    reservationExpiresAt := now + DEFAULT_MEETING_RESERVATION_LEASE_MS }

/-- Put a changed reservation back, or push a new one. -/
def saveReservation (store : AuthStore) (current : Option MeetingProcessingReservationRecord)
    (reservation : MeetingProcessingReservationRecord) : AuthStore :=
  { store with
    meetingProcessingReservations :=
      if current.isSome then store.meetingProcessingReservations.replace reservation
      else store.meetingProcessingReservations.insert reservation }

def reserveMeetingRealtimeQuota (now : Timestamp) (newId : ReservationId) (userId : UserId)
    (input : ReserveRealtimeQuotaInput) : AuthStore → Except AuthError (RealtimeQuotaClaim × AuthStore) :=
  withLocalQuotaMutation fun store => do
    let user ← findLocalQuotaUser store userId
    let current := findReservationByKey store userId input.operationKey
    assertLocalReservationMeeting current input.meetingId
    assertLocalReservationProcessingMode current input.processingRoute
    if current.any (·.status == .finalized) then .error meetingProcessingFinalizedRealtime
    else
      let highestSequence := (current.map (·.realtimeHighestSequence)).getD 0
      let expectedSequence := if current.isSome then highestSequence + 1 else input.sequence
      let duplicate := current.isSome && decide (input.sequence ≤ highestSequence)
      if !duplicate && input.sequence != expectedSequence then
        .error (realtimeSequenceOutOfOrder expectedSequence)
      else
        let streamedMs := max 0 ((current.map (·.realtimeDurationMs)).getD 0)
        let realtimeDurationMs :=
          if duplicate then streamedMs else streamedMs + max 1 (mathRound input.durationMs)
        let processingRoute := (current.map (·.processingRoute)).getD input.processingRoute
        let requiredMinutes := realtimeRequiredMinutes realtimeDurationMs processingRoute
        let reservation := current.getD
          (createLocalProcessingReservation user newId input.meetingId input.operationKey
            input.processingRoute now)
        let officialMinutesReserved ←
          reserveLocalOfficialCapacity store user reservation requiredMinutes now
        let reservation := reactivateLocalReservation { reservation with
          officialMinutesReserved
          realtimeDurationMs
          realtimeHighestSequence :=
            if duplicate then reservation.realtimeHighestSequence else input.sequence } now
        .ok ({ reservation := toMeetingProcessingReservation reservation
               duplicate
               expectedSequence := if duplicate then expectedSequence else input.sequence + 1 },
          saveReservation store current reservation)

def reserveMeetingFinalizationQuota (now : Timestamp) (newId : ReservationId) (userId : UserId)
    (input : ReserveFinalizationQuotaInput) :
    AuthStore → Except AuthError (MeetingProcessingReservation × AuthStore) :=
  withLocalQuotaMutation fun store => do
    let user ← findLocalQuotaUser store userId
    let current := findReservationByKey store userId input.operationKey
    assertLocalReservationMeeting current input.meetingId
    assertLocalReservationProcessingMode current input.processingRoute
    let reservation := current.getD
      (createLocalProcessingReservation user newId input.meetingId input.operationKey
        input.processingRoute now)
    if current.any (·.status == .finalized) then
      .ok (toMeetingProcessingReservation reservation, store)
    else
      let processingRoute := (current.map (·.processingRoute)).getD input.processingRoute
      let usage := calculateMeetingUsage input.durationMs processingRoute
      let officialMinutesReserved ←
        reserveLocalOfficialCapacity store user reservation usage.officialMinutesCharged now
      let reservation := reactivateLocalReservation { reservation with
        processedMinutes := usage.processedMinutes
        officialMinutesReserved } now
      .ok (toMeetingProcessingReservation reservation, saveReservation store current reservation)

/-! ### Provider steps -/

def claimMeetingProviderStep (now : Timestamp) (newId : ProviderStepId) (claimToken : ClaimToken)
    (userId : UserId) (input : ClaimMeetingProviderStepInput) :
    AuthStore → Except AuthError (MeetingProviderStepClaimResult × AuthStore) :=
  withLocalQuotaMutation fun store => do
    let _ ← findLocalQuotaUser store userId
    match findReservationById store userId input.reservationId with
    | none => .error reservationMissing
    | some reservation => do
      let stageKey ← stageKeyOf input.stage
      let current := findStepByStage store reservation.id stageKey
      let leaseExpiresAt := now + normalizeProviderStepLeaseMs input.leaseMs
      let step : MeetingProviderStepRecord := current.getD
        { id := newId
          reservationId := reservation.id
          userId
          stageKey
          stageType := input.stage.type
          sequence := input.stage.sequence?
          claimTokenHash := ""
          leaseExpiresAt }
      if current.any (·.status == .completed) then
        .ok ({ outcome := .completed, step := toMeetingProviderStep step }, store)
      else if current.any (·.status == .started) then
        .ok ({ outcome := .uncertain, step := toMeetingProviderStep step }, store)
      else if current.any (fun s => s.status == .claimed && decide (now < s.leaseExpiresAt)) then
        .ok ({ outcome := .busy, step := toMeetingProviderStep step }, store)
      else do
        assertLocalReservationActive reservation now
        let step := { step with
          status := .claimed
          claimTokenHash := hashToken claimToken
          leaseExpiresAt
          startedAt := none
          completedAt := none
          releasedAt := none
          officialMinutesSettled := 0
          freeTrialMinutesSettled := 0
          settlementPeriodIdentity := none }
        let reservation := { reservation with
          releasedAt := none
          reservationExpiresAt := max reservation.reservationExpiresAt leaseExpiresAt }
        .ok ({ outcome := .claimed, step := toMeetingProviderStep step, claimToken := some claimToken },
          { store with
            meetingProcessingReservations := store.meetingProcessingReservations.replace reservation
            meetingProviderSteps :=
              if current.isSome then store.meetingProviderSteps.replace step
              else store.meetingProviderSteps.insert step })

def startMeetingProviderStep (now : Timestamp) (userId : UserId) (input : ProviderStepInput) :
    AuthStore → Except AuthError (MeetingProviderStepTransitionResult × AuthStore) :=
  withLocalQuotaMutation fun store => do
    let user ← findLocalQuotaUser store userId
    let step ← findLocalProviderStep store userId input.stepId
    if step.status = .completed then
      .ok ({ outcome := .completed, step := toMeetingProviderStep step }, store)
    else if step.status = .started then
      .ok ({ outcome := .uncertain, step := toMeetingProviderStep step }, store)
    else do
      assertLocalProviderStepClaim hashToken step input.claimToken now
      let reservation ← findActiveLocalReservation store userId step.reservationId now
      let user := normalizeLocalFreeTrialFields user
      let freeTrialMinutesBeforeStart := user.freeTrialMinutesUsed
      let settlementPeriodIdentity := localSettlementPeriodIdentity user
      let settledDelta ← settleLocalReservationCapacity store user reservation now
      let user := captureLocalFreeTrialUsage
        { user with officialMinutesUsed := user.officialMinutesUsed + settledDelta }
      let reservation := { reservation with
        officialMinutesSettled := reservation.officialMinutesSettled + settledDelta }
      let step := { step with
        status := .started
        officialMinutesSettled := settledDelta
        freeTrialMinutesSettled :=
          min settledDelta (max 0 (user.freeTrialMinutesUsed - freeTrialMinutesBeforeStart))
        settlementPeriodIdentity := some settlementPeriodIdentity
        startedAt := some now }
      .ok ({ outcome := .started, step := toMeetingProviderStep step },
        { store with
          users := store.users.replace user
          meetingProcessingReservations := store.meetingProcessingReservations.replace reservation
          meetingProviderSteps := store.meetingProviderSteps.replace step })

def completeMeetingProviderStep (now : Timestamp) (userId : UserId) (input : ProviderStepInput) :
    AuthStore → Except AuthError (MeetingProviderStepTransitionResult × AuthStore) :=
  withLocalQuotaMutation fun store => do
    let step ← findLocalProviderStep store userId input.stepId
    if step.status = .completed then
      .ok ({ outcome := .completed, step := toMeetingProviderStep step }, store)
    else if step.status ≠ .started ∨ !tokensMatch hashToken step.claimTokenHash input.claimToken then
      .ok ({ outcome := .uncertain, step := toMeetingProviderStep step }, store)
    else
      let step := { step with status := .completed, completedAt := some now }
      .ok ({ outcome := .completed, step := toMeetingProviderStep step },
        { store with meetingProviderSteps := store.meetingProviderSteps.replace step })

def reconcileMeetingProviderStep (now : Timestamp) (userId : UserId)
    (input : ReconcileMeetingProviderStepInput) :
    AuthStore → Except AuthError (MeetingProviderStepTransitionResult × AuthStore) :=
  withLocalQuotaMutation fun store => do
    match findReservationById store userId input.reservationId with
    | none => .error reservationMissing
    | some reservation => do
      let stageKey ← stageKeyOf input.stage
      match findStepByStage store reservation.id stageKey with
      | none => .error checkpointMismatch
      | some step =>
        if step.status ≠ .started ∧ step.status ≠ .completed then .error checkpointMismatch
        else if step.status = .started then
          let step := { step with status := .completed, completedAt := some now }
          .ok ({ outcome := .completed, step := toMeetingProviderStep step },
            { store with meetingProviderSteps := store.meetingProviderSteps.replace step })
        else .ok ({ outcome := .completed, step := toMeetingProviderStep step }, store)

def releaseMeetingProviderStep (now : Timestamp) (userId : UserId) (input : ProviderStepInput) :
    AuthStore → Except AuthError (MeetingProviderStepTransitionResult × AuthStore) :=
  withLocalQuotaMutation fun store => do
    let _ ← findLocalQuotaUser store userId
    let step ← findLocalProviderStep store userId input.stepId
    if step.status = .completed then
      .ok ({ outcome := .completed, step := toMeetingProviderStep step }, store)
    else if step.status = .started then
      .ok ({ outcome := .uncertain, step := toMeetingProviderStep step }, store)
    else if step.status = .released then
      .ok ({ outcome := .released, step := toMeetingProviderStep step }, store)
    else if !tokensMatch hashToken step.claimTokenHash input.claimToken then
      .error providerStepClaimMismatch
    else
      let step := { step with status := .released, releasedAt := some now }
      .ok ({ outcome := .released, step := toMeetingProviderStep step },
        { store with meetingProviderSteps := store.meetingProviderSteps.replace step })

/-- The started step of a deleted account gives its minutes back to the reservation only. -/
def rejectForDeletedAccount (now : Timestamp) (userId : UserId) (store : AuthStore)
    (step : MeetingProviderStepRecord) : MeetingProviderStepRecord × AuthStore :=
  let reservations :=
    match findReservationById store userId step.reservationId with
    | some reservation =>
      if step.status = .started then
        store.meetingProcessingReservations.replace { reservation with
          officialMinutesSettled :=
            max 0 (reservation.officialMinutesSettled - max 0 step.officialMinutesSettled) }
      else store.meetingProcessingReservations
    | none => store.meetingProcessingReservations
  let step := { step with
    status := .released
    officialMinutesSettled := 0
    freeTrialMinutesSettled := 0
    releasedAt := some now }
  (step, { store with
    meetingProcessingReservations := reservations
    meetingProviderSteps := store.meetingProviderSteps.replace step })

/-- Give the minutes of a started step back: to the account only while it is still in the period it
was charged in, to the reservation and the free trial always. -/
def refundLocalStep (userId : UserId) (store : AuthStore) (user : UserRecord)
    (step : MeetingProviderStepRecord) : Except AuthError AuthStore :=
  match findReservationById store userId step.reservationId with
  | none => .error refundConflictFinalized
  | some reservation =>
    if reservation.status = .finalized then .error refundConflictFinalized
    else
      let settledDelta := max 0 step.officialMinutesSettled
      if reservation.officialMinutesSettled < settledDelta then .error refundConflictSettled
      else
        let currentPeriodMatches :=
          step.settlementPeriodIdentity = some (localSettlementPeriodIdentity user)
        if currentPeriodMatches ∧ user.officialMinutesUsed < settledDelta then
          .error refundConflictUsed
        else
          let user :=
            if currentPeriodMatches then
              { user with officialMinutesUsed := user.officialMinutesUsed - settledDelta }
            else user
          let reservation := { reservation with
            officialMinutesSettled := reservation.officialMinutesSettled - settledDelta }
          let user := normalizeLocalFreeTrialFields user
          let user := { user with
            freeTrialMinutesUsed :=
              max 0 (user.freeTrialMinutesUsed - max 0 step.freeTrialMinutesSettled) }
          .ok { store with
            users := store.users.replace user
            meetingProcessingReservations :=
              store.meetingProcessingReservations.replace reservation }

def rejectMeetingProviderStep (now : Timestamp) (userId : UserId) (input : ProviderStepInput) :
    AuthStore → Except AuthError (MeetingProviderStepTransitionResult × AuthStore) :=
  withLocalQuotaMutation fun store => do
    match store.users.get? userId with
    | none => .error accountUnknown
    | some user => do
      let step ← findLocalProviderStep store userId input.stepId
      if !tokensMatch hashToken step.claimTokenHash input.claimToken then
        .error providerStepClaimMismatch
      else if step.status = .completed then
        .ok ({ outcome := .completed, step := toMeetingProviderStep step }, store)
      else if step.status = .released then
        .ok ({ outcome := .released, step := toMeetingProviderStep step }, store)
      else if user.deletedAt.isSome then
        let (step, store) := rejectForDeletedAccount now userId store step
        .ok ({ outcome := .released, step := toMeetingProviderStep step }, store)
      else do
        let refunded ←
          if step.status = .started then refundLocalStep userId store user step else .ok store
        let step := { step with
          status := .released
          officialMinutesSettled := if step.status = .started then 0 else step.officialMinutesSettled
          releasedAt := some now }
        .ok ({ outcome := .released, step := toMeetingProviderStep step },
          { refunded with meetingProviderSteps := refunded.meetingProviderSteps.replace step })

/-! ### Closing a reservation -/

def releaseMeetingProcessingReservation (now : Timestamp) (userId : UserId)
    (reservationId : ReservationId) :
    AuthStore → Except AuthError (MeetingProcessingReservation × AuthStore) :=
  withLocalQuotaMutation fun store => do
    let _ ← findLocalQuotaUser store userId
    match findReservationById store userId reservationId with
    | none => .error reservationMissing
    | some reservation =>
      if reservation.status = .finalized then
        .ok (toMeetingProcessingReservation reservation, store)
      else if store.meetingProviderSteps.rows.any
          (fun s => s.reservationId == reservation.id && s.status == .started) then
        .error providerStepUncertain
      else
        let reservation := { reservation with
          releasedAt := some now
          reservationExpiresAt := now }
        .ok (toMeetingProcessingReservation reservation,
          { store with
            meetingProviderSteps :=
              releaseClaimedSteps now reservation.id store.meetingProviderSteps
            meetingProcessingReservations :=
              store.meetingProcessingReservations.replace reservation })

/-- A finalization of this meeting, or with this reservation, is already recorded. -/
def finalizeUsageRecorded (store : AuthStore) (userId : UserId)
    (input : RecordMeetingFinalizeUsageInput) : Bool :=
  store.usageEvents.any fun event =>
    event.userId == userId && event.type == .meetingFinalize &&
      ((input.reservationId.isSome && event.processingReservationId == input.reservationId) ||
        (textIncludes event.note ("meeting:" ++ input.meetingId) &&
          (textIncludes event.note ("result:" ++ input.resultGeneratedAt) ||
            (!input.isReprocess && !textIncludes event.note "result:"))))

def findRecordedReservation (store : AuthStore) (userId : UserId)
    (input : RecordMeetingFinalizeUsageInput) : Option MeetingProcessingReservationRecord :=
  match input.reservationId, input.reservationOperationKey with
  | some reservationId, _ => findReservationById store userId reservationId
  | none, some operationKey => findReservationByKey store userId operationKey
  | none, none => none

/-- The mutation of `recordMeetingFinalizeUsage`. Minutes are charged only without a reservation; a
reservation was settled when its provider steps started. -/
def recordFinalizeUsage (now : Timestamp) (newId : UsageEventId) (userId : UserId)
    (input : RecordMeetingFinalizeUsageInput) (store : AuthStore) :
    Except AuthError (Unit × AuthStore) := do
  let user ← findLocalQuotaUser store userId
  if finalizeUsageRecorded store userId input then .ok ((), store)
  else
    let calculatedUsage := calculateMeetingUsage input.durationMs input.route
    let event (charged : ℤ) (reservationId : Option ReservationId) : UsageEventRecord :=
      { id := newId
        userId
        type := .meetingFinalize
        minutes := charged
        note := buildMeetingUsageNote input.meetingId input.resultGeneratedAt input.route
          { processedMinutes := calculatedUsage.processedMinutes, officialMinutesCharged := charged }
        processingReservationId := reservationId }
    match findRecordedReservation store userId input with
    | none =>
      if input.reservationId.isSome then .error reservationNotOwned
      else do
        let charged ← settleLocalLegacyUsage store user calculatedUsage.officialMinutesCharged now
        let user := captureLocalFreeTrialUsage
          { user with officialMinutesUsed := user.officialMinutesUsed + charged }
        .ok ((), { store with
          users := store.users.replace user
          usageEvents := store.usageEvents ++ [event charged none] })
    | some reservation =>
      if reservation.meetingId ≠ input.meetingId then .error reservationNotOwned
      else
        let requiredSettlement :=
          if input.nonBillable then 0 else calculatedUsage.officialMinutesCharged
        if reservation.officialMinutesSettled < requiredSettlement then .error quotaNotSettled
        else
          let finalized := { reservation with
            processingRoute := input.route
            processedMinutes := calculatedUsage.processedMinutes
            status := .finalized
            releasedAt := none
            resultGeneratedAt := some input.resultGeneratedAt
            finalizedAt := some now }
          .ok ((), { store with
            users := store.users.replace (captureLocalFreeTrialUsage user)
            meetingProcessingReservations :=
              store.meetingProcessingReservations.replace finalized
            usageEvents := store.usageEvents ++
              [event reservation.officialMinutesSettled (some reservation.id)] })

def recordMeetingFinalizeUsage (now : Timestamp) (newId : UsageEventId) (userId : UserId)
    (input : RecordMeetingFinalizeUsageInput) (store : AuthStore) :
    Except AuthError (UserUsageSummary × AuthStore) := do
  let ((), store) ← withLocalQuotaMutation (recordFinalizeUsage now newId userId input) store
  getUserUsage now userId store

end OwnMinutes.Local.Quota
