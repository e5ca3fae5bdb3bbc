import OwnMinutes.Postgres.Store

/-! # The quota operations of the PostgreSQL backend

`postgresReserveMeetingRealtimeQuota` to `postgresRecordMeetingFinalizeUsage` of
`auth-repository.ts`, each one transaction. A statement is written as its effect on the tables;
`returning *` is the row it wrote. -/

namespace OwnMinutes.Postgres.Quota

open OwnMinutes.Lib.Keyed OwnMinutes.Lib.Outcome OwnMinutes.Auth.ProcessingRoute
open OwnMinutes.Auth.Records OwnMinutes.Auth.Errors OwnMinutes.Auth.QuotaTypes
open OwnMinutes.Postgres.Store

variable (hashPostgresClaimToken : ClaimToken → TokenHash)

/-! ### Selecting rows -/

def findPostgresProcessingReservation (t : Tables) (userId : UserId) (operationKey : String) :
    Option MeetingProcessingReservationRecord :=
  t.meetingProcessingReservations.find? fun r => r.userId == userId && r.operationKey == operationKey

def selectReservationById (t : Tables) (userId : UserId) (reservationId : ReservationId) :
    Option MeetingProcessingReservationRecord :=
  t.meetingProcessingReservations.find? fun r => r.id == reservationId && r.userId == userId

def findPostgresReservationById (t : Tables) (userId : UserId) (reservationId : ReservationId) :
    Except AuthError MeetingProcessingReservationRecord :=
  match selectReservationById t userId reservationId with
  | none => .error reservationMissing
  | some reservation => .ok reservation

def selectStepByStage (t : Tables) (reservationId : ReservationId) (stageKey : String) :
    Option MeetingProviderStepRecord :=
  t.meetingProcessingProviderSteps.find? fun s =>
    s.reservationId == reservationId && s.stageKey == stageKey

def findPostgresProviderStep (t : Tables) (userId : UserId) (stepId : ProviderStepId) :
    Except AuthError MeetingProviderStepRecord :=
  match t.meetingProcessingProviderSteps.find? fun s => s.id == stepId && s.userId == userId with
  | none => .error providerStepMissing
  | some step => .ok step

def assertPostgresReservationMeeting (reservation : Option MeetingProcessingReservationRecord)
    (meetingId : MeetingId) : Except AuthError Unit :=
  if reservation.any (·.meetingId != meetingId) then .error reservationMeetingMismatch else .ok ()

def assertPostgresReservationProcessingMode
    (reservation : Option MeetingProcessingReservationRecord)
    (requestedRoute : MeetingProcessingRoute) : Except AuthError Unit :=
  if reservation.any (·.processingRoute != requestedRoute) then .error processingModeConflict
  else .ok ()

def assertPostgresReservationActive (reservation : MeetingProcessingReservationRecord)
    (now : Timestamp) : Except AuthError Unit :=
  if reservation.status = .finalized then .error meetingProcessingFinalized
  else if reservation.releasedAt.isSome ∨ reservation.reservationExpiresAt ≤ now then
    .error reservationExpired
  else .ok ()

def assertPostgresProviderClaim (step : MeetingProviderStepRecord) (claimToken : ClaimToken)
    (now : Timestamp) : Except AuthError Unit :=
  if step.status ≠ .claimed then .error providerStepNotClaimed
  else if hashPostgresClaimToken claimToken ≠ step.claimTokenHash then
    .error providerStepClaimMismatch
  else if step.leaseExpiresAt ≤ now then .error providerStepClaimExpired
  else .ok ()

/-! ### Capacity -/

def postgresPendingCapacity (t : Tables) (userId : UserId) (now : Timestamp)
    (excludeReservationId : Option ReservationId := none) : ℤ :=
  t.meetingProcessingReservations.sum fun r =>
    if r.userId = userId ∧ r.status = .reserved ∧ r.releasedAt = none ∧
        now < r.reservationExpiresAt ∧ some r.id ≠ excludeReservationId then
      max (r.officialMinutesReserved - r.officialMinutesSettled) 0
    else 0

def reservePostgresOfficialCapacity (t : Tables) (user : UserRecord)
    (reservation : Option MeetingProcessingReservationRecord) (targetMinutes : ℤ)
    (now : Timestamp) : Except AuthError ℤ :=
  let target := max ((reservation.map (·.officialMinutesReserved)).getD 0) (max 0 targetMinutes)
  let settled := (reservation.map (·.officialMinutesSettled)).getD 0
  let pendingTarget := max 0 (target - settled)
  let otherPending := postgresPendingCapacity t user.id now (reservation.map (·.id))
  let available := max 0 (user.officialMinutesTotal - user.officialMinutesUsed - otherPending)
  if pendingTarget > available then .error (quotaInsufficientToReserve target available)
  else .ok target

/-- The tables and the row the caller holds, with `minutes` more used; on the free plan the trial
counter grows with them. -/
def incrementPostgresOfficialMinutes (t : Tables) (user : UserRecord) (minutes : ℤ) :
    Tables × UserRecord :=
  if minutes ≤ 0 then (t, user)
  else
    let increment (row : UserRecord) : UserRecord :=
      { row with
        officialMinutesUsed := row.officialMinutesUsed + minutes
        freeTrialMinutesUsed :=
          if row.plan = .free then min row.freeTrialMinutesTotal (row.freeTrialMinutesUsed + minutes)
          else row.freeTrialMinutesUsed }
    (t.updateUser user.id increment (·.active), increment user)

def settlePostgresReservationCapacity (t : Tables) (user : UserRecord)
    (reservation : MeetingProcessingReservationRecord) (now : Timestamp) :
    Except AuthError (ℤ × UserRecord × Tables) :=
  let delta := max 0 (reservation.officialMinutesReserved - reservation.officialMinutesSettled)
  let otherPending := postgresPendingCapacity t user.id now (some reservation.id)
  let available := max 0 (user.officialMinutesTotal - user.officialMinutesUsed - otherPending)
  if delta > available then .error (quotaInsufficientToSettle delta available)
  else if delta > 0 then
    let (t, user) := incrementPostgresOfficialMinutes t user delta
    .ok (delta, user, t.updateReservation reservation.id fun r =>
      { r with officialMinutesSettled := r.officialMinutesSettled + delta })
  else .ok (delta, user, t)

def settlePostgresLegacyUsage (t : Tables) (user : UserRecord) (targetMinutes : ℤ)
    (now : Timestamp) : Except AuthError (ℤ × Tables) :=
  let target := max 0 targetMinutes
  let pending := postgresPendingCapacity t user.id now
  let available := max 0 (user.officialMinutesTotal - user.officialMinutesUsed - pending)
  if target > available then .error (quotaInsufficientToRecord target available)
  else .ok (target, (incrementPostgresOfficialMinutes t user target).1)

/-! ### Reserving -/

/-- `insert into meeting_processing_reservations … on conflict (user_id, operation_key) do update`. -/
def upsertReservation (t : Tables) (row : MeetingProcessingReservationRecord)
    (onConflict : MeetingProcessingReservationRecord → MeetingProcessingReservationRecord) :
    MeetingProcessingReservationRecord × Tables :=
  match findPostgresProcessingReservation t row.userId row.operationKey with
  | some existing =>
    (onConflict existing,
      { t with
        meetingProcessingReservations :=
          t.meetingProcessingReservations.replace (onConflict existing) })
  | none =>
    (row, { t with meetingProcessingReservations := t.meetingProcessingReservations.insert row })

def postgresReserveMeetingRealtimeQuota (now : Timestamp) (newId : ReservationId) (userId : UserId)
    (input : ReserveRealtimeQuotaInput) :
    Database → Except AuthError (RealtimeQuotaClaim × Database) :=
  postgresTransaction fun t => do
    let user ← lockPostgresQuotaUser t userId
    let existing := findPostgresProcessingReservation t userId input.operationKey
    assertPostgresReservationMeeting existing input.meetingId
    assertPostgresReservationProcessingMode existing input.processingRoute
    if existing.any (·.status == .finalized) then .error meetingProcessingFinalizedRealtime
    else
      let highestSequence := (existing.map (·.realtimeHighestSequence)).getD 0
      let expectedSequence := if existing.isSome then highestSequence + 1 else input.sequence
      let duplicate := existing.isSome && decide (input.sequence ≤ highestSequence)
      if !duplicate && input.sequence != expectedSequence then
        .error (realtimeSequenceOutOfOrder expectedSequence)
      else
        let streamedMs := max 0 ((existing.map (·.realtimeDurationMs)).getD 0)
        let realtimeDurationMs :=
          if duplicate then streamedMs else streamedMs + max 1 (mathRound input.durationMs)
        let processingRoute := (existing.map (·.processingRoute)).getD input.processingRoute
        let requiredMinutes := realtimeRequiredMinutes realtimeDurationMs processingRoute
        let officialMinutesReserved ←
          reservePostgresOfficialCapacity t user existing requiredMinutes now
        let reservationExpiresAt := now + DEFAULT_MEETING_RESERVATION_LEASE_MS
        let (saved, t) := upsertReservation t
          { id := newId
            userId
            meetingId := input.meetingId
            operationKey := input.operationKey
            processingRoute := input.processingRoute
            officialMinutesReserved
            realtimeDurationMs
            realtimeHighestSequence := if duplicate then highestSequence else input.sequence
            reservationExpiresAt
            quotaPeriodSource := user.officialMinutesPeriodSource
            quotaPeriodStartAt := user.officialMinutesPeriodStartAt
            quotaBillingOrderId := user.officialMinutesBillingOrderId }
          fun row => { row with
            officialMinutesReserved
            realtimeDurationMs
            realtimeHighestSequence := if duplicate then highestSequence else input.sequence
            reservationExpiresAt
            releasedAt := none }
        .ok ({ reservation := toMeetingProcessingReservation saved
               duplicate
               expectedSequence := if duplicate then expectedSequence else input.sequence + 1 }, t)

def postgresReserveMeetingFinalizationQuota (now : Timestamp) (newId : ReservationId)
    (userId : UserId) (input : ReserveFinalizationQuotaInput) :
    Database → Except AuthError (MeetingProcessingReservation × Database) :=
  postgresTransaction fun t => do
    let user ← lockPostgresQuotaUser t userId
    let existing := findPostgresProcessingReservation t userId input.operationKey
    assertPostgresReservationMeeting existing input.meetingId
    assertPostgresReservationProcessingMode existing input.processingRoute
    match existing.filter (·.status == .finalized) with
    | some existing => .ok (toMeetingProcessingReservation existing, t)
    | none => do
      let processingRoute := (existing.map (·.processingRoute)).getD input.processingRoute
      let usage := calculateMeetingUsage input.durationMs processingRoute
      let officialMinutesReserved ←
        reservePostgresOfficialCapacity t user existing usage.officialMinutesCharged now
      let reservationExpiresAt := now + DEFAULT_MEETING_RESERVATION_LEASE_MS
      let (saved, t) := upsertReservation t
        { id := newId
          userId
          meetingId := input.meetingId
          operationKey := input.operationKey
          processingRoute := input.processingRoute
          processedMinutes := usage.processedMinutes
          officialMinutesReserved
          reservationExpiresAt
          quotaPeriodSource := user.officialMinutesPeriodSource
          quotaPeriodStartAt := user.officialMinutesPeriodStartAt
          quotaBillingOrderId := user.officialMinutesBillingOrderId }
        fun row => { row with
          processedMinutes := usage.processedMinutes
          officialMinutesReserved
          reservationExpiresAt
          releasedAt := none }
      .ok (toMeetingProcessingReservation saved, t)

/-! ### Provider steps -/

/-- `insert into meeting_processing_provider_steps … on conflict (reservation_id, stage_key)`. -/
def upsertStep (t : Tables) (row : MeetingProviderStepRecord)
    (onConflict : MeetingProviderStepRecord → MeetingProviderStepRecord) :
    MeetingProviderStepRecord × Tables :=
  match selectStepByStage t row.reservationId row.stageKey with
  | some existing => (onConflict existing, t.putStep (onConflict existing))
  | none =>
    (row, { t with meetingProcessingProviderSteps := t.meetingProcessingProviderSteps.insert row })

def postgresClaimMeetingProviderStep (now : Timestamp) (newId : ProviderStepId)
    (claimToken : ClaimToken) (userId : UserId) (input : ClaimMeetingProviderStepInput) :
    Database → Except AuthError (MeetingProviderStepClaimResult × Database) :=
  postgresTransaction fun t => do
    let _ ← lockPostgresQuotaUser t userId
    let reservation ← findPostgresReservationById t userId input.reservationId
    let stageKey ← stageKeyOf input.stage
    let claim : Except AuthError (MeetingProviderStepClaimResult × Tables) := do
      assertPostgresReservationActive reservation now
      let leaseExpiresAt := now + normalizeProviderStepLeaseMs input.leaseMs
      let (saved, t) := upsertStep t
        { id := newId
          reservationId := reservation.id
          userId
          stageKey
          stageType := input.stage.type
          sequence := input.stage.sequence?
          claimTokenHash := hashPostgresClaimToken claimToken
          leaseExpiresAt }
        fun row => { row with
          status := .claimed
          claimTokenHash := hashPostgresClaimToken claimToken
          leaseExpiresAt
          startedAt := none
          completedAt := none
          releasedAt := none
          officialMinutesSettled := 0
          freeTrialMinutesSettled := 0
          settlementPeriodIdentity := none }
      let t := t.updateReservation reservation.id fun r =>
        { r with
          reservationExpiresAt := max r.reservationExpiresAt leaseExpiresAt
          releasedAt := none }
      .ok ({ outcome := .claimed, step := toMeetingProviderStep saved, claimToken := some claimToken },
        t)
    match selectStepByStage t reservation.id stageKey with
    | none => claim
    | some current =>
      if current.status = .completed then
        .ok ({ outcome := .completed, step := toMeetingProviderStep current }, t)
      else if current.status = .started then
        .ok ({ outcome := .uncertain, step := toMeetingProviderStep current }, t)
      else if current.status = .claimed ∧ now < current.leaseExpiresAt then
        .ok ({ outcome := .busy, step := toMeetingProviderStep current }, t)
      else claim

def postgresStartMeetingProviderStep (now : Timestamp) (userId : UserId)
    (input : ProviderStepInput) :
    Database → Except AuthError (MeetingProviderStepTransitionResult × Database) :=
  postgresTransaction fun t => do
    let user ← lockPostgresQuotaUser t userId
    let step ← findPostgresProviderStep t userId input.stepId
    if step.status = .completed then
      .ok ({ outcome := .completed, step := toMeetingProviderStep step }, t)
    else if step.status = .started then
      .ok ({ outcome := .uncertain, step := toMeetingProviderStep step }, t)
    else do
      assertPostgresProviderClaim hashPostgresClaimToken step input.claimToken now
      let reservation ← findPostgresReservationById t userId step.reservationId
      assertPostgresReservationActive reservation now
      let freeTrialMinutesBeforeStart := user.freeTrialMinutesUsed
      let settlementPeriodIdentity := postgresSettlementPeriodIdentity user
      let (settledDelta, user, t) ← settlePostgresReservationCapacity t user reservation now
      let saved := { step with
        status := .started
        officialMinutesSettled := settledDelta
        freeTrialMinutesSettled :=
          min settledDelta (max 0 (user.freeTrialMinutesUsed - freeTrialMinutesBeforeStart))
        settlementPeriodIdentity := some settlementPeriodIdentity
        startedAt := some now }
      .ok ({ outcome := .started, step := toMeetingProviderStep saved }, t.putStep saved)

def postgresCompleteMeetingProviderStep (now : Timestamp) (userId : UserId)
    (input : ProviderStepInput) :
    Database → Except AuthError (MeetingProviderStepTransitionResult × Database) :=
  postgresTransaction fun t => do
    let _ ← lockPostgresQuotaUserIncludingDeleted t userId
    let step ← findPostgresProviderStep t userId input.stepId
    if step.status = .completed then
      .ok ({ outcome := .completed, step := toMeetingProviderStep step }, t)
    else if step.status ≠ .started ∨
        hashPostgresClaimToken input.claimToken ≠ step.claimTokenHash then
      .ok ({ outcome := .uncertain, step := toMeetingProviderStep step }, t)
    else
      let saved := { step with status := .completed, completedAt := some now }
      .ok ({ outcome := .completed, step := toMeetingProviderStep saved }, t.putStep saved)

def postgresReconcileMeetingProviderStep (now : Timestamp) (userId : UserId)
    (input : ReconcileMeetingProviderStepInput) :
    Database → Except AuthError (MeetingProviderStepTransitionResult × Database) :=
  postgresTransaction fun t => do
    let _ ← lockPostgresQuotaUserIncludingDeleted t userId
    let reservation ← findPostgresReservationById t userId input.reservationId
    let stageKey ← stageKeyOf input.stage
    match selectStepByStage t reservation.id stageKey with
    | none => .error checkpointMismatch
    | some step =>
      if step.status ≠ .started ∧ step.status ≠ .completed then .error checkpointMismatch
      else if step.status = .completed then
        .ok ({ outcome := .completed, step := toMeetingProviderStep step }, t)
      else
        let saved := { step with status := .completed, completedAt := some now }
        .ok ({ outcome := .completed, step := toMeetingProviderStep saved }, t.putStep saved)

def postgresReleaseMeetingProviderStep (now : Timestamp) (userId : UserId)
    (input : ProviderStepInput) :
    Database → Except AuthError (MeetingProviderStepTransitionResult × Database) :=
  postgresTransaction fun t => do
    let _ ← lockPostgresQuotaUser t userId
    let step ← findPostgresProviderStep t userId input.stepId
    if step.status = .completed then
      .ok ({ outcome := .completed, step := toMeetingProviderStep step }, t)
    else if step.status = .started then
      .ok ({ outcome := .uncertain, step := toMeetingProviderStep step }, t)
    else if step.status = .released then
      .ok ({ outcome := .released, step := toMeetingProviderStep step }, t)
    else if hashPostgresClaimToken input.claimToken ≠ step.claimTokenHash then
      .error providerStepClaimMismatch
    else
      let saved := { step with status := .released, releasedAt := some now }
      .ok ({ outcome := .released, step := toMeetingProviderStep saved }, t.putStep saved)

/-- The two updates that give the minutes of a started step back. -/
def refundPostgresStep (userId : UserId) (t : Tables) (user : UserRecord)
    (step : MeetingProviderStepRecord) : Except AuthError Tables := do
  let reservation ← findPostgresReservationById t userId step.reservationId
  if reservation.status = .finalized then .error refundConflictFinalized
  else
    let settledDelta := max 0 step.officialMinutesSettled
    if reservation.officialMinutesSettled < settledDelta then .error refundConflictSettled
    else
      let currentPeriodMatches : Bool :=
        step.settlementPeriodIdentity == some (postgresSettlementPeriodIdentity user)
      if currentPeriodMatches ∧ user.officialMinutesUsed < settledDelta then
        .error refundConflictUsed
      else
        let freeTrialMinutesSettled := max 0 step.freeTrialMinutesSettled
        let t := t.updateUser userId (fun row => { row with
          officialMinutesUsed :=
            if currentPeriodMatches then row.officialMinutesUsed - settledDelta
            else row.officialMinutesUsed
          freeTrialMinutesUsed := max (row.freeTrialMinutesUsed - freeTrialMinutesSettled) 0 })
          (·.active)
        .ok (t.updateReservation reservation.id fun r =>
          { r with officialMinutesSettled := r.officialMinutesSettled - settledDelta })

def postgresRejectMeetingProviderStep (now : Timestamp) (userId : UserId)
    (input : ProviderStepInput) :
    Database → Except AuthError (MeetingProviderStepTransitionResult × Database) :=
  postgresTransaction fun t => do
    let user ← lockPostgresQuotaUserIncludingDeleted t userId
    let step ← findPostgresProviderStep t userId input.stepId
    if hashPostgresClaimToken input.claimToken ≠ step.claimTokenHash then
      .error providerStepClaimMismatch
    else if step.status = .completed then
      .ok ({ outcome := .completed, step := toMeetingProviderStep step }, t)
    else if step.status = .released then
      .ok ({ outcome := .released, step := toMeetingProviderStep step }, t)
    else if user.deletedAt.isSome then
      let t := if step.status = .started then
          t.updateReservation step.reservationId fun r => { r with
            officialMinutesSettled :=
              max (r.officialMinutesSettled - max 0 step.officialMinutesSettled) 0 }
        else t
      let saved := { step with
        status := .released
        officialMinutesSettled := 0
        freeTrialMinutesSettled := 0
        releasedAt := some now }
      .ok ({ outcome := .released, step := toMeetingProviderStep saved }, t.putStep saved)
    else do
      let t ← if step.status = .started then refundPostgresStep userId t user step else .ok t
      let saved := { step with
        status := .released
        officialMinutesSettled := 0
        releasedAt := some now }
      .ok ({ outcome := .released, step := toMeetingProviderStep saved }, t.putStep saved)

/-! ### Closing a reservation -/

def postgresReleaseMeetingProcessingReservation (now : Timestamp) (userId : UserId)
    (reservationId : ReservationId) :
    Database → Except AuthError (MeetingProcessingReservation × Database) :=
  postgresTransaction fun t => do
    let _ ← lockPostgresQuotaUser t userId
    let reservation ← findPostgresReservationById t userId reservationId
    if reservation.status = .finalized then .ok (toMeetingProcessingReservation reservation, t)
    else if t.meetingProcessingProviderSteps.rows.any
        (fun s => s.reservationId == reservation.id && s.status == .started) then
      .error providerStepUncertain
    else
      let saved := { reservation with releasedAt := some now, reservationExpiresAt := now }
      .ok (toMeetingProcessingReservation saved,
        { t with
          meetingProcessingProviderSteps :=
            releaseClaimedSteps now reservation.id t.meetingProcessingProviderSteps
          meetingProcessingReservations := t.meetingProcessingReservations.replace saved })

/-- `text like pattern`: `%` stands for any text, `_` for any character, a backslash quotes. -/
def like : List Char → List Char → Bool
  | [], text => text.isEmpty
  | '%' :: pattern, text => text.tails.any (like pattern)
  | '_' :: pattern, text => match text with
    | [] => false
    | _ :: text => like pattern text
  | '\\' :: c :: pattern, text => match text with
    | [] => false
    | d :: text => c == d && like pattern text
  | c :: pattern, text => match text with
    | [] => false
    | d :: text => c == d && like pattern text

/-- `note like '%meeting:…%'`. -/
def noteLike (note meetingId : String) : Bool :=
  like ('%' :: ("meeting:" ++ meetingId).toList ++ ['%']) note.toList

/-- The events selected for this meeting or this reservation record the finalization already. -/
def finalizeUsageRecorded (t : Tables) (userId : UserId) (input : RecordMeetingFinalizeUsageInput) :
    Bool :=
  let existingEvents := t.usageEvents.filter fun event =>
    event.userId == userId && event.type == .meetingFinalize &&
      ((input.reservationId.isSome && event.processingReservationId == input.reservationId) ||
        noteLike event.note input.meetingId)
  existingEvents.any fun event =>
    (input.reservationId.isSome && event.processingReservationId == input.reservationId) ||
      textIncludes event.note ("result:" ++ input.resultGeneratedAt) ||
      (!input.isReprocess && !textIncludes event.note "result:")

def selectRecordedReservation (t : Tables) (userId : UserId)
    (input : RecordMeetingFinalizeUsageInput) : Option MeetingProcessingReservationRecord :=
  match input.reservationId, input.reservationOperationKey with
  | some reservationId, _ => selectReservationById t userId reservationId
  | none, some operationKey => findPostgresProcessingReservation t userId operationKey
  | none, none => none

/-- The transaction of `postgresRecordMeetingFinalizeUsage`. -/
def recordFinalizeUsage (now : Timestamp) (newId : UsageEventId) (userId : UserId)
    (input : RecordMeetingFinalizeUsageInput) : Database → Except AuthError (Unit × Database) :=
  postgresTransaction fun t => do
    let user ← lockPostgresQuotaUser t userId
    if finalizeUsageRecorded t userId input then .ok ((), t)
    else
      let calculatedUsage := calculateMeetingUsage input.durationMs input.route
      let event (charged : ℤ) (reservationId : Option ReservationId) : UsageEventRecord :=
        { id := newId
          userId
          type := .meetingFinalize
          minutes := charged
          note := buildMeetingUsageNote input.meetingId input.resultGeneratedAt input.route
            { processedMinutes := calculatedUsage.processedMinutes
              officialMinutesCharged := charged }
          processingReservationId := reservationId }
      match selectRecordedReservation t userId input with
      | none =>
        if input.reservationId.isSome then .error reservationNotOwned
        else do
          let (charged, t) ←
            settlePostgresLegacyUsage t user calculatedUsage.officialMinutesCharged now
          .ok ((), { t with usageEvents := t.usageEvents ++ [event charged none] })
      | some reservation =>
        if reservation.meetingId ≠ input.meetingId then .error reservationNotOwned
        else
          let requiredSettlement :=
            if input.nonBillable then 0 else calculatedUsage.officialMinutesCharged
          if reservation.officialMinutesSettled < requiredSettlement then .error quotaNotSettled
          else
            let finalized := { reservation with
              processingRoute := input.route
              processedMinutes := calculatedUsage.processedMinutes
              status := .finalized
              releasedAt := none
              resultGeneratedAt := some input.resultGeneratedAt
              finalizedAt := some now }
            .ok ((), { t with
              meetingProcessingReservations := t.meetingProcessingReservations.replace finalized
              usageEvents := t.usageEvents ++
                [event reservation.officialMinutesSettled (some reservation.id)] })

def postgresRecordMeetingFinalizeUsage (now : Timestamp) (newId : UsageEventId) (userId : UserId)
    (input : RecordMeetingFinalizeUsageInput) (db : Database) :
    Except AuthError (UserUsageSummary × Database) := do
  let ((), db) ← recordFinalizeUsage now newId userId input db
  postgresGetUserUsage now userId db

end OwnMinutes.Postgres.Quota
