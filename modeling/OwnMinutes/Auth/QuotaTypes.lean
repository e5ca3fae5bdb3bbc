import Mathlib.Data.List.Infix
import OwnMinutes.Auth.Errors

/-! # Inputs and results of the quota operations

What the routes pass to the quota operations of either backend, and what they get back. -/

namespace OwnMinutes.Auth.QuotaTypes

open OwnMinutes.Lib.Keyed OwnMinutes.Auth.ProcessingRoute OwnMinutes.Auth.Records
open OwnMinutes.Auth.Errors

/-! ### Inputs -/

structure ReserveRealtimeQuotaInput where
  durationMs : ℚ
  meetingId : MeetingId
  operationKey : String
  processingRoute : MeetingProcessingRoute
  sequence : ℤ
  deriving DecidableEq, Repr

structure ReserveFinalizationQuotaInput where
  durationMs : ℚ
  meetingId : MeetingId
  operationKey : String
  processingRoute : MeetingProcessingRoute
  deriving DecidableEq, Repr

structure ClaimMeetingProviderStepInput where
  reservationId : ReservationId
  stage : MeetingProviderStage
  leaseMs : Option ℚ := none
  deriving DecidableEq, Repr

/-- The input of start, complete, release and reject. -/
structure ProviderStepInput where
  claimToken : ClaimToken
  stepId : ProviderStepId
  deriving DecidableEq, Repr

structure ReconcileMeetingProviderStepInput where
  reservationId : ReservationId
  stage : MeetingProviderStage
  deriving DecidableEq, Repr

structure RecordMeetingFinalizeUsageInput where
  meetingId : MeetingId
  durationMs : ℚ
  route : MeetingProcessingRoute
  resultGeneratedAt : String
  isReprocess : Bool := false
  nonBillable : Bool := false
  reservationId : Option ReservationId := none
  reservationOperationKey : Option String := none
  deriving DecidableEq, Repr

/-- The key of a stage, or the error `meetingProviderStageKey` throws for it. -/
def stageKeyOf (stage : MeetingProviderStage) : Except AuthError String :=
  match meetingProviderStageKey stage with
  | none => .error stageSequenceInvalid
  | some stageKey => .ok stageKey

theorem releasedStep_key (now : Timestamp) (step : MeetingProviderStepRecord) :
    HasKey.key { step with status := .released, releasedAt := some now } = HasKey.key step := rfl

/-- The claimed steps of a reservation are released with it. -/
def releaseClaimedSteps (now : Timestamp) (reservationId : ReservationId)
    (steps : Table MeetingProviderStepRecord) : Table MeetingProviderStepRecord :=
  steps.updateWhere (fun step => step.reservationId == reservationId && step.status == .claimed)
    (fun step => { step with status := .released, releasedAt := some now }) (releasedStep_key now)

/-- The row of a claimed step once its reservation is released. -/
def releasedRow (now : Timestamp) (reservationId : ReservationId)
    (step : MeetingProviderStepRecord) : MeetingProviderStepRecord :=
  if step.reservationId = reservationId ∧ step.status = .claimed then
    { step with status := .released, releasedAt := some now } else step

theorem mem_releaseClaimedSteps {now : Timestamp} {reservationId : ReservationId}
    {steps : Table MeetingProviderStepRecord} {x : MeetingProviderStepRecord} :
    x ∈ releaseClaimedSteps now reservationId steps ↔
      ∃ step ∈ steps, releasedRow now reservationId step = x := by
  unfold releaseClaimedSteps releasedRow
  rw [Table.mem_updateWhere]
  simp

/-! ### Results -/

structure MeetingProcessingReservation where
  id : ReservationId
  meetingId : MeetingId
  operationKey : String
  processingRoute : MeetingProcessingRoute
  processedMinutes : ℤ
  officialMinutesReserved : ℤ
  officialMinutesSettled : ℤ
  realtimeDurationMs : ℤ
  realtimeHighestSequence : ℤ
  reservationExpiresAt : Timestamp
  releasedAt : Option Timestamp
  status : ReservationStatus
  deriving DecidableEq, Repr

def toMeetingProcessingReservation (r : MeetingProcessingReservationRecord) :
    MeetingProcessingReservation where
  id := r.id
  meetingId := r.meetingId
  operationKey := r.operationKey
  processingRoute := r.processingRoute
  processedMinutes := r.processedMinutes
  officialMinutesReserved := r.officialMinutesReserved
  officialMinutesSettled := r.officialMinutesSettled
  realtimeDurationMs := r.realtimeDurationMs
  realtimeHighestSequence := r.realtimeHighestSequence
  reservationExpiresAt := r.reservationExpiresAt
  releasedAt := r.releasedAt
  status := r.status

structure RealtimeQuotaClaim where
  reservation : MeetingProcessingReservation
  duplicate : Bool
  expectedSequence : ℤ
  deriving DecidableEq, Repr

structure MeetingProviderStep where
  id : ProviderStepId
  reservationId : ReservationId
  stageKey : String
  stageType : StageType
  sequence : Option ℤ
  status : MeetingProviderStepStatus
  leaseExpiresAt : Timestamp
  officialMinutesSettled : ℤ
  freeTrialMinutesSettled : ℤ
  settlementPeriodIdentity : Option String
  startedAt : Option Timestamp
  completedAt : Option Timestamp
  releasedAt : Option Timestamp
  deriving DecidableEq, Repr

def toMeetingProviderStep (step : MeetingProviderStepRecord) : MeetingProviderStep where
  id := step.id
  reservationId := step.reservationId
  stageKey := step.stageKey
  stageType := step.stageType
  sequence := step.sequence
  status := step.status
  leaseExpiresAt := step.leaseExpiresAt
  officialMinutesSettled := step.officialMinutesSettled
  freeTrialMinutesSettled := max 0 step.freeTrialMinutesSettled
  settlementPeriodIdentity := step.settlementPeriodIdentity
  startedAt := step.startedAt
  completedAt := step.completedAt
  releasedAt := step.releasedAt

inductive ClaimOutcome
  | claimed | busy | completed | uncertain
  deriving DecidableEq, Repr

structure MeetingProviderStepClaimResult where
  outcome : ClaimOutcome
  step : MeetingProviderStep
  claimToken : Option ClaimToken := none
  deriving DecidableEq, Repr

inductive TransitionOutcome
  | started | completed | released | uncertain
  deriving DecidableEq, Repr

structure MeetingProviderStepTransitionResult where
  outcome : TransitionOutcome
  step : MeetingProviderStep
  deriving DecidableEq, Repr

/-- Without the events and the cost control. -/
structure UserUsageSummary where
  plan : BillingPlanId
  officialMinutesTotal : ℤ
  officialMinutesUsed : ℤ
  officialMinutesRemaining : ℤ
  deriving DecidableEq, Repr

def userUsageSummary (user : UserRecord) : UserUsageSummary where
  plan := user.plan
  officialMinutesTotal := user.officialMinutesTotal
  officialMinutesUsed := user.officialMinutesUsed
  officialMinutesRemaining := max 0 (user.officialMinutesTotal - user.officialMinutesUsed)

inductive QuotaResult
  | realtime (claim : RealtimeQuotaClaim)
  | reservation (reservation : MeetingProcessingReservation)
  | claim (result : MeetingProviderStepClaimResult)
  | transition (result : MeetingProviderStepTransitionResult)
  | usage (summary : UserUsageSummary)
  deriving DecidableEq, Repr

/-! ### Calls

A call carries what the operation draws at random: the identifier of a row it may create and the
token of a claim. -/

inductive QuotaCall
  | reserveRealtime (userId : UserId) (input : ReserveRealtimeQuotaInput) (newId : ReservationId)
  | reserveFinalization (userId : UserId) (input : ReserveFinalizationQuotaInput)
      (newId : ReservationId)
  | claim (userId : UserId) (input : ClaimMeetingProviderStepInput) (newId : ProviderStepId)
      (claimToken : ClaimToken)
  | start (userId : UserId) (input : ProviderStepInput)
  | complete (userId : UserId) (input : ProviderStepInput)
  | reconcile (userId : UserId) (input : ReconcileMeetingProviderStepInput)
  | releaseStep (userId : UserId) (input : ProviderStepInput)
  | reject (userId : UserId) (input : ProviderStepInput)
  | releaseReservation (userId : UserId) (reservationId : ReservationId)
  | recordUsage (userId : UserId) (input : RecordMeetingFinalizeUsageInput) (newId : UsageEventId)
  deriving DecidableEq, Repr

def QuotaCall.userId : QuotaCall → UserId
  | .reserveRealtime userId .. | .reserveFinalization userId .. | .claim userId ..
  | .start userId .. | .complete userId .. | .reconcile userId .. | .releaseStep userId ..
  | .reject userId .. | .releaseReservation userId .. | .recordUsage userId .. => userId

/-- The identifier a call draws for a reservation. -/
def QuotaCall.newReservationId? : QuotaCall → Option ReservationId
  | .reserveRealtime _ _ newId | .reserveFinalization _ _ newId => some newId
  | _ => none

/-- The identifier a call draws for a provider step. -/
def QuotaCall.newStepId? : QuotaCall → Option ProviderStepId
  | .claim _ _ newId _ => some newId
  | _ => none

/-- The token a claim draws. -/
def QuotaCall.newToken? : QuotaCall → Option ClaimToken
  | .claim _ _ _ claimToken => some claimToken
  | _ => none

/-- The provider step a call acts on, with the claim token it presents. -/
def QuotaCall.stepInput? : QuotaCall → Option ProviderStepInput
  | .start _ input | .complete _ input | .releaseStep _ input | .reject _ input => some input
  | _ => none

/-- A call, when it ran and what it returned. -/
structure QuotaEvent where
  now : Timestamp
  call : QuotaCall
  result : Except AuthError QuotaResult

/-- `String.prototype.includes`. -/
def textIncludes (text part : String) : Bool := decide (part.toList <:+: text.toList)

end OwnMinutes.Auth.QuotaTypes
