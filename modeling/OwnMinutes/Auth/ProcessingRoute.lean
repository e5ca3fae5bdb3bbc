import Mathlib.Data.Rat.Floor

/-! # Processing routes, stages and meeting usage

The types and functions of `processing-route.ts`. A time is a number of milliseconds; the ISO
texts of the source are compared as times. A duration is a finite number of milliseconds and need
not be whole (`ℚ`); minutes are whole. -/

namespace OwnMinutes.Auth.ProcessingRoute

/-- Milliseconds since the epoch. -/
abbrev Timestamp := ℕ

/-- `toISOString`: equal texts are equal times. -/
def isoText (t : Timestamp) : String := toString t

inductive MeetingProcessingRoute
  | byok | hybrid | officialQuota
  deriving DecidableEq, Repr

def MeetingProcessingRoute.text : MeetingProcessingRoute → String
  | .byok => "byok"
  | .hybrid => "hybrid"
  | .officialQuota => "official_quota"

inductive MeetingProviderStage
  | realtimeAsr (sequence : ℤ)
  | finalizationAsr
  | finalizationSummary
  deriving DecidableEq, Repr

inductive StageType
  | realtimeAsr | finalizationAsr | finalizationSummary
  deriving DecidableEq, Repr

def MeetingProviderStage.type : MeetingProviderStage → StageType
  | .realtimeAsr _ => .realtimeAsr
  | .finalizationAsr => .finalizationAsr
  | .finalizationSummary => .finalizationSummary

/-- `input.stage.type === "realtime_asr" ? input.stage.sequence : undefined`. -/
def MeetingProviderStage.sequence? : MeetingProviderStage → Option ℤ
  | .realtimeAsr n => some n
  | _ => none

inductive MeetingProviderStepStatus
  | claimed | started | completed | released
  deriving DecidableEq, Repr

inductive ReservationStatus
  | reserved | finalized
  deriving DecidableEq, Repr

theorem MeetingProviderStepStatus.eq_claimed {status : MeetingProviderStepStatus}
    (hc : status ≠ .completed) (hs : status ≠ .started) (hr : status ≠ .released) :
    status = .claimed := by
  cases status <;> simp_all

theorem MeetingProviderStepStatus.started_or_claimed {status : MeetingProviderStepStatus}
    (hc : status ≠ .completed) (hr : status ≠ .released) :
    status = .started ∨ status = .claimed := by
  cases status <;> simp_all

theorem ReservationStatus.eq_reserved {status : ReservationStatus} (h : status ≠ .finalized) :
    status = .reserved := by
  cases status <;> simp_all

def DEFAULT_MEETING_RESERVATION_LEASE_MS : ℕ := 15 * 60 * 1000
def DEFAULT_PROVIDER_STEP_LEASE_MS : ℕ := 2 * 60 * 1000

/-- The key of a stage; `none` where the source throws (a negative sequence). -/
def meetingProviderStageKey : MeetingProviderStage → Option String
  | .realtimeAsr sequence =>
    if sequence < 0 then none else some ("realtime:asr:" ++ toString sequence)
  | .finalizationAsr => some "finalization:asr"
  | .finalizationSummary => some "finalization:summary"

/-- `Math.round`: halves are rounded up. -/
def mathRound (x : ℚ) : ℤ := (x + 1 / 2).floor

/-- `none` stands for an absent or not finite `leaseMs`. -/
def normalizeProviderStepLeaseMs : Option ℚ → ℕ
  | none => DEFAULT_PROVIDER_STEP_LEASE_MS
  | some leaseMs => (max 30000 (min (15 * 60 * 1000) (mathRound leaseMs))).toNat

structure MeetingUsage where
  processedMinutes : ℤ
  officialMinutesCharged : ℤ
  deriving DecidableEq, Repr

def calculateMeetingUsage (durationMs : ℚ) (route : MeetingProcessingRoute) : MeetingUsage :=
  let processedMinutes := max 1 (durationMs / 60000).ceil
  { processedMinutes
    officialMinutesCharged := if route = .byok then 0 else processedMinutes }

/-- The minutes a realtime stream of `durationMs` whole milliseconds needs. -/
def realtimeRequiredMinutes (durationMs : ℤ) (route : MeetingProcessingRoute) : ℤ :=
  if route = .byok then 0 else max 1 ((durationMs : ℚ) / 60000).ceil

def buildMeetingUsageNote (meetingId resultGeneratedAt : String) (route : MeetingProcessingRoute)
    (usage : MeetingUsage) : String :=
  "Finalized meeting:" ++ meetingId ++ " result:" ++ resultGeneratedAt ++ " route:" ++ route.text ++
    " processed:" ++ toString usage.processedMinutes ++
    " charged:" ++ toString usage.officialMinutesCharged

end OwnMinutes.Auth.ProcessingRoute
