import OwnMinutes.Auth.QuotaTypes
import OwnMinutes.Lib.Outcome
import OwnMinutes.Lib.Runs

/-! # Runs of the quota operations

A backend answers calls one after the other; the clock does not go back, and the identifiers a call
draws are not in use. -/

namespace OwnMinutes.Quota.Calls

open OwnMinutes.Lib.Keyed OwnMinutes.Lib.Runs OwnMinutes.Auth.ProcessingRoute
open OwnMinutes.Auth.Records OwnMinutes.Auth.QuotaTypes

/-- The state of a backend and the time of its last call. -/
structure Clocked (σ : Type) where
  store : σ
  clock : Timestamp

/-- The identifiers the call draws are not in use. -/
def FreshIds (reservations : Table MeetingProcessingReservationRecord)
    (steps : Table MeetingProviderStepRecord) (call : QuotaCall) : Prop :=
  (∀ newId ∈ call.newReservationId?,
    reservations.Fresh newId ∧ ∀ step ∈ steps, step.reservationId ≠ newId) ∧
  ∀ newId ∈ call.newStepId?, steps.Fresh newId

instance (reservations : Table MeetingProcessingReservationRecord)
    (steps : Table MeetingProviderStepRecord) (call : QuotaCall) :
    Decidable (FreshIds reservations steps call) :=
  inferInstanceAs (Decidable (
    (∀ newId ∈ call.newReservationId?,
      reservations.Fresh newId ∧ ∀ step ∈ steps.rows, step.reservationId ≠ newId) ∧
    ∀ newId ∈ call.newStepId?, steps.Fresh newId))

/-- A result that is neither `claimed` nor `started`. -/
def Quiet : QuotaResult → Prop
  | .claim result => result.outcome ≠ .claimed
  | .transition result => result.outcome ≠ .started
  | _ => True

section Backend

variable {σ : Type} (execute : Timestamp → QuotaCall → σ → Except AuthError QuotaResult × σ)
  (fresh : σ → QuotaCall → Prop)

/-- One call on a backend. -/
def CallStep (s : Clocked σ) (e : QuotaEvent) (t : Clocked σ) : Prop :=
  s.clock ≤ e.now ∧ fresh s.store e.call ∧ execute e.now e.call s.store = (e.result, t.store) ∧
    t.clock = e.now

/-! ### Replaying calls -/

/-- The state after one call. -/
def after (s : Clocked σ) (call : Timestamp × QuotaCall) : Clocked σ :=
  ⟨(execute call.1 call.2 s.store).2, call.1⟩

/-- The state after calls at given times. -/
def replay (s : Clocked σ) (calls : List (Timestamp × QuotaCall)) : Clocked σ :=
  calls.foldl (after execute) s

/-- The events of these calls. -/
def events (s : Clocked σ) : List (Timestamp × QuotaCall) → List QuotaEvent
  | [] => []
  | call :: calls =>
    ⟨call.1, call.2, (execute call.1 call.2 s.store).1⟩ :: events (after execute s call) calls

/-- Each call satisfies `ok`, which also sees the states before and after it, and the clock does not
go back. -/
def Scheduled (ok : Clocked σ → Timestamp × QuotaCall → Clocked σ → Prop) (s : Clocked σ) :
    List (Timestamp × QuotaCall) → Prop
  | [] => True
  | call :: calls =>
    s.clock ≤ call.1 ∧ fresh s.store call.2 ∧ ok s call (after execute s call) ∧
      Scheduled ok (after execute s call) calls

instance decidableScheduled {ok : Clocked σ → Timestamp × QuotaCall → Clocked σ → Prop}
    [∀ s call, Decidable (fresh s call)] [∀ s call t, Decidable (ok s call t)] :
    ∀ (s : Clocked σ) (calls : List (Timestamp × QuotaCall)),
      Decidable (Scheduled execute fresh ok s calls)
  | _, [] => .isTrue trivial
  | s, call :: calls =>
    @instDecidableAnd _ _ inferInstance <| @instDecidableAnd _ _ inferInstance <|
      @instDecidableAnd _ _ inferInstance (decidableScheduled (after execute s call) calls)

/-- The replay of scheduled calls is a run. -/
theorem run_replay (ok : Clocked σ → Timestamp × QuotaCall → Clocked σ → Prop)
    {step : Clocked σ → QuotaEvent → Clocked σ → Prop}
    (hstep : ∀ s e t, CallStep execute fresh s e t → ok s (e.now, e.call) t → step s e t) :
    ∀ {calls : List (Timestamp × QuotaCall)} {s : Clocked σ},
      Scheduled execute fresh ok s calls →
        Run step s (events execute s calls) (replay execute s calls)
  | [], s, _ => Run.nil s
  | _ :: _, s, ⟨hclock, hfresh, hok, hrest⟩ =>
    Run.cons (hstep s _ _ ⟨hclock, hfresh, rfl, rfl⟩ hok) (run_replay ok hstep hrest)

end Backend

end OwnMinutes.Quota.Calls
