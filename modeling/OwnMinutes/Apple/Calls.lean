import OwnMinutes.Apple.Family
import OwnMinutes.Quota.Calls

/-! # Runs of purchases, notifications and refreshes

What the App Store and the client send about subscriptions, in any order and at any times, and the
refreshes of the accounts. The identifiers a call draws are not in use. -/

namespace OwnMinutes.Apple.Calls

open OwnMinutes.Lib.Runs OwnMinutes.Auth.ProcessingRoute OwnMinutes.Auth.Records
open OwnMinutes.Auth.Apple OwnMinutes.Quota.Calls OwnMinutes.Apple.Family

inductive AppleCall
  | purchase (ids : PlanChangeIds) (input : AppleIapPurchaseInput)
  | notification (ids : PlanChangeIds) (input : AppleIapNotificationInput)
  | refresh (userId : UserId)

/-- The identifiers the call draws. -/
def AppleCall.ids? : AppleCall → Option PlanChangeIds
  | .purchase ids _ => some ids
  | .notification ids _ => some ids
  | .refresh _ => none

structure AppleEvent where
  now : Timestamp
  call : AppleCall

/-- The identifiers the call draws are not in use. -/
def FreshCall (l : AppleLedger) (call : AppleCall) : Prop := ∀ ids ∈ call.ids?, FreshIn l ids

instance (l : AppleLedger) (call : AppleCall) : Decidable (FreshCall l call) :=
  inferInstanceAs (Decidable (∀ ids ∈ call.ids?, FreshIn l ids))

section Backend

variable {σ : Type} (apply : Timestamp → AppleCall → σ → σ) (ledger : σ → AppleLedger)

/-- One call on a backend, which satisfies `guard`. -/
def AppleStep (guard : Clocked σ → AppleEvent → Prop) (s : Clocked σ) (e : AppleEvent)
    (t : Clocked σ) : Prop :=
  FreshCall (ledger s.store) e.call ∧ guard s e ∧ t = ⟨apply e.now e.call s.store, e.now⟩

/-- The state after one event. -/
def after (s : Clocked σ) (e : AppleEvent) : Clocked σ := ⟨apply e.now e.call s.store, e.now⟩

/-- The state after the events. -/
def replay (s : Clocked σ) (es : List AppleEvent) : Clocked σ := es.foldl (after apply) s

/-- Each event is fresh and satisfies `guard` where it happens. -/
def Scheduled (guard : Clocked σ → AppleEvent → Prop) (s : Clocked σ) : List AppleEvent → Prop
  | [] => True
  | e :: es => FreshCall (ledger s.store) e.call ∧ guard s e ∧ Scheduled guard (after apply s e) es

instance decidableScheduled {guard : Clocked σ → AppleEvent → Prop} [∀ s e, Decidable (guard s e)] :
    ∀ (s : Clocked σ) (es : List AppleEvent), Decidable (Scheduled apply ledger guard s es)
  | _, [] => .isTrue trivial
  | s, e :: es =>
    @instDecidableAnd _ _ inferInstance <| @instDecidableAnd _ _ inferInstance <|
      decidableScheduled (after apply s e) es

/-- The replay of scheduled events is a run. -/
theorem run_replay {guard : Clocked σ → AppleEvent → Prop} :
    ∀ {es : List AppleEvent} {s : Clocked σ}, Scheduled apply ledger guard s es →
      Run (AppleStep apply ledger guard) s es (replay apply s es)
  | [], s, _ => Run.nil s
  | _ :: _, _, ⟨hfresh, hguard, hrest⟩ => Run.cons ⟨hfresh, hguard, rfl⟩ (run_replay hrest)

end Backend

end OwnMinutes.Apple.Calls
