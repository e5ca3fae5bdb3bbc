import OwnMinutes.Local.Fencing
import OwnMinutes.Postgres.Fencing

/-! # Provider calls

A provider is called, and paid, by the worker that sees `started`. In both backends a stage is
started again only after the worker that started it gave it up, a completed stage is final, and the
worker whose claim was taken over can do nothing to the stage with its token. The calls that need no
token can complete a started stage and release a claimed one. -/

namespace OwnMinutes.Backends.ProviderCalls

open OwnMinutes.Lib.Keyed OwnMinutes.Lib.Runs OwnMinutes.Auth.ProcessingRoute
open OwnMinutes.Auth.Records OwnMinutes.Auth.QuotaTypes OwnMinutes.Quota.Calls
open OwnMinutes.Quota.Fencing

/-- **Provider calls are fenced** on the local store and on the database. -/
theorem provider_calls_fenced (hashToken : ClaimToken → TokenHash)
    (hinj : Function.Injective hashToken) :
    Fenced (Local.Calls.QuotaStep hashToken) (·.meetingProviderSteps) ∧
      Fenced (Postgres.Calls.QuotaStep hashToken) (·.meetingProcessingProviderSteps) :=
  ⟨fenced_of_changes hinj Local.Fencing.changesSteps,
    fenced_of_changes hinj Postgres.Fencing.changesSteps⟩

/-! ### A stage started twice -/

/-- A provider call that the provider rejects and another worker makes again. -/
def startedTwice : List (Timestamp × QuotaCall) :=
  [(100, .reserveFinalization "u"
      { durationMs := 600000, meetingId := "m", operationKey := "k"
        processingRoute := .officialQuota } "r"),
   (110, .claim "u" { reservationId := "r", stage := .finalizationAsr } "s" "first"),
   (120, .start "u" { claimToken := "first", stepId := "s" }),
   (130, .reject "u" { claimToken := "first", stepId := "s" }),
   (140, .claim "u" { reservationId := "r", stage := .finalizationAsr } "s2" "second"),
   (150, .start "u" { claimToken := "second", stepId := "s" })]

def freeStore : Local.Store.AuthStore where
  users := Table.empty.insert { id := "u" }

/-- What each call on the store was answered. -/
def answered (n : ℕ) (h : n < 6 := by decide) : QuotaEvent :=
  (events (Local.Calls.execute id) ⟨freeStore, 0⟩ startedTwice).get ⟨n, h⟩

theorem provider_calls_fenced_startedTwice : ∃ e ∈ [answered 3, answered 4], ∃ input1 input,
    (answered 2).call = .start (answered 2).call.userId input1 ∧ Rejected e input ∧
      input.claimToken = input1.claimToken := by
  have hscheduled : Scheduled (Local.Calls.execute id) Local.Calls.freshIn (fun _ _ _ => True)
      ⟨freeStore, 0⟩ startedTwice := by decide +kernel
  have hrun : Run (Local.Calls.QuotaStep id) ⟨freeStore, 0⟩
      ([answered 0, answered 1] ++ answered 2 :: ([answered 3, answered 4] ++ answered 5 :: []))
      (replay (Local.Calls.execute id) ⟨freeStore, 0⟩ startedTwice) :=
    run_replay (Local.Calls.execute id) Local.Calls.freshIn (fun _ _ _ => True)
      (fun _ _ _ h _ => h) hscheduled
  have hstarted : StartedAt ("r", "finalization:asr") (answered 2) ∧
      StartedAt ("r", "finalization:asr") (answered 5) := by decide +kernel
  have hunique : StagesUnique freeStore.meetingProviderSteps := fun _ h => by cases h
  exact (provider_calls_fenced id Function.injective_id).1.started_again hunique hrun
    hstarted.1 hstarted.2

/-! ### A claim that is released by the worker that lost it -/

/-- The lease of the first claim is over when the second is made. -/
def takenOver : List (Timestamp × QuotaCall) :=
  [(100, .reserveFinalization "u"
      { durationMs := 600000, meetingId := "m", operationKey := "k"
        processingRoute := .officialQuota } "r"),
   (110, .claim "u" { reservationId := "r", stage := .finalizationAsr } "s" "first"),
   (200000, .claim "u" { reservationId := "r", stage := .finalizationAsr } "s2" "second")]

def takenOverStore : Clocked Local.Store.AuthStore := replay (Local.Calls.execute id) ⟨freeStore, 0⟩ takenOver

/-- The first worker fails, and releases the reservation. -/
def loss : QuotaEvent where
  now := 200010
  call := .releaseReservation "u" "r"
  result := (Local.Calls.execute id 200010 (.releaseReservation "u" "r") takenOverStore.store).1

def lostStore : Clocked Local.Store.AuthStore := after (Local.Calls.execute id) takenOverStore (200010, loss.call)

/-- The worker that lost its claim releases the claim of the other, which is in force. -/
theorem claim_released_by_loser : ∃ es e1 e2, Run (Local.Calls.QuotaStep id) ⟨freeStore, 0⟩ es takenOverStore ∧
    es[1]? = some e1 ∧ es[2]? = some e2 ∧
    ClaimedAt ("r", "finalization:asr") e1 ∧ e1.call.newToken? = some "first" ∧
    ClaimedAt ("r", "finalization:asr") e2 ∧ e2.call.newToken? = some "second" ∧
    Local.Calls.QuotaStep id takenOverStore loss lostStore ∧ loss.call = .releaseReservation "u" "r" ∧
    (rowAt takenOverStore.store.meetingProviderSteps ("r", "finalization:asr")).any (fun step =>
      decide (step.status = .claimed ∧ step.claimTokenHash = "second" ∧ loss.now < step.leaseExpiresAt)) = true ∧
    (rowAt lostStore.store.meetingProviderSteps ("r", "finalization:asr")).any (fun step =>
      decide (step.status = .released)) = true := by
  have hscheduled : Scheduled (Local.Calls.execute id) Local.Calls.freshIn (fun _ _ _ => True)
      ⟨freeStore, 0⟩ takenOver := by decide +kernel
  have hrun : Run (Local.Calls.QuotaStep id) ⟨freeStore, 0⟩ (events (Local.Calls.execute id) ⟨freeStore, 0⟩ takenOver)
      takenOverStore :=
    run_replay (Local.Calls.execute id) Local.Calls.freshIn (fun _ _ _ => True) (fun _ _ _ h _ => h) hscheduled
  have hstep : Local.Calls.QuotaStep id takenOverStore loss lostStore :=
    ⟨by decide, by decide, rfl, rfl⟩
  refine ⟨_, _, _, hrun, rfl, rfl, ?_, rfl, ?_, rfl, hstep, rfl, by decide +kernel, by decide +kernel⟩
  · decide +kernel
  · decide +kernel

end OwnMinutes.Backends.ProviderCalls
