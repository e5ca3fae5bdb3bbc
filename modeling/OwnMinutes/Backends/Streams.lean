import OwnMinutes.Local.Streams
import OwnMinutes.Postgres.Streams

/-! # Realtime audio on the backends

Over the local store and over the database the chunks of an operation are claimed one after the other, each once, and
the minutes for the audio streamed so far are reserved. -/

namespace OwnMinutes.Backends.Streams

open OwnMinutes.Lib.Keyed OwnMinutes.Lib.Runs OwnMinutes.Lib.Counters OwnMinutes.Auth.ProcessingRoute
open OwnMinutes.Auth.Records OwnMinutes.Auth.QuotaTypes OwnMinutes.Quota.Calls OwnMinutes.Quota.Streams

/-- **Streams are counted once** on the local store and on the database. -/
theorem streams_counted_once (hashToken : ClaimToken → TokenHash) :
    (∀ s : Clocked Local.Store.AuthStore, (∀ r ∈ s.store.meetingProcessingReservations, Metered r) →
      StreamedOnce (Local.Calls.QuotaStep hashToken) (·.meetingProcessingReservations) s) ∧
    ∀ s : Clocked Postgres.Store.Database, (∀ r ∈ s.store.meetingProcessingReservations, Metered r) →
      StreamedOnce (Postgres.Calls.QuotaStep hashToken) (·.meetingProcessingReservations) s :=
  ⟨fun _ hs => streamedOnce_of_changes Local.Streams.streamLedger hs,
    fun _ hs => streamedOnce_of_changes Postgres.Streams.streamLedger hs⟩

/-! ### A stream with a repeated chunk -/

def freeStart : Clocked Local.Store.AuthStore := ⟨{ users := Table.empty.insert { id := "u" } }, 0⟩

def chunk (sequence : ℤ) : ReserveRealtimeQuotaInput where
  durationMs := 30000
  meetingId := "m"
  operationKey := "key"
  processingRoute := .officialQuota
  sequence

/-- The second chunk is sent twice, and the finalization reserves in between. -/
def repeatedChunk : List (Timestamp × QuotaCall) :=
  [(10, .reserveRealtime "u" (chunk 1) "r1"),
   (20, .reserveRealtime "u" (chunk 2) "r2"),
   (30, .reserveRealtime "u" (chunk 2) "r3"),
   (40, .reserveFinalization "u"
     { durationMs := 60000, meetingId := "m", operationKey := "key", processingRoute := .officialQuota } "r4"),
   (50, .reserveRealtime "u" (chunk 3) "r5")]

theorem scheduled_repeatedChunk : Scheduled (Local.Calls.execute id) Local.Calls.freshIn (fun _ _ _ => True) freeStart
    repeatedChunk := by
  decide +kernel

theorem streams_counted_once_repeated : ∃ es t, Run (Local.Calls.QuotaStep id) freeStart es t ∧
    Counted none [⟨1, 30000⟩, ⟨2, 30000⟩, ⟨3, 30000⟩]
      (counterFor t.store.meetingProcessingReservations ("u", "key")) := by
  have hrun : Run (Local.Calls.QuotaStep id) freeStart _ _ :=
    run_replay (Local.Calls.execute id) Local.Calls.freshIn (fun _ _ _ => True) (fun _ _ _ h _ => h)
      scheduled_repeatedChunk
  have honce := (streams_counted_once id).1 freeStart fun _ h => by cases h
  have hchunks : claimedChunks ("u", "key") (events (Local.Calls.execute id) freeStart repeatedChunk) =
      [⟨1, 30000⟩, ⟨2, 30000⟩, ⟨3, 30000⟩] := by decide +kernel
  refine ⟨_, _, hrun, ?_⟩
  rw [← hchunks]
  exact honce.counted hrun ("u", "key")

end OwnMinutes.Backends.Streams
