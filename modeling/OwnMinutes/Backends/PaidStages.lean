import OwnMinutes.Finalizer.Plans
import OwnMinutes.Finalizer.Replays
import OwnMinutes.Local.FinalizerLedger
import OwnMinutes.Postgres.FinalizerLedger

/-! # Paid stages on the backends

Over the local store and over the database a paid stage is requested once and once more after each
rejection, unless a run repeats its request, and a saved stage is not requested again. A result may be published
while a stage is started, when the runs of an operation decide differently. -/

namespace OwnMinutes.Backends.PaidStages

open OwnMinutes.Lib.Keyed OwnMinutes.Lib.Runs OwnMinutes.Auth.ProcessingRoute
open OwnMinutes.Auth.Records OwnMinutes.Auth.QuotaTypes OwnMinutes.Quota.Calls
open OwnMinutes.Quota.Fencing OwnMinutes.Quota.Reservations OwnMinutes.Finalizer.Records
open OwnMinutes.Finalizer.Ledger OwnMinutes.Finalizer.Runs OwnMinutes.Finalizer.PaidStages
open OwnMinutes.Finalizer.Plans OwnMinutes.Finalizer.Replays OwnMinutes.Finalization.Records

/-- **Paid stages** on the local store and on the database. -/
theorem paid_stages (rules : TextRules) (hashToken : ClaimToken → TokenHash)
    (hinj : Function.Injective hashToken) :
    (∀ s, FinalizerStart (·.meetingProviderSteps) s →
      PaidOnce rules hashToken (Local.Calls.QuotaStep hashToken) (·.meetingProviderSteps)
        (fun store => reservationFor store.meetingProcessingReservations) s) ∧
    ∀ s, FinalizerStart (·.meetingProcessingProviderSteps) s →
      PaidOnce rules hashToken (Postgres.Calls.QuotaStep hashToken) (·.meetingProcessingProviderSteps)
        (fun db => reservationFor db.meetingProcessingReservations) s :=
  ⟨fun _ hstart => paidOnce_of_ledger Local.FinalizerLedger.finalizerLedger hinj hstart,
    fun _ hstart => paidOnce_of_ledger Postgres.FinalizerLedger.finalizerLedger hinj hstart⟩

/-! ### An operation whose runs decide differently -/

/-- Every transcript with a segment is usable. -/
def someText : TextRules where
  canReuseFormalTranscript _ := false
  usable transcript := !transcript.isEmpty
  buildLocalSummary _ := { summary := "local" }
  buildFallbackTranscript := []

def meetingInput : FinalizationInput where
  meetingId := "m"
  userId := "u"
  accountMode := .officialQuota

def volcanoConfig : RunConfig where
  provider := .volcano
  arkConfigured := false

def sealedAudio : PreflightReads where
  audio := { audioRevision := "1", audioUpdatedAt := 50, durationMs := 600000, isSealed := true }
  leaseActive := false
  retryingChangedAudio := false
  frozenRoute := none
  randomId := "0"

def decodedAudio : AudioSnapshot where
  audioRevision := "1"
  audioSha256 := "00000000000000000000000000000000000000000000000000000000000000aa"
  durationMs := 600000

def spoken : Transcript where
  adapter := "realtime"
  transcript := [{ id := "1", text := "hello" }]

def freeStart : FinalizerState Local.Store.AuthStore where
  ledger := ⟨{ users := Table.empty.insert { id := "u" } }, 0⟩

theorem freeStart_ok : FinalizerStart (·.meetingProviderSteps) freeStart where
  unique _ h := by cases h
  idle _ := rfl
  checkpoints _ := rfl
  steps _ h := by cases h

/-- A run starts recognition and crashes; then the realtime transcript is there. -/
def decideDifferently : List Move :=
  [.run "a" (.begin meetingInput volcanoConfig sealedAudio),
   .run "a" (.prepare decodedAudio none),
   .ledger "a" { newId := "r" } 100,
   .ledger "a" { newId := "s", claimToken := "token" } 110,
   .ledger "a" { newId := "" } 120,
   .run "a" .crash,
   .run "b" (.begin meetingInput volcanoConfig sealedAudio),
   .run "b" (.prepare decodedAudio (some spoken)),
   .ledger "b" { newId := "r2" } 1000,
   .ledger "b" { newId := "r3" } 1010]

def playLocal (ok : FinalizerState Local.Store.AuthStore → FinalizerEvent → Prop)
    [∀ s e, Decidable (ok s e)] (moves : List Move) :
    Option (List FinalizerEvent × FinalizerState Local.Store.AuthStore) :=
  playAll someText (Local.Calls.execute id) Local.Calls.freshIn ok ["a", "b"] freeStart moves

def asrFence (s : FinalizerState Local.Store.AuthStore) : OwnMinutes.Lib.Fence.State TokenHash :=
  stageFence (·.meetingProviderSteps) (fun store => reservationFor store.meetingProcessingReservations)
    s.ledger.store ("u", initialMeetingOperationKey "m") .asr

/-- The runs of the replay are the steps of the system. -/
theorem run_of_playLocal {ok : FinalizerState Local.Store.AuthStore → FinalizerEvent → Prop}
    [∀ s e, Decidable (ok s e)] {moves : List Move} {es : List FinalizerEvent}
    {t : FinalizerState Local.Store.AuthStore} (h : playLocal ok moves = some (es, t)) :
    Run (fun s e t => OperationStep someText id (Local.Calls.QuotaStep id) (·.meetingProviderSteps)
      s e t ∧ ok s e) freeStart es t :=
  run_of_playAll h fun _ _ => rfl

def firstOperation : Operation := ("u", initialMeetingOperationKey "m")

/-- The run publishes next, for the first operation. -/
def publishes (runId : RunId) (t : FinalizerState Local.Store.AuthStore) : Bool :=
  match t.runs runId with
  | .processing v _ =>
    RunVars.operation v == firstOperation && (runStep someText runId (.saveResult 2000) t).isSome
  | _ => false

theorem publishes_step {runId : RunId} {t : FinalizerState Local.Store.AuthStore}
    (h : publishes runId t = true) : ∃ u v position,
      FinalizerStep someText (Local.Calls.QuotaStep id) t (.run runId (.saveResult 2000)) u ∧
        t.runs runId = .processing v position ∧ RunVars.operation v = firstOperation := by
  unfold publishes at h
  split at h
  · rename_i v position hphase
    rw [Bool.and_eq_true, beq_iff_eq] at h
    obtain ⟨u, hu⟩ := Option.isSome_iff_exists.mp h.2
    exact ⟨u, v, position, hu, hphase, h.1⟩
  · cases h

/-- A result is published while recognition is started. -/
theorem published_while_started : ∃ es t u v position,
      Run (OperationStep someText id (Local.Calls.QuotaStep id) (·.meetingProviderSteps))
        freeStart es t ∧
      FinalizerStep someText (Local.Calls.QuotaStep id) t (.run "b" (.saveResult 2000)) u ∧
      t.runs "b" = .processing v position ∧ RunVars.operation v = firstOperation ∧
      asrFence t = some (.started, "token") := by
  have hplay : (playLocal (fun _ _ => True) decideDifferently).any (fun p =>
      publishes "b" p.2 && decide (asrFence p.2 = some (.started, "token"))) = true := by
    decide +kernel
  obtain ⟨⟨es, t⟩, hplay, hgood⟩ := (Option.any_eq_true _ _).mp hplay
  rw [Bool.and_eq_true, decide_eq_true_eq] at hgood
  obtain ⟨u, v, position, hstep, hphase, hop⟩ := publishes_step hgood.1
  exact ⟨es, t, u, v, position, (run_of_playLocal hplay).mono fun _ _ _ h => h.1,
    hstep, hphase, hop, hgood.2⟩

/-! ### A summary that is requested twice -/

def byokInput : FinalizationInput where
  meetingId := "m"
  userId := "u"
  accountMode := .byok

def twoAttempts : RunConfig where
  provider := .volcano
  arkConfigured := true
  summaryMaxAttempts := some 2

def firstIdentity : CheckpointIdentity where
  audioSha256 := decodedAudio.audioSha256
  meetingId := "m"
  operationKey := initialMeetingOperationKey "m"
  ownerUserId := "u"

/-- The first request of the summary times out, and the run sends another one. -/
def timedOut : List Move :=
  [.run "a" (.begin byokInput twoAttempts sealedAudio),
   .run "a" (.prepare decodedAudio (some spoken)),
   .ledger "a" { newId := "r" } 100,
   .ledger "a" { newId := "s", claimToken := "token" } 110,
   .ledger "a" { newId := "" } 120,
   .run "a" (.send firstIdentity .summary),
   .run "a" (.answer firstIdentity .summary (.unknown checkpointUnavailable true)),
   .run "a" (.send firstIdentity .summary)]

theorem requested_twice : ∃ es t,
    Run (OperationStep someText id (Local.Calls.QuotaStep id) (·.meetingProviderSteps)) freeStart es t ∧
      sends firstOperation .summary es = 2 ∧ rejections firstOperation .summary es = 0 := by
  have hplay : (playLocal (fun _ _ => True) timedOut).any (fun p =>
      decide (sends firstOperation .summary p.1 = 2 ∧ rejections firstOperation .summary p.1 = 0)) = true := by
    decide
  obtain ⟨⟨es, t⟩, hplay, hgood⟩ := (Option.any_eq_true _ _).mp hplay
  exact ⟨es, t, (run_of_playLocal hplay).mono fun _ _ _ h => h.1, of_decide_eq_true hgood⟩

/-- **A stage is paid for twice, and a result is published while a stage is started.** -/
theorem paid_stages_fail : FinalizerStart (·.meetingProviderSteps) freeStart ∧
    (∃ es t, Run (OperationStep someText id (Local.Calls.QuotaStep id) (·.meetingProviderSteps))
      freeStart es t ∧
      sends firstOperation .summary es = 2 ∧ rejections firstOperation .summary es = 0) ∧
    ∃ es t u v position,
      Run (OperationStep someText id (Local.Calls.QuotaStep id) (·.meetingProviderSteps))
        freeStart es t ∧
      FinalizerStep someText (Local.Calls.QuotaStep id) t (.run "b" (.saveResult 2000)) u ∧
      t.runs "b" = .processing v position ∧ RunVars.operation v = firstOperation ∧
      asrFence t = some (.started, "token") :=
  ⟨freeStart_ok, requested_twice, published_while_started⟩

/-! ### An operation that keeps to a plan -/

/-- A run that is not interrupted; the first request of its recognition is rejected. -/
def recognized : List Move :=
  [.run "a" (.begin meetingInput volcanoConfig sealedAudio),
   .run "a" (.prepare decodedAudio none),
   .ledger "a" { newId := "r" } 100,
   .ledger "a" { newId := "s", claimToken := "token" } 110,
   .ledger "a" { newId := "" } 120,
   .run "a" (.send firstIdentity .asr),
   .run "a" (.answer firstIdentity .asr (.rejected checkpointUnavailable true)),
   .run "a" (.send firstIdentity .asr),
   .run "a" (.answer firstIdentity .asr (.transcribed spoken)),
   .run "a" .saveCheckpoint,
   .ledger "a" { newId := "" } 130,
   .ledger "a" { newId := "r2" } 140]

/-- Recognition is paid for, summaries are not. -/
def asrOnly : Plan
  | .asr => true
  | .summary => false

theorem paid_stages_recognized : ∃ es t,
    Run (PlannedStep someText id (Local.Calls.QuotaStep id) (·.meetingProviderSteps) asrOnly
      firstOperation) freeStart es t ∧
    publishes "a" t = true ∧ (∀ token, asrFence t ≠ some (.started, token)) ∧
    sends firstOperation .asr es ≤ rejections firstOperation .asr es + 1 := by
  have hplay : (playLocal (fun s e => Planned someText asrOnly firstOperation s e ∧
      ¬ Repeats firstOperation .asr s e) recognized).any (fun p => publishes "a" p.2) = true := by
    decide +kernel
  obtain ⟨⟨es, t⟩, hplay, hgood⟩ := (Option.any_eq_true _ _).mp hplay
  have hboth := run_of_playLocal hplay
  have hrun : Run (PlannedStep someText id (Local.Calls.QuotaStep id) (·.meetingProviderSteps) asrOnly
      firstOperation) freeStart es t := hboth.mono fun _ _ _ h => ⟨h.1, h.2.1⟩
  obtain ⟨u, v, position, hstep, hphase, hop⟩ := publishes_step hgood
  have hpaid := (paid_stages someText id Function.injective_id).1 freeStart freeStart_ok
  have hpublished := hpaid.published hrun (Run.nil t) hstep hphase hop .asr
  exact ⟨es, t, hrun, hgood, hpublished.1,
    hpaid.requests (hboth.mono fun _ _ _ h => ⟨h.1, h.2.2⟩)⟩

end OwnMinutes.Backends.PaidStages
