import OwnMinutes.Backends.Streams
import OwnMinutes.Realtime.SessionRecords
import OwnMinutes.Realtime.Transcripts

/-! # Realtime chunks on the backends

Over the local store and over the database a chunk is sent to the provider once, after its claim, and recorded for good.
A transcript that is reused in the place of a recognition stands for chunks that were claimed. -/

namespace OwnMinutes.Backends.RealtimeChunks

open OwnMinutes.Lib.Keyed OwnMinutes.Lib.Runs OwnMinutes.Lib.Counters OwnMinutes.Auth.ProcessingRoute
open OwnMinutes.Auth.Records OwnMinutes.Auth.Errors OwnMinutes.Auth.QuotaTypes OwnMinutes.Quota.Calls OwnMinutes.Quota.Streams
open OwnMinutes.Finalization.Records OwnMinutes.Backends.Streams
open OwnMinutes.Realtime.Sessions OwnMinutes.Realtime.Reuse OwnMinutes.Realtime.Chunks OwnMinutes.Realtime.ChunkClaims
open OwnMinutes.Realtime.SessionAccounts OwnMinutes.Realtime.SessionRecords OwnMinutes.Realtime.Transcripts

/-- **A chunk is sent once**, after its claim, on the local store and on the database. -/
theorem chunks_sent_once (hashToken : ClaimToken → TokenHash) :
    (∀ s : RealtimeState Local.Store.AuthStore, RealtimeStart (·.meetingProcessingReservations) s →
      SentOnce (Local.Calls.QuotaStep hashToken) Local.Streams.PurgeStep (·.meetingProcessingReservations) s) ∧
    ∀ s : RealtimeState Postgres.Store.Database, RealtimeStart (·.meetingProcessingReservations) s →
      SentOnce (Postgres.Calls.QuotaStep hashToken) Postgres.Streams.PurgeStep (·.meetingProcessingReservations) s :=
  ⟨fun _ hs => sentOnce_of_streams Local.Streams.streamLedger Local.Streams.purgeLedger hs,
    fun _ hs => sentOnce_of_streams Postgres.Streams.streamLedger Postgres.Streams.purgeLedger hs⟩

/-- **A transcript that is reused stands for claimed chunks**, on the local store and on the database. -/
theorem reused_transcripts_claimed (hashToken : ClaimToken → TokenHash) :
    (∀ s : RealtimeState Local.Store.AuthStore, RealtimeStart (·.meetingProcessingReservations) s →
      ReusesClaimed (Local.Calls.QuotaStep hashToken) Local.Streams.PurgeStep s) ∧
    ∀ s : RealtimeState Postgres.Store.Database, RealtimeStart (·.meetingProcessingReservations) s →
      ReusesClaimed (Postgres.Calls.QuotaStep hashToken) Postgres.Streams.PurgeStep s :=
  ⟨fun _ hs => reusesClaimed_of_streams Local.Streams.streamLedger Local.Streams.purgeLedger hs,
    fun _ hs => reusesClaimed_of_streams Postgres.Streams.streamLedger Postgres.Streams.purgeLedger hs⟩

/-- **Nothing that a session has recorded is lost**, on the local store and on the database. -/
theorem session_records_kept (hashToken : ClaimToken → TokenHash) :
    (∀ s : RealtimeState Local.Store.AuthStore, RealtimeStart (·.meetingProcessingReservations) s →
      KeepsRecords (Local.Calls.QuotaStep hashToken) Local.Streams.PurgeStep s) ∧
    ∀ s : RealtimeState Postgres.Store.Database, RealtimeStart (·.meetingProcessingReservations) s →
      KeepsRecords (Postgres.Calls.QuotaStep hashToken) Postgres.Streams.PurgeStep s :=
  ⟨fun _ hs => keepsRecords_of_start hs, fun _ hs => keepsRecords_of_start hs⟩

/-! ### A recording that is streamed -/

section Play

variable {σ : Type} (execute : Timestamp → QuotaCall → σ → Except AuthError QuotaResult × σ)
  (fresh : σ → QuotaCall → Prop) [∀ s call, Decidable (fresh s call)]

/-- A request calls the ledger, or another step is taken. -/
inductive Move
  | call (id : RequestId) (now : Timestamp) (drawn : Drawn)
  | step (e : RealtimeEvent)

def moved (s : RealtimeState σ) : Move → Option (RealtimeEvent × RealtimeState σ)
  | .call id now drawn =>
    match (s.requests id).quotaCall drawn with
    | some call =>
      if s.ledger.clock ≤ now ∧ fresh s.ledger.store call then
        let (result, store) := execute now call s.ledger.store
        some (.ledger id drawn true ⟨now, call, result⟩, called s id true result ⟨store, now⟩)
      else none
    | none => none
  | .step e => (requestStep e s).map fun t => (e, t)

def play (s : RealtimeState σ) : List Move → Option (List RealtimeEvent × RealtimeState σ)
  | [] => some ([], s)
  | move :: moves =>
    match moved execute fresh s move with
    | some (e, t) => (play t moves).map fun (es, u) => (e :: es, u)
    | none => none

variable {execute fresh} {purge : Clocked σ → LedgerPurge → Clocked σ → Prop}

theorem step_of_moved {s t : RealtimeState σ} {move : Move} {e : RealtimeEvent}
    (h : moved execute fresh s move = some (e, t)) : RealtimeStep (CallStep execute fresh) purge s e t := by
  cases move with
  | call id now drawn =>
    unfold moved at h
    dsimp only at h
    split at h
    · rename_i call hcall
      split_ifs at h with hready
      cases h
      refine ⟨hcall, ?_, ?_⟩
      · rw [called_ledger]
        exact ⟨hready.1, hready.2, rfl, rfl⟩
      · rw [called_ledger]
    · cases h
  | step e =>
    obtain ⟨u, hstep, hpair⟩ := Option.map_eq_some_iff.mp h
    cases hpair
    exact realtimeStep_of_requestStep _ _ hstep

/-- What is played is a run. -/
theorem run_of_play : ∀ {moves : List Move} {s t : RealtimeState σ} {es : List RealtimeEvent},
    play execute fresh s moves = some (es, t) → Run (RealtimeStep (CallStep execute fresh) purge) s es t := by
  intro moves
  induction moves with
  | nil =>
    intro s t es h
    cases h
    exact Run.nil s
  | cons move moves ih =>
    intro s t es h
    unfold play at h
    split at h
    · rename_i e u hmoved
      obtain ⟨⟨fs, v⟩, hrest, hpair⟩ := Option.map_eq_some_iff.mp h
      cases hpair
      exact Run.cons (step_of_moved hmoved) (ih hrest)
    · cases h

end Play

def streamStart : RealtimeState Local.Store.AuthStore where
  ledger := freeStart

def rawChunk : RealtimeChunk where
  meetingId := "m"
  sequence := 1
  durationMs := 30000
  sampleRate := 16000
  channels := 1
  receivedBytes := 960000
  mimeType := "audio/pcm".toList

def plan : RealtimeProviderPlan where
  userId := "u"
  chunk := ⟨rawChunk, by decide, by decide⟩
  provider := .volcano
  processingRoute := .officialQuota
  official := true

def answered : TranscriptionChunkResult where
  adapter := "volcano-realtime-adapter"
  providerStatus := some .accepted
  transcriptSegment := some ⟨"seg-1", "Speaker 1".toList, "00:00".toList, "we ship the new version next week".toList⟩

def finishPlan : FinishPlan where
  userId := "u"
  meetingId := "m"
  provider := .volcano

def completed : FinishResult where
  providerStatus := .completed

def moves : List Move :=
  [.step (.post "q1" "u" { provider := .volcano, realtimeReady := true } { accountMode := .officialQuota } rawChunk),
   .call "q1" 10 { newId := "r1" },
   .call "q1" 20 { newId := "s1", claimToken := "t1" },
   .call "q1" 30 {},
   .step (.send "q1" plan),
   .step (.answer "q1" answered),
   .step (.publish "q1" plan answered true),
   .call "q1" 40 {},
   .step (.finish "q2" finishPlan true),
   .step (.finished "q2" completed),
   .step (.publishFinish "q2" finishPlan completed true)]

def reuse (t : RealtimeState Local.Store.AuthStore) : Option RealtimeTranscriptReuseDecision :=
  match readUserRealtimeSession (t.sessions "m") true "m" "u" with
  | .ok session => some (selectReusableRealtimeTranscript 30000 session)
  | .error _ => none

abbrev LocalStep := RealtimeStep (Local.Calls.QuotaStep id) Local.Streams.PurgeStep

theorem realtimeStart_streamStart : RealtimeStart (·.meetingProcessingReservations) streamStart :=
  ⟨fun _ h => (by cases h), fun _ => rfl, fun _ => rfl⟩

theorem played : ∃ es t, play (Local.Calls.execute id) Local.Calls.freshIn streamStart moves = some (es, t) ∧
    sentItems plan.key es = [plan.item] ∧ purges es = [] ∧ (reuse t).any (·.reusable) = true := by
  have hall : (play (Local.Calls.execute id) Local.Calls.freshIn streamStart moves).any (fun r =>
      decide (sentItems plan.key r.1 = [plan.item] ∧ purges r.1 = []) && (reuse r.2).any (·.reusable)) = true := by
    decide +kernel
  obtain ⟨⟨es, t⟩, hplay, hend⟩ := (Option.any_eq_true _ _).mp hall
  obtain ⟨hsent, hreusable⟩ := Bool.and_eq_true_iff.mp hend
  exact ⟨es, t, hplay, (of_decide_eq_true hsent).1, (of_decide_eq_true hsent).2, hreusable⟩

theorem chunks_sent_once_played : ∃ es t, Run LocalStep streamStart es t ∧ sentItems plan.key es = [plan.item] ∧
    ∃ c, counterFor t.ledger.store.meetingProcessingReservations plan.key = some c ∧
      amounts (sentItems plan.key es) ≤ c.total := by
  obtain ⟨es, t, hplay, hsent, hpurges, -⟩ := played
  have hrun : Run LocalStep streamStart es t := run_of_play hplay
  have hunpurged : Unpurged "u" "m" es := by
    unfold Unpurged
    rw [hpurges]
    exact fun _ h => by cases h
  refine ⟨es, t, hrun, hsent, ?_⟩
  have honce := (chunks_sent_once id).1 streamStart realtimeStart_streamStart
  exact honce.counted hrun "u" "m" hunpurged (by rw [show sentItems ("u", initialMeetingOperationKey "m") es = _ from hsent]; simp)

theorem reused_transcripts_claimed_played : ∃ es t, Run LocalStep streamStart es t ∧
    ∃ chunks, Transcribed es "u" "m" 30000 chunks := by
  obtain ⟨es, t, hplay, -, -, hreusable⟩ := played
  have hrun : Run LocalStep streamStart es t := run_of_play hplay
  obtain ⟨decision, hdecision, hreusable⟩ := (Option.any_eq_true _ _).mp hreusable
  refine ⟨es, t, hrun, ?_⟩
  unfold reuse at hdecision
  split at hdecision
  · rename_i session hread
    cases hdecision
    exact ((reused_transcripts_claimed id).1 streamStart realtimeStart_streamStart hrun hread hreusable).1
  · cases hdecision

/-- The stream goes on after its first request. -/
theorem replayed : ((play (Local.Calls.execute id) Local.Calls.freshIn streamStart (moves.take 1)).any fun r =>
    (r.2.sessions "m").isSome && (play (Local.Calls.execute id) Local.Calls.freshIn r.2 (moves.drop 1)).any fun r' =>
      decide (recorded "m" r'.1 = 1) && r'.1.all fun e => (RealtimeEvent.reads "m" e).all id) = true := by decide +kernel

theorem session_records_kept_played : ∃ es fs s t, Run LocalStep streamStart es s ∧ Run LocalStep s fs t ∧
    recorded "m" fs = 1 ∧ ∃ old ∈ s.sessions "m", Sound old ∧ ∃ new ∈ t.sessions "m", Recorded fs "m" old new := by
  obtain ⟨⟨es, s⟩, hplay, hrest⟩ := (Option.any_eq_true _ _).mp replayed
  obtain ⟨hstored, hrest⟩ := Bool.and_eq_true_iff.mp hrest
  obtain ⟨⟨fs, t⟩, hplay', hrest⟩ := (Option.any_eq_true _ _).mp hrest
  obtain ⟨hone, hreads⟩ := Bool.and_eq_true_iff.mp hrest
  obtain ⟨old, hold⟩ := Option.isSome_iff_exists.mp hstored
  have hrun : Run LocalStep streamStart es s := run_of_play hplay
  have hrun' : Run LocalStep s fs t := run_of_play hplay'
  have hread : ∀ e ∈ fs, ∀ b ∈ RealtimeEvent.reads "m" e, b = true := fun e he =>
    List.all_eq_true.mp (List.all_eq_true.mp hreads e he)
  have hkept := (session_records_kept id).1 streamStart realtimeStart_streamStart
  exact ⟨es, fs, s, t, hrun, hrun', of_decide_eq_true hone, old, hold, hkept.sound hrun old hold,
    hkept.kept hrun hrun' hread old hold⟩

end OwnMinutes.Backends.RealtimeChunks
