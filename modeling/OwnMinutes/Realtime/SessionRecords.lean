import OwnMinutes.Realtime.ChunkClaims

/-! # What a session records

The object of a session is rewritten by the records of chunks, of events and of anomalies, and by nothing else
(`Rewritten`). Whatever its reads return, what is stored adds up (`Sound`); as long as they succeed, nothing that was
counted is lost (`Grows`). -/

namespace OwnMinutes.Realtime.SessionRecords

open OwnMinutes.Lib.Keyed OwnMinutes.Lib.Runs OwnMinutes.Lib.Outcome OwnMinutes.Auth.Records OwnMinutes.Auth.Errors
open OwnMinutes.Auth.QuotaTypes OwnMinutes.Quota.Calls OwnMinutes.Quota.Streams
open OwnMinutes.Finalizer.Records (Provider)
open OwnMinutes.Realtime.Sessions OwnMinutes.Realtime.Chunks OwnMinutes.Realtime.ChunkClaims

/-! ### Segments -/

/-- Segments that have ids of their own, and texts. -/
structure Segmented (segments : List TranscriptSegment) : Prop where
  ids : (segments.map (·.id)).Nodup
  texts : ∀ x ∈ segments, isBlank x.text = false

section Segments

variable {segments : List TranscriptSegment} {segment : TranscriptSegment}

theorem ids_set {i : ℕ} (h : segments.findIdx? (fun item => item.id == segment.id) = some i) :
    (segments.set i segment).map (·.id) = segments.map (·.id) := by
  obtain ⟨hi, hid, -⟩ := List.findIdx?_eq_some_iff_getElem.mp h
  have hlength : i < (segments.map (·.id)).length := by
    rw [List.length_map]
    exact hi
  have hsame : (segments.map (·.id))[i] = segment.id := by
    rw [List.getElem_map]
    exact beq_iff_eq.mp hid
  rw [List.map_set, ← hsame, List.set_getElem_self]

theorem Segmented.put (h : Segmented segments) (htext : isBlank segment.text = false) :
    Segmented (putSegment segments segment) where
  ids := by
    unfold putSegment
    split
    · rename_i i hfound
      rw [ids_set hfound]
      exact h.ids
    · rename_i hnone
      rw [List.map_append, List.map_singleton]
      refine List.Nodup.append h.ids (List.nodup_singleton _) fun id hold hnew => ?_
      obtain ⟨x, hx, rfl⟩ := List.mem_map.mp hold
      have hid : x.id = segment.id := List.mem_singleton.mp hnew
      have hother := List.findIdx?_eq_none_iff.mp hnone x hx
      rw [hid, beq_self_eq_true] at hother
      cases hother
  texts x hx := by
    rcases mem_putSegment hx with hold | rfl
    · exact h.texts x hold
    · exact htext

theorem Segmented.last (h : Segmented segments) : Segmented (lastSegments segments) where
  ids := by
    unfold lastSegments
    rw [List.map_drop]
    exact h.ids.sublist (List.drop_sublist _ _)
  texts x hx := h.texts x (mem_lastSegments hx)

theorem length_lastSegments (segments : List TranscriptSegment) : (lastSegments segments).length ≤ 5000 := by
  unfold lastSegments
  rw [List.length_drop]
  omega

theorem Segmented.upsert (h : Segmented segments) (segment : Option TranscriptSegment) :
    Segmented (upsertTranscriptSegment segments segment) := by
  unfold upsertTranscriptSegment
  split
  · exact h
  · rename_i s hs
    have htext : isBlank s.text = false := by simpa using (Option.filter_eq_some_iff.mp hs).2
    exact (h.put htext).last

theorem length_upsert (h : segments.length ≤ 5000) (segment : Option TranscriptSegment) :
    (upsertTranscriptSegment segments segment).length ≤ 5000 := by
  unfold upsertTranscriptSegment
  split
  · exact h
  · exact length_lastSegments _

/-- What is read has ids of its own and texts, whatever was stored. -/
theorem segmented_normalized (segments : List TranscriptSegment) : Segmented (normalizeTranscriptSegments segments) := by
  have hfold : ∀ (items unique : List TranscriptSegment), Segmented unique → Segmented (items.foldl
      (fun unique item => if isBlank item.text then unique else putSegment unique (normalizeTranscriptSegment item))
      unique) := by
    intro items
    induction items with
    | nil => exact fun _ h => h
    | cons item items ih =>
      intro unique h
      rw [List.foldl_cons]
      refine ih _ ?_
      split_ifs with hblank
      · exact h
      · exact h.put (Bool.not_eq_true _ ▸ hblank)
  exact (hfold segments [] ⟨List.nodup_nil, by simp⟩).last

theorem length_normalized (segments : List TranscriptSegment) : (normalizeTranscriptSegments segments).length ≤ 5000 := by
  unfold normalizeTranscriptSegments
  exact length_lastSegments _

end Segments

/-! ### What adds up -/

/-- All answers that are counted. -/
def answers (counts : RealtimeSessionStatus → ℕ) : ℕ :=
  counts .accepted + counts .draft + counts .notConfigured + counts .pendingProtocol + counts .providerError +
    counts .reconnecting + counts .completed + counts .rejectedFormat

theorem answers_increment (counts : RealtimeSessionStatus → ℕ) (status : RealtimeSessionStatus) :
    answers (incrementStatusCounts counts status) = answers counts + 1 := by
  unfold answers incrementStatusCounts
  cases status <;> simp only [Function.update_self, ne_eq, reduceCtorEq, not_false_eq_true, Function.update_of_ne] <;>
    omega

theorem le_incrementStatusCounts (counts : RealtimeSessionStatus → ℕ) (status other : RealtimeSessionStatus) :
    counts other ≤ incrementStatusCounts counts status other := by
  unfold incrementStatusCounts
  by_cases hother : other = status
  · rw [hother, Function.update_self]
    exact Nat.le_succ _
  · rw [Function.update_of_ne hother]

/-- What is counted is one recording. -/
structure Sound (session : RealtimeSessionSummary) : Prop where
  counts : session.acceptedChunkCount + session.rejectedChunkCount = session.chunkCount
  answers : session.chunkCount ≤ answers session.statusCounts
  duration : 0 ≤ session.totalDurationMs
  last : ∀ last ∈ session.lastSequence, 0 < last ∧ ∃ highest ∈ session.highestSequence, last ≤ highest
  drift : ∀ drift ∈ session.lastByteDrift, drift.natAbs ≤ session.maxAbsByteDrift
  segments : Segmented session.transcriptSegments
  bounded : session.transcriptSegments.length ≤ 5000

/-- Nothing of the first session is lost in the second. -/
structure Grows (old new : RealtimeSessionSummary) : Prop where
  owner : new.ownerUserId = old.ownerUserId
  chunks : old.chunkCount ≤ new.chunkCount
  accepted : old.acceptedChunkCount ≤ new.acceptedChunkCount
  rejected : old.rejectedChunkCount ≤ new.rejectedChunkCount
  bytes : old.totalBytes ≤ new.totalBytes
  duration : old.totalDurationMs ≤ new.totalDurationMs
  highest : ∀ sequence ∈ old.highestSequence, 0 < sequence → ∃ highest ∈ new.highestSequence, sequence ≤ highest
  duplicates : old.duplicateSequenceCount ≤ new.duplicateSequenceCount
  outOfOrder : old.outOfOrderCount ≤ new.outOfOrderCount
  drift : old.maxAbsByteDrift ≤ new.maxAbsByteDrift
  formats : old.formatMismatchCount ≤ new.formatMismatchCount
  answers : ∀ status, old.statusCounts status ≤ new.statusCounts status

theorem Grows.refl (session : RealtimeSessionSummary) : Grows session session :=
  ⟨rfl, le_rfl, le_rfl, le_rfl, le_rfl, le_rfl, fun sequence h _ => ⟨sequence, h, le_rfl⟩, le_rfl, le_rfl, le_rfl, le_rfl,
    fun _ => le_rfl⟩

theorem Grows.trans {old mid new : RealtimeSessionSummary} (h : Grows old mid) (h' : Grows mid new) : Grows old new where
  owner := h'.owner.trans h.owner
  chunks := h.chunks.trans h'.chunks
  accepted := h.accepted.trans h'.accepted
  rejected := h.rejected.trans h'.rejected
  bytes := h.bytes.trans h'.bytes
  duration := h.duration.trans h'.duration
  highest sequence hsequence hpos := by
    obtain ⟨middle, hmiddle, hle⟩ := h.highest sequence hsequence hpos
    obtain ⟨highest, hhighest, hle'⟩ := h'.highest middle hmiddle (hpos.trans_le hle)
    exact ⟨highest, hhighest, hle.trans hle'⟩
  duplicates := h.duplicates.trans h'.duplicates
  outOfOrder := h.outOfOrder.trans h'.outOfOrder
  drift := h.drift.trans h'.drift
  formats := h.formats.trans h'.formats
  answers status := (h.answers status).trans (h'.answers status)

/-! ### Reading -/

variable {stored stored' : Option RealtimeSessionSummary} {session current next old : RealtimeSessionSummary}
  {readable : Bool} {meetingId : MeetingId} {ownerUserId : UserId}

/-- A session that starts again. -/
theorem sound_fresh (provider : Provider) (adapter : String) :
    Sound { emptyRealtimeSession meetingId ownerUserId with provider, adapter } where
  counts := rfl
  answers := Nat.zero_le _
  duration := le_rfl
  last _ h := by cases h
  drift _ h := by cases h
  segments := ⟨List.nodup_nil, fun _ h => by cases h⟩
  bounded := Nat.zero_le _

theorem Sound.normalized (h : Sound session) : Sound (normalizeRealtimeSession session meetingId) where
  counts := h.counts
  answers := h.answers
  duration := h.duration
  last last hlast := by
    obtain ⟨hlast, hpos⟩ := Option.filter_eq_some_iff.mp hlast
    obtain ⟨-, highest, hhighest, hle⟩ := h.last last hlast
    refine ⟨of_decide_eq_true hpos, highest, ?_, hle⟩
    exact Option.filter_eq_some_iff.mpr ⟨hhighest, decide_eq_true ((of_decide_eq_true hpos).trans_le hle)⟩
  drift := h.drift
  segments := by
    rw [normalizeRealtimeSession_segments]
    exact segmented_normalized _
  bounded := by
    rw [normalizeRealtimeSession_segments]
    exact length_normalized _

theorem sound_current (h : ∀ s ∈ stored, Sound s)
    (hcurrent : currentSession stored readable meetingId ownerUserId = .ok current) : Sound current := by
  unfold currentSession at hcurrent
  obtain ⟨-, hcurrent⟩ := guard_eq_ok.mp hcurrent
  cases hcurrent
  unfold readRealtimeSession
  cases readable with
  | false => exact sound_fresh .mock "unknown"
  | true =>
    cases stored with
    | none => exact sound_fresh .mock "unknown"
    | some s => exact (h s rfl).normalized

/-- A session that is read has all that was stored. -/
theorem grows_current (hcurrent : currentSession (some old) true meetingId ownerUserId = .ok current) :
    Grows old current := by
  unfold currentSession at hcurrent
  obtain ⟨-, hcurrent⟩ := guard_eq_ok.mp hcurrent
  cases hcurrent
  refine ⟨rfl, le_rfl, le_rfl, le_rfl, le_rfl, le_rfl, fun sequence hsequence hpos => ⟨sequence, ?_, le_rfl⟩, le_rfl,
    le_rfl, le_rfl, le_rfl, fun _ => le_rfl⟩
  exact Option.filter_eq_some_iff.mpr ⟨hsequence, decide_eq_true hpos⟩

/-! ### Writing -/

theorem sound_chunk {input : ChunkRecord} (h : ∀ s ∈ stored, Sound s) (hsequence : 0 < input.sequence)
    (hduration : 0 < input.durationMs) (hrecord : recordRealtimeSessionChunk stored readable input = .ok next) :
    Sound next := by
  obtain ⟨current, hcurrent, hnext⟩ := bind_eq_ok.mp hrecord
  have hcurrent : Sound current := sound_current h hcurrent
  cases hnext
  have hcounts := hcurrent.counts
  have hanswers := hcurrent.answers
  refine ⟨?_, ?_, add_nonneg hcurrent.duration hduration.le, ?_, ?_, hcurrent.segments.upsert _,
    length_upsert hcurrent.bounded _⟩
  · dsimp only
    split_ifs <;> omega
  · dsimp only
    rw [answers_increment]
    omega
  · intro last hlast
    obtain rfl : input.sequence = last := Option.some.inj hlast
    exact ⟨hsequence, _, rfl, le_max_right _ _⟩
  · intro drift hdrift
    obtain rfl : input.byteDrift = drift := Option.some.inj hdrift
    exact le_max_right _ _

theorem sound_event {input : EventRecord} (h : ∀ s ∈ stored, Sound s)
    (hrecord : recordRealtimeSessionEvent stored readable input = .ok next) : Sound next := by
  obtain ⟨current, hcurrent, hnext⟩ := bind_eq_ok.mp hrecord
  have hcurrent : Sound current := sound_current h hcurrent
  cases hnext
  have hanswers := hcurrent.answers
  refine ⟨hcurrent.counts, ?_, hcurrent.duration, hcurrent.last, hcurrent.drift, hcurrent.segments.upsert _,
    length_upsert hcurrent.bounded _⟩
  dsimp only
  rw [answers_increment]
  omega

theorem sound_anomaly {input : AnomalyRecord} (h : ∀ s ∈ stored, Sound s)
    (hrecord : recordRealtimeSequenceAnomaly stored readable input = .ok next) : Sound next := by
  obtain ⟨current, hcurrent, hnext⟩ := bind_eq_ok.mp hrecord
  have hcurrent : Sound current := sound_current h hcurrent
  cases hnext
  exact { hcurrent with }

theorem grows_chunk {input : ChunkRecord} (hduration : 0 < input.durationMs)
    (hrecord : recordRealtimeSessionChunk (some old) true input = .ok next) : Grows old next := by
  obtain ⟨current, hcurrent, hnext⟩ := bind_eq_ok.mp hrecord
  refine (grows_current hcurrent).trans ?_
  cases hnext
  refine ⟨rfl, Nat.le_succ _, Nat.le_add_right _ _, Nat.le_add_right _ _, Nat.le_add_right _ _,
    le_add_of_nonneg_right hduration.le, fun sequence hsequence _ => ⟨_, rfl, ?_⟩, Nat.le_add_right _ _,
    Nat.le_add_right _ _, le_max_left _ _, Nat.le_add_right _ _, le_incrementStatusCounts _ _⟩
  rw [Option.mem_def.mp hsequence]
  exact le_max_left _ _

/-- The chunk that is recorded is counted. -/
theorem counted_chunk {input : ChunkRecord} (hrecord : recordRealtimeSessionChunk (some old) true input = .ok next) :
    old.chunkCount + 1 ≤ next.chunkCount := by
  obtain ⟨current, hcurrent, hnext⟩ := bind_eq_ok.mp hrecord
  have hgrows : Grows old current := grows_current hcurrent
  cases hnext
  exact Nat.succ_le_succ hgrows.chunks

theorem grows_event {input : EventRecord} (hrecord : recordRealtimeSessionEvent (some old) true input = .ok next) :
    Grows old next := by
  obtain ⟨current, hcurrent, hnext⟩ := bind_eq_ok.mp hrecord
  refine (grows_current hcurrent).trans ?_
  cases hnext
  exact { Grows.refl current with answers := le_incrementStatusCounts _ _ }

theorem grows_anomaly {input : AnomalyRecord}
    (hrecord : recordRealtimeSequenceAnomaly (some old) true input = .ok next) : Grows old next := by
  obtain ⟨current, hcurrent, hnext⟩ := bind_eq_ok.mp hrecord
  refine (grows_current hcurrent).trans ?_
  cases hnext
  exact { Grows.refl current with duplicates := Nat.le_add_right _ _, outOfOrder := Nat.le_add_right _ _ }

/-- What is done to the object of a session, with reads that `reads` allows. -/
inductive Rewritten (reads : Bool → Prop) (stored : Option RealtimeSessionSummary) :
    Option RealtimeSessionSummary → Prop
  | removed (hread : reads false) : Rewritten reads stored none
  | ensured {readable : Bool} {meetingId : MeetingId} {ownerUserId : UserId} {provider : Provider}
      {next : Option RealtimeSessionSummary} (hread : reads readable)
      (hensured : ensureRealtimeSessionOwnership stored readable meetingId ownerUserId provider = .ok next) :
      Rewritten reads stored next
  | chunk {readable : Bool} {input : ChunkRecord} {next : RealtimeSessionSummary} (hread : reads readable)
      (hsequence : 0 < input.sequence) (hduration : 0 < input.durationMs)
      (hrecord : recordRealtimeSessionChunk stored readable input = .ok next) : Rewritten reads stored (some next)
  | event {readable : Bool} {input : EventRecord} {next : RealtimeSessionSummary} (hread : reads readable)
      (hrecord : recordRealtimeSessionEvent stored readable input = .ok next) : Rewritten reads stored (some next)
  | anomaly {readable : Bool} {input : AnomalyRecord} {next : RealtimeSessionSummary} (hread : reads readable)
      (hrecord : recordRealtimeSequenceAnomaly stored readable input = .ok next) : Rewritten reads stored (some next)

abbrev Rewrites (reads : Bool → Prop) := Relation.ReflTransGen (Rewritten reads)

theorem sound_rewritten {reads : Bool → Prop} (h : ∀ s ∈ stored, Sound s) (hrewritten : Rewritten reads stored stored') :
    ∀ s ∈ stored', Sound s := by
  intro s hs
  cases hrewritten with
  | removed => cases hs
  | ensured _ hensured =>
    unfold ensureRealtimeSessionOwnership at hensured
    split at hensured
    · obtain ⟨-, hensured⟩ := guard_eq_ok.mp hensured
      cases hensured
      exact h s hs
    · cases hensured
      obtain rfl := Option.some.inj hs
      exact sound_fresh _ _
  | chunk _ hsequence hduration hrecord =>
    obtain rfl := Option.some.inj hs
    exact sound_chunk h hsequence hduration hrecord
  | event _ hrecord =>
    obtain rfl := Option.some.inj hs
    exact sound_event h hrecord
  | anomaly _ hrecord =>
    obtain rfl := Option.some.inj hs
    exact sound_anomaly h hrecord

theorem grows_rewritten (hrewritten : Rewritten (· = true) (some old) stored') : ∃ new ∈ stored', Grows old new := by
  cases hrewritten with
  | removed hread => cases hread
  | ensured hread hensured =>
    subst hread
    obtain ⟨-, hensured⟩ := guard_eq_ok.mp hensured
    cases hensured
    exact ⟨old, rfl, .refl old⟩
  | chunk hread _ hduration hrecord =>
    subst hread
    exact ⟨_, rfl, grows_chunk hduration hrecord⟩
  | event hread hrecord =>
    subst hread
    exact ⟨_, rfl, grows_event hrecord⟩
  | anomaly hread hrecord =>
    subst hread
    exact ⟨_, rfl, grows_anomaly hrecord⟩

theorem sound_rewrites {reads : Bool → Prop} (hrewrites : Rewrites reads stored stored') (h : ∀ s ∈ stored, Sound s) :
    ∀ s ∈ stored', Sound s := by
  induction hrewrites with
  | refl => exact h
  | tail _ hrewritten ih => exact sound_rewritten ih hrewritten

theorem grows_rewrites (hrewrites : Rewrites (· = true) (some old) stored') : ∃ new ∈ stored', Grows old new := by
  induction hrewrites with
  | refl => exact ⟨old, rfl, .refl old⟩
  | tail _ hrewritten ih =>
    obtain ⟨middle, hmiddle, hgrows⟩ := ih
    rw [Option.mem_def.mp hmiddle] at hrewritten
    obtain ⟨new, hnew, hgrows'⟩ := grows_rewritten hrewritten
    exact ⟨new, hnew, hgrows.trans hgrows'⟩

/-! ### Steps -/

/-- The reads of the session of a meeting that an event depends on; a session that is removed cannot be read. -/
def RealtimeEvent.reads (meetingId : MeetingId) : RealtimeEvent → List Bool
  | .post _ _ _ reads c => if c.meetingId = meetingId then [reads.record, reads.exhausted] else []
  | .ledger _ _ readable e =>
    match e.call with
    | .reserveRealtime _ input _ => if input.meetingId = meetingId then [readable] else []
    | _ => []
  | .publish _ p _ readable => if p.chunk.meetingId = meetingId then [readable] else []
  | .publishFinish _ p _ readable => if p.meetingId = meetingId then [readable] else []
  | .removeSession removed => if removed = meetingId then [false] else []
  | _ => []

section Steps

variable {σ : Type} {s t : RealtimeState σ} {e : RealtimeEvent} {reads : Bool → Prop}

theorem meeting_of_accepted {raw : RealtimeChunk} {c : AcceptedChunk} (h : acceptChunk raw = .ok c) :
    c.toRealtimeChunk = raw := by
  unfold acceptChunk at h
  split_ifs at h
  cases h
  rfl

theorem rewrites_written {result : Except RealtimeSessionAccessError RealtimeSessionSummary}
    (h : ∀ next, result = .ok next → Rewritten reads stored (some next)) : Rewrites reads stored (written stored result) := by
  cases result with
  | error _ => exact .refl
  | ok next => exact .single (h next rfl)

theorem rewrites_preflight {config : ChunkConfig} {r : PreflightReads} {userId : UserId} {c : AcceptedChunk}
    (hrecord : reads r.record) (hexhausted : reads r.exhausted) :
    Rewrites reads stored (preflight config r userId c stored).1 := by
  unfold preflight
  dsimp only
  split
  · exact .refl
  split
  · exact .refl
  split
  · exact rewrites_written fun _ h => .anomaly hrecord h
  · exact rewrites_written fun _ h => .anomaly hrecord h
  split
  · exact rewrites_written fun _ h => .chunk hrecord c.sequence_pos c.durationMs_pos h
  split
  · exact .refl
  · rename_i hensured
    have hensured := Relation.ReflTransGen.single (Rewritten.ensured hrecord hensured)
    split
    · exact hensured
    split
    · exact hensured.trans (rewrites_written fun _ h => .chunk hexhausted c.sequence_pos c.durationMs_pos h)
    · exact hensured

/-- Another meeting keeps its session. -/
theorem rewrites_setSession {changed : MeetingId} {next : Option RealtimeSessionSummary}
    (h : changed = meetingId → Rewrites reads (s.sessions changed) next)
    (hsessions : t.sessions = (s.setSession changed next).sessions) :
    Rewrites reads (s.sessions meetingId) (t.sessions meetingId) := by
  rw [hsessions]
  by_cases hchanged : meetingId = changed
  · subst hchanged
    rw [RealtimeState.setSession_self]
    exact h rfl
  · rw [RealtimeState.setSession_of_ne s next hchanged]

/-- The request that is refused for want of quota asked for the meeting of its chunk. -/
theorem reads_exhausted {id : RequestId} {drawn : Drawn} {q : QuotaEvent} {p : RealtimeProviderPlan}
    {result : Except AuthError QuotaResult} {phase : Phase} (hcall : phase.quotaCall drawn = some q.call)
    (hexhausted : phase.exhausted result = some p) :
    RealtimeEvent.reads p.chunk.meetingId (.ledger id drawn readable q) = [readable] := by
  unfold Phase.exhausted at hexhausted
  split at hexhausted
  · rename_i plan
    have hplan : plan = p := by
      split at hexhausted
      · split_ifs at hexhausted
        exact Option.some.inj hexhausted
      · cases hexhausted
    subst hplan
    unfold RealtimeEvent.reads
    dsimp only
    rw [← Option.some.inj hcall]
    exact if_pos rfl
  · cases hexhausted

variable {call : Clocked σ → QuotaEvent → Clocked σ → Prop} {purge : Clocked σ → LedgerPurge → Clocked σ → Prop}

theorem rewrites_step (hstep : RealtimeStep call purge s e t) (hreads : ∀ b ∈ RealtimeEvent.reads meetingId e, reads b) :
    Rewrites reads (s.sessions meetingId) (t.sessions meetingId) := by
  rcases step_cases hstep with ⟨id, drawn, readable, q, rfl, hcall, -, ht⟩ | ⟨q, rfl, -, ht⟩ |
    ⟨q, rfl, -, -, ht⟩ | ⟨-, hchange⟩
  · rw [ht, called]
    dsimp only
    split
    · rename_i p hexhausted
      refine rewrites_setSession (fun hmeeting => rewrites_written fun _ hrecord => ?_) rfl
      subst hmeeting
      rw [reads_exhausted hcall hexhausted] at hreads
      exact .chunk (hreads readable List.mem_cons_self) p.chunk.sequence_pos p.chunk.durationMs_pos hrecord
    · exact .refl
  · rw [ht]
  · rw [ht]
  · cases hchange with
    | refused => exact .refl
    | @posted _ _ _ r raw c haccepted =>
      refine rewrites_setSession (fun hmeeting => ?_) rfl
      have hmeeting : raw.meetingId = meetingId := meeting_of_accepted haccepted ▸ hmeeting
      simp only [RealtimeEvent.reads, if_pos hmeeting] at hreads
      exact rewrites_preflight (hreads _ List.mem_cons_self) (hreads _ (List.mem_cons_of_mem _ List.mem_cons_self))
    | sent | answered => exact .refl
    | @published _ p _ _ _ readable _ _ _ hrecord =>
      refine rewrites_setSession (fun hmeeting => .single ?_) rfl
      simp only [RealtimeEvent.reads, if_pos hmeeting] at hreads
      exact .chunk (hreads readable List.mem_cons_self) p.chunk.sequence_pos p.chunk.durationMs_pos hrecord
    | finish | finished => exact .refl
    | @publishedFinish _ p _ readable _ hrecord =>
      refine rewrites_setSession (fun hmeeting => .single ?_) rfl
      simp only [RealtimeEvent.reads, if_pos hmeeting] at hreads
      exact .event (hreads readable List.mem_cons_self) hrecord
    | dropped | deletedMeeting | deletedUser => exact .refl
    | removed =>
      refine rewrites_setSession (fun hmeeting => .single ?_) rfl
      simp only [RealtimeEvent.reads, if_pos hmeeting] at hreads
      exact .removed (hreads false List.mem_cons_self)

theorem rewrites_of_run {es : List RealtimeEvent} (hrun : Run (RealtimeStep call purge) s es t)
    (hreads : ∀ e ∈ es, ∀ b ∈ RealtimeEvent.reads meetingId e, reads b) :
    Rewrites reads (s.sessions meetingId) (t.sessions meetingId) := by
  induction hrun with
  | nil => exact .refl
  | cons hstep _ ih =>
    have hfirst := rewrites_step hstep (hreads _ List.mem_cons_self)
    exact hfirst.trans (ih fun e he => hreads e (List.mem_cons_of_mem _ he))

/-! ### What is published is counted -/

/-- The answers that are published in the session of a meeting. -/
def recorded (meetingId : MeetingId) (es : List RealtimeEvent) : ℕ :=
  (published es).countP fun p => decide (p.plan.chunk.meetingId = meetingId)

theorem recorded_cons (e : RealtimeEvent) (es : List RealtimeEvent) :
    recorded meetingId (e :: es) = recorded meetingId [e] + recorded meetingId es := by
  have happend : published (e :: es) = published [e] ++ published es := published_append [e] es
  unfold recorded
  rw [happend, List.countP_append]

/-- The session has all that it had, and the answers that were published. -/
structure Recorded (es : List RealtimeEvent) (meetingId : MeetingId) (old new : RealtimeSessionSummary) : Prop where
  grows : Grows old new
  counted : old.chunkCount + recorded meetingId es ≤ new.chunkCount

theorem recorded_none (hstep : RealtimeStep call purge s e t)
    (hreads : ∀ b ∈ RealtimeEvent.reads meetingId e, b = true) (hold : s.sessions meetingId = some old)
    (hnone : recorded meetingId [e] = 0) : ∃ new ∈ t.sessions meetingId, Recorded [e] meetingId old new := by
  have hrewrites := rewrites_step hstep hreads
  rw [hold] at hrewrites
  obtain ⟨new, hnew, hgrows⟩ := grows_rewrites hrewrites
  refine ⟨new, hnew, hgrows, ?_⟩
  rw [hnone]
  exact hgrows.chunks

theorem recorded_step (hstep : RealtimeStep call purge s e t)
    (hreads : ∀ b ∈ RealtimeEvent.reads meetingId e, b = true) (hold : s.sessions meetingId = some old) :
    ∃ new ∈ t.sessions meetingId, Recorded [e] meetingId old new := by
  rcases step_cases hstep with ⟨id, drawn, readable, q, rfl, -⟩ | ⟨q, rfl, -⟩ | ⟨q, rfl, -⟩ | ⟨-, hchange⟩
  · exact recorded_none hstep hreads hold rfl
  · exact recorded_none hstep hreads hold rfl
  · exact recorded_none hstep hreads hold rfl
  · cases hchange with
    | refused _ hpublish => exact recorded_none hstep hreads hold (congrArg (List.countP _) hpublish)
    | dropped _ hpublish => exact recorded_none hstep hreads hold (congrArg (List.countP _) hpublish)
    | @published id p _ _ answer readable next _ _ hrecord =>
      by_cases hmeeting : p.chunk.meetingId = meetingId
      · subst hmeeting
        have hread : readable = true := by
          simp only [RealtimeEvent.reads, if_true] at hreads
          exact hreads readable List.mem_cons_self
        rw [hold, hread] at hrecord
        refine ⟨next, RealtimeState.setSession_self s _ (some next), grows_chunk p.chunk.durationMs_pos hrecord, ?_⟩
        have hone : recorded p.chunk.meetingId [.publish id p answer readable] = 1 :=
          List.countP_eq_length.mpr fun q hq => by
            obtain rfl : q = ⟨p, answer⟩ := List.mem_singleton.mp hq
            exact decide_eq_true rfl
        exact hone ▸ counted_chunk hrecord
      · refine recorded_none hstep hreads hold (List.countP_eq_zero.mpr fun q hq => ?_)
        obtain rfl : q = ⟨p, answer⟩ := List.mem_singleton.mp hq
        exact fun h => hmeeting (of_decide_eq_true h)
    | _ => exact recorded_none hstep hreads hold rfl

theorem recorded_of_run {es : List RealtimeEvent} (hrun : Run (RealtimeStep call purge) s es t)
    (hreads : ∀ e ∈ es, ∀ b ∈ RealtimeEvent.reads meetingId e, b = true) {old : RealtimeSessionSummary}
    (hold : s.sessions meetingId = some old) : ∃ new ∈ t.sessions meetingId, Recorded es meetingId old new := by
  induction hrun generalizing old with
  | nil => exact ⟨old, hold, .refl old, le_rfl⟩
  | cons hstep _ ih =>
    obtain ⟨middle, hmiddle, hfirst⟩ := recorded_step hstep (hreads _ List.mem_cons_self) hold
    obtain ⟨new, hnew, hrest⟩ := ih (fun e he => hreads e (List.mem_cons_of_mem _ he)) hmiddle
    refine ⟨new, hnew, hfirst.grows.trans hrest.grows, ?_⟩
    have hcounted := hfirst.counted
    have hcounted' := hrest.counted
    rw [recorded_cons]
    omega

/-- What the sessions record is sound, and kept as long as they can be read. -/
structure KeepsRecords (call : Clocked σ → QuotaEvent → Clocked σ → Prop)
    (purge : Clocked σ → LedgerPurge → Clocked σ → Prop) (start : RealtimeState σ) : Prop where
  sound : ∀ {es : List RealtimeEvent} {t : RealtimeState σ}, Run (RealtimeStep call purge) start es t →
    ∀ {meetingId : MeetingId}, ∀ session ∈ t.sessions meetingId, Sound session
  kept : ∀ {es fs : List RealtimeEvent} {s t : RealtimeState σ}, Run (RealtimeStep call purge) start es s →
    Run (RealtimeStep call purge) s fs t → ∀ {meetingId : MeetingId},
      (∀ e ∈ fs, ∀ b ∈ RealtimeEvent.reads meetingId e, b = true) → ∀ old ∈ s.sessions meetingId,
        ∃ new ∈ t.sessions meetingId, Recorded fs meetingId old new

/-- **Nothing that a session has recorded is lost.** -/
theorem keepsRecords_of_start {reservationsOf : σ → Table MeetingProcessingReservationRecord} {start : RealtimeState σ}
    (hstart : RealtimeStart reservationsOf start) : KeepsRecords call purge start where
  sound {_ t} hrun meetingId := by
    have hrewrites : Rewrites (fun _ => True) (start.sessions meetingId) (t.sessions meetingId) :=
      rewrites_of_run hrun fun _ _ _ _ => trivial
    refine sound_rewrites hrewrites ?_
    rw [hstart.sessions meetingId]
    exact fun _ h => by cases h
  kept _ hrun _ hreads _ hold := recorded_of_run hrun hreads hold

end Steps

end OwnMinutes.Realtime.SessionRecords
