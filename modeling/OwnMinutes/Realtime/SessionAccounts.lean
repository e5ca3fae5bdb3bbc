import OwnMinutes.Realtime.ChunkClaims

/-! # What a session accounts for

A session without errors has the duration of chunks that were published one after the other, and every session has
segments that were answered for its owner. Whatever the reads of a session return, this holds of what is stored. -/

namespace OwnMinutes.Realtime.SessionAccounts

open OwnMinutes.Lib.Keyed OwnMinutes.Lib.Runs OwnMinutes.Lib.Outcome OwnMinutes.Auth.Records OwnMinutes.Auth.Errors
open OwnMinutes.Auth.QuotaTypes OwnMinutes.Quota.Calls OwnMinutes.Quota.Streams
open OwnMinutes.Finalizer.Records (Provider)
open OwnMinutes.Realtime.Sessions OwnMinutes.Realtime.Chunks OwnMinutes.Realtime.ChunkClaims

/-! ### Accounts -/

/-- A segment that is recorded, with the user and the meeting. -/
def RealtimeEvent.returned? : RealtimeEvent → Option (UserId × MeetingId × TranscriptSegment)
  | .publish _ p answer _ => answer.transcriptSegment.map fun x => (p.userId, p.chunk.meetingId, x)
  | .publishFinish _ p result _ => result.transcriptSegment.map fun x => (p.userId, p.meetingId, x)
  | _ => none

/-- The text of the segment was returned under its id. -/
def Returned (es : List RealtimeEvent) (ownerUserId : UserId) (meetingId : MeetingId) (x : TranscriptSegment) : Prop :=
  ∃ e ∈ es, ∃ y, RealtimeEvent.returned? e = some (ownerUserId, meetingId, y) ∧ y.id = x.id ∧ y.text = x.text

/-- No error of format, order or provider is counted. -/
structure Clean (session : RealtimeSessionSummary) : Prop where
  format : session.formatMismatchCount = 0
  order : session.outOfOrderCount = 0
  provider : session.statusCounts .providerError = 0

def durations : List Published → ℚ
  | [] => 0
  | p :: chunks => p.plan.chunk.durationMs + durations chunks

theorem durations_append (chunks more : List Published) :
    durations (chunks ++ more) = durations chunks + durations more := by
  induction chunks with
  | nil => exact (zero_add _).symm
  | cons p chunks ih =>
    have hcons : durations (p :: (chunks ++ more)) = p.plan.chunk.durationMs + durations (chunks ++ more) := rfl
    rw [List.cons_append, hcons, ih, ← add_assoc]
    rfl

/-- The chunks that make up a session. -/
structure Covers (es : List RealtimeEvent) (meetingId : MeetingId) (session : RealtimeSessionSummary)
    (chunks : List Published) : Prop where
  published : chunks.Sublist (published es)
  own : ∀ p ∈ chunks, p.plan.userId = session.ownerUserId ∧ p.plan.chunk.meetingId = meetingId
  answered : ∀ p ∈ chunks, p.answer.providerStatus ≠ some .providerError
  duration : session.totalDurationMs = durations chunks
  ordered : (chunks.map (·.plan.chunk.sequence)).Pairwise (· ≤ ·)
  last : session.lastSequence = chunks.getLast?.map (·.plan.chunk.sequence)

structure Accounted (es : List RealtimeEvent) (meetingId : MeetingId) (session : RealtimeSessionSummary) : Prop where
  segments : ∀ x ∈ session.transcriptSegments, Returned es session.ownerUserId meetingId x
  chunks : Clean session → ∃ chunks, Covers es meetingId session chunks

variable {es : List RealtimeEvent} {e : RealtimeEvent} {meetingId : MeetingId} {ownerUserId : UserId}
  {session current next : RealtimeSessionSummary} {stored : Option RealtimeSessionSummary} {readable : Bool}

theorem Returned.later {x : TranscriptSegment} (h : Returned es ownerUserId meetingId x) (fs : List RealtimeEvent) :
    Returned (es ++ fs) ownerUserId meetingId x := by
  obtain ⟨e, he, hreturned⟩ := h
  exact ⟨e, List.mem_append_left _ he, hreturned⟩

theorem Covers.later {chunks : List Published} (h : Covers es meetingId session chunks) (fs : List RealtimeEvent) :
    Covers (es ++ fs) meetingId session chunks :=
  { h with
    published := by
      rw [published_append]
      exact h.published.trans (List.sublist_append_left _ _) }

theorem Accounted.later (h : Accounted es meetingId session) (fs : List RealtimeEvent) :
    Accounted (es ++ fs) meetingId session where
  segments x hx := (h.segments x hx).later fs
  chunks hclean := by
    obtain ⟨chunks, hcovers⟩ := h.chunks hclean
    exact ⟨chunks, hcovers.later fs⟩

/-- A session that starts again. -/
theorem accounted_empty (hsegments : session.transcriptSegments = []) (hduration : session.totalDurationMs = 0)
    (hlast : session.lastSequence = none) : Accounted es meetingId session where
  segments := by rw [hsegments]; simp
  chunks _ := ⟨[], List.nil_sublist _, by simp, by simp, hduration, .nil, hlast⟩

/-- A record that adds no segment, and does not hide an error or change what is counted. -/
theorem Accounted.same (h : Accounted es meetingId current) (howner : next.ownerUserId = current.ownerUserId)
    (hsegments : ∀ x ∈ next.transcriptSegments, Returned es current.ownerUserId meetingId x)
    (hclean : Clean next → Clean current ∧ next.totalDurationMs = current.totalDurationMs ∧
      next.lastSequence = current.lastSequence) : Accounted es meetingId next where
  segments x hx := by
    rw [howner]
    exact hsegments x hx
  chunks hnext := by
    obtain ⟨hcurrent, hduration, hlast⟩ := hclean hnext
    obtain ⟨chunks, hcovers⟩ := h.chunks hcurrent
    exact ⟨chunks, hcovers.published, by rw [howner]; exact hcovers.own, hcovers.answered, hduration.trans hcovers.duration,
      hcovers.ordered, hlast.trans hcovers.last⟩

/-! ### Reading -/

theorem Accounted.normalized (h : Accounted es meetingId session) :
    Accounted es meetingId (normalizeRealtimeSession session meetingId) where
  segments x hx := by
    rw [normalizeRealtimeSession_segments] at hx
    obtain ⟨item, hitem, rfl⟩ := mem_normalizeTranscriptSegments hx
    exact h.segments item hitem
  chunks hclean := by
    obtain ⟨chunks, hcovers⟩ := h.chunks ⟨hclean.format, hclean.order, hclean.provider⟩
    refine ⟨chunks, hcovers.published, hcovers.own, hcovers.answered, hcovers.duration, hcovers.ordered, ?_⟩
    change normalizeOptionalNumber session.lastSequence = _
    rw [hcovers.last]
    cases hlast : chunks.getLast? with
    | none => rfl
    | some p => exact Option.filter_eq_some_iff.mpr ⟨rfl, decide_eq_true p.plan.chunk.sequence_pos⟩

/-- The session a record is added to. -/
theorem accounted_current (h : ∀ s ∈ stored, Accounted es meetingId s)
    (hcurrent : currentSession stored readable meetingId ownerUserId = .ok current) :
    Accounted es meetingId current ∧ current.ownerUserId = ownerUserId := by
  unfold currentSession at hcurrent
  obtain ⟨howner, hcurrent⟩ := guard_eq_ok.mp hcurrent
  cases hcurrent
  refine ⟨?_, not_not.mp howner⟩
  unfold readRealtimeSession
  cases readable with
  | false => exact accounted_empty rfl rfl rfl
  | true =>
    cases stored with
    | none => exact accounted_empty rfl rfl rfl
    | some s => exact (h s rfl).normalized

theorem accounted_read (h : ∀ s ∈ stored, Accounted es meetingId s)
    (hread : readUserRealtimeSession stored readable meetingId ownerUserId = .ok (some session)) :
    Accounted es meetingId session ∧ session.ownerUserId = ownerUserId := by
  unfold readUserRealtimeSession readRealtimeSession at hread
  split at hread
  · cases hread
  · rename_i s hs
    obtain ⟨howner, hread⟩ := guard_eq_ok.mp hread
    cases hread
    refine ⟨?_, not_not.mp howner⟩
    cases readable with
    | false => cases hs
    | true =>
      obtain ⟨s, hstored, rfl⟩ := Option.map_eq_some_iff.mp hs
      exact (h s hstored).normalized

/-! ### Writing -/

theorem accounted_ensured {provider : Provider} (h : ∀ s ∈ stored, Accounted es meetingId s)
    (hensured : ensureRealtimeSessionOwnership stored readable meetingId ownerUserId provider = .ok (some next)) :
    Accounted es meetingId next := by
  unfold ensureRealtimeSessionOwnership at hensured
  split at hensured
  · obtain ⟨-, hensured⟩ := guard_eq_ok.mp hensured
    exact h next (Option.mem_def.mpr (Except.ok.inj hensured))
  · cases hensured
    exact accounted_empty rfl rfl rfl

theorem counted_increment {counts : RealtimeSessionStatus → ℕ} {status : RealtimeSessionStatus}
    (h : incrementStatusCounts counts status .providerError = 0) :
    counts .providerError = 0 ∧ status ≠ .providerError := by
  unfold incrementStatusCounts at h
  by_cases hstatus : RealtimeSessionStatus.providerError = status
  · subst hstatus
    rw [Function.update_self] at h
    cases h
  · rw [Function.update_of_ne hstatus] at h
    exact ⟨h, fun heq => hstatus heq.symm⟩

theorem returned_upsert {segments : List TranscriptSegment} {segment : Option TranscriptSegment}
    (h : ∀ x ∈ segments, Returned es ownerUserId meetingId x)
    (hsegment : ∀ x ∈ segment, RealtimeEvent.returned? e = some (ownerUserId, meetingId, x)) :
    ∀ x ∈ upsertTranscriptSegment segments segment, Returned (es ++ [e]) ownerUserId meetingId x := by
  intro x hx
  rcases mem_upsertTranscriptSegment hx with hold | hnew
  · exact (h x hold).later [e]
  · exact ⟨e, by simp, x, hsegment x hnew, rfl, rfl⟩

/-- The record of an answer adds its chunk. -/
theorem accounted_published {id : RequestId} {p : RealtimeProviderPlan} {answer : TranscriptionChunkResult}
    (h : ∀ s ∈ stored, Accounted es p.chunk.meetingId s)
    (hrecord : recordRealtimeSessionChunk stored readable (p.answeredRecord answer) = .ok next) :
    Accounted (es ++ [.publish id p answer readable]) p.chunk.meetingId next := by
  obtain ⟨current, hcurrent, hnext⟩ := bind_eq_ok.mp hrecord
  obtain ⟨hcurrent, howner⟩ := accounted_current h hcurrent
  have howner : current.ownerUserId = p.userId := howner
  cases hnext
  refine ⟨returned_upsert hcurrent.segments fun x hx => ?_, fun hclean => ?_⟩
  · rw [RealtimeEvent.returned?, howner, show answer.transcriptSegment = some x from hx]
    rfl
  · -- what is clean now was clean, and the chunk does not come before the last one
    have hformat : current.formatMismatchCount = 0 := (Nat.add_eq_zero_iff.mp hclean.format).1
    obtain ⟨horder, hlast⟩ := Nat.add_eq_zero_iff.mp hclean.order
    obtain ⟨hprovider, hstatus⟩ := counted_increment hclean.provider
    obtain ⟨chunks, hcovers⟩ := hcurrent.chunks ⟨hformat, horder, hprovider⟩
    have hafter : ∀ a ∈ current.lastSequence, a ≤ p.chunk.sequence := by
      intro a ha
      by_contra hlt
      have hany : current.lastSequence.any (p.chunk.sequence < ·) = true := by
        rw [Option.mem_def.mp ha]
        exact decide_eq_true (not_le.mp hlt)
      have hone : (if current.lastSequence.any (p.chunk.sequence < ·) = true then 1 else 0) = 0 := hlast
      rw [if_pos hany] at hone
      cases hone
    refine ⟨chunks ++ [⟨p, answer⟩], ?_, ?_, ?_, ?_, ?_, ?_⟩
    · rw [published_append]
      exact hcovers.published.append (List.Sublist.refl _)
    · intro q hq
      rcases List.mem_append.mp hq with hold | hnew
      · exact hcovers.own q hold
      · obtain rfl : q = ⟨p, answer⟩ := List.mem_singleton.mp hnew
        exact ⟨howner.symm, rfl⟩
    · intro q hq
      rcases List.mem_append.mp hq with hold | hnew
      · exact hcovers.answered q hold
      · obtain rfl : q = ⟨p, answer⟩ := List.mem_singleton.mp hnew
        intro heq
        have heq : answer.providerStatus = some .providerError := heq
        have hstatus : answer.providerStatus.getD .accepted ≠ .providerError := hstatus
        rw [heq] at hstatus
        exact hstatus rfl
    · have hsum : durations (chunks ++ [⟨p, answer⟩]) = durations chunks + (p.chunk.durationMs + 0) :=
        durations_append _ _
      rw [hsum, add_zero, ← hcovers.duration]
      rfl
    · rw [List.map_append, List.pairwise_append]
      refine ⟨hcovers.ordered, List.pairwise_singleton _ _, fun a ha b hb => ?_⟩
      obtain rfl : b = p.chunk.sequence := List.mem_singleton.mp hb
      obtain ⟨q, hq, rfl⟩ := List.mem_map.mp ha
      -- the last chunk has the greatest number
      obtain ⟨front, lastChunk, rfl⟩ := List.eq_nil_or_concat' chunks |>.resolve_left (List.ne_nil_of_mem hq)
      have hend : lastChunk.plan.chunk.sequence ≤ p.chunk.sequence :=
        hafter _ (by rw [hcovers.last, List.getLast?_concat]; rfl)
      rcases List.mem_append.mp hq with hfront | hlastChunk
      · have hordered := hcovers.ordered
        rw [List.map_append, List.pairwise_append] at hordered
        exact (hordered.2.2 _ (List.mem_map_of_mem hfront) _ List.mem_cons_self).trans hend
      · obtain rfl : q = lastChunk := List.mem_singleton.mp hlastChunk
        exact hend
    · rw [List.getLast?_concat]
      rfl

/-- The record of a chunk that is rejected or not paid for counts an error. -/
theorem accounted_refused {input : ChunkRecord} (h : ∀ s ∈ stored, Accounted es input.meetingId s)
    (herror : input.formatOk = false ∨ input.providerStatus = some .providerError)
    (hsegment : input.transcriptSegment = none)
    (hrecord : recordRealtimeSessionChunk stored readable input = .ok next) : Accounted es input.meetingId next := by
  obtain ⟨current, hcurrent, hnext⟩ := bind_eq_ok.mp hrecord
  obtain ⟨hcurrent, -⟩ := accounted_current h hcurrent
  cases hnext
  refine ⟨fun x hx => ?_, fun hclean => ?_⟩
  · rw [hsegment] at hx
    exact hcurrent.segments x hx
  · rcases herror with hformat | hstatus
    · have hone := (Nat.add_eq_zero_iff.mp hclean.format).2
      rw [hformat] at hone
      cases hone
    · have hne := (counted_increment hclean.provider).2
      rw [hstatus] at hne
      exact absurd rfl hne

theorem accounted_finished {id : RequestId} {p : FinishPlan} {result : FinishResult}
    (h : ∀ s ∈ stored, Accounted es p.meetingId s)
    (hrecord : recordRealtimeSessionEvent stored readable (p.record result) = .ok next) :
    Accounted (es ++ [.publishFinish id p result readable]) p.meetingId next := by
  obtain ⟨current, hcurrent, hnext⟩ := bind_eq_ok.mp hrecord
  obtain ⟨hcurrent, howner⟩ := accounted_current h hcurrent
  have howner : current.ownerUserId = p.userId := howner
  cases hnext
  refine (hcurrent.later _).same rfl (returned_upsert hcurrent.segments fun x hx => ?_) fun hclean => ?_
  · rw [RealtimeEvent.returned?, howner, show result.transcriptSegment = some x from hx]
    rfl
  · exact ⟨⟨hclean.format, hclean.order, (counted_increment hclean.provider).1⟩, rfl, rfl⟩

theorem accounted_anomaly {input : AnomalyRecord} (h : ∀ s ∈ stored, Accounted es input.meetingId s)
    (hrecord : recordRealtimeSequenceAnomaly stored readable input = .ok next) :
    Accounted es input.meetingId next := by
  obtain ⟨current, hcurrent, hnext⟩ := bind_eq_ok.mp hrecord
  obtain ⟨hcurrent, -⟩ := accounted_current h hcurrent
  cases hnext
  refine hcurrent.same rfl hcurrent.segments fun hclean => ?_
  exact ⟨⟨hclean.format, (Nat.add_eq_zero_iff.mp hclean.order).1, hclean.provider⟩, rfl, rfl⟩

/-! ### Runs -/

section Runs

variable {σ : Type} {s t : RealtimeState σ}

/-- Every session that is stored is accounted for. -/
def SessionsAccounted (es : List RealtimeEvent) (t : RealtimeState σ) : Prop :=
  ∀ meetingId, ∀ session ∈ t.sessions meetingId, Accounted es meetingId session

theorem SessionsAccounted.later (h : SessionsAccounted es s) (hsessions : t.sessions = s.sessions) :
    SessionsAccounted (es ++ [e]) t := by
  intro meetingId session hsession
  rw [hsessions] at hsession
  exact (h meetingId session hsession).later [e]

theorem SessionsAccounted.setSession (h : SessionsAccounted es s) {next : Option RealtimeSessionSummary}
    (hnext : ∀ session ∈ next, Accounted (es ++ [e]) meetingId session)
    (hsessions : t.sessions = (s.setSession meetingId next).sessions) : SessionsAccounted (es ++ [e]) t := by
  intro other session hsession
  rw [hsessions] at hsession
  by_cases hother : other = meetingId
  · subst hother
    rw [RealtimeState.setSession_self] at hsession
    exact hnext session hsession
  · rw [RealtimeState.setSession_of_ne s next hother] at hsession
    exact (h other session hsession).later [e]

/-- An object is written, or it is as it was. -/
theorem accounted_written {result : Except RealtimeSessionAccessError RealtimeSessionSummary}
    (h : ∀ s ∈ stored, Accounted es meetingId s) (hresult : ∀ next, result = .ok next → Accounted es meetingId next) :
    ∀ s ∈ written stored result, Accounted es meetingId s := by
  intro session hsession
  cases result with
  | error _ => exact h session hsession
  | ok next =>
    obtain rfl : next = session := Option.some.inj hsession
    exact hresult next rfl

theorem accounted_preflight {config : ChunkConfig} {reads : PreflightReads} {userId : UserId} {c : AcceptedChunk}
    (h : ∀ s ∈ stored, Accounted es c.meetingId s) :
    ∀ s ∈ (preflight config reads userId c stored).1, Accounted es c.meetingId s := by
  unfold preflight
  dsimp only
  split
  · exact h
  split
  · exact h
  split
  · exact accounted_written h fun _ hrecord => accounted_anomaly h hrecord
  · exact accounted_written h fun _ hrecord => accounted_anomaly h hrecord
  split
  · exact accounted_written h fun _ hrecord => accounted_refused h (.inl rfl) rfl hrecord
  split
  · exact h
  · rename_i hensured
    have hensured : ∀ s ∈ _, Accounted es c.meetingId s := fun s hs =>
      accounted_ensured h (hensured.trans (congrArg Except.ok (Option.mem_def.mp hs)))
    split
    · exact hensured
    split
    · exact accounted_written hensured fun _ hrecord => accounted_refused hensured (.inr rfl) rfl hrecord
    · exact hensured

variable {call : Clocked σ → QuotaEvent → Clocked σ → Prop} {purge : Clocked σ → LedgerPurge → Clocked σ → Prop}
  {reservationsOf : σ → Table MeetingProcessingReservationRecord}

theorem accounted_step (h : SessionsAccounted es s) (hstep : RealtimeStep call purge s e t) :
    SessionsAccounted (es ++ [e]) t := by
  rcases step_cases hstep with ⟨id, drawn, readable, q, rfl, -, -, ht⟩ | ⟨q, rfl, -, ht⟩ | ⟨q, rfl, -, -, ht⟩ |
    ⟨-, hchange⟩
  · rw [ht, called]
    dsimp only
    split
    · rename_i p _
      have hstored : ∀ x ∈ s.sessions p.chunk.meetingId, Accounted (es ++ [.ledger id drawn readable q]) p.chunk.meetingId x :=
        fun x hx => (h _ x hx).later _
      exact h.setSession (accounted_written hstored fun _ hrecord => accounted_refused hstored (.inr rfl) rfl hrecord) rfl
    · exact h.later rfl
  · rw [ht]
    exact h.later rfl
  · rw [ht]
    exact h.later rfl
  · cases hchange with
    | refused => exact h.later rfl
    | @posted _ _ _ _ _ c =>
      exact h.setSession (accounted_preflight fun x hx => (h c.meetingId x hx).later _) rfl
    | sent | answered => exact h.later rfl
    | @published _ p _ _ _ _ _ _ _ hrecord =>
      refine h.setSession (fun x hx => ?_) rfl
      obtain rfl := Option.some.inj hx
      exact accounted_published (h p.chunk.meetingId) hrecord
    | finish | finished => exact h.later rfl
    | @publishedFinish _ p _ _ _ hrecord =>
      refine h.setSession (fun x hx => ?_) rfl
      obtain rfl := Option.some.inj hx
      exact accounted_finished (h p.meetingId) hrecord
    | dropped | deletedMeeting | deletedUser => exact h.later rfl
    | removed => exact h.setSession (fun x hx => by cases hx) rfl

/-- **The sessions of a run are accounted for.** -/
theorem accounted_of_run (hstart : RealtimeStart reservationsOf s) (hrun : Run (RealtimeStep call purge) s es t) :
    SessionsAccounted es t := by
  refine Run.induction_last (P := fun es t => SessionsAccounted es t) ?_ (fun es e t u _ h hstep => accounted_step h hstep)
    hrun
  intro meetingId session hsession
  rw [hstart.sessions meetingId] at hsession
  cases hsession

end Runs

end OwnMinutes.Realtime.SessionAccounts
