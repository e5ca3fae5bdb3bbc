import OwnMinutes.Lib.Tickets
import OwnMinutes.Realtime.Chunks

/-! # A chunk is sent once, and published once

The chunks that requests claim for a meeting have increasing numbers: its reservation counts them (`Counting`) until it is
purged, and then no request claims any more (`Purged`). So the claim of a chunk is a ticket: the ledger issues it once,
the request that made the claim holds it, and spends it when it sends the chunk, and a second one when it publishes the
answer. -/

namespace OwnMinutes.Realtime.ChunkClaims

open OwnMinutes.Lib.Keyed OwnMinutes.Lib.Runs OwnMinutes.Lib.Counters OwnMinutes.Lib.Tickets OwnMinutes.Auth.Records
open OwnMinutes.Auth.Errors OwnMinutes.Auth.QuotaTypes OwnMinutes.Quota.Calls OwnMinutes.Quota.Streams
open OwnMinutes.Finalization.Records (initialMeetingOperationKey)
open OwnMinutes.Realtime.Sessions OwnMinutes.Realtime.Chunks

/-! ### What a run has done -/

/-- The calls of the ledger that requests make. -/
def RealtimeEvent.quotaEvent? : RealtimeEvent → Option QuotaEvent
  | .ledger _ _ _ e => some e
  | _ => none

def quotaEvents (es : List RealtimeEvent) : List QuotaEvent := es.filterMap RealtimeEvent.quotaEvent?

def purges (es : List RealtimeEvent) : List LedgerPurge :=
  es.filterMap fun
    | .purge p => some p
    | _ => none

abbrev Ticket := StreamKey × Item

/-- The claim of the chunk. -/
def ticket (p : RealtimeProviderPlan) : Ticket := (p.key, p.item)

/-- The chunks that were sent to the provider. -/
def sent (es : List RealtimeEvent) : List RealtimeProviderPlan :=
  es.filterMap fun
    | .send _ p => some p
    | _ => none

/-- A chunk with the answer that is recorded for it. -/
structure Published where
  plan : RealtimeProviderPlan
  answer : TranscriptionChunkResult

def published (es : List RealtimeEvent) : List Published :=
  es.filterMap fun
    | .publish _ plan answer _ => some ⟨plan, answer⟩
    | _ => none

/-! ### What a step does -/

section Steps

variable {σ : Type} {s t : RealtimeState σ}

/-- What a step that does not call the ledger does to the requests. -/
inductive RequestChange (s : RealtimeState σ) : RealtimeEvent → RealtimeState σ → Prop
  | refused {e : RealtimeEvent} (hsend : sent [e] = []) (hpublish : published [e] = []) : RequestChange s e s
  | posted {id : RequestId} {userId : UserId} {config : ChunkConfig} {reads : PreflightReads} {raw : RealtimeChunk}
      {c : AcceptedChunk} (haccepted : acceptChunk raw = .ok c) (hopen : s.barred userId c.meetingId = false) :
      RequestChange s (.post id userId config reads raw)
        ((s.setSession c.meetingId (preflight config reads userId c (s.sessions c.meetingId)).1).setPhase id
          (preflight config reads userId c (s.sessions c.meetingId)).2)
  | sent {id : RequestId} {p : RealtimeProviderPlan} {reservationId : ReservationId} {step : Option ProviderStepInput}
      (hphase : s.requests id = .sending p reservationId step) :
      RequestChange s (.send id p) (s.setPhase id (.waiting p reservationId step))
  | answered {id : RequestId} {p : RealtimeProviderPlan} {reservationId : ReservationId}
      {step : Option ProviderStepInput} {answer : TranscriptionChunkResult}
      (hphase : s.requests id = .waiting p reservationId step) :
      RequestChange s (.answer id answer) (s.setPhase id (.publishing p reservationId step answer))
  | published {id : RequestId} {p : RealtimeProviderPlan} {reservationId : ReservationId}
      {step : Option ProviderStepInput} {answer : TranscriptionChunkResult} {readable : Bool}
      {next : RealtimeSessionSummary} {phase : Phase}
      (hphase : s.requests id = .publishing p reservationId step answer)
      (hrecord : recordRealtimeSessionChunk (s.sessions p.chunk.meetingId) readable (p.answeredRecord answer) = .ok next)
      (hdone : phase = .idle ∨ ∃ step, phase = .completing p.userId step) :
      RequestChange s (.publish id p answer readable) ((s.setSession p.chunk.meetingId (some next)).setPhase id phase)
  | finish {id : RequestId} {plan : FinishPlan} {readable : Bool} :
      RequestChange s (.finish id plan readable) (s.setPhase id (.finishing plan))
  | finished {id : RequestId} {plan : FinishPlan} {result : FinishResult} :
      RequestChange s (.finished id result) (s.setPhase id (.finished plan result))
  | publishedFinish {id : RequestId} {p : FinishPlan} {result : FinishResult} {readable : Bool}
      {next : RealtimeSessionSummary}
      (hrecord : recordRealtimeSessionEvent (s.sessions p.meetingId) readable (p.record result) = .ok next) :
      RequestChange s (.publishFinish id p result readable) ((s.setSession p.meetingId (some next)).setPhase id .idle)
  | dropped {id : RequestId} {e : RealtimeEvent} {phase : Phase} (hsend : ChunkClaims.sent [e] = [])
      (hpublish : ChunkClaims.published [e] = [])
      (hphase : phase = .idle ∨ ∃ p reservationId step, phase = abandoned p reservationId step) :
      RequestChange s e (s.setPhase id phase)
  | deletedMeeting {meetingId : MeetingId} : RequestChange s (.deleteMeeting meetingId)
      { s with deletedMeetings := Function.update s.deletedMeetings meetingId true }
  | deletedUser {userId : UserId} : RequestChange s (.deleteUser userId)
      { s with deletedUsers := Function.update s.deletedUsers userId true }
  | removed {meetingId : MeetingId} : RequestChange s (.removeSession meetingId) (s.setSession meetingId none)

theorem requestChange_of_step {e : RealtimeEvent} (h : requestStep e s = some t) : RequestChange s e t := by
  cases e with
  | post id userId config reads raw =>
    unfold requestStep at h
    dsimp only at h
    split_ifs at h
    split at h
    · cases h
      exact .refused rfl rfl
    · rename_i c hc
      split_ifs at h
      · cases h
        exact .refused rfl rfl
      · rename_i hopen
        cases h
        exact .posted hc (Bool.eq_false_iff.mpr hopen)
  | ledger | other | purge => cases h
  | send id plan =>
    unfold requestStep at h
    dsimp only at h
    split at h
    · rename_i hphase
      split_ifs at h with hplan
      subst hplan
      cases h
      exact .sent hphase
    · cases h
  | answer id answer =>
    unfold requestStep at h
    dsimp only at h
    split at h
    · rename_i hphase
      cases h
      exact .answered hphase
    · cases h
  | publish id plan given readable =>
    unfold requestStep at h
    dsimp only at h
    split at h
    · rename_i p reservationId step answer hphase
      split_ifs at h with hgiven
      obtain ⟨rfl, rfl, -⟩ := hgiven
      split at h
      · rename_i next hnext
        cases h
        refine .published hphase hnext ?_
        cases step with
        | none => exact .inl rfl
        | some step => exact .inr ⟨step, rfl⟩
      · cases h
    · cases h
  | discard id readable =>
    unfold requestStep at h
    dsimp only at h
    split at h
    · split_ifs at h
      · cases h
        exact .dropped rfl rfl (.inr ⟨_, _, _, rfl⟩)
      · split at h
        · cases h
        · cases h
          exact .dropped rfl rfl (.inl rfl)
    · cases h
  | finish id plan readable =>
    unfold requestStep at h
    dsimp only at h
    split_ifs at h
    · cases h
      exact .refused rfl rfl
    · split at h
      · cases h
        exact .finish
      · cases h
        exact .refused rfl rfl
  | finished id result =>
    unfold requestStep at h
    dsimp only at h
    split at h
    · cases h
      exact .finished
    · cases h
  | publishFinish id plan result readable =>
    unfold requestStep at h
    dsimp only at h
    split at h
    · split_ifs at h with hgiven
      obtain ⟨rfl, rfl, -⟩ := hgiven
      split at h
      · rename_i next hnext
        cases h
        exact .publishedFinish hnext
      · cases h
    · cases h
  | stop id =>
    cases h
    exact .dropped rfl rfl (.inl rfl)
  | deleteMeeting meetingId =>
    cases h
    exact .deletedMeeting
  | deleteUser userId =>
    cases h
    exact .deletedUser
  | removeSession meetingId =>
    unfold requestStep at h
    dsimp only at h
    split_ifs at h
    cases h
    exact .removed

/-- The preflight ends the request, or goes on to its claim. -/
theorem preflight_phase {config : ChunkConfig} {reads : PreflightReads} {userId : UserId} {c : AcceptedChunk}
    {stored : Option RealtimeSessionSummary} : (preflight config reads userId c stored).2 = .idle ∨
      ∃ p : RealtimeProviderPlan, p.userId = userId ∧ p.chunk = c ∧
        (preflight config reads userId c stored).2 = .reserving p := by
  unfold preflight
  dsimp only
  split
  · exact .inl rfl
  split
  · exact .inl rfl
  split
  · exact .inl rfl
  · exact .inl rfl
  split
  · exact .inl rfl
  split
  · exact .inl rfl
  split
  · exact .inl rfl
  split
  · exact .inl rfl
  · exact .inr ⟨_, rfl, rfl, rfl⟩

theorem RequestChange.ledger {e : RealtimeEvent} (h : RequestChange s e t) : t.ledger = s.ledger := by
  cases h <;> rfl

variable {call : Clocked σ → QuotaEvent → Clocked σ → Prop} {purge : Clocked σ → LedgerPurge → Clocked σ → Prop}

/-- A step calls the ledger or purges it, or it is a step of a request. -/
theorem step_cases {e : RealtimeEvent} (h : RealtimeStep call purge s e t) :
    (∃ id drawn readable q, e = .ledger id drawn readable q ∧ (s.requests id).quotaCall drawn = some q.call ∧
      call s.ledger q t.ledger ∧ t = called s id readable q.result t.ledger) ∨
    (∃ q, e = .other q ∧ call s.ledger q t.ledger ∧ t = { s with ledger := t.ledger }) ∨
    (∃ p, e = .purge p ∧ s.settled p ∧ purge s.ledger p t.ledger ∧ t = { s with ledger := t.ledger }) ∨
    (RealtimeEvent.quotaEvent? e = none ∧ RequestChange s e t) := by
  cases e with
  | ledger id drawn readable q => exact .inl ⟨id, drawn, readable, q, rfl, h⟩
  | other q => exact .inr (.inl ⟨q, rfl, h⟩)
  | purge p => exact .inr (.inr (.inl ⟨p, rfl, h⟩))
  | post | send | answer | publish | discard | finish => exact .inr (.inr (.inr ⟨rfl, requestChange_of_step h⟩))
  | finished | publishFinish | stop | deleteMeeting => exact .inr (.inr (.inr ⟨rfl, requestChange_of_step h⟩))
  | deleteUser | removeSession => exact .inr (.inr (.inr ⟨rfl, requestChange_of_step h⟩))

theorem quotaEvents_append (es fs : List RealtimeEvent) : quotaEvents (es ++ fs) = quotaEvents es ++ quotaEvents fs :=
  List.filterMap_append

theorem sent_append (es fs : List RealtimeEvent) : sent (es ++ fs) = sent es ++ sent fs := List.filterMap_append

theorem purges_append (es fs : List RealtimeEvent) : purges (es ++ fs) = purges es ++ purges fs := List.filterMap_append

theorem published_append (es fs : List RealtimeEvent) : published (es ++ fs) = published es ++ published fs :=
  List.filterMap_append

/-- The request and the ledger after a call, where the request is not refused for want of quota. -/
theorem called_requests {id : RequestId} {readable : Bool} {result : Except AuthError QuotaResult}
    {ledger : Clocked σ} : (called s id readable result ledger).requests =
      Function.update s.requests id ((s.requests id).answered result) := by
  unfold called
  dsimp only
  split
  · rename_i p hexhausted
    have hidle : (s.requests id).answered result = .idle := by
      unfold Phase.exhausted at hexhausted
      unfold Phase.answered
      cases hphase : s.requests id with
      | reserving q =>
        rw [hphase] at hexhausted
        cases result with
        | error e => rfl
        | ok r => cases hexhausted
      | _ => simp [hphase] at hexhausted
    rw [hidle]
    rfl
  · rfl

/-! ### The first section -/

/-- With the answer of the ledger a request stays in its first section, or leaves it. -/
theorem preflight_answered {result : Except AuthError QuotaResult} {phase : Phase} {p : RealtimeProviderPlan}
    (h : (phase.answered result).preflight? = some p) : phase.preflight? = some p := by
  unfold Phase.answered at h
  cases phase with
  | reserving =>
    dsimp only at h
    split at h
    · split_ifs at h
      · cases h
      · exact h
      · cases h
    · cases h
  | claimingStep =>
    dsimp only at h
    split at h
    · split at h
      · exact h
      · cases h
    · cases h
  | startingStep =>
    dsimp only at h
    split at h
    · split_ifs at h <;> cases h
    · cases h
  | reconciling =>
    dsimp only at h
    split at h
    · split_ifs at h <;> cases h
    · cases h
  | _ => cases h

theorem preflight_setPhase {id other : RequestId} {phase : Phase} {p : RealtimeProviderPlan}
    (hphase : phase.preflight? = none) (h : ((s.setPhase id phase).requests other).preflight? = some p) :
    (s.requests other).preflight? = some p := by
  by_cases hother : other = id
  · subst hother
    rw [RealtimeState.setPhase_self, hphase] at h
    cases h
  · rwa [RealtimeState.setPhase_of_ne s phase hother] at h

/-- A request is let into its first section only where no fence denies it. -/
theorem preflight_of_step {e : RealtimeEvent} (hstep : RealtimeStep call purge s e t) {id : RequestId}
    {p : RealtimeProviderPlan} (h : (t.requests id).preflight? = some p) :
    (s.requests id).preflight? = some p ∨ s.barred p.userId p.chunk.meetingId = false := by
  rcases step_cases hstep with ⟨one, drawn, readable, q, rfl, -, -, ht⟩ | ⟨q, rfl, -, ht⟩ | ⟨q, rfl, -, -, ht⟩ | ⟨-, hchange⟩
  · rw [ht, called_requests] at h
    by_cases hone : id = one
    · subst hone
      rw [Function.update_self] at h
      exact .inl (preflight_answered h)
    · rw [Function.update_of_ne hone] at h
      exact .inl h
  · rw [ht] at h
    exact .inl h
  · rw [ht] at h
    exact .inl h
  · cases hchange with
    | refused => exact .inl h
    | @posted one userId config reads raw c _ hopen =>
      rcases @preflight_phase config reads userId c (s.sessions c.meetingId) with hidle | ⟨p', rfl, rfl, hreserving⟩
      · rw [hidle] at h
        exact .inl (preflight_setPhase rfl h)
      · by_cases hone : id = one
        · subst hone
          rw [RealtimeState.setPhase_self, hreserving] at h
          obtain rfl : p' = p := Option.some.inj h
          exact .inr hopen
        · rw [RealtimeState.setPhase_of_ne _ _ hone] at h
          exact .inl h
    | sent | answered => exact .inl (preflight_setPhase rfl h)
    | published _ _ hdone =>
      rcases hdone with rfl | ⟨step, rfl⟩
      · exact .inl (preflight_setPhase rfl h)
      · exact .inl (preflight_setPhase rfl h)
    | finish | finished | publishedFinish => exact .inl (preflight_setPhase rfl h)
    | dropped _ _ hphase =>
      rcases hphase with rfl | ⟨p', reservationId, step, rfl⟩
      · exact .inl (preflight_setPhase rfl h)
      · exact .inl (preflight_setPhase (by cases step <;> rfl) h)
    | deletedMeeting | deletedUser | removed => exact .inl h

theorem le_update_true {α : Type} [DecidableEq α] (f : α → Bool) (a b : α) (h : f b = true) :
    Function.update f a true b = true := by
  by_cases hb : b = a
  · rw [hb, Function.update_self]
  · rw [Function.update_of_ne hb, h]

/-- What is marked as deleted stays so. -/
theorem barred_of_step {e : RealtimeEvent} (hstep : RealtimeStep call purge s e t) {userId : UserId}
    {meetingId : MeetingId} (h : s.barred userId meetingId = true) : t.barred userId meetingId = true := by
  rcases step_cases hstep with ⟨one, drawn, readable, q, rfl, -, -, ht⟩ | ⟨q, rfl, -, ht⟩ | ⟨q, rfl, -, -, ht⟩ | ⟨-, hchange⟩
  · rw [ht, called_barred]
    exact h
  · rw [ht]
    exact h
  · rw [ht]
    exact h
  · cases hchange with
    | deletedMeeting =>
      rcases Bool.or_eq_true_iff.mp h with huser | hmeeting
      · exact Bool.or_eq_true_iff.mpr (.inl huser)
      · exact Bool.or_eq_true_iff.mpr (.inr (le_update_true _ _ _ hmeeting))
    | deletedUser =>
      rcases Bool.or_eq_true_iff.mp h with huser | hmeeting
      · exact Bool.or_eq_true_iff.mpr (.inl (le_update_true _ _ _ huser))
      · exact Bool.or_eq_true_iff.mpr (.inr hmeeting)
    | _ => exact h

end Steps

/-! ### What requests claim -/

/-- The chunks that requests have claimed for a meeting. -/
def claims (userId : UserId) (meetingId : MeetingId) (es : List RealtimeEvent) : List Item :=
  claimedChunks (userId, initialMeetingOperationKey meetingId) (quotaEvents es)

section Claims

variable {σ : Type} {s t : RealtimeState σ} {es : List RealtimeEvent} {e : RealtimeEvent}
  {call : Clocked σ → QuotaEvent → Clocked σ → Prop} {purge : Clocked σ → LedgerPurge → Clocked σ → Prop}
  {reservationsOf : σ → Table MeetingProcessingReservationRecord} {userId : UserId} {meetingId : MeetingId}

theorem claimedChunks_append (k : StreamKey) (es fs : List QuotaEvent) :
    claimedChunks k (es ++ fs) = claimedChunks k es ++ claimedChunks k fs := List.filterMap_append

theorem claims_none (h : RealtimeEvent.quotaEvent? e = none) :
    claims userId meetingId (es ++ [e]) = claims userId meetingId es := by
  have hnone : quotaEvents [e] = [] := List.filterMap_cons_none h
  rw [claims, quotaEvents_append, hnone, List.append_nil, claims]

theorem claims_ledger {id : RequestId} {drawn : Drawn} {readable : Bool} {q : QuotaEvent} :
    claims userId meetingId (es ++ [.ledger id drawn readable q]) = claims userId meetingId es ++
      (itemOf (userId, initialMeetingOperationKey meetingId) (claimedChunk q)).toList := by
  have hone : quotaEvents [.ledger id drawn readable q] = [q] := rfl
  rw [claims, quotaEvents_append, claimedChunks_append, hone, claims, claimedChunks, claimedChunks, List.filterMap_cons]
  cases itemOf (userId, initialMeetingOperationKey meetingId) (claimedChunk q) <;> rfl

theorem initialMeetingOperationKey_injective {a b : MeetingId}
    (h : initialMeetingOperationKey a = initialMeetingOperationKey b) : a = b := by
  have htexts := congrArg String.toList h
  simp only [initialMeetingOperationKey, String.toList_append] at htexts
  exact String.toList_inj.mp (List.append_cancel_left (List.append_cancel_right htexts))

/-- A chunk is claimed by a request in its first section. -/
theorem reserving_of_claimed {phase : Phase} {drawn : Drawn} {q : QuotaEvent} {c : ClaimedChunk}
    (hcall : phase.quotaCall drawn = some q.call) (h : claimedChunk q = some c) :
    ∃ p, phase = .reserving p ∧ c = ⟨p.key, p.chunk.meetingId, p.item⟩ := by
  unfold claimedChunk at h
  split at h
  · rename_i hreserve _
    split_ifs at h
    rw [hreserve] at hcall
    cases phase with
    | reserving p =>
      cases hcall
      cases h
      exact ⟨p, rfl, rfl⟩
    | _ => cases hcall
  · cases h

/-- The reservation of the meeting counts the items. -/
structure Counting (reservations : Table MeetingProcessingReservationRecord) (userId : UserId) (meetingId : MeetingId)
    (items : List Item) : Prop where
  meeting : meetingFor reservations (userId, initialMeetingOperationKey meetingId) = some meetingId
  counter : ∃ c, counterFor reservations (userId, initialMeetingOperationKey meetingId) = some c ∧ c.Includes items

/-- The reservation of the meeting may be gone, and no request claims any more. -/
structure Purged (es : List RealtimeEvent) (t : RealtimeState σ) (userId : UserId) (meetingId : MeetingId) : Prop where
  purge : ∃ p ∈ purges es, p.covers userId meetingId = true
  barred : t.barred userId meetingId = true
  settled : ∀ id, ∀ p ∈ (t.requests id).preflight?, ¬ (p.userId = userId ∧ p.chunk.meetingId = meetingId)

structure StreamClaims (reservationsOf : σ → Table MeetingProcessingReservationRecord) (es : List RealtimeEvent)
    (t : RealtimeState σ) : Prop where
  metered : ∀ r ∈ reservationsOf t.ledger.store, Metered r
  increasing : ∀ userId meetingId, ((claims userId meetingId es).map (·.sequence)).Pairwise (· < ·)
  counted : ∀ userId meetingId, claims userId meetingId es = [] ∨
    Counting (reservationsOf t.ledger.store) userId meetingId (claims userId meetingId es) ∨ Purged es t userId meetingId

theorem Purged.step (h : Purged es s userId meetingId) (hstep : RealtimeStep call purge s e t) :
    Purged (es ++ [e]) t userId meetingId where
  purge := by
    obtain ⟨p, hp, hcovers⟩ := h.purge
    rw [purges_append]
    exact ⟨p, List.mem_append_left _ hp, hcovers⟩
  barred := barred_of_step hstep h.barred
  settled id p hp hplan := by
    rcases preflight_of_step hstep hp with hold | hopen
    · exact h.settled id p hold hplan
    · rw [hplan.1, hplan.2, h.barred] at hopen
      cases hopen

theorem purged_of_settled {p : LedgerPurge} (hsettled : s.settled p) (hcovers : p.covers userId meetingId = true)
    {ledger : Clocked σ} : Purged (es ++ [.purge p]) { s with ledger := ledger } userId meetingId := by
  refine ⟨⟨p, by simp [purges], hcovers⟩, ?_, ?_⟩
  · cases p with
    | meeting owner deleted =>
      obtain rfl : deleted = meetingId := beq_iff_eq.mp (Bool.and_eq_true_iff.mp hcovers).2
      exact Bool.or_eq_true_iff.mpr (.inr hsettled.1)
    | account owner =>
      obtain rfl : owner = userId := beq_iff_eq.mp hcovers
      exact Bool.or_eq_true_iff.mpr (.inl hsettled.1)
  · intro id plan hplan heq
    cases p with
    | meeting owner deleted =>
      obtain rfl : deleted = meetingId := beq_iff_eq.mp (Bool.and_eq_true_iff.mp hcovers).2
      exact hsettled.2 id plan hplan heq.2
    | account owner =>
      obtain rfl : owner = userId := beq_iff_eq.mp hcovers
      exact hsettled.2 id plan hplan heq.1

section Call

variable (hledger : StreamLedger call reservationsOf) {before after : Clocked σ} {q : QuotaEvent}
  (hmetered : ∀ r ∈ reservationsOf before.store, Metered r) (hcall : call before q after)

include hledger hmetered hcall

/-- A call may count another chunk. -/
theorem Counting.later {items : List Item} (h : Counting (reservationsOf before.store) userId meetingId items) :
    Counting (reservationsOf after.store) userId meetingId items where
  meeting := meetingFor_of_change (hledger.change before q after hmetered hcall) (hledger.fresh before q after hcall)
    h.meeting
  counter := by
    obtain ⟨c, hc, hincludes⟩ := h.counter
    have hcounts := (hledger.counts hcall hmetered).2 (userId, initialMeetingOperationKey meetingId)
    rw [hc] at hcounts
    refine hcounts.keeps (fun i hi => ?_) hincludes
    obtain ⟨claimed, hclaimed, rfl⟩ := claimed_of_itemOf hi
    exact amount_pos_of_claimed hclaimed

/-- A chunk that is claimed comes after those before. -/
theorem Counting.claim {items : List Item} {i : Item}
    (h : items = [] ∨ Counting (reservationsOf before.store) userId meetingId items)
    (hclaimed : claimedChunk q = some ⟨(userId, initialMeetingOperationKey meetingId), meetingId, i⟩) :
    (∀ j ∈ items, j.sequence < i.sequence) ∧
      Counting (reservationsOf after.store) userId meetingId (items ++ [i]) := by
  have hcounts := (hledger.counts hcall hmetered).2 (userId, initialMeetingOperationKey meetingId)
  have hchange := hledger.change before q after hmetered hcall
  rw [hclaimed] at hchange
  have hmeeting := meetingFor_claimed hchange (hledger.fresh before q after hcall)
  rw [hclaimed, itemOf, if_pos rfl] at hcounts
  have hextends : ∀ {c}, counterFor (reservationsOf before.store) (userId, initialMeetingOperationKey meetingId) = some c →
      c.Includes items → (∀ j ∈ items, j.sequence < i.sequence) ∧
        Counting (reservationsOf after.store) userId meetingId (items ++ [i]) := by
    intro c hc hincludes
    rw [hc] at hcounts
    obtain ⟨hlt, hcounter⟩ := hcounts.extends hincludes
    exact ⟨hlt, hmeeting, hcounter⟩
  rcases h with rfl | h
  · cases hold : counterFor (reservationsOf before.store) (userId, initialMeetingOperationKey meetingId) with
    | none =>
      rw [hold] at hcounts
      exact ⟨by simp, hmeeting, hcounts.starts⟩
    | some c =>
      obtain ⟨r, hr, rfl⟩ := Option.map_eq_some_iff.mp hold
      exact hextends hold ⟨by simp, (hmetered r (Table.mem_of_find? hr)).streamed⟩
  · obtain ⟨c, hc, hincludes⟩ := h.counter
    exact hextends hc hincludes

end Call

theorem streamClaims_step (hledger : StreamLedger call reservationsOf) (hpurge : PurgeLedger reservationsOf purge)
    (h : StreamClaims reservationsOf es s) (hstep : RealtimeStep call purge s e t) :
    StreamClaims reservationsOf (es ++ [e]) t := by
  have hpurged : ∀ {userId meetingId}, Purged es s userId meetingId → Purged (es ++ [e]) t userId meetingId :=
    fun hpurged => hpurged.step hstep
  -- a step in which no request claims, after which the reservations still count
  have hkeep : (∀ r ∈ reservationsOf t.ledger.store, Metered r) →
      (∀ userId meetingId, claims userId meetingId (es ++ [e]) = claims userId meetingId es) →
      (∀ userId meetingId items, Counting (reservationsOf s.ledger.store) userId meetingId items →
        Counting (reservationsOf t.ledger.store) userId meetingId items ∨ Purged (es ++ [e]) t userId meetingId) →
      StreamClaims reservationsOf (es ++ [e]) t := by
    intro hmetered hsame hcounting
    refine ⟨hmetered, fun userId meetingId => ?_, fun userId meetingId => ?_⟩
    · rw [hsame]
      exact h.increasing userId meetingId
    · rw [hsame]
      rcases h.counted userId meetingId with hnone | hcounts | hgone
      · exact .inl hnone
      · exact .inr (hcounting userId meetingId _ hcounts)
      · exact .inr (.inr (hpurged hgone))
  rcases step_cases hstep with ⟨id, drawn, readable, q, rfl, hquota, hcall, -⟩ | ⟨q, rfl, hcall, -⟩ |
    ⟨p, rfl, hsettled, hremoved, ht⟩ | ⟨hnone, hchange⟩
  · have hmetered := (hledger.counts hcall h.metered).1
    cases hclaimed : claimedChunk q with
    | none =>
      refine hkeep hmetered (fun userId meetingId => ?_) fun _ _ _ hcounts => .inl (hcounts.later hledger h.metered hcall)
      rw [claims_ledger, hclaimed]
      exact List.append_nil _
    | some c =>
      obtain ⟨p, hphase, rfl⟩ := reserving_of_claimed hquota hclaimed
      -- the stream of the request, and the others
      have hone : ∀ userId meetingId, (p.userId = userId ∧ p.chunk.meetingId = meetingId) ∨
          itemOf (userId, initialMeetingOperationKey meetingId) (claimedChunk q) = none := by
        intro userId meetingId
        by_cases hkey : p.key = (userId, initialMeetingOperationKey meetingId)
        · exact .inl ⟨congrArg Prod.fst hkey, initialMeetingOperationKey_injective (congrArg Prod.snd hkey)⟩
        · rw [hclaimed, itemOf, if_neg hkey]
          exact .inr rfl
      have hcounted : claims p.userId p.chunk.meetingId es = [] ∨
          Counting (reservationsOf s.ledger.store) p.userId p.chunk.meetingId (claims p.userId p.chunk.meetingId es) := by
        rcases h.counted p.userId p.chunk.meetingId with hnil | hcounts | hgone
        · exact .inl hnil
        · exact .inr hcounts
        · refine absurd ⟨rfl, rfl⟩ (hgone.settled id p ?_)
          rw [hphase]
          rfl
      obtain ⟨hlt, hcounting⟩ := Counting.claim hledger h.metered hcall hcounted hclaimed
      have hitem : itemOf (p.userId, initialMeetingOperationKey p.chunk.meetingId) (claimedChunk q) = some p.item := by
        rw [hclaimed]
        exact if_pos rfl
      refine ⟨hmetered, fun userId meetingId => ?_, fun userId meetingId => ?_⟩
      · rw [claims_ledger]
        rcases hone userId meetingId with ⟨rfl, rfl⟩ | hnone
        · rw [hitem, Option.toList_some, List.map_append, List.pairwise_append]
          refine ⟨h.increasing _ _, List.pairwise_singleton _ _, fun a ha b hb => ?_⟩
          obtain ⟨j, hj, rfl⟩ := List.mem_map.mp ha
          rw [List.mem_singleton.mp hb]
          exact hlt j hj
        · rw [hnone, Option.toList_none, List.append_nil]
          exact h.increasing userId meetingId
      · rw [claims_ledger]
        rcases hone userId meetingId with ⟨rfl, rfl⟩ | hnone
        · rw [hitem]
          exact .inr (.inl hcounting)
        · rw [hnone, Option.toList_none, List.append_nil]
          rcases h.counted userId meetingId with hnil | hcounts | hgone
          · exact .inl hnil
          · exact .inr (.inl (hcounts.later hledger h.metered hcall))
          · exact .inr (.inr (hpurged hgone))
  · exact hkeep (hledger.counts hcall h.metered).1 (fun _ _ => claims_none rfl)
      fun _ _ _ hcounts => .inl (hcounts.later hledger h.metered hcall)
  · have hchange := hpurge s.ledger p t.ledger hremoved
    refine hkeep (hchange.metered h.metered) (fun _ _ => claims_none rfl) fun userId meetingId items hcounts => ?_
    cases hcovers : p.covers userId meetingId with
    | true =>
      rw [ht]
      exact .inr (purged_of_settled hsettled hcovers)
    | false =>
      obtain ⟨hmeeting, hcounter⟩ := hchange.spares hcounts.meeting hcovers
      exact .inl ⟨hmeeting, by rw [hcounter]; exact hcounts.counter⟩
  · have hsame := hchange.ledger
    refine hkeep ?_ (fun _ _ => claims_none hnone) fun _ _ _ hcounts => .inl ?_
    · rw [hsame]
      exact h.metered
    · rw [hsame]
      exact hcounts

end Claims

/-! ### The tickets -/

/-- The chunk that is claimed, and not sent yet. -/
def Phase.toSend : Phase → Option RealtimeProviderPlan
  | .claimingStep p _ | .startingStep p _ _ | .sending p _ _ => some p
  | _ => none

/-- The chunk that is claimed, and not published yet. -/
def Phase.toPublish : Phase → Option RealtimeProviderPlan
  | .claimingStep p _ | .startingStep p _ _ | .sending p _ _ | .waiting p _ _ | .publishing p _ _ _ => some p
  | _ => none

/-- The claims of the ledger as tickets, in the hands of the requests that `hold` chunks. -/
def desk {σ : Type} (hold : Phase → Option RealtimeProviderPlan) (spent : List RealtimeProviderPlan)
    (es : List RealtimeEvent) (t : RealtimeState σ) : Desk Ticket RequestId where
  issued := {x | x.2 ∈ claimedChunks x.1 (quotaEvents es)}
  held id := (hold (t.requests id)).map ticket
  spent := spent.map ticket

/-- What makes `toSend` and `toPublish` alike: a chunk comes with its claim, and stays or is lost with each other call
of the ledger. -/
structure Holds (hold : Phase → Option RealtimeProviderPlan) : Prop where
  idle : hold .idle = none
  reserving : ∀ p, hold (.reserving p) = none
  claiming : ∀ p reservationId, hold (.claimingStep p reservationId) = some p
  starting : ∀ p reservationId step, hold (.startingStep p reservationId step) = some p
  sending : ∀ p reservationId step, hold (.sending p reservationId step) = some p
  abandoned : ∀ p reservationId step, hold (abandoned p reservationId step) = none
  releasingStep : ∀ userId step, hold (.releasingStep userId step) = none
  completing : ∀ userId step, hold (.completing userId step) = none
  releasing : ∀ userId reservationId, hold (.releasing userId reservationId) = none
  finishing : ∀ plan, hold (.finishing plan) = none
  finished : ∀ plan result, hold (.finished plan result) = none

theorem holds_toSend : Holds Phase.toSend :=
  ⟨rfl, fun _ => rfl, fun _ _ => rfl, fun _ _ _ => rfl, fun _ _ _ => rfl, fun _ _ step => by cases step <;> rfl,
    fun _ _ => rfl, fun _ _ => rfl, fun _ _ => rfl, fun _ => rfl, fun _ _ => rfl⟩

theorem holds_toPublish : Holds Phase.toPublish :=
  ⟨rfl, fun _ => rfl, fun _ _ => rfl, fun _ _ _ => rfl, fun _ _ _ => rfl, fun _ _ step => by cases step <;> rfl,
    fun _ _ => rfl, fun _ _ => rfl, fun _ _ => rfl, fun _ => rfl, fun _ _ => rfl⟩

section Tickets

variable {hold : Phase → Option RealtimeProviderPlan}

/-- With the answer of the ledger a request has what it had or nothing, or the chunk that it has claimed. -/
theorem Holds.answered (hh : Holds hold) (result : Except AuthError QuotaResult) (phase : Phase) :
    hold (phase.answered result) = hold phase ∨ hold (phase.answered result) = none ∨
      ∃ p claim, phase = .reserving p ∧ result = .ok (.realtime claim) ∧ claim.duplicate = false ∧
        hold (phase.answered result) = some p := by
  cases phase with
  | reserving p =>
    unfold Phase.answered
    dsimp only
    split
    · rename_i claim
      by_cases hduplicate : claim.duplicate = true
      · rw [if_pos hduplicate]
        exact .inr (.inl hh.idle)
      · rw [if_neg hduplicate]
        refine .inr (.inr ⟨p, claim, rfl, rfl, Bool.eq_false_iff.mpr hduplicate, ?_⟩)
        split_ifs
        · exact hh.claiming p _
        · exact hh.sending p _ _
    · exact .inr (.inl hh.idle)
  | claimingStep p reservationId =>
    unfold Phase.answered
    dsimp only
    split
    · split
      · exact .inl ((hh.starting p _ _).trans (hh.claiming p _).symm)
      · exact .inr (.inl hh.idle)
    · exact .inr (.inl hh.idle)
  | startingStep p reservationId step =>
    unfold Phase.answered
    dsimp only
    split
    · split_ifs
      · exact .inl ((hh.sending p _ _).trans (hh.starting p _ _).symm)
      · exact .inr (.inl hh.idle)
    · exact .inr (.inl (hh.releasingStep _ _))
  | reconciling userId reservationId step =>
    unfold Phase.answered
    dsimp only
    split
    · split_ifs
      · exact .inr (.inl (hh.releasing _ _))
      · exact .inr (.inl hh.idle)
    · exact .inr (.inl hh.idle)
  | releasingStep | completing | releasing => exact .inr (.inl hh.idle)
  | idle | sending | waiting | publishing | finishing | finished => exact .inl rfl

end Tickets

/-! ### Runs -/

section Runs

variable {σ : Type} {hold : Phase → Option RealtimeProviderPlan} {spentOf : List RealtimeEvent → List RealtimeProviderPlan}

/-- A request has what it had, or nothing. -/
def KeepsChunk (hold : Phase → Option RealtimeProviderPlan) (s t : RealtimeState σ) (id : RequestId) : Prop :=
  hold (t.requests id) = hold (s.requests id) ∨ hold (t.requests id) = none

/-- The requests that `hold` chunks spend them in the steps of `spentOf`. -/
structure Spends (σ : Type) (hold : Phase → Option RealtimeProviderPlan)
    (spentOf : List RealtimeEvent → List RealtimeProviderPlan) : Prop where
  holds : Holds hold
  append : ∀ es fs, spentOf (es ++ fs) = spentOf es ++ spentOf fs
  ledger : ∀ id drawn readable q, spentOf [.ledger id drawn readable q] = []
  other : ∀ q, spentOf [.other q] = []
  purge : ∀ p, spentOf [.purge p] = []
  change : ∀ {s t : RealtimeState σ} {e : RealtimeEvent}, RequestChange s e t →
    (spentOf [e] = [] ∧ ∀ id, KeepsChunk hold s t id) ∨
    ∃ id p, spentOf [e] = [p] ∧ hold (s.requests id) = some p ∧ hold (t.requests id) = none ∧
      ∀ other, other ≠ id → KeepsChunk hold s t other

theorem keepsChunk_setPhase {s : RealtimeState σ} {id : RequestId} {phase : Phase}
    (h : hold phase = hold (s.requests id) ∨ hold phase = none) (other : RequestId) :
    KeepsChunk hold s (s.setPhase id phase) other := by
  unfold KeepsChunk
  by_cases hother : other = id
  · subst hother
    rw [RealtimeState.setPhase_self]
    exact h
  · rw [RealtimeState.setPhase_of_ne s phase hother]
    exact .inl rfl

theorem spends_toSend : Spends σ Phase.toSend sent where
  holds := holds_toSend
  append := sent_append
  ledger _ _ _ _ := rfl
  other _ := rfl
  purge _ := rfl
  change {s t e} h := by
    cases h with
    | refused hsend => exact .inl ⟨hsend, fun _ => .inl rfl⟩
    | posted =>
      refine .inl ⟨rfl, keepsChunk_setPhase (.inr ?_)⟩
      rcases preflight_phase with h | ⟨p, -, -, h⟩ <;> rw [h] <;> rfl
    | @sent id p reservationId step hphase =>
      refine .inr ⟨id, p, rfl, by rw [hphase]; rfl, ?_, fun other _ => keepsChunk_setPhase (.inr rfl) other⟩
      rw [RealtimeState.setPhase_self]
      rfl
    | answered => exact .inl ⟨rfl, keepsChunk_setPhase (.inr rfl)⟩
    | published _ _ hdone =>
      refine .inl ⟨rfl, keepsChunk_setPhase (.inr ?_)⟩
      rcases hdone with rfl | ⟨step, rfl⟩ <;> rfl
    | finish | finished | publishedFinish => exact .inl ⟨rfl, keepsChunk_setPhase (.inr rfl)⟩
    | dropped hsend _ hphase =>
      refine .inl ⟨hsend, keepsChunk_setPhase (.inr ?_)⟩
      rcases hphase with rfl | ⟨p, reservationId, step, rfl⟩
      · rfl
      · exact holds_toSend.abandoned p reservationId step
    | deletedMeeting | deletedUser | removed => exact .inl ⟨rfl, fun _ => .inl rfl⟩

/-- The chunks that were published. -/
def publishedPlans (es : List RealtimeEvent) : List RealtimeProviderPlan := (published es).map (·.plan)

theorem spends_toPublish : Spends σ Phase.toPublish publishedPlans where
  holds := holds_toPublish
  append es fs := by rw [publishedPlans, published_append, List.map_append]; rfl
  ledger _ _ _ _ := rfl
  other _ := rfl
  purge _ := rfl
  change {s t e} h := by
    cases h with
    | refused _ hpublish => exact .inl ⟨by rw [publishedPlans, hpublish]; rfl, fun _ => .inl rfl⟩
    | posted =>
      refine .inl ⟨rfl, keepsChunk_setPhase (.inr ?_)⟩
      rcases preflight_phase with h | ⟨p, -, -, h⟩ <;> rw [h] <;> rfl
    | sent hphase | answered hphase => exact .inl ⟨rfl, keepsChunk_setPhase (.inl (by rw [hphase]; rfl))⟩
    | @published id p reservationId step answer readable next phase hphase _ hdone =>
      have hnone : Phase.toPublish phase = none := by rcases hdone with rfl | ⟨step, rfl⟩ <;> rfl
      refine .inr ⟨id, p, rfl, by rw [hphase]; rfl, ?_, fun other _ => keepsChunk_setPhase (.inr hnone) other⟩
      rw [RealtimeState.setPhase_self]
      exact hnone
    | finish | finished | publishedFinish => exact .inl ⟨rfl, keepsChunk_setPhase (.inr rfl)⟩
    | dropped _ hpublish hphase =>
      refine .inl ⟨by rw [publishedPlans, hpublish]; rfl, keepsChunk_setPhase (.inr ?_)⟩
      rcases hphase with rfl | ⟨p, reservationId, step, rfl⟩
      · rfl
      · exact holds_toPublish.abandoned p reservationId step
    | deletedMeeting | deletedUser | removed => exact .inl ⟨rfl, fun _ => .inl rfl⟩

variable {call : Clocked σ → QuotaEvent → Clocked σ → Prop} {purge : Clocked σ → LedgerPurge → Clocked σ → Prop}
  {reservationsOf : σ → Table MeetingProcessingReservationRecord}

/-- No request is under way, and no session is stored. -/
structure RealtimeStart (reservationsOf : σ → Table MeetingProcessingReservationRecord) (s : RealtimeState σ) : Prop where
  metered : ∀ r ∈ reservationsOf s.ledger.store, Metered r
  requests : ∀ id, s.requests id = .idle
  sessions : ∀ meetingId, s.sessions meetingId = none

/-- **The claims of a run are counted** until they are purged. -/
theorem streamClaims_of_run (hledger : StreamLedger call reservationsOf) (hpurge : PurgeLedger reservationsOf purge)
    {s t : RealtimeState σ} {es : List RealtimeEvent} (hstart : RealtimeStart reservationsOf s)
    (hrun : Run (RealtimeStep call purge) s es t) : StreamClaims reservationsOf es t := by
  refine Run.induction_last (P := fun es t => StreamClaims reservationsOf es t) ?_
    (fun es e t u _ h hstep => streamClaims_step hledger hpurge h hstep) hrun
  exact ⟨hstart.metered, fun _ _ => .nil, fun _ _ => .inl rfl⟩

/-- The tickets issued stay issued. -/
theorem issued_subset {spent spent' : List RealtimeProviderPlan} {s t : RealtimeState σ} (es : List RealtimeEvent)
    (e : RealtimeEvent) : (desk hold spent es s).issued ⊆ (desk hold spent' (es ++ [e]) t).issued := by
  intro x hx
  have hx : x.2 ∈ claimedChunks x.1 (quotaEvents es) := hx
  change x.2 ∈ claimedChunks x.1 (quotaEvents (es ++ [e]))
  rw [quotaEvents_append, claimedChunks_append]
  exact List.mem_append_left _ hx

theorem keeps_desk {spent spent' : List RealtimeProviderPlan} {es es' : List RealtimeEvent} {s t : RealtimeState σ}
    {id : RequestId} (h : KeepsChunk hold s t id) : Keeps (desk hold spent es s).held (desk hold spent' es' t).held id := by
  rcases h with h | h
  · exact .inl (congrArg (Option.map ticket) h)
  · exact .inr (congrArg (Option.map ticket) h)

/-- **A step moves the tickets.** -/
theorem moves_of_step (h : Spends σ hold spentOf) {s t : RealtimeState σ} {es : List RealtimeEvent} {e : RealtimeEvent}
    (hstep : RealtimeStep call purge s e t) (hclaims : StreamClaims reservationsOf (es ++ [e]) t) :
    Moves (desk hold (spentOf es) es s) (desk hold (spentOf (es ++ [e])) (es ++ [e]) t) := by
  have hspent : ∀ {rest : List RealtimeProviderPlan}, spentOf [e] = rest →
      (desk hold (spentOf (es ++ [e])) (es ++ [e]) t).spent =
        (desk hold (spentOf es) es s).spent ++ rest.map ticket := by
    intro rest hrest
    change (spentOf (es ++ [e])).map ticket = (spentOf es).map ticket ++ rest.map ticket
    rw [h.append, hrest, List.map_append]
  have hissued : (desk hold (spentOf es) es s).issued ⊆ (desk hold (spentOf (es ++ [e])) (es ++ [e]) t).issued :=
    issued_subset es e
  rcases step_cases hstep with ⟨id, drawn, readable, q, rfl, hcall, -, ht⟩ | ⟨q, rfl, -, ht⟩ | ⟨q, rfl, -, -, ht⟩ |
    ⟨-, hchange⟩
  · have hnone := hspent (h.ledger id drawn readable q)
    rw [List.map_nil, List.append_nil] at hnone
    have hrequests : t.requests = Function.update s.requests id ((s.requests id).answered q.result) := by
      rw [ht]
      exact called_requests
    have hothers : ∀ other, other ≠ id → KeepsChunk hold s t other := by
      intro other hother
      unfold KeepsChunk
      rw [hrequests, Function.update_of_ne hother]
      exact .inl rfl
    have hself : t.requests id = (s.requests id).answered q.result := by rw [hrequests, Function.update_self]
    rcases h.holds.answered q.result (s.requests id) with hsame | hlost | ⟨p, claim, hphase, hok, hnew, hheld⟩
    · refine .keep hissued (fun other => keeps_desk ?_) hnone
      by_cases hother : other = id
      · subst hother
        exact .inl (by rw [hself, hsame])
      · exact hothers other hother
    · refine .keep hissued (fun other => keeps_desk ?_) hnone
      by_cases hother : other = id
      · subst hother
        exact .inr (by rw [hself, hlost])
      · exact hothers other hother
    · -- the claim is new
      rw [hphase] at hcall
      have hclaimed : claimedChunk q = some ⟨p.key, p.chunk.meetingId, p.item⟩ := by
        unfold claimedChunk
        rw [← Option.some.inj hcall, hok]
        dsimp only
        rw [hnew, if_neg Bool.false_ne_true]
        rfl
      have hall : claims p.userId p.chunk.meetingId (es ++ [.ledger id drawn readable q]) =
          claims p.userId p.chunk.meetingId es ++ [p.item] := by
        have hitem : itemOf (p.userId, initialMeetingOperationKey p.chunk.meetingId) (claimedChunk q) = some p.item := by
          rw [hclaimed]
          exact if_pos rfl
        rw [claims_ledger, hitem, Option.toList_some]
      have hincreasing := hclaims.increasing p.userId p.chunk.meetingId
      rw [hall, List.map_append, List.pairwise_append] at hincreasing
      have hfresh : p.item ∉ claims p.userId p.chunk.meetingId es := fun hmem =>
        lt_irrefl _ (hincreasing.2.2 _ (List.mem_map_of_mem hmem) _ List.mem_cons_self)
      have hmem : p.item ∈ claims p.userId p.chunk.meetingId (es ++ [.ledger id drawn readable q]) := by
        rw [hall]
        exact List.mem_append_right _ List.mem_cons_self
      refine .issue id (ticket p) hfresh hmem hissued ?_ (fun other hother => keeps_desk (hothers other hother)) hnone
      change (hold (t.requests id)).map ticket = some (ticket p)
      rw [hself, hheld]
      rfl
  · have hnone := hspent (h.other q)
    rw [List.map_nil, List.append_nil] at hnone
    refine .keep hissued (fun other => keeps_desk (.inl ?_)) hnone
    rw [ht]
  · have hnone := hspent (h.purge q)
    rw [List.map_nil, List.append_nil] at hnone
    refine .keep hissued (fun other => keeps_desk (.inl ?_)) hnone
    rw [ht]
  · rcases h.change hchange with ⟨hnone, hkeeps⟩ | ⟨id, p, hone, hheld, hdone, hothers⟩
    · have hnone := hspent hnone
      rw [List.map_nil, List.append_nil] at hnone
      exact .keep hissued (fun other => keeps_desk (hkeeps other)) hnone
    · refine .spend id (ticket p) ?_ ?_ hissued (fun other hother => keeps_desk (hothers other hother)) (hspent hone)
      · exact congrArg (Option.map ticket) hheld
      · exact congrArg (Option.map ticket) hdone

/-- **The tickets of a run are sound.** -/
theorem sound_of_run (h : Spends σ hold spentOf) (hledger : StreamLedger call reservationsOf)
    (hpurge : PurgeLedger reservationsOf purge) {s t : RealtimeState σ} {es : List RealtimeEvent}
    (hstart : RealtimeStart reservationsOf s) (hrun : Run (RealtimeStep call purge) s es t) :
    Sound (desk hold (spentOf es) es t) := by
  refine Run.induction_last (P := fun es t => Sound (desk hold (spentOf es) es t)) ?_
    (fun es e t u hpre hsound hstep => (moves_of_step h hstep
      (streamClaims_of_run hledger hpurge hstart (Run.append_iff.mpr ⟨t, hpre, Run.single hstep⟩))).sound hsound) hrun
  have hnothing : spentOf [] = [] := by
    have happend := h.append [] []
    rw [List.append_nil] at happend
    exact List.self_eq_append_right.mp happend
  have hheld : ∀ id, hold (s.requests id) = none := fun id => by rw [hstart.requests id, h.holds.idle]
  have hno : ∀ {id : RequestId} {x : Ticket}, (desk hold (spentOf []) [] s).held id ≠ some x := by
    intro id x hx
    change (hold (s.requests id)).map ticket = some x at hx
    rw [hheld id] at hx
    cases hx
  have hspent : (desk hold (spentOf []) [] s).spent = [] := by
    change (spentOf []).map ticket = []
    rw [hnothing]
    rfl
  exact ⟨fun hx => absurd hx hno, by rw [hspent]; simp, fun hx => absurd hx hno, fun hx => absurd hx hno,
    by rw [hspent]; exact List.nodup_nil⟩

end Runs

end OwnMinutes.Realtime.ChunkClaims
