import OwnMinutes.Realtime.SessionAccounts

/-! # What is sent, and what is reused

The tickets of the claims bound what the provider is sent (`sentOnce_of_streams`). A transcript that is reused is made
of chunks that were claimed one after the other, each published once, and together they are nine tenths of the recording
(`reusesClaimed_of_streams`). -/

namespace OwnMinutes.Realtime.Transcripts

open OwnMinutes.Lib.Keyed OwnMinutes.Lib.Runs OwnMinutes.Lib.Counters OwnMinutes.Lib.Tickets OwnMinutes.Auth.Records
open OwnMinutes.Auth.QuotaTypes OwnMinutes.Auth.ProcessingRoute OwnMinutes.Quota.Calls OwnMinutes.Quota.Streams
open OwnMinutes.Finalization.Records
open OwnMinutes.Realtime.Sessions OwnMinutes.Realtime.Reuse OwnMinutes.Realtime.Chunks OwnMinutes.Realtime.ChunkClaims
open OwnMinutes.Realtime.SessionAccounts

variable {σ : Type} {call : Clocked σ → QuotaEvent → Clocked σ → Prop}
  {purge : Clocked σ → LedgerPurge → Clocked σ → Prop} {reservationsOf : σ → Table MeetingProcessingReservationRecord}
  {s t : RealtimeState σ} {es : List RealtimeEvent}

theorem amount_pos {k : StreamKey} {i : Item} {qs : List QuotaEvent} (h : i ∈ claimedChunks k qs) : 0 < i.amount := by
  obtain ⟨q, -, hitem⟩ := List.mem_filterMap.mp h
  obtain ⟨claimed, hclaimed, rfl⟩ := claimed_of_itemOf hitem
  exact amount_pos_of_claimed hclaimed

/-! ### Chunks that are sent -/

/-- The chunks of a stream that were sent. -/
def sentItems (k : StreamKey) (es : List RealtimeEvent) : List Item :=
  ((sent es).filter fun p => p.key == k).map (·.item)

theorem mem_sentItems {k : StreamKey} {i : Item} (h : i ∈ sentItems k es) : (k, i) ∈ (sent es).map ticket := by
  obtain ⟨p, hp, rfl⟩ := List.mem_map.mp h
  obtain ⟨hsent, hk⟩ := List.mem_filter.mp hp
  obtain rfl : p.key = k := beq_iff_eq.mp hk
  exact List.mem_map_of_mem hsent

/-- Chunks of one stream with different tickets are different. -/
theorem nodup_items {k : StreamKey} {plans : List RealtimeProviderPlan} (hkey : ∀ p ∈ plans, p.key = k)
    (honce : (plans.map ticket).Nodup) : (plans.map (·.item)).Nodup := by
  refine List.pairwise_map.mpr ((List.pairwise_map.mp honce).imp_of_mem fun {p q} hp hq hne heq => hne ?_)
  exact Prod.ext ((hkey p hp).trans (hkey q hq).symm) heq

/-- The reservation of the meeting is not purged. -/
def Unpurged (userId : UserId) (meetingId : MeetingId) (es : List RealtimeEvent) : Prop :=
  ∀ p ∈ purges es, p.covers userId meetingId = false

/-- What is sent to the provider is claimed first, sent once, and counted until the meeting or the account is deleted. -/
structure SentOnce (call : Clocked σ → QuotaEvent → Clocked σ → Prop)
    (purge : Clocked σ → LedgerPurge → Clocked σ → Prop)
    (reservationsOf : σ → Table MeetingProcessingReservationRecord) (s : RealtimeState σ) : Prop where
  claimed : ∀ {es fs : List RealtimeEvent} {id : RequestId} {p : RealtimeProviderPlan} {t : RealtimeState σ},
    Run (RealtimeStep call purge) s (es ++ .send id p :: fs) t → p.item ∈ claims p.userId p.chunk.meetingId es
  once : ∀ {es : List RealtimeEvent} {t : RealtimeState σ}, Run (RealtimeStep call purge) s es t →
    ∀ k, ((sentItems k es).map (·.sequence)).Nodup
  counted : ∀ {es : List RealtimeEvent} {t : RealtimeState σ}, Run (RealtimeStep call purge) s es t →
    ∀ userId meetingId, Unpurged userId meetingId es → sentItems (userId, initialMeetingOperationKey meetingId) es ≠ [] →
      ∃ c, counterFor (reservationsOf t.ledger.store) (userId, initialMeetingOperationKey meetingId) = some c ∧
        amounts (sentItems (userId, initialMeetingOperationKey meetingId) es) ≤ c.total

section Sent

variable (hledger : StreamLedger call reservationsOf) (hpurge : PurgeLedger reservationsOf purge)
  (hstart : RealtimeStart reservationsOf s) (hrun : Run (RealtimeStep call purge) s es t)

include hledger hpurge hstart hrun

theorem sentItems_subset (k : StreamKey) : sentItems k es ⊆ claimedChunks k (quotaEvents es) := by
  intro i hi
  exact (sound_of_run spends_toSend hledger hpurge hstart hrun).spent_issued _ (mem_sentItems hi)

theorem nodup_sentItems (k : StreamKey) : (sentItems k es).Nodup := by
  have honce : ((sent es).map ticket).Nodup := (sound_of_run spends_toSend hledger hpurge hstart hrun).spent_once
  refine nodup_items (k := k) (fun p hp => ?_) (honce.sublist ((List.filter_sublist).map ticket))
  exact beq_iff_eq.mp (List.mem_filter.mp hp).2

/-- The numbers of the chunks that are sent are different, as those that are claimed are. -/
theorem nodup_sequences (k : StreamKey) : ((sentItems k es).map (·.sequence)).Nodup := by
  have hsubset := sentItems_subset hledger hpurge hstart hrun k
  refine (nodup_sentItems hledger hpurge hstart hrun k).map_on fun i hi j hj hij => ?_
  obtain ⟨p, hp, -⟩ := List.mem_map.mp hi
  obtain rfl : p.key = k := beq_iff_eq.mp (List.mem_filter.mp hp).2
  have hincreasing := (streamClaims_of_run hledger hpurge hstart hrun).increasing p.userId p.chunk.meetingId
  exact List.inj_on_of_nodup_map (hincreasing.imp fun hlt => hlt.ne) (hsubset hi) (hsubset hj) hij

end Sent

/-- **What is sent is claimed, once, and counted.** -/
theorem sentOnce_of_streams (hledger : StreamLedger call reservationsOf) (hpurge : PurgeLedger reservationsOf purge)
    (hstart : RealtimeStart reservationsOf s) : SentOnce call purge reservationsOf s where
  claimed {es fs id p t} hrun := by
    obtain ⟨u, hpre, hrest⟩ := Run.append_iff.mp hrun
    obtain ⟨v, hstep, -⟩ := Run.cons_iff.mp hrest
    have hchange : RequestChange u (.send id p) v := requestChange_of_step hstep
    have hheld : (Phase.toSend (u.requests id)).map ticket = some (ticket p) := by
      cases hchange with
      | refused hsend => cases hsend
      | sent hphase => rw [hphase]; rfl
      | dropped hsend => cases hsend
    exact (sound_of_run spends_toSend hledger hpurge hstart hpre).held_issued hheld
  once hrun k := nodup_sequences hledger hpurge hstart hrun k
  counted {es t} hrun userId meetingId hunpurged hsent := by
    have hsubset : sentItems (userId, initialMeetingOperationKey meetingId) es ⊆ claims userId meetingId es :=
      sentItems_subset hledger hpurge hstart hrun _
    have hle := amounts_le_of_subset (nodup_sentItems hledger hpurge hstart hrun _) hsubset fun _ => amount_pos
    rcases (streamClaims_of_run hledger hpurge hstart hrun).counted userId meetingId with hnone | hcounts | hgone
    · rw [hnone] at hsubset
      exact absurd (List.subset_nil.mp hsubset) hsent
    · obtain ⟨c, hc, hincludes⟩ := hcounts.counter
      exact ⟨c, hc, hle.trans hincludes.total⟩
    · obtain ⟨p, hp, hcovers⟩ := hgone.purge
      rw [hunpurged p hp] at hcovers
      cases hcovers

/-! ### Transcripts that are reused -/

/-- The chunks that a transcript stands for. -/
structure Transcribed (es : List RealtimeEvent) (userId : UserId) (meetingId : MeetingId) (audioDurationMs : ℚ)
    (chunks : List Published) : Prop where
  published : chunks.Sublist (published es)
  own : ∀ p ∈ chunks, p.plan.userId = userId ∧ p.plan.chunk.meetingId = meetingId
  answered : ∀ p ∈ chunks, p.answer.providerStatus ≠ some .providerError
  claimed : (chunks.map (·.plan.item)).Sublist (claims userId meetingId es)
  increasing : (chunks.map (·.plan.chunk.sequence)).Pairwise (· < ·)
  covers : 9 / 10 * (max 1 (mathRound audioDurationMs) : ℤ) ≤ durations chunks

/-- The chunks of a session were claimed in their order. -/
theorem claimed_of_covers (hledger : StreamLedger call reservationsOf) (hpurge : PurgeLedger reservationsOf purge)
    (hstart : RealtimeStart reservationsOf s) (hrun : Run (RealtimeStep call purge) s es t) {meetingId : MeetingId}
    {session : RealtimeSessionSummary} {chunks : List Published} (h : Covers es meetingId session chunks) :
    (chunks.map (·.plan.item)).Sublist (claims session.ownerUserId meetingId es) := by
  have hsound := sound_of_run spends_toPublish hledger hpurge hstart hrun
  have hkey : ∀ p ∈ chunks.map (·.plan), p.key = (session.ownerUserId, initialMeetingOperationKey meetingId) := by
    intro p hp
    obtain ⟨q, hq, rfl⟩ := List.mem_map.mp hp
    obtain ⟨howner, hmeeting⟩ := h.own q hq
    rw [RealtimeProviderPlan.key, RealtimeProviderPlan.operationKey, howner, hmeeting]
  have hplans : (chunks.map (·.plan)).Sublist (publishedPlans es) := h.published.map _
  have hmap : chunks.map (·.plan.item) = (chunks.map (·.plan)).map (·.item) := by rw [List.map_map]; rfl
  have honce : (chunks.map (·.plan.item)).Nodup := by
    have htickets : ((publishedPlans es).map ticket).Nodup := hsound.spent_once
    rw [hmap]
    exact nodup_items hkey (htickets.sublist (hplans.map ticket))
  have hsubset : chunks.map (·.plan.item) ⊆ claims session.ownerUserId meetingId es := by
    intro i hi
    rw [hmap] at hi
    obtain ⟨p, hp, rfl⟩ := List.mem_map.mp hi
    have hissued : p.item ∈ claimedChunks p.key (quotaEvents es) :=
      hsound.spent_issued _ (List.mem_map_of_mem (hplans.subset hp))
    rw [hkey p hp] at hissued
    exact hissued
  have hordered : ((chunks.map (·.plan.item)).map (·.sequence)).Pairwise (· ≤ ·) := by
    have hsequences : (chunks.map (·.plan.item)).map (·.sequence) = chunks.map (·.plan.chunk.sequence) := by
      rw [List.map_map]
      rfl
    rw [hsequences]
    exact h.ordered
  have hincreasing := (streamClaims_of_run hledger hpurge hstart hrun).increasing session.ownerUserId meetingId
  exact sublist_of_ordered hincreasing honce hsubset hordered

theorem durations_nonneg (chunks : List Published) : 0 ≤ durations chunks := by
  induction chunks with
  | nil => exact le_rfl
  | cons p chunks ih => exact add_nonneg p.plan.chunk.durationMs_pos.le ih

/-- What the session that is read is reused for stands for chunks that were claimed. -/
def ReusesClaimed (call : Clocked σ → QuotaEvent → Clocked σ → Prop)
    (purge : Clocked σ → LedgerPurge → Clocked σ → Prop) (s : RealtimeState σ) : Prop :=
  ∀ {es : List RealtimeEvent} {t : RealtimeState σ}, Run (RealtimeStep call purge) s es t →
    ∀ {userId : UserId} {meetingId : MeetingId} {readable : Bool} {session : Option RealtimeSessionSummary}
      {audioDurationMs : ℚ}, readUserRealtimeSession (t.sessions meetingId) readable meetingId userId = .ok session →
      (selectReusableRealtimeTranscript audioDurationMs session).reusable = true →
      (∃ chunks, Transcribed es userId meetingId audioDurationMs chunks) ∧
        ∀ x ∈ (selectReusableRealtimeTranscript audioDurationMs session).transcript, Returned es userId meetingId x

/-- **A transcript that is reused stands for chunks that were claimed.** -/
theorem reusesClaimed_of_streams (hledger : StreamLedger call reservationsOf) (hpurge : PurgeLedger reservationsOf purge)
    (hstart : RealtimeStart reservationsOf s) : ReusesClaimed call purge s := by
  intro es t hrun userId meetingId readable session audioDurationMs hread hreusable
  obtain ⟨found, rfl, hreused⟩ := reused_of_reusable hreusable
  obtain ⟨haccounted, rfl⟩ := accounted_read (accounted_of_run hstart hrun meetingId) hread
  obtain ⟨hformat, horder, hprovider⟩ := hreused.clean
  obtain ⟨chunks, hcovers⟩ := haccounted.chunks ⟨hformat, horder, hprovider⟩
  have hclaimed := claimed_of_covers hledger hpurge hstart hrun hcovers
  refine ⟨⟨chunks, hcovers.published, hcovers.own, hcovers.answered, hclaimed, ?_, ?_⟩, ?_⟩
  · have hsequences : (chunks.map (·.plan.item)).map (·.sequence) = chunks.map (·.plan.chunk.sequence) := by
      rw [List.map_map]
      rfl
    rw [← hsequences]
    exact ((streamClaims_of_run hledger hpurge hstart hrun).increasing found.ownerUserId meetingId).sublist
      (hclaimed.map _)
  · have hduration := hreused.covers
    rw [hcovers.duration, max_eq_right (durations_nonneg chunks)] at hduration
    exact hduration
  · intro x hx
    rw [hreused.segments] at hx
    exact haccounted.segments x (mem_deduplicateSegments hx)

end OwnMinutes.Realtime.Transcripts
