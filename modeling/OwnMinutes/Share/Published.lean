import OwnMinutes.Lib.Runs
import OwnMinutes.Share.Effects

/-! # Who is shown what of a meeting

What a reader without an account, or with one that is not the owner's, is shown of a meeting is a result that
its owner has confirmed (`strangers_see_confirmed_results`) and published, for a time that is not over
(`strangers_see_published_meetings`), with neither taken back in between: in every state of every run, in which any
section may stop after any of its writes. -/

namespace OwnMinutes.Share.Published

open OwnMinutes.Auth.ProcessingRoute OwnMinutes.Auth.Records OwnMinutes.Lib.Runs
open OwnMinutes.Audio.Records OwnMinutes.Audio.Store OwnMinutes.Audio.Runs OwnMinutes.Audio.Sections
open OwnMinutes.Audio.Seals OwnMinutes.Audio.Replays OwnMinutes.Share.Results OwnMinutes.Share.Sections OwnMinutes.Share.Runs
open OwnMinutes.Share.Steps OwnMinutes.Share.Effects

variable {C : Type} {H : Hashing} {F : ResultFunctions C} {policy : RecordingUploadResourcePolicy}
  {es : List (ShareEvent C × Option (ShareAnswer C))} {s t : ShareWorld C}
  {e : ShareEvent C × Option (ShareAnswer C)} {meetingId : MeetingId} {m m' : AudioManifest}

/-! ### Where the share and the review come from -/

section Origins

variable (H F policy)

/-- The share of a manifest is the one that its owner published at a step of a run, and no later step of it has
answered a revocation. -/
structure PublishedSince (es : List (ShareEvent C × Option (ShareAnswer C))) (meetingId : MeetingId) (m : AudioManifest)
    (input : ShareInput) (expiresAt : Timestamp) : Prop where
  origin : ∃ pre event answer post u, es = pre ++ (event, answer) :: post ∧ Run (ShareStep H F policy) {} pre u ∧
    Publication H F u event meetingId input expiresAt ∧
    keys m.chunks = keys (manifestOf u meetingId).chunks ∧ ∀ e ∈ post, revokes e.1 e.2 ≠ some meetingId
  owner : m.ownerUserId = some input.ownerUserId
  share : ∃ updatedAt, m.share =
    { visibility := .public, includeTranscript := input.includeTranscript, expiresAt := some expiresAt, updatedAt }

/-- The review of a manifest is the one of a result that its owner confirmed at a step of a run, and no later step of it
has answered that it is taken back. -/
structure ConfirmedSince (es : List (ShareEvent C × Option (ShareAnswer C))) (meetingId : MeetingId) (m : AudioManifest)
    (ownerUserId : UserId) (result : MeetingResult C) : Prop where
  origin : ∃ pre event answer post u, es = pre ++ (event, answer) :: post ∧ Run (ShareStep H F policy) {} pre u ∧
    Confirmation H u event meetingId ownerUserId result ∧ ∀ e ∈ post, unconfirms e.1 e.2 ≠ some meetingId
  owner : m.ownerUserId = some ownerUserId
  review : ∃ confirmedAt, m.reviewConfirmation = some (createMeetingReviewConfirmation F confirmedAt result)

/-- Readers are let in by nobody, or by what their owner did and has not taken back. -/
structure Attributed (es : List (ShareEvent C × Option (ShareAnswer C))) (meetingId : MeetingId) (m : AudioManifest) :
    Prop where
  share : m.share.visibility = .private ∨ ∃ input expiresAt, PublishedSince H F policy es meetingId m input expiresAt
  review : m.reviewConfirmation = none ∨
    ∃ ownerUserId result, ConfirmedSince H F policy es meetingId m ownerUserId result

end Origins

theorem keepsOwner_some {ownerUserId : UserId} (h : KeepsOwner m m') (howner : m.ownerUserId = some ownerUserId) :
    m'.ownerUserId = some ownerUserId := by
  rcases h with hnone | heq
  · rw [hnone] at howner
    cases howner
  · rw [heq, howner]

theorem forall_mem_concat {p : ShareEvent C × Option (ShareAnswer C) → Prop}
    (h : ∀ e ∈ es, p e) (he : p e) : ∀ e' ∈ es ++ [e], p e' := by
  intro e' he'
  rcases List.mem_append.mp he' with he' | he'
  · exact h e' he'
  · rw [List.mem_singleton.mp he']
    exact he

theorem PublishedSince.keep {input : ShareInput} {expiresAt : Timestamp}
    (h : PublishedSince H F policy es meetingId m input expiresAt) (hsame : SameShare m m')
    (he : revokes e.1 e.2 ≠ some meetingId) :
    PublishedSince H F policy (es ++ [e]) meetingId m' input expiresAt := by
  obtain ⟨pre, event, answer, post, u, rfl, hrun, hpublication, hkeys, hpost⟩ := h.origin
  refine ⟨⟨pre, event, answer, post ++ [e], u, by rw [List.append_assoc, List.cons_append], hrun, hpublication,
    hsame.keys.trans hkeys, forall_mem_concat hpost he⟩, keepsOwner_some hsame.owner h.owner, ?_⟩
  rw [hsame.share]
  exact h.share

theorem ConfirmedSince.keep {ownerUserId : UserId} {result : MeetingResult C}
    (h : ConfirmedSince H F policy es meetingId m ownerUserId result) (hsame : SameReview m m')
    (he : unconfirms e.1 e.2 ≠ some meetingId) :
    ConfirmedSince H F policy (es ++ [e]) meetingId m' ownerUserId result := by
  obtain ⟨pre, event, answer, post, u, rfl, hrun, hconfirmation, hpost⟩ := h.origin
  refine ⟨⟨pre, event, answer, post ++ [e], u, by rw [List.append_assoc, List.cons_append], hrun, hconfirmation,
    forall_mem_concat hpost he⟩, keepsOwner_some hsame.owner h.owner, ?_⟩
  rw [hsame.review]
  exact h.review

theorem publishedSince_now (hrun : Run (ShareStep H F policy) {} es s) {input : ShareInput} {expiresAt : Timestamp}
    (h : Publication H F s e.1 meetingId input expiresAt) :
    PublishedSince H F policy (es ++ [e]) meetingId
      (normalizeManifest (withShare s.audio.now input (some expiresAt) (manifestOf s meetingId))) input expiresAt := by
  refine ⟨⟨es, e.1, e.2, [], s, rfl, hrun, h, rfl, by simp⟩, h.owner, some s.audio.now, ?_⟩
  change MeetingShare.mk input.visibility _ _ _ = _
  rw [h.visibility]

theorem confirmedSince_now (hrun : Run (ShareStep H F policy) {} es s) {ownerUserId : UserId} {result : MeetingResult C}
    (h : Confirmation H s e.1 meetingId ownerUserId result) (howner : m.ownerUserId = some ownerUserId)
    (hreview : m.reviewConfirmation = some (createMeetingReviewConfirmation F s.audio.now result)) :
    ConfirmedSince H F policy (es ++ [e]) meetingId m ownerUserId result :=
  ⟨⟨es, e.1, e.2, [], s, rfl, hrun, h, by simp⟩, howner, s.audio.now, hreview⟩

/-- A step keeps the share and the review of a meeting attributed. -/
theorem attributed_step (hrun : Run (ShareStep H F policy) {} es s) (h : Attributed H F policy es meetingId (manifestOf s meetingId))
    (heffect : Effect H F s e meetingId m') : Attributed H F policy (es ++ [e]) meetingId m' := by
  refine ⟨?_, ?_⟩
  · rcases heffect.share with hprivate | ⟨hkept, hsame⟩ | hpublished
    · exact .inl hprivate
    · rcases h.share with hprivate | ⟨input, expiresAt, hsince⟩
      · exact .inl (hsame.share ▸ hprivate)
      · exact .inr ⟨input, expiresAt, hsince.keep hsame hkept⟩
    · obtain ⟨input, expiresAt, hpublication, rfl⟩ := hpublished.publication
      exact .inr ⟨input, expiresAt, publishedSince_now hrun hpublication⟩
  · rcases heffect.review with hnone | ⟨hkept, hsame⟩ | hconfirmed
    · exact .inl hnone
    · rcases h.review with hnone | ⟨ownerUserId, result, hsince⟩
      · exact .inl (hsame.review.trans hnone)
      · exact .inr ⟨ownerUserId, result, hsince.keep hsame hkept⟩
    · obtain ⟨ownerUserId, result, hconfirmation, howner, hreview⟩ := hconfirmed.confirmation
      exact .inr ⟨ownerUserId, result, confirmedSince_now hrun hconfirmation howner hreview⟩

/-- **In every state of every run the share and the review of a meeting that is not deleted are attributed.** -/
theorem attributed_run (hrun : Run (ShareStep H F policy) {} es t) :
    t.audio.deletedMeetings meetingId = true ∨ Attributed H F policy es meetingId (manifestOf t meetingId) := by
  refine Run.induction_last (P := fun es t => t.audio.deletedMeetings meetingId = true ∨
    Attributed H F policy es meetingId (manifestOf t meetingId)) (.inr ⟨.inl rfl, .inl rfl⟩) ?_ hrun
  intro es e s t hrun ih hstep
  by_cases hdeleted : t.audio.deletedMeetings meetingId = true
  · exact .inl hdeleted
  · rcases ih with hs | ih
    · exact absurd (deleted_step hstep hs) hdeleted
    · exact .inr (attributed_step hrun ih (effect_step hstep (Bool.not_eq_true _ ▸ hdeleted)))

/-! ### What is shown -/

/-- What a reader is shown of a snapshot at a time. -/
inductive ShownTo (now : Timestamp) (snapshot : MeetingShareSnapshot C) (user : Option UserId) (page : SharedPage C) :
    Prop
  | markdown (h : markdownPage now snapshot = some page)
  | metadata (h : metadataPage now snapshot = some page)
  | page (h : sharePage now user snapshot = some page)

/-- Nobody, or somebody who is not the owner. -/
def Stranger (snapshot : MeetingShareSnapshot C) (user : Option UserId) : Prop :=
  ∀ ownerUserId, snapshot.access.ownerUserId = some ownerUserId → user ≠ some ownerUserId

/-- What a snapshot with a result says. -/
structure Snapped (H : Hashing) (F : ResultFunctions C) (s : ShareWorld C) (meetingId : MeetingId)
    (result : MeetingResult C) : Prop where
  deleted : s.audio.deletedMeetings meetingId = false
  owner : (readMeetingShareSnapshot H F s meetingId).access.ownerUserId = (manifestOf s meetingId).ownerUserId
  share : (readMeetingShareSnapshot H F s meetingId).access.share = (manifestOf s meetingId).share
  humanReview : (readMeetingShareSnapshot H F s meetingId).access.humanReview =
    resolveMeetingHumanReview F (manifestOf s meetingId).reviewConfirmation (some result)
  current : resultOf H s meetingId = some result
  existing : (readMeetingShareSnapshot H F s meetingId).access.existing = true
  hasChunks : (readMeetingShareSnapshot H F s meetingId).access.hasChunks = true

theorem snapped {result : MeetingResult C} (h : (readMeetingShareSnapshot H F s meetingId).result = some result) :
    Snapped H F s meetingId result := by
  by_cases hdeleted : s.audio.deletedMeetings meetingId = true
  · unfold readMeetingShareSnapshot at h
    rw [if_pos hdeleted] at h
    cases h
  · cases hmanifest : (s.audio.meetings meetingId).manifest.map normalizeManifest with
    | none =>
      unfold readMeetingShareSnapshot at h
      rw [if_neg hdeleted, hmanifest] at h
      cases h
    | some manifest =>
      have hmanifestOf : manifestOf s meetingId = manifest := by
        unfold manifestOf listing currentManifest
        rw [hmanifest]
        rfl
      have hsnapshot : readMeetingShareSnapshot H F s meetingId =
          { access :=
              { meetingId
                existing := true
                ownerUserId := manifest.ownerUserId
                share := manifest.share
                hasChunks := !manifest.chunks.isEmpty
                humanReview := resolveMeetingHumanReview F manifest.reviewConfirmation
                  (currentMeetingResultForManifest H (s.stored meetingId).result manifest) }
            durationMs := (manifest.chunks.map (·.durationMs)).sum
            result := currentMeetingResultForManifest H (s.stored meetingId).result manifest } := by
        unfold readMeetingShareSnapshot
        rw [if_neg hdeleted, hmanifest]
      rw [hsnapshot] at h
      have hchunks : manifest.chunks ≠ [] := (currentMeetingResult_eq_some h).2
      refine ⟨Bool.not_eq_true _ ▸ hdeleted, ?_, ?_, ?_, ?_, ?_, ?_⟩
      · rw [hsnapshot, hmanifestOf]
      · rw [hsnapshot, hmanifestOf]
      · rw [hsnapshot, hmanifestOf]
        exact congrArg (resolveMeetingHumanReview F manifest.reviewConfirmation) h
      · unfold resultOf
        rw [hmanifestOf]
        exact h
      · rw [hsnapshot]
      · rw [hsnapshot]
        simpa using hchunks

/-- A stranger is shown a result only while the share is active and the review is confirmed. -/
structure Open (now : Timestamp) (snapshot : MeetingShareSnapshot C) (page : SharedPage C) : Prop where
  active : isMeetingShareActive snapshot.access.share now = true
  confirmed : snapshot.access.humanReview.status = .confirmed
  result : snapshot.result = some page.result
  transcript (h : page.transcript = true) : snapshot.access.share.includeTranscript = true

variable {now : Timestamp} {page : SharedPage C}

theorem open_markdown {snapshot : MeetingShareSnapshot C} (h : markdownPage now snapshot = some page) :
    Open now snapshot page := by
  unfold markdownPage at h
  split_ifs at h with hclosed
  simp only [Bool.or_eq_true, Bool.not_eq_true', bne_iff_ne, not_or, Bool.not_eq_false, ne_eq, not_not] at hclosed
  obtain ⟨result, hresult, rfl⟩ := Option.map_eq_some_iff.mp h
  exact ⟨hclosed.1.2, hclosed.2, hresult, fun h => h⟩

theorem open_metadata {snapshot : MeetingShareSnapshot C} (hexists : snapshot.access.existing = true)
    (h : metadataPage now snapshot = some page) : Open now snapshot page := by
  unfold metadataPage at h
  dsimp only at h
  split_ifs at h with hclosed
  simp only [hexists, Bool.not_true, Bool.false_and, Bool.true_and, Bool.or_eq_true, Bool.not_eq_true',
    bne_iff_ne, not_or, Bool.not_eq_false, ne_eq, not_not, Bool.false_eq_true, false_or] at hclosed
  obtain ⟨result, hresult, rfl⟩ := Option.map_eq_some_iff.mp h
  exact ⟨hclosed.1, hclosed.2, hresult, fun h => by cases h⟩

theorem open_page {snapshot : MeetingShareSnapshot C} {user : Option UserId}
    (hchunks : snapshot.access.hasChunks = true) (hstranger : Stranger snapshot user)
    (h : sharePage now user snapshot = some page) : Open now snapshot page := by
  have hviewer : (snapshot.access.ownerUserId.isSome && user == snapshot.access.ownerUserId) = false := by
    cases howner : snapshot.access.ownerUserId with
    | none => rfl
    | some ownerUserId => simpa using hstranger ownerUserId howner
  unfold sharePage at h
  dsimp only at h
  rw [hviewer, hchunks] at h
  split_ifs at h with hmissing hclosed
  simp only [Bool.not_false, Bool.and_true, Bool.not_eq_true', Bool.not_eq_false, Bool.and_eq_true,
    beq_iff_eq] at hclosed
  obtain ⟨result, hresult, rfl⟩ := Option.map_eq_some_iff.mp h
  exact ⟨hclosed.1, hclosed.2, hresult, fun h => by simpa using h⟩

theorem open_shown {user : Option UserId} (hstranger : Stranger (readMeetingShareSnapshot H F s meetingId) user)
    (h : ShownTo now (readMeetingShareSnapshot H F s meetingId) user page) :
    Open now (readMeetingShareSnapshot H F s meetingId) page := by
  have hresult : (readMeetingShareSnapshot H F s meetingId).result = some page.result := by
    cases h with
    | markdown h => exact (open_markdown h).result
    | metadata h =>
      unfold metadataPage at h
      dsimp only at h
      split_ifs at h
      obtain ⟨result, hresult, rfl⟩ := Option.map_eq_some_iff.mp h
      exact hresult
    | page h =>
      unfold sharePage at h
      dsimp only at h
      split_ifs at h
      obtain ⟨result, hresult, rfl⟩ := Option.map_eq_some_iff.mp h
      exact hresult
  have hsnapped := snapped hresult
  cases h with
  | markdown h => exact open_markdown h
  | metadata h => exact open_metadata hsnapped.existing h
  | page h => exact open_page hsnapped.hasChunks hstranger h

/-- **What a stranger is shown was confirmed by the owner.** The result that a reader who is not the owner is shown,
of a snapshot taken in any state of any run and looked at at any time, is the stored one and fits the audio; the owner
has confirmed, at a step of the run, a result that was current then and has the same fingerprint, and no later step has
answered that the review is taken back, that a chunk is added or that the meeting is deleted. -/
theorem strangers_see_confirmed_results (hrun : Run (ShareStep H F policy) {} es t) {now : Timestamp}
    {user : Option UserId} {page : SharedPage C} (hstranger : Stranger (readMeetingShareSnapshot H F t meetingId) user)
    (h : ShownTo now (readMeetingShareSnapshot H F t meetingId) user page) :
    resultOf H t meetingId = some page.result ∧
      ∃ ownerUserId confirmed pre event answer post u, es = pre ++ (event, answer) :: post ∧
        Run (ShareStep H F policy) {} pre u ∧ Confirmation H u event meetingId ownerUserId confirmed ∧
        (readMeetingShareSnapshot H F t meetingId).access.ownerUserId = some ownerUserId ∧
        fingerprintMeetingResult F confirmed = fingerprintMeetingResult F page.result ∧
        ∀ e ∈ post, unconfirms e.1 e.2 ≠ some meetingId := by
  have hopen := open_shown hstranger h
  have hsnapped := snapped hopen.result
  have hconfirmed := hopen.confirmed
  rw [hsnapped.humanReview] at hconfirmed
  obtain ⟨c, r, hc, hr, hfingerprint⟩ := resolveMeetingHumanReview_confirmed.mp hconfirmed
  obtain rfl : page.result = r := Option.some.inj hr
  refine ⟨hsnapped.current, ?_⟩
  have hrecords : t.audio.deletedMeetings meetingId = true ∨
      Attributed H F policy es meetingId (manifestOf t meetingId) := attributed_run hrun
  rcases hrecords with hdeleted | hattributed
  · exact absurd hdeleted (by rw [hsnapped.deleted]; exact Bool.false_ne_true)
  rcases hattributed.review with hnone | ⟨ownerUserId, confirmed, hsince⟩
  · rw [hnone] at hc
    cases hc
  obtain ⟨confirmedAt, hreview⟩ := hsince.review
  obtain rfl : createMeetingReviewConfirmation F confirmedAt confirmed = c := Option.some.inj (hreview.symm.trans hc)
  obtain ⟨pre, event, answer, post, u, hes, hpre, hconfirmation, hpost⟩ := hsince.origin
  exact ⟨ownerUserId, confirmed, pre, event, answer, post, u, hes, hpre, hconfirmation,
    hsnapped.owner.trans hsince.owner, hfingerprint, hpost⟩

def sampleFunctions : ResultFunctions String where
  fingerprint title _ content := title ++ content
  obsidianMarkdown content := content
  rebuildMarkdown title content := title ++ content
  applySpeakerNames _ content := content
  assignTranscriptSpeakers _ content := .ok content
  patchSummary patch _ := patch

def sampleResult : MeetingResult String := { title := "Notes", generatedAt := 3, content := "transcript" }

/-- A recording gets its result, which its owner confirms and publishes. -/
def sampleEvents : List (ShareEvent String) :=
  [.audio (.saveChunk
      { meetingId := "meeting", ownerUserId := "owner", sequence := 1, buffer := [82, 73], mimeType := "audio/webm"
        recordedAt := 0, durationMs := 1000 } none),
    .audio (.tick 5), .saveResult "meeting" sampleResult none none,
    .updateHumanReview ⟨true, "meeting", "owner"⟩ none,
    .updateShare
      { meetingId := "meeting", ownerUserId := "owner", visibility := .public, includeTranscript := false } true {} none]

theorem exists_sampleRun : ∃ es t, Run (ShareStep textHashing sampleFunctions {}) {} es t ∧
    markdownPage 9 (readMeetingShareSnapshot textHashing sampleFunctions t "meeting") = some ⟨sampleResult, false⟩ := by
  have hplay : (play textHashing sampleFunctions {} {} sampleEvents).any (fun r =>
      markdownPage 9 (readMeetingShareSnapshot textHashing sampleFunctions r.2 "meeting") ==
        some ⟨sampleResult, false⟩) = true := by decide
  cases hrun : play textHashing sampleFunctions {} {} sampleEvents with
  | none =>
    rw [hrun] at hplay
    cases hplay
  | some r =>
    rw [hrun, Option.any_some, beq_iff_eq] at hplay
    exact ⟨r.1, r.2, run_play _ _ _ hrun, hplay⟩

theorem strangers_see_confirmed_results_sample : ∃ es t, Run (ShareStep textHashing sampleFunctions {}) {} es t ∧
    resultOf textHashing t "meeting" = some sampleResult := by
  obtain ⟨es, t, hrun, hpage⟩ := exists_sampleRun
  have hstranger : Stranger (readMeetingShareSnapshot textHashing sampleFunctions t "meeting") none := fun _ _ => nofun
  exact ⟨es, t, hrun, (strangers_see_confirmed_results hrun hstranger (.markdown hpage)).1⟩

/-- **What a stranger is shown was published by the owner, and is not revoked.** A reader who is not the owner is shown a
result only before an expiry at most seven days and five minutes after a step of the run by which the owner published
the meeting, with the result of then confirmed; the audio has the same chunks still, the transcript is only shown where
the owner included it, and no later step has answered that the share is revoked or the result replaced. -/
theorem strangers_see_published_meetings (hrun : Run (ShareStep H F policy) {} es t) {now : Timestamp}
    {user : Option UserId} {page : SharedPage C} (hstranger : Stranger (readMeetingShareSnapshot H F t meetingId) user)
    (h : ShownTo now (readMeetingShareSnapshot H F t meetingId) user page) :
    ∃ input expiresAt pre event answer post u, es = pre ++ (event, answer) :: post ∧
      Run (ShareStep H F policy) {} pre u ∧ Publication H F u event meetingId input expiresAt ∧
      (readMeetingShareSnapshot H F t meetingId).access.ownerUserId = some input.ownerUserId ∧
      now < expiresAt ∧ expiresAt ≤ u.audio.now + meetingShareLifetimeMs + meetingShareClockSkewAllowanceMs ∧
      (page.transcript = true → input.includeTranscript = true) ∧
      keys (manifestOf t meetingId).chunks = keys (manifestOf u meetingId).chunks ∧
      ∀ e ∈ post, revokes e.1 e.2 ≠ some meetingId := by
  have hopen := open_shown hstranger h
  have hsnapped := snapped hopen.result
  obtain ⟨hpublic, expires, hexpires, hlt⟩ := isMeetingShareActive_iff.mp hopen.active
  have htranscript := hopen.transcript
  rw [hsnapped.share] at hpublic hexpires htranscript
  have hrecords : t.audio.deletedMeetings meetingId = true ∨
      Attributed H F policy es meetingId (manifestOf t meetingId) := attributed_run hrun
  rcases hrecords with hdeleted | hattributed
  · exact absurd hdeleted (by rw [hsnapped.deleted]; exact Bool.false_ne_true)
  rcases hattributed.share with hprivate | ⟨input, expiresAt, hsince⟩
  · rw [hprivate] at hpublic
    cases hpublic
  obtain ⟨updatedAt, hshare⟩ := hsince.share
  rw [hshare] at hexpires htranscript
  obtain rfl : expiresAt = expires := Option.some.inj hexpires
  obtain ⟨pre, event, answer, post, u, hes, hpre, hpublication, hkeys, hpost⟩ := hsince.origin
  exact ⟨input, expiresAt, pre, event, answer, post, u, hes, hpre, hpublication, hsnapped.owner.trans hsince.owner, hlt,
    (resolveMeetingShareExpiresAt_bounds hpublication.expires).2, htranscript, hkeys, hpost⟩

theorem strangers_see_published_meetings_sample : ∃ es t, Run (ShareStep textHashing sampleFunctions {}) {} es t ∧
    ∃ pre event answer post, es = pre ++ (event, answer) :: post ∧
      ∀ e ∈ post, revokes e.1 e.2 ≠ some "meeting" := by
  obtain ⟨es, t, hrun, hpage⟩ := exists_sampleRun
  have hstranger : Stranger (readMeetingShareSnapshot textHashing sampleFunctions t "meeting") none := fun _ _ => nofun
  obtain ⟨-, -, pre, event, answer, post, -, hes, -, -, -, -, -, -, -, hpost⟩ :=
    strangers_see_published_meetings hrun hstranger (.markdown hpage)
  exact ⟨es, t, hrun, pre, event, answer, post, hes, hpost⟩

end OwnMinutes.Share.Published
