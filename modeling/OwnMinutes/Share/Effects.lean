import OwnMinutes.Share.Steps

/-! # What the steps of a run do to a publication

After a step the share of a meeting is private, or it is the share of before and the step answered no
revocation, or the owner has just published it; the review goes the same way (`Effect`). -/

namespace OwnMinutes.Share.Effects

open OwnMinutes.Auth.ProcessingRoute OwnMinutes.Auth.Records OwnMinutes.Lib.Crash
open OwnMinutes.Audio.Records OwnMinutes.Audio.Store OwnMinutes.Audio.Runs OwnMinutes.Audio.Sections
open OwnMinutes.Audio.Seals OwnMinutes.Share.Results OwnMinutes.Share.Sections OwnMinutes.Share.Runs
open OwnMinutes.Share.AudioSteps OwnMinutes.Share.Steps

variable {C : Type} {H : Hashing} {F : ResultFunctions C} {policy : RecordingUploadResourcePolicy}

/-! ### Answers that end a publication -/

/-- The meeting whose review a step with its answer takes back. -/
def unconfirms : ShareEvent C → Option (ShareAnswer C) → Option MeetingId
  | .audio (.deleteMeeting meetingId), _ => some meetingId
  | .audio (.saveChunk input _), some (.audio (.saved saved)) =>
    if saved.idempotent then none else some input.meetingId
  | .updateHumanReview input _, some (.review _) => if input.confirmed then none else some input.meetingId
  | _, _ => none

/-- The meeting whose share a step with its answer revokes. -/
def revokes : ShareEvent C → Option (ShareAnswer C) → Option MeetingId
  | .updateShare input _ _ _, some (.share _) => if input.visibility = .private then some input.meetingId else none
  | .updateMetadata input _, some (.edited (some _)) => some input.meetingId
  | .updateSpeakers input _ _, some (.edited _) => some input.meetingId
  | .updateTranscriptSpeakers input _ _, some (.edited _) => some input.meetingId
  | .updateSummary input _ _, some (.edited _) => some input.meetingId
  | .saveResult meetingId _ _ _, some .saved => some meetingId
  | event, answer => unconfirms event answer

/-! ### The calls of the owner -/

section Calls

variable (H F)

/-- The manifest of a meeting as its sections read it. -/
def manifestOf (s : ShareWorld C) (meetingId : MeetingId) : AudioManifest := listing (s.audio.meetings meetingId)

/-- The result of a meeting that is current. -/
def resultOf (s : ShareWorld C) (meetingId : MeetingId) : Option (MeetingResult C) :=
  currentMeetingResultForManifest H (s.stored meetingId).result (manifestOf s meetingId)

/-- The owner of a meeting publishes it by a step from a state, where the current result is the confirmed one. -/
structure Publication (s : ShareWorld C) (event : ShareEvent C) (meetingId : MeetingId) (input : ShareInput)
    (expiresAt : Timestamp) : Prop where
  event : ∃ backfilled preparation stop, event = .updateShare input backfilled preparation stop
  meeting : input.meetingId = meetingId
  visibility : input.visibility = .public
  owner : (manifestOf s meetingId).ownerUserId = some input.ownerUserId
  expires : resolveMeetingShareExpiresAt input.expiresAt s.audio.now = .ok expiresAt
  reviewed : (resolveMeetingHumanReview F (manifestOf s meetingId).reviewConfirmation (resultOf H s meetingId)).status =
    .confirmed

/-- The owner of a meeting confirms its current result by a step from a state. -/
structure Confirmation (s : ShareWorld C) (event : ShareEvent C) (meetingId : MeetingId) (ownerUserId : UserId)
    (result : MeetingResult C) : Prop where
  event : ∃ stop, event = .updateHumanReview ⟨true, meetingId, ownerUserId⟩ stop
  owner : (manifestOf s meetingId).ownerUserId = some ownerUserId
  current : resultOf H s meetingId = some result

/-- The manifest that a publication leaves. -/
structure Published (s : ShareWorld C) (event : ShareEvent C) (meetingId : MeetingId) (m : AudioManifest) : Prop where
  publication : ∃ input expiresAt, Publication H F s event meetingId input expiresAt ∧
    m = normalizeManifest (withShare s.audio.now input (some expiresAt) (manifestOf s meetingId))

structure Confirmed (s : ShareWorld C) (event : ShareEvent C) (meetingId : MeetingId) (m : AudioManifest) : Prop where
  confirmation : ∃ ownerUserId result, Confirmation H s event meetingId ownerUserId result ∧
    m.ownerUserId = some ownerUserId ∧
    m.reviewConfirmation = some (createMeetingReviewConfirmation F s.audio.now result)

/-- What a step does to the share and the review of a meeting. -/
structure Effect (s : ShareWorld C) (e : ShareEvent C × Option (ShareAnswer C)) (meetingId : MeetingId)
    (m' : AudioManifest) : Prop where
  share : m'.share.visibility = .private ∨
    (revokes e.1 e.2 ≠ some meetingId ∧ SameShare (manifestOf s meetingId) m') ∨ Published H F s e.1 meetingId m'
  review : m'.reviewConfirmation = none ∨
    (unconfirms e.1 e.2 ≠ some meetingId ∧ SameReview (manifestOf s meetingId) m') ∨ Confirmed H F s e.1 meetingId m'

end Calls

variable {s t : ShareWorld C} {e : ShareEvent C × Option (ShareAnswer C)} {meetingId : MeetingId}

/-- What takes a review back revokes the share. -/
theorem revokes_of_unconfirms {event : ShareEvent C} {answer : Option (ShareAnswer C)}
    (h : unconfirms event answer = some meetingId) : revokes event answer = some meetingId := by
  unfold revokes
  split <;> first | exact h | simp [unconfirms] at h

theorem effect_kept {m' : AudioManifest} (hshare : SameShare (manifestOf s meetingId) m')
    (hreview : SameReview (manifestOf s meetingId) m') (h : revokes e.1 e.2 ≠ some meetingId) :
    Effect H F s e meetingId m' :=
  ⟨.inr (.inl ⟨h, hshare⟩), .inr (.inl ⟨fun hu => h (revokes_of_unconfirms hu), hreview⟩)⟩

theorem effect_same (h : revokes e.1 e.2 ≠ some meetingId) : Effect H F s e meetingId (manifestOf s meetingId) :=
  effect_kept ⟨.inr rfl, rfl, rfl⟩ ⟨.inr rfl, rfl⟩ h

theorem effect_withdrawn {m' : AudioManifest} (h : Withdrawn m') : Effect H F s e meetingId m' :=
  ⟨.inl h.share, .inl h.review⟩

/-! ### Sections in a step -/

variable {o : SharedObjects C}

section Sections

variable {α : Type} {x : Shared C α} {stop : Option ℕ} {answer : α → ShareAnswer C} {id : MeetingId}

/-- A section is refused, or it is found after some of its writes, all of them where it answers. -/
theorem fencedShare_cases {given : Option (ShareAnswer C)} (ht : fencedShare s id stop answer x = (t, given)) :
    (t = s ∧ ∃ error, given = some (.error error)) ∨
      ∃ o, Visits x (s.objects id) o ∧ t = s.setObjects id o ∧
        (given = none ∨ (∃ error, given = some (.error error)) ∨
          ∃ a, Returns x (s.objects id) a o ∧ given = some (answer a)) := by
  unfold fencedShare at ht
  split_ifs at ht with hdeleted
  · cases ht
    exact .inl ⟨rfl, _, rfl⟩
  · cases ht
    refine .inr ⟨_, visits_run x stop _, rfl, ?_⟩
    rcases hrun : (x.run stop (s.objects id)).2 with _ | (error | a)
    · exact .inl rfl
    · exact .inr (.inl ⟨error, rfl⟩)
    · exact .inr (.inr ⟨a, returns_of_run hrun, rfl⟩)

theorem manifestOf_setObjects (o : SharedObjects C) : manifestOf (s.setObjects id o) id = shared o :=
  congrArg listing (Function.update_self _ _ _)

theorem manifestOf_setObjects_of_ne (o : SharedObjects C) (h : meetingId ≠ id) :
    manifestOf (s.setObjects id o) meetingId = manifestOf s meetingId :=
  congrArg listing (Function.update_of_ne h _ _)

/-- The effect of a section of which every answer has an effect, as have its writes without one. -/
theorem effect_section {D : SharedObjects C → Prop} {Q : α → SharedObjects C → Prop} {event : ShareEvent C}
    (hx : Wp D x Q (s.objects id))
    (hothers : ∀ answer, revokes event answer = none ∨ revokes event answer = some id)
    (herror : ∀ error, revokes event (some (.error error)) = none) (hnone : revokes event none = none)
    (hcrash : ∀ o answer, D o → revokes event answer = none → Effect H F s (event, answer) id (shared o))
    (hanswer : ∀ o a, Q a o → Effect H F s (event, some (answer a)) id (shared o))
    (ht : fencedShare s id stop answer x = (t, e.2)) (he : e.1 = event) (meetingId : MeetingId) :
    Effect H F s e meetingId (manifestOf t meetingId) := by
  obtain ⟨event', given⟩ := e
  obtain rfl : event' = event := he
  rcases fencedShare_cases ht with ⟨rfl, error, rfl⟩ | ⟨o, hvisits, rfl, hgiven⟩
  · exact effect_same (by rw [herror]; exact nofun)
  · by_cases hid : meetingId = id
    · subst hid
      rw [manifestOf_setObjects]
      rcases hgiven with rfl | ⟨error, rfl⟩ | ⟨a, hreturns, rfl⟩
      · exact hcrash o none (hx.crash hvisits) hnone
      · exact hcrash o _ (hx.crash hvisits) (herror error)
      · exact hanswer o a (hx.post hreturns)
    · rw [manifestOf_setObjects_of_ne o hid]
      refine effect_same ?_
      rcases hothers given with h | h
      · rw [h]
        exact nofun
      · rw [h]
        exact fun heq => hid (Option.some.inj heq).symm

theorem effect_guarded {event : ShareEvent C} {answer : Option (ShareAnswer C)} (h : Guarded (s.objects id) o)
    (hrevokes : revokes event answer = none) : Effect H F s (event, answer) id (shared o) := by
  refine ⟨?_, .inr (.inl ⟨fun hu => ?_, h.review⟩)⟩
  · rcases h.share with hprivate | hsame
    · exact .inl hprivate
    · exact .inr (.inl ⟨by rw [hrevokes]; exact nofun, hsame⟩)
  · have := revokes_of_unconfirms hu
    rw [hrevokes] at this
    cases this

/-- A result that is replaced has its share revoked. -/
theorem effect_replaced {event : ShareEvent C} {answer : Option (ShareAnswer C)} (h : Guarded (s.objects id) o)
    (hprivate : (shared o).share.visibility = .private) (hunconfirms : unconfirms event answer = none) :
    Effect H F s (event, answer) id (shared o) :=
  ⟨.inl hprivate, .inr (.inl ⟨by rw [hunconfirms]; exact nofun, h.review⟩)⟩

end Sections

/-! ### Steps -/

/-- A step of a call on audio. -/
theorem effect_audio {event : AudioEvent} (hstep : stepAudio H policy s event = some (t, e.2)) (he : e.1 = .audio event)
    (hdeleted : t.audio.deletedMeetings meetingId = false) : Effect H F s e meetingId (manifestOf t meetingId) := by
  obtain ⟨event', given⟩ := e
  obtain rfl : event' = .audio event := he
  unfold stepAudio at hstep
  obtain ⟨⟨audio, answer⟩, haudio, heq⟩ := Option.map_eq_some_iff.mp hstep
  cases heq
  have hleaves := ((audio_step (e := (event, answer)) haudio).leaves meetingId).resolve_left
    (by rw [hdeleted]; exact Bool.false_ne_true)
  by_cases hrevokes : revokes (C := C) (.audio event) (answer.map .audio) = some meetingId
  · -- only a new chunk answers a revocation here
    change unconfirms (C := C) (.audio event) (answer.map .audio) = some meetingId at hrevokes
    unfold unconfirms at hrevokes
    split at hrevokes
    · rename_i id h
      cases h
      cases hrevokes
      cases haudio
      have htrue : Function.update s.audio.deletedMeetings meetingId true meetingId = true := Function.update_self _ _ _
      exact absurd (htrue.symm.trans hdeleted) (Bool.false_ne_true ·.symm)
    · rename_i input stop saved h hanswer
      cases h
      split_ifs at hrevokes with hidempotent
      cases hrevokes
      obtain ⟨a, rfl, ha⟩ := Option.map_eq_some_iff.mp hanswer
      cases ha
      exact effect_withdrawn (saved_withdraws haudio (Bool.not_eq_true _ ▸ hidempotent))
    · rename_i h _
      cases h
    · cases hrevokes
  · rcases hleaves with hsame | hwithdrawn
    · exact effect_kept (Undisturbed.sameShare hsame) (Undisturbed.sameReview hsame) hrevokes
    · exact effect_withdrawn hwithdrawn

/-- The manifest of a meeting with an owner is stored. -/
theorem current_of_owner {id : MeetingId} {now : Timestamp} {o : MeetingObjects} {ownerUserId : UserId}
    (h : (currentManifest id now o).ownerUserId = some ownerUserId) : currentManifest id now o = listing o := by
  unfold listing
  unfold currentManifest at h ⊢
  cases hm : o.manifest with
  | none =>
    rw [hm] at h
    cases h
  | some m => rfl

theorem effect_shareWritten {input : ShareInput} {backfilled : Bool} {preparation : Preparation} {stop : Option ℕ}
    (answer : Option (ShareAnswer C)) (h : ShareWritten H F s.audio.now input (s.objects input.meetingId) o) :
    Effect H F s (.updateShare input backfilled preparation stop, answer) input.meetingId (shared o) := by
  obtain ⟨expiresAt, hstored, rfl⟩ := h
  have hcurrent : currentManifest input.meetingId s.audio.now (s.audio.meetings input.meetingId) =
      manifestOf s input.meetingId := current_of_owner hstored.owner
  have hreview : SameReview (manifestOf s input.meetingId) (withShare s.audio.now input expiresAt
      (manifestOf s input.meetingId)) := ⟨.inr rfl, rfl⟩
  have hunconfirms : unconfirms (C := C) (.updateShare input backfilled preparation stop) answer = none := rfl
  change Effect H F s _ _ (normalizeManifest (withShare s.audio.now input expiresAt
    (currentManifest input.meetingId s.audio.now (s.audio.meetings input.meetingId))))
  rw [hcurrent]
  refine ⟨?_, .inr (.inl ⟨by rw [hunconfirms]; exact nofun, hreview.owner, hreview.review⟩)⟩
  cases hvisibility : input.visibility with
  | «private» => exact .inl hvisibility
  | «public» =>
    obtain ⟨time, rfl, hexpires⟩ := hstored.expires hvisibility
    have howner := hstored.owner
    have hreviewed := hstored.reviewed hvisibility
    unfold currentResult at hreviewed
    change (currentManifest input.meetingId s.audio.now (s.audio.meetings input.meetingId)).ownerUserId = _ at howner
    change (resolveMeetingHumanReview F (currentManifest input.meetingId s.audio.now
      (s.audio.meetings input.meetingId)).reviewConfirmation (currentMeetingResultForManifest H
        (s.stored input.meetingId).result (currentManifest input.meetingId s.audio.now
          (s.audio.meetings input.meetingId)))).status = _ at hreviewed
    rw [hcurrent] at howner hreviewed
    exact .inr (.inr ⟨input, time, ⟨⟨backfilled, preparation, stop, rfl⟩, rfl, hvisibility, howner, hexpires,
      hreviewed⟩, rfl⟩)

theorem effect_reviewWritten {input : ReviewInput} {stop : Option ℕ} (answer : Option (ShareAnswer C))
    (h : ReviewWritten H F s.audio.now input (s.objects input.meetingId) o) :
    Effect H F s (.updateHumanReview input stop, answer) input.meetingId (shared o) := by
  obtain ⟨result, hresult, howner, rfl⟩ := h
  have hcurrent : currentManifest input.meetingId s.audio.now (s.audio.meetings input.meetingId) =
      manifestOf s input.meetingId := current_of_owner howner
  change currentMeetingResultForManifest H (s.stored input.meetingId).result
    (currentManifest input.meetingId s.audio.now (s.audio.meetings input.meetingId)) = some result at hresult
  change (currentManifest input.meetingId s.audio.now (s.audio.meetings input.meetingId)).ownerUserId = _ at howner
  change Effect H F s _ _ (normalizeManifest (withReview F s.audio.now input result
    (currentManifest input.meetingId s.audio.now (s.audio.meetings input.meetingId))))
  rw [hcurrent] at hresult howner ⊢
  unfold withReview
  cases hconfirmed : input.confirmed with
  | false =>
    rw [if_neg Bool.false_ne_true]
    exact effect_withdrawn ⟨revokeMeetingShare_private _ _, revokeMeetingShare_review _ _⟩
  | true =>
    have hrevokes : revokes (C := C) (.updateHumanReview input stop) answer ≠ some input.meetingId := by
      unfold revokes unconfirms
      cases answer with
      | none => exact nofun
      | some answer => cases answer <;> simp [hconfirmed]
    rw [if_pos rfl]
    refine ⟨.inr (.inl ⟨hrevokes, .inr rfl, rfl, rfl⟩), .inr (.inr ⟨input.ownerUserId, result, ⟨⟨stop, ?_⟩, howner,
      hresult⟩, howner, rfl⟩)⟩
    obtain ⟨confirmed, id, ownerUserId⟩ := input
    cases hconfirmed
    rfl

/-- **What a step does to the share and the review of a meeting that is not deleted.** -/
theorem effect_step (hstep : ShareStep H F policy s e t) (hdeleted : t.audio.deletedMeetings meetingId = false) :
    Effect H F s e meetingId (manifestOf t meetingId) := by
  obtain ⟨event, given⟩ := e
  unfold ShareStep at hstep
  dsimp only at hstep
  cases event with
  | audio event => exact effect_audio hstep rfl hdeleted
  | updateShare input backfilled preparation stop =>
    have hshare : stepUpdateShare H F s input backfilled preparation stop = (t, given) := Option.some.inj hstep
    unfold stepUpdateShare at hshare
    split_ifs at hshare
    · cases hshare
      exact effect_same nofun
    · refine effect_section wp_updateMeetingShare (fun answer => ?_) (fun _ => rfl) rfl (fun o answer ho hanswer => ?_)
        (fun o a ho => effect_shareWritten _ ho) hshare rfl meetingId
      · unfold revokes unconfirms
        grind
      · rcases ho with rfl | ho
        · exact effect_same (by rw [hanswer]; exact nofun)
        · exact effect_shareWritten _ ho
  | updateHumanReview input stop =>
    have hreview : fencedShare s input.meetingId stop .review (updateMeetingHumanReview H F s.audio.now input) =
      (t, given) := Option.some.inj hstep
    refine effect_section wp_updateMeetingHumanReview (fun answer => ?_) (fun _ => rfl) rfl
      (fun o answer ho hanswer => ?_) (fun o a ho => effect_reviewWritten _ ho) hreview rfl meetingId
    · unfold revokes unconfirms
      grind
    · rcases ho with rfl | ho
      · exact effect_same (by rw [hanswer]; exact nofun)
      · exact effect_reviewWritten _ ho
  | updateMetadata input stop =>
    have hedit : fencedShare s input.meetingId stop .edited (updateMeetingMetadata H F s.audio.now input) =
      (t, given) := Option.some.inj hstep
    refine effect_section wp_updateMeetingMetadata (fun answer => ?_) (fun _ => rfl) rfl
      (fun o answer ho hanswer => effect_guarded ho hanswer) (fun o a ho => ?_) hedit rfl meetingId
    · unfold revokes unconfirms
      grind
    · cases a with
      | none => exact effect_guarded ho.1 rfl
      | some updated => exact effect_replaced ho.1 (ho.2 rfl) rfl
  | updateSpeakers input speakerNames stop =>
    have hedit : fencedShare s input.meetingId stop (fun result => .edited (some result))
      (updateMeetingSpeakers H F s.audio.now input speakerNames) = (t, given) := Option.some.inj hstep
    refine effect_section wp_editMeetingResult (fun answer => ?_) (fun _ => rfl) rfl
      (fun o answer ho hanswer => effect_guarded ho hanswer) (fun o a ho => effect_replaced ho.1 ho.2 rfl)
      hedit rfl meetingId
    unfold revokes unconfirms
    grind
  | updateTranscriptSpeakers input speakerAssignments stop =>
    have hedit : fencedShare s input.meetingId stop (fun result => .edited (some result))
      (updateMeetingTranscriptSpeakers H F s.audio.now input speakerAssignments) = (t, given) := Option.some.inj hstep
    refine effect_section wp_editMeetingResult (fun answer => ?_) (fun _ => rfl) rfl
      (fun o answer ho hanswer => effect_guarded ho hanswer) (fun o a ho => effect_replaced ho.1 ho.2 rfl)
      hedit rfl meetingId
    unfold revokes unconfirms
    grind
  | updateSummary input summaryPatch stop =>
    have hedit : fencedShare s input.meetingId stop (fun result => .edited (some result))
      (updateMeetingSummary H F s.audio.now input summaryPatch) = (t, given) := Option.some.inj hstep
    refine effect_section wp_editMeetingResult (fun answer => ?_) (fun _ => rfl) rfl
      (fun o answer ho hanswer => effect_guarded ho hanswer) (fun o a ho => effect_replaced ho.1 ho.2 rfl)
      hedit rfl meetingId
    unfold revokes unconfirms
    grind
  | saveResult id result expectedAudioRevision stop =>
    have hsave : fencedShare s id stop (fun _ => .saved)
      (saveMeetingResult H F s.audio.now id result expectedAudioRevision) = (t, given) := Option.some.inj hstep
    refine effect_section wp_saveMeetingResult (fun answer => ?_) (fun _ => rfl) rfl
      (fun o answer ho hanswer => effect_guarded ho hanswer) (fun o a ho => effect_replaced ho.1 ho.2 rfl)
      hsave rfl meetingId
    unfold revokes unconfirms
    grind
  | recordShareView id stop =>
    have hview : fencedShare s id stop .viewed (recordMeetingShareView H F s.audio.now id) = (t, given) :=
      Option.some.inj hstep
    exact effect_section wp_recordMeetingShareView (fun _ => .inl rfl) (fun _ => rfl) rfl
      (fun o answer ho hanswer => effect_guarded ho hanswer) (fun o a ho => effect_guarded ho rfl) hview rfl meetingId

theorem deleted_of_fenced {α : Type} {x : Shared C α} {stop : Option ℕ} {answer : α → ShareAnswer C} {id : MeetingId}
    {given : Option (ShareAnswer C)} (ht : fencedShare s id stop answer x = (t, given))
    (h : s.audio.deletedMeetings meetingId = true) : t.audio.deletedMeetings meetingId = true := by
  unfold fencedShare at ht
  split_ifs at ht <;> cases ht <;> exact h

/-- A meeting that is deleted stays deleted. -/
theorem deleted_step (hstep : ShareStep H F policy s e t) (h : s.audio.deletedMeetings meetingId = true) :
    t.audio.deletedMeetings meetingId = true := by
  obtain ⟨event, given⟩ := e
  unfold ShareStep at hstep
  dsimp only at hstep
  cases event with
  | audio event =>
    change stepAudio H policy s event = some (t, given) at hstep
    unfold stepAudio at hstep
    obtain ⟨⟨audio, answer⟩, haudio, heq⟩ := Option.map_eq_some_iff.mp hstep
    cases heq
    exact (audio_step (e := (event, answer)) haudio).deleted h
  | updateShare input backfilled preparation stop =>
    have hshare : stepUpdateShare H F s input backfilled preparation stop = (t, given) := Option.some.inj hstep
    unfold stepUpdateShare at hshare
    split_ifs at hshare
    · cases hshare
      exact h
    · exact deleted_of_fenced hshare h
  | updateHumanReview | updateMetadata | updateSpeakers | updateTranscriptSpeakers | updateSummary | saveResult
  | recordShareView =>
    simp only [Share.Runs.step, Option.some.injEq] at hstep
    exact deleted_of_fenced hstep h

end OwnMinutes.Share.Effects
