import OwnMinutes.Share.AudioSteps
import OwnMinutes.Share.Runs

/-! # What a step does to the share and the review of a meeting

After a step the share of a meeting is private, or it is the share of before and the step did not answer a
revocation, or the owner has just published it. The review goes the same way (`Effect`). -/

namespace OwnMinutes.Share.Steps

open OwnMinutes.Auth.ProcessingRoute OwnMinutes.Auth.Records OwnMinutes.Lib.Crash
open OwnMinutes.Audio.Records OwnMinutes.Audio.Store OwnMinutes.Audio.Runs OwnMinutes.Audio.Sections
open OwnMinutes.Audio.Seals OwnMinutes.Share.Results OwnMinutes.Share.Sections OwnMinutes.Share.Runs
open OwnMinutes.Share.AudioSteps

variable {C : Type} {H : Hashing} {F : ResultFunctions C} {policy : RecordingUploadResourcePolicy}

/-! ### Manifests -/

/-- The owner of a manifest stays. -/
def KeepsOwner (m m' : AudioManifest) : Prop := m.ownerUserId = none ∨ m'.ownerUserId = m.ownerUserId

/-- The share is the one of before, for the same chunks. -/
structure SameShare (m m' : AudioManifest) : Prop where
  owner : KeepsOwner m m'
  share : m'.share = m.share
  keys : keys m'.chunks = keys m.chunks

structure SameReview (m m' : AudioManifest) : Prop where
  owner : KeepsOwner m m'
  review : m'.reviewConfirmation = m.reviewConfirmation

def ShareKept (m m' : AudioManifest) : Prop := m'.share.visibility = .private ∨ SameShare m m'

variable {m m' : AudioManifest}

theorem Undisturbed.sameShare (h : Undisturbed m m') : SameShare m m' := ⟨h.owner, h.share, h.keys⟩

theorem Undisturbed.sameReview (h : Undisturbed m m') : SameReview m m' := ⟨h.owner, h.review⟩

theorem undisturbed_withMetadata (now : Timestamp) (input : MetadataInput) (m : AudioManifest) :
    Undisturbed m (withMetadata now input m) := ⟨.inr rfl, rfl, rfl, rfl⟩

theorem revoked_private (now : Timestamp) (m : AudioManifest) : (revoked now m).share.visibility = .private :=
  revokeMeetingShare_private now m

theorem revoked_sameReview (now : Timestamp) (m : AudioManifest) : SameReview m (revoked now m) := by
  obtain ⟨share, h⟩ := revokeMeetingShare_eq now m
  unfold revoked
  rw [h]
  exact ⟨.inr rfl, rfl⟩

theorem SameReview.trans {a b c : AudioManifest} (h : SameReview a b) (h' : SameReview b c) : SameReview a c := by
  refine ⟨?_, h'.review.trans h.review⟩
  rcases h.owner with hnone | heq
  · exact .inl hnone
  · rcases h'.owner with hnone | heq'
    · exact .inl (heq ▸ hnone)
    · exact .inr (heq'.trans heq)

/-! ### Sections -/

section Sections

variable {o o' : SharedObjects C} {D : SharedObjects C → Prop}

/-- The manifest of a meeting as sections read it. -/
abbrev shared (o : SharedObjects C) : AudioManifest := listing o.objects

variable {meetingId : MeetingId} {now : Timestamp}

theorem wp_readManifest {Q : AudioManifest → SharedObjects C → Prop} :
    Wp D (Sections.readManifest meetingId now) Q o ↔ D o ∧ Q (currentManifest meetingId now o.objects) o := by
  unfold Sections.readManifest
  rw [wp_bind, wp_read, wp_pure]
  exact ⟨fun h => h.2, fun h => ⟨h.1, h⟩⟩

theorem wp_readMeetingResult {Q : Option (MeetingResult C) → SharedObjects C → Prop} :
    Wp D readMeetingResult Q o ↔ D o ∧ Q o.stored.result o := by
  unfold readMeetingResult
  rw [wp_bind, wp_read, wp_pure]
  exact ⟨fun h => h.2, fun h => ⟨h.1, h⟩⟩

theorem wp_persistMeetingManifest {m : AudioManifest} {Q : Unit → SharedObjects C → Prop} :
    Wp D (Sections.persistMeetingManifest m) Q o ↔ D o ∧ D (o.putManifest m) ∧ Q () (o.putManifest m) := wp_write

/-- The manifest of a meeting with audio is read for its owner. -/
theorem wp_readOwnedManifest {ownerUserId : UserId} {Q : AudioManifest → SharedObjects C → Prop} (hD : D o)
    (hQ : (currentManifest meetingId now o.objects).chunks ≠ [] →
      (currentManifest meetingId now o.objects).ownerUserId = some ownerUserId →
      Q (currentManifest meetingId now o.objects) o) : Wp D (readOwnedManifest meetingId now ownerUserId) Q o := by
  unfold readOwnedManifest
  simp only [wp_bind, wp_readManifest, wp_require, wp_pure]
  exact ⟨hD, hD, fun hchunks => ⟨hD, fun howner => ⟨hD, hQ hchunks howner⟩⟩⟩

/-- While a section replaces a result the share is kept or revoked, and the review is kept. -/
structure Guarded (o t : SharedObjects C) : Prop where
  share : ShareKept (shared o) (shared t)
  review : SameReview (shared o) (shared t)

theorem Guarded.refl (o : SharedObjects C) : Guarded o o := ⟨.inr ⟨.inr rfl, rfl, rfl⟩, ⟨.inr rfl, rfl⟩⟩

theorem guarded_put (h : Undisturbed (shared o) m) : Guarded o (o'.putManifest m) :=
  ⟨.inr ⟨h.owner, h.share, h.keys⟩, ⟨h.owner, h.review⟩⟩

theorem guarded_of_objects (h : Guarded o o') {t : SharedObjects C} (ht : t.objects = o'.objects) : Guarded o t := by
  have hshared : shared t = shared o' := by
    unfold shared
    rw [ht]
  exact ⟨hshared ▸ h.share, hshared ▸ h.review⟩

theorem guarded_revoked (now : Timestamp) (h : Undisturbed (shared o) m) :
    Guarded o (o'.putManifest (revoked now m)) := by
  have hreview := (Undisturbed.sameReview h).trans (revoked_sameReview now m)
  exact ⟨.inl (revoked_private now m), ⟨hreview.owner, hreview.review⟩⟩

theorem wp_replaceResult {result : MeetingResult C} (ho : Guarded o o') (hm : Undisturbed (shared o) m) :
    Wp (Guarded o) (replaceResult F now m result)
      (fun _ t => Guarded o t ∧ (shared t).share.visibility = .private) o' := by
  unfold replaceResult saveMeetingResultUnsafe
  simp only [wp_bind, wp_write, wp_persistMeetingManifest]
  have hresult : Guarded o (o'.putResult result) := guarded_of_objects ho rfl
  have hmarkdown : Guarded o ((o'.putResult result).putMarkdown (F.obsidianMarkdown result.content)) :=
    guarded_of_objects ho rfl
  have hput : Guarded o (((o'.putResult result).putMarkdown (F.obsidianMarkdown result.content)).putManifest
      (revoked now m)) := guarded_revoked now hm
  exact ⟨ho, hresult, hresult, hmarkdown, hmarkdown, hput, hput, revoked_private now m⟩

theorem wp_saveMeetingResult {result : MeetingResult C} {expectedAudioRevision : Option AudioRevision} :
    Wp (Guarded o) (saveMeetingResult H F now meetingId result expectedAudioRevision)
      (fun _ t => Guarded o t ∧ (shared t).share.visibility = .private) o := by
  have hsame := Guarded.refl o
  unfold saveMeetingResult
  simp only [wp_bind, wp_readManifest]
  refine ⟨hsame, ?_⟩
  cases meetingAudioMetadataFromManifest H (currentManifest meetingId now o.objects) with
  | none => exact wp_fail.mpr hsame
  | some audio =>
    simp only [wp_bind, wp_require]
    exact ⟨hsame, fun _ => ⟨hsame, fun _ => wp_replaceResult hsame (undisturbed_current meetingId now o.objects)⟩⟩

theorem wp_editMeetingResult {input : EditInput} {edit : C → Except AudioError C} :
    Wp (Guarded o) (editMeetingResult H F now input edit)
      (fun _ t => Guarded o t ∧ (shared t).share.visibility = .private) o := by
  have hsame := Guarded.refl o
  unfold editMeetingResult
  rw [wp_bind]
  refine wp_readOwnedManifest hsame fun _ _ => ?_
  simp only [wp_bind, wp_readMeetingResult]
  refine ⟨hsame, ?_⟩
  split
  · exact wp_fail.mpr hsame
  · simp only [wp_bind, wp_lift]
    refine ⟨hsame, fun content _ => ?_⟩
    refine (wp_replaceResult hsame (undisturbed_current input.meetingId now o.objects)).mono (fun _ h => h)
      fun _ t ht => ?_
    exact wp_pure.mpr ⟨ht.1, ht⟩

theorem wp_updateMeetingMetadata {input : MetadataInput} :
    Wp (Guarded o) (updateMeetingMetadata H F now input)
      (fun updated t => Guarded o t ∧ (updated.isSome → (shared t).share.visibility = .private)) o := by
  have hsame := Guarded.refl o
  have hdescribed : Undisturbed (shared o) (withMetadata now input (currentManifest input.meetingId now o.objects)) :=
    (undisturbed_current input.meetingId now o.objects).trans (undisturbed_withMetadata now input _)
  have hput : Guarded o (o.putManifest (withMetadata now input (currentManifest input.meetingId now o.objects))) :=
    guarded_put hdescribed
  unfold updateMeetingMetadata
  rw [wp_bind]
  refine wp_readOwnedManifest hsame fun _ _ => ?_
  simp only [wp_bind, wp_persistMeetingManifest, wp_readMeetingResult]
  refine ⟨hsame, hput, hput, ?_⟩
  split
  · exact wp_pure.mpr ⟨hput, hput, fun h => by cases h⟩
  · rw [wp_bind]
    refine (wp_replaceResult hput hdescribed).mono (fun _ h => h) fun _ t ht => ?_
    exact wp_pure.mpr ⟨ht.1, ht.1, fun _ => ht.2⟩

theorem wp_recordMeetingShareView :
    Wp (Guarded o) (recordMeetingShareView H F now meetingId) (fun _ t => Guarded o t) o := by
  have hsame := Guarded.refl o
  have hput : Guarded o (o.putManifest (currentManifest meetingId now o.objects)) :=
    guarded_put (undisturbed_current meetingId now o.objects)
  unfold recordMeetingShareView
  simp only [wp_bind, wp_readManifest, wp_readMeetingResult]
  refine ⟨hsame, hsame, ?_⟩
  split_ifs
  · exact wp_pure.mpr ⟨hsame, hsame⟩
  · simp only [wp_bind, wp_persistMeetingManifest, wp_pure]
    exact ⟨hsame, hput, hput, hput⟩

/-- The result of a meeting that is current. -/
def currentResult (H : Hashing) (meetingId : MeetingId) (now : Timestamp) (o : SharedObjects C) :
    Option (MeetingResult C) :=
  currentMeetingResultForManifest H o.stored.result (currentManifest meetingId now o.objects)

/-- A share that is stored is that of a request of the owner, and public only where the current result is the one
that was confirmed. -/
structure StoredShare (H : Hashing) (F : ResultFunctions C) (now : Timestamp) (input : ShareInput) (o : SharedObjects C)
    (expiresAt : Option Timestamp) : Prop where
  owner : (currentManifest input.meetingId now o.objects).ownerUserId = some input.ownerUserId
  expires (h : input.visibility = .public) :
    ∃ time, expiresAt = some time ∧ resolveMeetingShareExpiresAt input.expiresAt now = .ok time
  reviewed (h : input.visibility = .public) :
    (resolveMeetingHumanReview F (currentManifest input.meetingId now o.objects).reviewConfirmation
      (currentResult H input.meetingId now o)).status = .confirmed

/-- The share of a request is written. -/
def ShareWritten (H : Hashing) (F : ResultFunctions C) (now : Timestamp) (input : ShareInput)
    (o t : SharedObjects C) : Prop :=
  ∃ expiresAt, StoredShare H F now input o expiresAt ∧
    t = o.putManifest (withShare now input expiresAt (currentManifest input.meetingId now o.objects))

/-- The review of a request is written, by the owner and on the current result. -/
def ReviewWritten (H : Hashing) (F : ResultFunctions C) (now : Timestamp) (input : ReviewInput)
    (o t : SharedObjects C) : Prop :=
  ∃ result, currentResult H input.meetingId now o = some result ∧
    (currentManifest input.meetingId now o.objects).ownerUserId = some input.ownerUserId ∧
    t = o.putManifest (withReview F now input result (currentManifest input.meetingId now o.objects))

/-- Nothing is written, or all there is to write. -/
def Atomic (W : SharedObjects C → Prop) (o t : SharedObjects C) : Prop := t = o ∨ W t

theorem wp_updateMeetingShare {input : ShareInput} {preparation : Preparation} :
    Wp (Atomic (ShareWritten H F now input o) o) (updateMeetingShare H F now input preparation)
      (fun _ t => ShareWritten H F now input o t) o := by
  have hsame : Atomic (ShareWritten H F now input o) o o := .inl rfl
  unfold updateMeetingShare
  rw [wp_bind]
  refine wp_readOwnedManifest hsame fun _ howner => ?_
  cases hvisibility : input.visibility with
  | «public» =>
    unfold commitPreparedPublicMeetingShare
    simp only [wp_bind, wp_readMeetingResult, wp_require, wp_lift, wp_persistMeetingManifest, wp_pure]
    refine ⟨hsame, hsame, fun _ => ⟨hsame, fun hconfirmed => ⟨hsame, fun time htime => ⟨hsame, fun _ =>
      ⟨hsame, fun _ => ?_⟩⟩⟩⟩⟩
    have hwritten : ShareWritten H F now input o (o.putManifest
        (withShare now input (some time) (currentManifest input.meetingId now o.objects))) :=
      ⟨some time, ⟨howner, fun _ => ⟨time, rfl, htime⟩, fun _ => hconfirmed⟩, rfl⟩
    exact ⟨hsame, .inr hwritten, .inr hwritten, hwritten⟩
  | «private» =>
    simp only [wp_bind, wp_persistMeetingManifest, wp_pure]
    have hnever (h : input.visibility = .public) : False := by
      rw [hvisibility] at h
      cases h
    have hwritten : ShareWritten H F now input o (o.putManifest
        (withShare now input none (currentManifest input.meetingId now o.objects))) :=
      ⟨none, ⟨howner, fun h => (hnever h).elim, fun h => (hnever h).elim⟩, rfl⟩
    exact ⟨hsame, .inr hwritten, .inr hwritten, hwritten⟩

theorem wp_updateMeetingHumanReview {input : ReviewInput} :
    Wp (Atomic (ReviewWritten H F now input o) o) (updateMeetingHumanReview H F now input)
      (fun _ t => ReviewWritten H F now input o t) o := by
  have hsame : Atomic (ReviewWritten H F now input o) o o := .inl rfl
  unfold updateMeetingHumanReview
  rw [wp_bind]
  refine wp_readOwnedManifest hsame fun _ howner => ?_
  simp only [wp_bind, wp_readMeetingResult]
  refine ⟨hsame, ?_⟩
  split
  · exact wp_fail.mpr hsame
  · rename_i result hresult
    simp only [wp_bind, wp_persistMeetingManifest, wp_pure]
    have hwritten : ReviewWritten H F now input o (o.putManifest
        (withReview F now input result (currentManifest input.meetingId now o.objects))) :=
      ⟨result, hresult, howner, rfl⟩
    exact ⟨hsame, .inr hwritten, .inr hwritten, hwritten⟩

end Sections

end OwnMinutes.Share.Steps
