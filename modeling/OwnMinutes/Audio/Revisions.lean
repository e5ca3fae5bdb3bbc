import OwnMinutes.Audio.Seals
import OwnMinutes.Finalizer.Runs

/-! # Audio revisions

The revision of a meeting's audio is that of its list of chunks. A run that adds no chunk leaves the list as
it is, except that a seal or a publication sets the digest of a chunk that was stored without one: this
changes the revision of the same audio (`NoBackfill` says where it does not happen). -/

namespace OwnMinutes.Audio.Revisions

open OwnMinutes.Auth.ProcessingRoute OwnMinutes.Auth.Records OwnMinutes.Lib.Crash OwnMinutes.Lib.Runs
open OwnMinutes.Lib.Outcome OwnMinutes.Finalizer.Records OwnMinutes.Finalizer.Runs
open OwnMinutes.Audio.Records OwnMinutes.Audio.Store OwnMinutes.Audio.Runs OwnMinutes.Audio.Sections
open OwnMinutes.Audio.Changes OwnMinutes.Audio.Replays OwnMinutes.Audio.Seals

variable {H : Hashing} {w : Writer} {o o' : MeetingObjects}

/-! ### Lists of chunks that only grow -/

theorem length_backfill {m m' : AudioManifest} (h : backfillManifestChunkDigests H o m = .ok m') :
    m'.chunks.length = m.chunks.length := length_of_keys (keys_backfill h)

theorem length_publishChunks {now : Timestamp} {prepared : PreparedCommit} {m : AudioManifest} :
    (publishChunks H now prepared m.chunks (findChunk m 1)).length =
      m.chunks.length + if (findChunk m 1).isSome then 0 else 1 := by
  cases findChunk m 1 with
  | some existing => exact length_of_keys keys_publishChunks
  | none =>
    unfold publishChunks
    rw [(perm_pushChunk _ _).length_eq, List.length_append]
    rfl

theorem length_write (h : AudioWrite H o w o') :
    (listing o).chunks.length ≤ (listing o').chunks.length := by
  cases h with
  | keep hm | lease hm => exact (congrArg List.length hm.chunks).ge
  | rewrite | putNew => exact le_rfl
  | @add now input m hpos hfind hput hm =>
    change _ ≤ (addChunk H now input m).chunks.length
    rw [(addChunk_audio H now input m).1, (perm_pushChunk _ _).length_eq, List.length_append, hm.chunks]
    exact Nat.le_add_right _ _
  | @«sealed» now last total m m' hlast hm hcomplete hback htotal =>
    change _ ≤ m'.chunks.length
    rw [length_backfill hback, hm.chunks]
  | @publish now input prepared m hm howner hsha =>
    change _ ≤ (publishManifest H now input prepared (findChunk m 1) m).chunks.length
    rw [(publishManifest_audio H now input prepared (findChunk m 1) m).1, length_publishChunks, hm.chunks]
    exact Nat.le_add_right _ _

theorem length_written (h : Written H w o o') :
    (listing o).chunks.length ≤ (listing o').chunks.length := by
  induction h with
  | refl => exact le_rfl
  | tail _ hwrite ih => exact ih.trans (length_write hwrite)

/-! ### Writes that set no digest -/

/-- What a write would digest has its digest. -/
def Digested (m : AudioManifest) : Writer → Prop
  | .others | .leases | .chunks => True
  | .seals lastSequence totalBytes =>
    completeSequence m.chunks lastSequence = true → m.totalBytes = totalBytes →
      ∀ chunk ∈ m.chunks, chunk.sha256.isSome
  | .recordings => ∀ chunk, findChunk m 1 = some chunk → chunk.sha256.isSome

theorem Digested.congr {m m' : AudioManifest} (h : Digested m w) (hchunks : m'.chunks = m.chunks)
    (htotal : m'.totalBytes = m.totalBytes) : Digested m' w := by
  cases w with
  | others | leases | chunks => trivial
  | seals last total =>
    unfold Digested at h ⊢
    rwa [hchunks, htotal]
  | recordings =>
    unfold Digested at h ⊢
    rwa [findChunk_congr hchunks]

theorem backfill_digested {m m' : AudioManifest} (h : backfillManifestChunkDigests H o m = .ok m')
    (hm : ∀ chunk ∈ m.chunks, chunk.sha256.isSome) : m'.chunks = m.chunks := by
  have hsame : List.Forall₂ Eq m.chunks m'.chunks := by
    refine ((List.forall₂_and_left _ _).mpr ⟨hm, forall₂_backfill h⟩).imp fun chunk chunk' hchunk => ?_
    rcases backfillChunkDigest_ok hchunk.2 with ⟨rfl, -⟩ | ⟨content, hnone, -, -, -⟩
    · rfl
    · rw [hnone] at hchunk
      cases hchunk.1
  rw [List.forall₂_eq_eq_eq] at hsame
  exact hsame.symm

/-- A write that adds no chunk and sets no digest leaves the audio as it is. -/
theorem chunks_write (h : AudioWrite H o w o') (ho : Ordered (listing o))
    (hdigested : Digested (listing o) w)
    (hlength : (listing o').chunks.length = (listing o).chunks.length) :
    (listing o').chunks = (listing o).chunks ∧ (listing o').totalBytes = (listing o).totalBytes := by
  cases h with
  | keep hm | lease hm => exact ⟨hm.chunks, hm.totalBytes⟩
  | rewrite | putNew => exact ⟨rfl, rfl⟩
  | @add now input m hpos hfind hput hm =>
    change (addChunk H now input m).chunks.length = _ at hlength
    rw [(addChunk_audio H now input m).1, (perm_pushChunk _ _).length_eq, List.length_append,
      hm.chunks, List.length_singleton] at hlength
    omega
  | @«sealed» now last total m m' hlast hm hcomplete hback htotal =>
    have hbytes := (sameAudio_backfill hback).1
    rw [hm.chunks] at hcomplete
    have hsome := hdigested hcomplete (by rw [← htotal, hbytes, hm.totalBytes])
    rw [← hm.chunks] at hsome
    change m'.chunks = _ ∧ m'.totalBytes = _
    exact ⟨(backfill_digested hback hsome).trans hm.chunks, hbytes.trans hm.totalBytes⟩
  | @publish now input prepared m hm howner hsha =>
    obtain ⟨hchunks, htotal, -⟩ := publishManifest_audio H now input prepared (findChunk m 1) m
    change (publishManifest H now input prepared (findChunk m 1) m).chunks = _ ∧
      (publishManifest H now input prepared (findChunk m 1) m).totalBytes = _
    change (publishManifest H now input prepared (findChunk m 1) m).chunks.length = _ at hlength
    rw [hchunks, length_publishChunks, hm.chunks] at hlength
    rw [htotal, hchunks]
    cases hfind : findChunk m 1 with
    | none =>
      rw [hfind] at hlength
      simp at hlength
    | some existing =>
      have hsome := hdigested existing ((findChunk_congr hm.chunks 1).symm.trans hfind)
      have hkept : publishChunks H now prepared m.chunks (some existing) = m.chunks := if_pos hsome
      rw [hkept, hm.chunks]
      exact ⟨rfl, ho.totalBytes.symm⟩

theorem chunks_written_same (h : Written H w o o') (ho : Ordered (listing o))
    (hdigested : Digested (listing o) w)
    (hlength : (listing o').chunks.length = (listing o).chunks.length) :
    (listing o').chunks = (listing o).chunks ∧ (listing o').totalBytes = (listing o).totalBytes := by
  induction h with
  | refl => exact ⟨rfl, rfl⟩
  | @tail b c hbegins hwrite ih =>
    have hle := length_written hbegins
    have hle' := length_write hwrite
    obtain ⟨hchunks, htotal⟩ := ih (by omega)
    have hb : Ordered (listing b) := by
      refine ⟨?_, ?_, ?_⟩
      · rw [hchunks]
        exact ho.increasing
      · rw [hchunks]
        exact ho.positive
      · rw [hchunks, htotal]
        exact ho.totalBytes
    have hlast := chunks_write hwrite hb (hdigested.congr hchunks htotal) (by omega)
    exact ⟨hlast.1.trans hchunks, hlast.2.trans htotal⟩

/-! ### Runs that add no chunk -/

variable {policy : RecordingUploadResourcePolicy} {s t : AudioWorld} {meetingId : MeetingId}

/-- An event sets no digest of a chunk that is listed without one. -/
def NoBackfill (meetingId : MeetingId) (s : AudioWorld) (e : AudioEvent) : Prop :=
  touched s e = some meetingId → Digested (stored s meetingId) (writerOf s e)

instance (m : AudioManifest) : Decidable (Digested m w) := by
  cases w <;> unfold Digested <;> infer_instance

instance (e : AudioEvent) : Decidable (NoBackfill meetingId s e) :=
  inferInstanceAs (Decidable (_ → _))

/-- The sequences that a meeting lists. -/
def sequences (s : AudioWorld) (meetingId : MeetingId) : List ℕ :=
  (stored s meetingId).chunks.map (·.sequence)

theorem chunks_step {e : AudioEvent × Option Answer} (hstep : AudioStep H policy s e t)
    (hdigested : NoBackfill meetingId s e.1) (hsequences : sequences t meetingId = sequences s meetingId)
    (hs : Ordered (stored s meetingId)) :
    (stored t meetingId).chunks = (stored s meetingId).chunks ∧
      (stored t meetingId).totalBytes = (stored s meetingId).totalBytes := by
  have hlength : (stored t meetingId).chunks.length = (stored s meetingId).chunks.length := by
    have hmap := congrArg List.length hsequences
    unfold sequences at hmap
    rwa [List.length_map, List.length_map] at hmap
  by_cases htouched : touched s e.1 = some meetingId
  · rcases change_listing ((step_objects hstep).touched htouched) with h | h | h
    · exact chunks_written_same h hs (hdigested htouched) hlength
    · exact ⟨congrArg AudioManifest.chunks h, congrArg AudioManifest.totalBytes h⟩
    · have hempty : stored t meetingId = emptyManifest "" 0 := h
      rw [hempty] at hlength ⊢
      have hnil : (stored s meetingId).chunks = [] := List.eq_nil_of_length_eq_zero hlength.symm
      have htotal := hs.totalBytes
      rw [hnil] at htotal
      exact ⟨hnil.symm, htotal.symm⟩
  · unfold stored
    rw [(step_objects hstep).others htouched]
    exact ⟨rfl, rfl⟩

/-- A step that adds no chunk and sets no digest. -/
def KeepsAudio (H : Hashing) (policy : RecordingUploadResourcePolicy) (meetingId : MeetingId)
    (s : AudioWorld) (e : AudioEvent × Option Answer) (t : AudioWorld) : Prop :=
  AudioStep H policy s e t ∧ NoBackfill meetingId s e.1 ∧ sequences t meetingId = sequences s meetingId

theorem chunks_run {es : List (AudioEvent × Option Answer)}
    (hrun : Run (KeepsAudio H policy meetingId) s es t) (hs : Ordered (stored s meetingId)) :
    (stored t meetingId).chunks = (stored s meetingId).chunks ∧
      (stored t meetingId).totalBytes = (stored s meetingId).totalBytes := by
  induction hrun with
  | nil => exact ⟨rfl, rfl⟩
  | @cons s u t e es hstep _ ih =>
    obtain ⟨hchunks, htotal⟩ := chunks_step hstep.1 hstep.2.1 hstep.2.2 hs
    have hu : Ordered (stored u meetingId) := by
      refine ⟨?_, ?_, ?_⟩
      · rw [hchunks]
        exact hs.increasing
      · rw [hchunks]
        exact hs.positive
      · rw [hchunks, htotal]
        exact hs.totalBytes
    obtain ⟨hchunks', htotal'⟩ := ih hu
    exact ⟨hchunks'.trans hchunks, htotal'.trans htotal⟩

/-- A run that is asked to process audio for which there is a fresh result does not process it again. -/
theorem preflight_fresh {input : FinalizationInput} {config : RunConfig} {reads : PreflightReads}
    {result : MeetingResult} (hforce : input.force = false)
    (hfresh : isMeetingResultFreshForAudio (some result) reads.audio = true) :
    ∃ run, preflight input config reads (some result) = .ok (.recordingExisting run) := by
  unfold preflight
  dsimp only
  rw [hforce, hfresh]
  exact ⟨_, rfl⟩

/-- **Where no digest is set, the audio revision changes only with the audio**: over any run that adds no
chunk to a meeting, its revision stays the same, a result that was fresh stays fresh, and no run that is
asked to process the meeting starts a processing of it. -/
theorem revision_stable {es : List (AudioEvent × Option Answer)}
    (hrun : Run (KeepsAudio H policy meetingId) s es t) (hs : Ordered (stored s meetingId)) :
    deriveMeetingAudioRevision H (stored t meetingId) =
        deriveMeetingAudioRevision H (stored s meetingId) ∧
      ∀ audio result, meetingAudioMetadataFromManifest H (stored s meetingId) = some audio →
        isMeetingResultFreshForAudio (some result) audio = true →
        ∃ audio', meetingAudioMetadataFromManifest H (stored t meetingId) = some audio' ∧
          isMeetingResultFreshForAudio (some result) audio' = true ∧
          ∀ input config reads, input.force = false → reads.audio = audio' →
            ∃ run, preflight input config reads (some result) = .ok (.recordingExisting run) := by
  obtain ⟨hchunks, htotal⟩ := chunks_run hrun hs
  have hrevision : deriveMeetingAudioRevision H (stored t meetingId) =
      deriveMeetingAudioRevision H (stored s meetingId) := by
    unfold deriveMeetingAudioRevision audioState
    rw [hchunks, htotal]
  refine ⟨hrevision, fun audio result haudio hfresh => ?_⟩
  unfold meetingAudioMetadataFromManifest at haudio ⊢
  rw [hchunks, hrevision]
  split_ifs at haudio ⊢ with hempty
  cases haudio
  refine ⟨_, rfl, hfresh, fun input config reads hforce hreads => preflight_fresh hforce ?_⟩
  rw [hreads]
  exact hfresh

/-! ### A recording of an older version -/

/-- A meeting with one chunk, which is stored with this digest. -/
def recorded (sha256 : Option Digest) : MeetingObjects where
  manifest := some
    { meetingId := "meeting"
      ownerUserId := some "user"
      chunks :=
        [{ sequence := 1, fileName := ⟨1, .webm⟩, bytes := 2, mimeType := "audio/webm",
           recordedAt := 0, durationMs := 1000, receivedAt := 0, sha256 }]
      totalBytes := 2
      updatedAt := 0 }
  chunks := Function.update (fun _ => none) ⟨1, .webm⟩ (some [82, 73])

theorem ordered_recorded (sha256 : Option Digest) :
    Ordered (stored (oneMeeting (recorded sha256)) "meeting") := by
  unfold stored
  rw [oneMeeting_self]
  refine ⟨List.pairwise_singleton _ _, fun chunk hmem => ?_, rfl⟩
  rw [List.mem_singleton.mp hmem]
  exact Nat.one_pos

/-- No listed chunk has other content. -/
def SameContent (meetingId : MeetingId) (s t : AudioWorld) : Prop :=
  ∀ chunk ∈ (stored s meetingId).chunks,
    (t.meetings meetingId).chunks chunk.fileName = (s.meetings meetingId).chunks chunk.fileName

instance (s t : AudioWorld) : Decidable (SameContent meetingId s t) :=
  inferInstanceAs (Decidable (∀ chunk ∈ (stored s meetingId).chunks,
    (t.meetings meetingId).chunks chunk.fileName = (s.meetings meetingId).chunks chunk.fileName))

def sealRecording : SealInput :=
  { meetingId := "meeting", ownerUserId := "user", expectedLastSequence := 1, totalBytes := 2 }

/-- What was made of the recording before it was sealed. -/
def legacyResult : MeetingResult where
  generatedAt := 5
  provider := .volcano
  adapter := "file"
  transcript := []
  summary := ⟨"notes"⟩
  audioRevision := some "legacy"

/-- A seal sets the digest of the chunk, and with it another revision of the same audio: what was fresh
before it no longer is. -/
theorem revision_changes : ∃ es t, es.map Prod.fst = [.sealAudio sealRecording none] ∧
    Run (fun s e t => AudioStep textHashing {} s e t ∧ sequences t "meeting" = sequences s "meeting" ∧
      SameContent "meeting" s t) (oneMeeting (recorded none)) es t ∧
    deriveMeetingAudioRevision textHashing (stored t "meeting") ≠
      deriveMeetingAudioRevision textHashing (stored (oneMeeting (recorded none)) "meeting") ∧
    (meetingAudioMetadataFromManifest textHashing (stored (oneMeeting (recorded none)) "meeting")).any
      (isMeetingResultFreshForAudio (some legacyResult)) = true ∧
    (meetingAudioMetadataFromManifest textHashing (stored t "meeting")).any
      (isMeetingResultFreshForAudio (some legacyResult)) = false := by
  obtain ⟨es, t, hes, hrun, hchanged⟩ :=
    exists_run textHashing {}
      (fun s _ t => sequences t "meeting" = sequences s "meeting" ∧ SameContent "meeting" s t)
      ["meeting"] 0 (oneMeeting (recorded none)) [.sealAudio sealRecording none]
      (fun _ t => deriveMeetingAudioRevision textHashing (stored t "meeting") !=
          deriveMeetingAudioRevision textHashing (stored (oneMeeting (recorded none)) "meeting") &&
        !(meetingAudioMetadataFromManifest textHashing (stored t "meeting")).any
          (isMeetingResultFreshForAudio (some legacyResult)))
      (within_oneMeeting fun _ _ _ => rfl) (by decide)
  rw [Bool.and_eq_true, bne_iff_ne, Bool.not_eq_true'] at hchanged
  exact ⟨es, t, hes, hrun, hchanged.1, by decide, hchanged.2⟩

/-- A recording that is stored with its digest keeps its revision when it is sealed. -/
theorem revision_stable_recorded : ∃ es t, es.map Prod.fst = [.sealAudio sealRecording none] ∧
    Run (KeepsAudio textHashing {} "meeting") (oneMeeting (recorded (some "RI"))) es t ∧
    isSealed textHashing (stored t "meeting") = true ∧
    deriveMeetingAudioRevision textHashing (stored t "meeting") =
      deriveMeetingAudioRevision textHashing (stored (oneMeeting (recorded (some "RI"))) "meeting") := by
  obtain ⟨es, t, hes, hrun, hsealed⟩ :=
    exists_run textHashing {}
      (fun s e t => NoBackfill "meeting" s e.1 ∧ sequences t "meeting" = sequences s "meeting")
      ["meeting"] 0 (oneMeeting (recorded (some "RI"))) [.sealAudio sealRecording none]
      (fun _ t => isSealed textHashing (stored t "meeting"))
      (within_oneMeeting fun _ _ _ => rfl) (by decide)
  exact ⟨es, t, hes, hrun, hsealed, (revision_stable hrun (ordered_recorded _)).1⟩

end OwnMinutes.Audio.Revisions
