import OwnMinutes.Audio.IntactAudio
import OwnMinutes.Audio.Staging

/-! # Recordings that are committed

While the recording of a commit is all that a meeting holds (`Holds`), every call leaves it so, and leaves the
audio revision. A receipt is for such a recording from its publication on, as long as commits publish only
where nothing else is listed and their objects do not get over one another (`RecordingKept`). -/

namespace OwnMinutes.Audio.Commits

open OwnMinutes.Auth.ProcessingRoute OwnMinutes.Auth.Records OwnMinutes.Finalizer.Records
open OwnMinutes.Lib.Crash OwnMinutes.Lib.Runs OwnMinutes.Lib.Outcome OwnMinutes.Audio.Records
open OwnMinutes.Audio.Store OwnMinutes.Audio.Runs OwnMinutes.Audio.Sections OwnMinutes.Audio.Changes
open OwnMinutes.Audio.Phases OwnMinutes.Audio.Replays OwnMinutes.Audio.Seals OwnMinutes.Audio.IntactAudio
open OwnMinutes.Audio.Staging

variable {H : Hashing} {policy : RecordingUploadResourcePolicy} {s t : AudioWorld} {o o' : MeetingObjects}
  {content : Bytes}

/-! ### A meeting that holds one recording -/

/-- The first chunk is `content`, with its digest. -/
structure FirstChunk (H : Hashing) (o : MeetingObjects) (content : Bytes) (chunk : AudioChunk) : Prop where
  sequence : chunk.sequence = 1
  bytes : chunk.bytes = content.length
  sha256 : chunk.sha256 = some (H.sha256 content)
  object : o.chunks chunk.fileName = some content

/-- All that the meeting holds is `content`, and it is sealed. -/
structure Holds (H : Hashing) (o : MeetingObjects) (content : Bytes) : Prop where
  chunk : ∃ chunk, (listing o).chunks = [chunk] ∧ FirstChunk H o content chunk
  totalBytes : (listing o).totalBytes = content.length
  counts : isSealed H (listing o) = true

/-- The audio revision of the stored manifest. -/
def revision (H : Hashing) (o : MeetingObjects) : AudioRevision := deriveMeetingAudioRevision H (listing o)

theorem Holds.metadata (h : Holds H o content) :
    ∃ audio, meetingAudioMetadataFromManifest H (listing o) = some audio ∧ audio.isSealed = true := by
  obtain ⟨chunk, hchunks, -⟩ := h.chunk
  unfold meetingAudioMetadataFromManifest
  rw [if_neg (by rw [hchunks]; exact List.cons_ne_nil _ _)]
  exact ⟨_, rfl, h.counts⟩

theorem Holds.assemble (h : Holds H o content) :
    assembleMeetingAudioFile H o (listing o) = .ok content := by
  obtain ⟨chunk, hchunks, hfirst⟩ := h.chunk
  have hread : readListedChunk H o chunk = .ok content := by
    refine readListedChunk_eq_ok.mpr ⟨hfirst.object, hfirst.bytes.symm, fun digest hd => ?_⟩
    rw [hfirst.sha256] at hd
    exact Option.some.inj hd
  unfold assembleMeetingAudioFile
  refine bind_eq_ok.mpr ⟨[content], ?_, ?_⟩
  · rw [hchunks]
    exact mapM_eq_ok.mpr (.cons hread .nil)
  · rw [List.flatten_singleton]
    exact guard_eq_ok.mpr ⟨not_not.mpr h.totalBytes.symm, rfl⟩

/-- The objects and the listing are as before. -/
theorem Holds.congr (h : Holds H o content) (hobjects : o'.chunks = o.chunks)
    (hlisting : SameAudio (listing o) (listing o')) :
    Holds H o' content ∧ revision H o' = revision H o := by
  obtain ⟨chunk, hchunks, hfirst⟩ := h.chunk
  refine ⟨⟨⟨chunk, hlisting.chunks.trans hchunks, hfirst.sequence, hfirst.bytes, hfirst.sha256, ?_⟩, ?_, ?_⟩,
    hlisting.revision H⟩
  · rw [hobjects]
    exact hfirst.object
  · rw [hlisting.totalBytes]
    exact h.totalBytes
  · rw [isSealed_congr hlisting (normalizeAudioSeal_listing o) (normalizeAudioSeal_listing o')]
    exact h.counts

/-- A chunk with a digest is left as it is. -/
theorem backfill_holds {m : AudioManifest} (h : Holds H o content) (hm : m.chunks = (listing o).chunks) :
    backfillManifestChunkDigests H o m = .ok m := by
  obtain ⟨chunk, hchunks, hfirst⟩ := h.chunk
  have hback : backfillChunkDigest H o chunk = .ok chunk := by
    unfold backfillChunkDigest
    rw [hfirst.sha256]
  unfold backfillManifestChunkDigests
  refine bind_eq_ok.mpr ⟨m.chunks, ?_, rfl⟩
  rw [hm, hchunks]
  exact mapM_eq_ok.mpr (.cons hback .nil)

/-- The size of a recording is one that a seal may have. -/
def Sized (totalBytes : ℕ) : Prop := 0 < totalBytes ∧ totalBytes ≤ MAX_SAFE_INTEGER

theorem normalize_valid {audioSeal : AudioSeal} (hlast : 0 < audioSeal.lastSequence)
    (hbytes : Sized audioSeal.totalBytes) : normalizeAudioSeal (some audioSeal) = some audioSeal := by
  unfold normalizeAudioSeal
  rw [Option.filter_some, if_pos]
  unfold AudioSeal.valid
  rw [decide_eq_true hlast, decide_eq_true hbytes.1, decide_eq_true hbytes.2]
  rfl

/-- A manifest that is sealed as chunk `1`. -/
theorem sealed_as_one {m : AudioManifest} {chunk : AudioChunk} {sealedAt : Timestamp} {total : ℕ}
    (hchunks : m.chunks = [chunk]) (hsequence : chunk.sequence = 1) (htotal : m.totalBytes = total)
    (hbytes : Sized total) (hseal : m.audioSeal = some
      { audioRevision := deriveMeetingAudioRevision H m, lastSequence := 1, totalBytes := total, sealedAt }) :
    isSealed H (normalizeManifest m) = true := by
  have hnormal : (normalizeManifest m).audioSeal = m.audioSeal := by
    change normalizeAudioSeal m.audioSeal = _
    rw [hseal]
    exact normalize_valid Nat.one_pos hbytes
  unfold isSealed
  rw [hnormal, hseal, (sameAudio_normalize m).revision H, (sameAudio_normalize m).chunks, hchunks]
  simp only [Option.any_some, beq_self_eq_true, Bool.true_and, List.getLast?_singleton, Option.map_some,
    hsequence, beq_iff_eq]
  exact htotal.symm

/-- **A write of a section that adds and publishes nothing.** -/
theorem holds_write {w : Writer} (h : Holds H o content) (hsized : Sized content.length)
    (hwrite : AudioWrite H o w o') (hchunks : w ≠ .chunks) (hrecordings : w ≠ .recordings) :
    Holds H o' content ∧ revision H o' = revision H o := by
  cases hwrite with
  | keep hm => exact h.congr rfl (hm.toSameAudio.trans (sameAudio_normalize _))
  | lease hm => exact h.congr rfl (hm.trans (sameAudio_normalize _))
  | rewrite | putNew | add => exact absurd rfl hchunks
  | publish => exact absurd rfl hrecordings
  | @«sealed» now last total m m' hlast hm hcomplete hback htotal =>
    obtain ⟨chunk, hlisted, hfirst⟩ := h.chunk
    cases (backfill_holds h hm.chunks).symm.trans hback
    have hm' := hm.chunks.trans hlisted
    have hone : last = 1 := by
      have hsequences := completeSequence_iff.mp hcomplete
      rw [hm'] at hsequences
      have hlength := congrArg List.length hsequences
      rw [List.length_map, List.length_range', List.length_singleton] at hlength
      exact hlength.symm
    subst hone
    have hbytes : total = content.length := by rw [← htotal, hm.totalBytes, h.totalBytes]
    have hrevision : revision H (o.putManifest { m with
        audioSeal := some
          { audioRevision := deriveMeetingAudioRevision H m, lastSequence := 1, totalBytes := total
            sealedAt := now }
        updatedAt := now }) = revision H o := hm.toSameAudio.revision H
    refine ⟨⟨⟨chunk, hm', hfirst.sequence, hfirst.bytes, hfirst.sha256, hfirst.object⟩, ?_, ?_⟩, hrevision⟩
    · exact htotal.trans hbytes
    · exact sealed_as_one (m := { m with audioSeal := some _, updatedAt := now }) hm' hfirst.sequence htotal
        (hbytes ▸ hsized) rfl

theorem holds_written {w : Writer} (h : Holds H o content) (hsized : Sized content.length)
    (hwritten : Written H w o o') (hchunks : w ≠ .chunks) (hrecordings : w ≠ .recordings) :
    Holds H o' content ∧ revision H o' = revision H o := by
  induction hwritten with
  | refl => exact ⟨h, rfl⟩
  | tail _ hwrite ih =>
    obtain ⟨hholds, hrevision⟩ := holds_write ih.1 hsized hwrite hchunks hrecordings
    exact ⟨hholds, hrevision.trans ih.2⟩

/-- Content that is put over the object of the recording has its digest. -/
theorem holds_put {fileName : ChunkFileName} {content' : Bytes} (hinj : Function.Injective H.sha256)
    (h : Holds H o content) (hput : ∀ chunk ∈ (listing o).chunks, chunk.fileName = fileName →
      Matches H o chunk → content'.length = chunk.bytes ∧
        ∀ digest, chunk.sha256 = some digest → H.sha256 content' = digest) :
    Holds H (o.putChunk fileName content') content := by
  obtain ⟨chunk, hchunks, hfirst⟩ := h.chunk
  refine ⟨⟨chunk, hchunks, hfirst.sequence, hfirst.bytes, hfirst.sha256, ?_⟩, h.totalBytes, h.counts⟩
  rw [MeetingObjects.putChunk_chunks]
  by_cases hname : chunk.fileName = fileName
  · have hmatches : Matches H o chunk := by
      refine ⟨content, hfirst.object, hfirst.bytes.symm, fun digest hd => ?_⟩
      rw [hfirst.sha256] at hd
      exact Option.some.inj hd
    have hsha := (hput chunk (by rw [hchunks]; exact List.mem_singleton_self _) hname hmatches).2 _
      hfirst.sha256
    rw [hname, Function.update_self, hinj hsha]
  · rw [Function.update_of_ne hname]
    exact hfirst.object

/-! ### Publications -/

/-- Nothing but the recording is listed, or there to be listed. -/
def Sole (o : MeetingObjects) (prepared : PreparedCommit) : Prop :=
  (listing o).chunks = [] ∧ o.chunks prepared.fileName = some prepared.content ∨
    ∃ chunk, (listing o).chunks = [chunk] ∧ chunk.sequence = 1 ∧
      chunk.bytes = prepared.content.length ∧ o.chunks chunk.fileName = some prepared.content

theorem findChunk_singleton {m : AudioManifest} {chunk : AudioChunk} (hchunks : m.chunks = [chunk])
    (hsequence : chunk.sequence = 1) : findChunk m 1 = some chunk := by
  unfold findChunk
  rw [hchunks, List.find?_cons, hsequence]
  rfl

theorem Sole.publishable {prepared : PreparedCommit} (h : Sole o prepared) : Publishable H o prepared := by
  rcases h with ⟨hnone, hobject⟩ | ⟨chunk, hchunks, hsequence, -, hobject⟩
  · refine ⟨fun _ => hobject, fun existing hexisting => ?_⟩
    have hmem := (findChunk_some hexisting).1
    rw [hnone] at hmem
    cases hmem
  · have hfound := findChunk_singleton hchunks hsequence
    refine ⟨fun hnone => ?_, fun existing hexisting _ _ => ?_⟩
    · rw [hfound] at hnone
      cases hnone
    · rw [hfound] at hexisting
      cases hexisting
      exact ⟨_, hobject, rfl⟩

section Publish

variable {prepared : PreparedCommit} {now : Timestamp} {input : UploadInput} {m : AudioManifest}

/-- The recording is the only chunk of the manifest that publishes it. -/
theorem publishChunks_sole (hsole : Sole o prepared) (hfrom : PublishesFrom H o prepared m)
    (hlength : prepared.content.length = prepared.manifest.totalBytes) :
    ∃ chunk, publishChunks H now prepared m.chunks (findChunk m 1) = [chunk] ∧
      FirstChunk H o prepared.content chunk := by
  have hsha := hfrom.sha256
  rcases hsole with ⟨hnone, hobject⟩ | ⟨chunk, hchunks, hsequence, hbytes, hobject⟩
  · have hm := hfrom.chunks.trans hnone
    have hfound : findChunk m 1 = none := by
      unfold findChunk
      rw [hm]
      rfl
    rw [hfound, hm]
    exact ⟨prepared.chunk H now, rfl, rfl, hlength.symm, rfl, hobject⟩
  · have hm := hfrom.chunks.trans hchunks
    have hfound := findChunk_singleton hm hsequence
    rw [hfound, hm]
    rw [hfound, Option.bind_some] at hsha
    unfold publishChunks
    dsimp only
    cases hdigest : chunk.sha256 with
    | some digest =>
      rw [hdigest, Option.all_some, beq_iff_eq] at hsha
      exact ⟨chunk, rfl, hsequence, hbytes, hdigest.trans (congrArg some hsha), hobject⟩
    | none =>
      unfold setChunkDigest
      rw [if_pos hsequence]
      exact ⟨_, rfl, hsequence, hbytes, rfl, hobject⟩

/-- **A publication with nothing else.** -/
theorem holds_publish (hsole : Sole o prepared) (hfrom : PublishesFrom H o prepared m)
    (hlength : prepared.content.length = prepared.manifest.totalBytes)
    (hsized : Sized prepared.manifest.totalBytes) :
    Holds H (o.putManifest (publishManifest H now input prepared (findChunk m 1) m)) prepared.content ∧
      (publishManifest H now input prepared (findChunk m 1) m).chunks.length = 1 ∧
      (publishManifest H now input prepared (findChunk m 1) m).totalBytes =
        prepared.manifest.totalBytes := by
  obtain ⟨chunk, hchunks, hfirst⟩ : ∃ chunk, publishChunks H now prepared m.chunks (findChunk m 1) = [chunk] ∧
      FirstChunk H o prepared.content chunk := publishChunks_sole hsole hfrom hlength
  obtain ⟨hlisted, htotal, hseal⟩ := publishManifest_audio H now input prepared (findChunk m 1) m
  have hbytes : chunkBytes [chunk] = prepared.manifest.totalBytes := by
    unfold chunkBytes
    rw [List.map_singleton, List.sum_singleton, hfirst.bytes, hlength]
  rw [hchunks] at hlisted
  rw [hchunks, hbytes] at htotal hseal
  refine ⟨⟨⟨chunk, hlisted, hfirst.sequence, hfirst.bytes, hfirst.sha256, hfirst.object⟩, ?_, ?_⟩, ?_, htotal⟩
  · exact htotal.trans hlength.symm
  · exact sealed_as_one hlisted hfirst.sequence htotal hsized hseal
  · rw [hlisted]
    rfl

/-- A recording that is published again is the one that is there. -/
theorem revision_publish (hsole : Sole o prepared) (hfrom : PublishesFrom H o prepared m)
    (h : Holds H o content) : prepared.content = content ∧
      revision H (o.putManifest (publishManifest H now input prepared (findChunk m 1) m)) = revision H o := by
  obtain ⟨chunk, hchunks, hfirst⟩ := h.chunk
  have hm := hfrom.chunks.trans hchunks
  constructor
  · rcases hsole with ⟨hnone, -⟩ | ⟨chunk', hchunks', -, -, hobject⟩
    · rw [hnone] at hchunks
      cases hchunks
    · rw [hchunks] at hchunks'
      cases hchunks'
      rw [hfirst.object] at hobject
      exact (Option.some.inj hobject).symm
  · obtain ⟨hlisted, htotal, -⟩ := publishManifest_audio H now input prepared (findChunk m 1) m
    have hsame : publishChunks H now prepared m.chunks (findChunk m 1) = (listing o).chunks := by
      rw [findChunk_singleton hm hfirst.sequence]
      unfold publishChunks
      dsimp only
      rw [if_pos (by rw [hfirst.sha256]; rfl), hfrom.chunks]
    have hbytes : chunkBytes (listing o).chunks = (listing o).totalBytes := by
      unfold chunkBytes
      rw [hchunks, List.map_singleton, List.sum_singleton, hfirst.bytes, h.totalBytes]
    rw [hsame] at hlisted htotal
    unfold revision deriveMeetingAudioRevision audioState
    rw [listing_putManifest]
    unfold normalizeManifest
    dsimp only
    rw [hlisted, htotal, hbytes]

end Publish

end OwnMinutes.Audio.Commits
