import OwnMinutes.Audio.Phases
import OwnMinutes.Audio.Seals

/-! # Audio that stays intact

A listed chunk matches when its object is as long as the manifest says and has its digest. What matches still
does after a write of the audio calls (`Intact`), except where the object of a recording is put over that of
a listed chunk, or a recording is published whose object is another by then (`AudioKept`). -/

namespace OwnMinutes.Audio.IntactAudio

open OwnMinutes.Auth.ProcessingRoute OwnMinutes.Auth.Records OwnMinutes.Lib.Crash OwnMinutes.Lib.Runs
open OwnMinutes.Lib.Outcome OwnMinutes.Audio.Records OwnMinutes.Audio.Store OwnMinutes.Audio.Runs
open OwnMinutes.Audio.Sections OwnMinutes.Audio.Changes OwnMinutes.Audio.Phases OwnMinutes.Audio.Replays
open OwnMinutes.Audio.Seals

variable {H : Hashing} {o o' o'' : MeetingObjects} {chunk chunk' : AudioChunk}

/-! ### Chunks that match -/

def Matches (H : Hashing) (o : MeetingObjects) (chunk : AudioChunk) : Prop :=
  ∃ content, o.chunks chunk.fileName = some content ∧ content.length = chunk.bytes ∧
    ∀ digest, chunk.sha256 = some digest → H.sha256 content = digest

theorem readListedChunk_eq_ok {content : Bytes} : readListedChunk H o chunk = .ok content ↔
    o.chunks chunk.fileName = some content ∧ content.length = chunk.bytes ∧
      ∀ digest, chunk.sha256 = some digest → H.sha256 content = digest := by
  unfold readListedChunk getChunk
  rw [bind_eq_ok]
  constructor
  · rintro ⟨content', hcontent, h⟩
    split at hcontent
    · cases hcontent
    · rename_i hsome
      cases hcontent
      obtain ⟨hlength, h⟩ := guard_eq_ok.mp h
      obtain ⟨hdigest, h⟩ := guard_eq_ok.mp h
      cases h
      refine ⟨hsome, not_not.mp hlength, fun digest hsha => ?_⟩
      rw [hsha, Option.any_some, bne_iff_ne, not_not] at hdigest
      exact hdigest.symm
  · rintro ⟨hsome, hlength, hdigest⟩
    refine ⟨content, by rw [hsome], guard_eq_ok.mpr ⟨not_not.mpr hlength, guard_eq_ok.mpr ⟨?_, rfl⟩⟩⟩
    cases hsha : chunk.sha256 with
    | none => exact Bool.false_ne_true
    | some digest =>
      rw [Option.any_some, hdigest digest hsha, bne_iff_ne, not_not]

theorem matches_iff : Matches H o chunk ↔ ∃ content, readListedChunk H o chunk = .ok content := by
  simp only [readListedChunk_eq_ok]
  exact Iff.rfl

/-- The audio of a meeting can be assembled where each of its chunks matches. -/
theorem assemble_iff (ho : Ordered (listing o)) :
    (∃ content, assembleMeetingAudioFile H o (listing o) = .ok content) ↔
      ∀ chunk ∈ (listing o).chunks, Matches H o chunk := by
  unfold assembleMeetingAudioFile
  constructor
  · rintro ⟨content, h⟩ chunk hmem
    obtain ⟨parts, hparts, -⟩ := bind_eq_ok.mp h
    have hread := mapM_eq_ok.mp hparts
    obtain ⟨part, -, hok⟩ := exists_of_mem_left hread hmem
    exact matches_iff.mpr ⟨part, hok⟩
  · intro hmatches
    have hread : ∀ chunk ∈ (listing o).chunks, ∃ content,
        readListedChunk H o chunk = .ok content ∧ chunk.bytes = content.length := by
      intro chunk hmem
      obtain ⟨content, hok⟩ := matches_iff.mp (hmatches chunk hmem)
      exact ⟨content, hok, (readListedChunk_eq_ok.mp hok).2.1.symm⟩
    obtain ⟨parts, hparts, hlengths⟩ := exists_mapM_eq_ok hread
    have hsame : List.Forall₂ Eq ((listing o).chunks.map (·.bytes)) (parts.map List.length) :=
      List.forall₂_map_left_iff.mpr (List.forall₂_map_right_iff.mpr hlengths)
    rw [List.forall₂_eq_eq_eq] at hsame
    refine ⟨parts.flatten, bind_eq_ok.mpr ⟨parts, hparts, guard_eq_ok.mpr ⟨not_not.mpr ?_, rfl⟩⟩⟩
    rw [List.length_flatten, ← hsame, ho.totalBytes]
    rfl

/-! ### What a write keeps -/

/-- The chunks are in order, each in an object of its own. -/
structure Tidy (m : AudioManifest) : Prop extends Ordered m where
  named : ∀ chunk ∈ m.chunks, chunk.fileName.sequence = chunk.sequence

/-- The same chunk, perhaps with its digest set. -/
structure Recorded (chunk chunk' : AudioChunk) : Prop where
  sequence : chunk'.sequence = chunk.sequence
  fileName : chunk'.fileName = chunk.fileName
  bytes : chunk'.bytes = chunk.bytes
  digest : ∀ digest, chunk.sha256 = some digest → chunk'.sha256 = some digest

theorem Recorded.refl (chunk : AudioChunk) : Recorded chunk chunk := ⟨rfl, rfl, rfl, fun _ h => h⟩

theorem Recorded.trans {a b c : AudioChunk} (h : Recorded a b) (h' : Recorded b c) : Recorded a c :=
  ⟨h'.sequence.trans h.sequence, h'.fileName.trans h.fileName, h'.bytes.trans h.bytes,
    fun digest hd => h'.digest digest (h.digest digest hd)⟩

/-- What matched still does, and nothing is listed that does not, if everything did. -/
structure Intact (H : Hashing) (o o' : MeetingObjects) : Prop where
  tidy : Tidy (listing o')
  matched : ∀ chunk ∈ (listing o).chunks, Matches H o chunk →
    ∃ chunk' ∈ (listing o').chunks, Recorded chunk chunk' ∧ Matches H o' chunk'
  whole : (∀ chunk ∈ (listing o).chunks, Matches H o chunk) →
    ∀ chunk ∈ (listing o').chunks, Matches H o' chunk

theorem Intact.refl (ho : Tidy (listing o)) : Intact H o o :=
  ⟨ho, fun chunk hmem h => ⟨chunk, hmem, .refl chunk, h⟩, fun h => h⟩

theorem Intact.trans (h : Intact H o o') (h' : Intact H o' o'') : Intact H o o'' := by
  refine ⟨h'.tidy, fun chunk hmem hmatches => ?_, fun hwhole => h'.whole (h.whole hwhole)⟩
  obtain ⟨chunk', hmem', hrecorded, hmatches'⟩ := h.matched chunk hmem hmatches
  obtain ⟨chunk'', hmem'', hrecorded', hmatches''⟩ := h'.matched chunk' hmem' hmatches'
  exact ⟨chunk'', hmem'', hrecorded.trans hrecorded', hmatches''⟩

theorem matches_congr (h : o'.chunks = o.chunks) : Matches H o' chunk ↔ Matches H o chunk := by
  unfold Matches
  rw [h]

theorem Tidy.congr {m m' : AudioManifest} (hm : Tidy m) (h : SameAudio m m') : Tidy m' := by
  refine ⟨hm.toOrdered.congr h, ?_⟩
  rw [h.chunks]
  exact hm.named

/-- The chunks are listed as before, with their objects. -/
theorem intact_same (ho : Tidy (listing o)) (hobjects : o'.chunks = o.chunks)
    (hlisting : SameAudio (listing o) (listing o')) : Intact H o o' := by
  refine ⟨ho.congr hlisting, fun chunk hmem h => ⟨chunk, ?_, .refl chunk, ?_⟩, fun hwhole chunk hmem => ?_⟩
  · rw [hlisting.chunks]
    exact hmem
  · exact (matches_congr hobjects).mpr h
  · rw [hlisting.chunks] at hmem
    exact (matches_congr hobjects).mpr (hwhole chunk hmem)

/-- Content that is put over an object has to be what the chunks that match say. -/
theorem intact_put {fileName : ChunkFileName} {content : Bytes} (ho : Tidy (listing o))
    (h : ∀ chunk ∈ (listing o).chunks, chunk.fileName = fileName → Matches H o chunk →
      content.length = chunk.bytes ∧ ∀ digest, chunk.sha256 = some digest → H.sha256 content = digest) :
    Intact H o (o.putChunk fileName content) := by
  have hmatches : ∀ chunk ∈ (listing o).chunks, Matches H o chunk →
      Matches H (o.putChunk fileName content) chunk := by
    intro chunk hmem hmatches
    unfold Matches
    rw [MeetingObjects.putChunk_chunks]
    by_cases hname : chunk.fileName = fileName
    · rw [hname, Function.update_self]
      exact ⟨content, rfl, h chunk hmem hname hmatches⟩
    · rw [Function.update_of_ne hname]
      exact hmatches
  exact ⟨ho, fun chunk hmem hm => ⟨chunk, hmem, .refl chunk, hmatches chunk hmem hm⟩,
    fun hwhole chunk hmem => hmatches chunk hmem (hwhole chunk hmem)⟩

/-- A chunk that matches is listed with the others. -/
theorem intact_push (htidy : Tidy (listing o')) (hobjects : o'.chunks = o.chunks)
    (hchunks : (listing o').chunks = pushChunk (listing o).chunks chunk) (hmatches : Matches H o chunk) :
    Intact H o o' := by
  refine ⟨htidy, fun c hmem h => ⟨c, ?_, .refl c, ?_⟩, fun hwhole c hmem => ?_⟩
  · rw [hchunks]
    exact mem_pushChunk.mpr (.inl hmem)
  · exact (matches_congr hobjects).mpr h
  · rw [hchunks] at hmem
    refine (matches_congr hobjects).mpr ?_
    rcases mem_pushChunk.mp hmem with hmem | rfl
    · exact hwhole c hmem
    · exact hmatches

/-- Digests are set of chunks that have them. -/
theorem intact_digests (htidy : Tidy (listing o')) (hobjects : o'.chunks = o.chunks)
    (hchunks : List.Forall₂ (fun chunk chunk' => Recorded chunk chunk' ∧
      (Matches H o chunk → Matches H o chunk')) (listing o).chunks (listing o').chunks) :
    Intact H o o' := by
  refine ⟨htidy, fun chunk hmem h => ?_, fun hwhole chunk' hmem => ?_⟩
  · obtain ⟨chunk', hmem', hrecorded, hmatches⟩ := exists_of_mem_left hchunks hmem
    exact ⟨chunk', hmem', hrecorded, (matches_congr hobjects).mpr (hmatches h)⟩
  · obtain ⟨chunk, hmem', -, hmatches⟩ := exists_of_mem_right hchunks hmem
    exact (matches_congr hobjects).mpr (hmatches (hwhole chunk hmem'))

theorem tidy_of_recorded {m m' : AudioManifest} {R : AudioChunk → AudioChunk → Prop} (hm : Tidy m)
    (horder : Ordered m') (hchunks : List.Forall₂ R m.chunks m'.chunks)
    (hR : ∀ chunk chunk', R chunk chunk' → Recorded chunk chunk') : Tidy m' := by
  refine ⟨horder, fun chunk' hmem => ?_⟩
  obtain ⟨chunk, hmem', h⟩ := exists_of_mem_right hchunks hmem
  have hrecorded := hR _ _ h
  rw [hrecorded.fileName, hrecorded.sequence]
  exact hm.named chunk hmem'

theorem tidy_of_push {m m' : AudioManifest} (hm : Tidy m) (horder : Ordered m')
    (hchunks : m'.chunks = pushChunk m.chunks chunk) (hnamed : chunk.fileName.sequence = chunk.sequence) :
    Tidy m' := by
  refine ⟨horder, fun c hmem => ?_⟩
  rw [hchunks] at hmem
  rcases mem_pushChunk.mp hmem with hmem | rfl
  · exact hm.named c hmem
  · exact hnamed

/-! ### Sections -/

theorem Tidy.eq_of_sequence {m : AudioManifest} (hm : Tidy m) (h : chunk ∈ m.chunks)
    (h' : chunk' ∈ m.chunks) (hsequence : chunk.sequence = chunk'.sequence) : chunk = chunk' := by
  have hnodup : (m.chunks.map (·.sequence)).Nodup := hm.increasing.imp fun hlt => hlt.ne
  exact List.inj_on_of_nodup_map hnodup h h' hsequence

/-- A chunk is the only one of its object. -/
theorem Tidy.eq_of_fileName {m : AudioManifest} (hm : Tidy m) (h : chunk ∈ m.chunks)
    (h' : chunk' ∈ m.chunks) (hname : chunk.fileName = chunk'.fileName) : chunk = chunk' := by
  refine hm.eq_of_sequence h h' ?_
  rw [← hm.named chunk h, ← hm.named chunk' h', hname]

/-- The content that a listed chunk is compared with is that of its object. -/
theorem content_of_existing {content : Bytes} (hinj : Function.Injective H.sha256)
    (hsha : existingSha256 H o chunk = .ok (H.sha256 content)) (h : Matches H o chunk) :
    content.length = chunk.bytes ∧ ∀ digest, chunk.sha256 = some digest → H.sha256 content = digest := by
  obtain ⟨stored, hstored, hlength, hdigest⟩ := h
  have hsame : H.sha256 stored = H.sha256 content := by
    unfold existingSha256 at hsha
    cases hd : chunk.sha256 with
    | some digest =>
      rw [hd] at hsha
      cases hsha
      exact hdigest _ hd
    | none =>
      rw [hd] at hsha
      obtain ⟨found, hfound, heq⟩ := map_eq_ok.mp hsha
      unfold getChunk at hfound
      rw [hstored] at hfound
      cases hfound
      exact heq
  rw [← hinj hsame]
  exact ⟨hlength, hdigest⟩

theorem recorded_backfill (h : backfillChunkDigest H o chunk = .ok chunk') :
    Recorded chunk chunk' ∧ (Matches H o chunk → Matches H o chunk') := by
  rcases backfillChunkDigest_ok h with ⟨rfl, -⟩ | ⟨content, hnone, hcontent, hlength, rfl⟩
  · exact ⟨.refl _, fun h => h⟩
  · refine ⟨⟨rfl, rfl, rfl, fun digest hd => ?_⟩, fun _ => ?_⟩
    · rw [hnone] at hd
      cases hd
    · unfold getChunk at hcontent
      split at hcontent
      · cases hcontent
      · rename_i hsome
        cases hcontent
        refine ⟨content, hsome, hlength, fun digest hd => ?_⟩
        cases hd
        rfl

/-- **A write of a section that publishes no recording leaves the audio intact.** -/
theorem intact_write {w : Writer} (hinj : Function.Injective H.sha256) (h : AudioWrite H o w o')
    (hw : w ≠ .recordings) (ho : Tidy (listing o)) : Intact H o o' := by
  cases h with
  | keep hm => exact intact_same ho rfl (hm.toSameAudio.trans (sameAudio_normalize _))
  | lease hm => exact intact_same ho rfl (hm.trans (sameAudio_normalize _))
  | @rewrite sequence existing content hfind hsha =>
    refine intact_put ho fun chunk hmem hname hmatches => ?_
    cases ho.eq_of_fileName hmem (findChunk_some hfind).1 hname
    exact content_of_existing hinj hsha hmatches
  | @putNew input hfind =>
    refine intact_put ho fun chunk hmem hname _ => ?_
    have hsequence : input.sequence = chunk.sequence := by
      rw [← ho.named chunk hmem, hname]
      rfl
    exact absurd (List.mem_map.mpr ⟨chunk, hmem, hsequence.symm⟩) (findChunk_eq_none.mp hfind)
  | @add now input m hpos hfind hput hm =>
    have hchunks : (listing (o.putManifest (addChunk H now input m))).chunks =
        pushChunk (listing o).chunks (newChunk H now input) := by
      rw [← hm.chunks]
      exact (addChunk_audio H now input m).1
    have horder : Truthful H (normalizeManifest (addChunk H now input m)) :=
      truthful_add (ho.toOrdered.congr hm.toSameAudio) hpos ((findChunk_congr hm.chunks _).trans hfind)
    refine intact_push (tidy_of_push ho horder.toOrdered hchunks rfl) rfl hchunks ?_
    refine ⟨input.buffer, hput, rfl, fun digest hd => ?_⟩
    cases hd
    rfl
  | @«sealed» now last total m m' hlast hm hcomplete hback htotal =>
    have hchunks := (forall₂_backfill hback).imp fun _ _ h => recorded_backfill h
    rw [hm.chunks] at hchunks
    refine intact_digests (tidy_of_recorded ho ?_ hchunks fun _ _ h => h.1) rfl hchunks
    exact (truthful_sealed (H := H) (ho.toOrdered.congr hm.toSameAudio) hcomplete hback).toOrdered
  | publish => exact absurd rfl hw

theorem intact_written {w : Writer} (hinj : Function.Injective H.sha256) (h : Written H w o o')
    (hw : w ≠ .recordings) (ho : Tidy (listing o)) : Intact H o o' := by
  induction h with
  | refl => exact .refl ho
  | tail _ hwrite ih => exact ih.trans (intact_write hinj hwrite hw ih.tidy)

/-! ### Publications -/

theorem forall₂_setChunkDigest {R : AudioChunk → AudioChunk → Prop} {sequence : ℕ} {digest : Digest}
    (hrefl : ∀ chunk, R chunk chunk) : ∀ {chunks : List AudioChunk},
    (∀ chunk ∈ chunks, chunk.sequence = sequence → R chunk { chunk with sha256 := some digest }) →
      List.Forall₂ R chunks (setChunkDigest sequence digest chunks)
  | [], _ => .nil
  | chunk :: chunks, h => by
    unfold setChunkDigest
    split_ifs with hsequence
    · exact .cons (h chunk List.mem_cons_self hsequence) (List.forall₂_same.mpr fun c _ => hrefl c)
    · exact .cons (hrefl chunk) (forall₂_setChunkDigest hrefl fun c hmem =>
        h c (List.mem_cons_of_mem _ hmem))

/-- The object of the recording is there, if it is to be listed; the chunk that is there instead, if it has no
digest, is found with that of the recording. -/
def Publishable (H : Hashing) (o : MeetingObjects) (prepared : PreparedCommit) : Prop :=
  (findChunk (listing o) 1 = none → o.chunks prepared.fileName = some prepared.content) ∧
    ∀ existing, findChunk (listing o) 1 = some existing → existing.sha256 = none → Matches H o existing →
      ∃ content, o.chunks existing.fileName = some content ∧
        H.sha256 content = H.sha256 prepared.content

theorem intact_publish {now : Timestamp} {input : UploadInput} {prepared : PreparedCommit}
    {m : AudioManifest} (hm : Keeps (listing o) m) (ho : Tidy (listing o))
    (hlength : prepared.content.length = prepared.manifest.totalBytes) (h : Publishable H o prepared) :
    Intact H o (o.putManifest (publishManifest H now input prepared (findChunk m 1) m)) := by
  have hfind := findChunk_congr hm.chunks 1
  have htruthful : Truthful H (normalizeManifest (publishManifest H now input prepared (findChunk m 1) m)) :=
    truthful_publish (ho.toOrdered.congr hm.toSameAudio)
  have horder := htruthful.toOrdered
  have hchunks : (listing (o.putManifest (publishManifest H now input prepared (findChunk m 1) m))).chunks =
      publishChunks H now prepared (listing o).chunks (findChunk (listing o) 1) := by
    rw [← hm.chunks, ← hfind]
    exact (publishManifest_audio H now input prepared (findChunk m 1) m).1
  cases hfound : findChunk (listing o) 1 with
  | none =>
    rw [hfound] at hchunks
    refine intact_push (tidy_of_push ho horder hchunks rfl) rfl hchunks ?_
    refine ⟨prepared.content, h.1 hfound, hlength, fun digest hd => ?_⟩
    cases hd
    rfl
  | some existing =>
    rw [hfound] at hchunks
    have hrecorded : List.Forall₂ (fun chunk chunk' => Recorded chunk chunk' ∧
        (Matches H o chunk → Matches H o chunk')) (listing o).chunks
        (publishChunks H now prepared (listing o).chunks (some existing)) := by
      unfold publishChunks
      dsimp only
      split_ifs with hdigest
      · exact List.forall₂_same.mpr fun chunk _ => ⟨.refl chunk, fun h => h⟩
      · rw [Bool.not_eq_true, Option.isSome_eq_false_iff, Option.isNone_iff_eq_none] at hdigest
        refine forall₂_setChunkDigest (fun chunk => ⟨.refl chunk, fun h => h⟩) fun chunk hmem hone => ?_
        cases ho.eq_of_sequence hmem (findChunk_some hfound).1 (hone.trans (findChunk_some hfound).2.symm)
        refine ⟨⟨rfl, rfl, rfl, fun digest hd => ?_⟩, fun hmatches => ?_⟩
        · rw [hdigest] at hd
          cases hd
        · obtain ⟨stored, hstored, hlength, -⟩ := hmatches
          obtain ⟨content, hcontent, hsha⟩ := h.2 existing hfound hdigest ⟨stored, hstored, hlength, by
            rw [hdigest]
            exact fun _ hd => by cases hd⟩
          rw [hstored] at hcontent
          cases hcontent
          refine ⟨stored, hstored, hlength, fun digest hd => ?_⟩
          cases hd
          exact hsha
    rw [← hchunks] at hrecorded
    exact intact_digests (tidy_of_recorded ho horder hrecorded fun _ _ h => h.1) rfl hrecorded

/-! ### Recordings -/

/-- A recording is assembled from the parts that are staged, in order. -/
theorem assemble_prepared {ownerUserId : UserId} {uploadId : UploadId} {manifest : RecordingUploadManifest}
    {content : Bytes} {maxBufferedBytes : ℕ}
    (h : assembleRecordingUpload H ownerUserId uploadId o = .ok (.prepared manifest content maxBufferedBytes)) :
    o.uploadReceipts uploadId = none ∧ o.uploadManifests uploadId = some manifest ∧
      content.length = manifest.totalBytes ∧ ∃ parts, content = parts.flatten ∧
        List.Forall₂ (fun index part => readUploadPart H o manifest uploadId index = .ok part)
          (List.range manifest.totalParts) parts := by
  unfold assembleRecordingUpload at h
  cases hreceipt : o.uploadReceipts uploadId with
  | some receipt =>
    have hstate : (readRecordingUploadState o uploadId).receipt = some receipt := hreceipt
    dsimp only at h
    rw [hstate] at h
    dsimp only at h
    split_ifs at h
    cases h
  | none =>
    rw [readState_of_no_receipt hreceipt] at h
    dsimp only at h
    cases hmanifest : o.uploadManifests uploadId with
    | none =>
      rw [hmanifest] at h
      cases h
    | some stored =>
      rw [hmanifest] at h
      dsimp only at h
      obtain ⟨-, h⟩ := guard_eq_ok.mp h
      obtain ⟨-, h⟩ := guard_eq_ok.mp h
      obtain ⟨parts, hparts, h⟩ := bind_eq_ok.mp h
      obtain ⟨hlength, h⟩ := guard_eq_ok.mp h
      cases h
      exact ⟨rfl, rfl, not_not.mp hlength, parts, rfl, mapM_eq_ok.mp hparts⟩

/-- What is returned with a publication is read off the manifest that it stores. -/
structure PublishedBy (H : Hashing) (m : AudioManifest) (published : Published) : Prop where
  revision : published.audioSeal.audioRevision = deriveMeetingAudioRevision H m
  totalChunks : published.saved.totalChunks = m.chunks.length
  totalBytes : published.saved.totalBytes = m.totalBytes

/-- The manifest that a publication goes on from: no other digest of a first chunk is listed. -/
structure PublishesFrom (H : Hashing) (o : MeetingObjects) (prepared : PreparedCommit)
    (m : AudioManifest) : Prop extends Keeps (listing o) m where
  sha256 : ((findChunk m 1).bind (·.sha256)).all (· == H.sha256 prepared.content) = true

/-- Nothing is stored, or the manifest with the recording. -/
def Publishes (H : Hashing) (now : Timestamp) (input : UploadInput) (prepared : PreparedCommit)
    (o o' : MeetingObjects) : Prop :=
  o' = o ∨ ∃ m, PublishesFrom H o prepared m ∧
    o' = o.putManifest (publishManifest H now input prepared (findChunk m 1) m)

theorem wp_publishCommit {now : Timestamp} {input : UploadInput} {prepared : PreparedCommit} :
    Wp (Publishes H now input prepared o) (publishCommitUnsafe H now input prepared)
      (fun published t => ∃ m, PublishesFrom H o prepared m ∧
        t = o.putManifest (publishManifest H now input prepared (findChunk m 1) m) ∧
        PublishedBy H (publishManifest H now input prepared (findChunk m 1) m) published) o := by
  have hrefl : Publishes H now input prepared o o := .inl rfl
  unfold publishCommitUnsafe publishPreparedRecordingCommitUnsafe
  simp only [wp_bind, wp_read, wp_require, wp_readManifest, wp_lift]
  refine ⟨hrefl, hrefl, fun _ => ⟨hrefl, hrefl, fun _ => ⟨hrefl, fun m hm => ⟨hrefl, fun hsha => ?_⟩⟩⟩⟩
  have hfrom : PublishesFrom H o prepared m :=
    ⟨(keeps_current input.meetingId now o).trans (keeps_consent hm).1, hsha⟩
  have hput : Publishes H now input prepared o
      (o.putManifest (publishManifest H now input prepared (findChunk m 1) m)) := .inr ⟨m, hfrom, rfl⟩
  exact wp_persistMeetingManifest.mpr ⟨hrefl, hput, wp_pure.mpr ⟨hput, m, hfrom, rfl, rfl, rfl, rfl⟩⟩

variable {policy : RecordingUploadResourcePolicy} {s t : AudioWorld} {meetingId : MeetingId}

/-- What a call publishes is as long as it says. -/
def PreparedSound (s : AudioWorld) : Prop :=
  ∀ callId input prepared, Phase.prepared? (s.calls callId) = some (input, prepared) →
    prepared.content.length = prepared.manifest.totalBytes

theorem preparedSound_step {e : AudioEvent × Option Answer} (hstep : AudioStep H policy s e t)
    (h : PreparedSound s) : PreparedSound t := by
  intro callId input prepared hprepared
  rcases prepared_step hstep hprepared with hbefore | ⟨durationMs, -, -, hassembled⟩
  · exact h callId input prepared hbefore
  · exact (assemble_prepared hassembled).2.2.1

theorem Quiet.preparedSound (h : Quiet s) : PreparedSound s := by
  intro callId _ _ hprepared
  rw [h.idle callId] at hprepared
  cases hprepared

/-- The objects of a meeting after a publication. -/
theorem objects_publishCommit {callId : CallId} {stop : Option ℕ} {answer : Option Answer}
    (hstep : AudioStep H policy s (.publishCommit callId stop, answer) t) :
    t.meetings meetingId = s.meetings meetingId ∨
      ∃ input prepared m, s.calls callId = .publishing input prepared ∧ input.meetingId = meetingId ∧
        PublishesFrom H (s.meetings meetingId) prepared m ∧ t.meetings meetingId =
          (s.meetings meetingId).putManifest (publishManifest H s.now input prepared (findChunk m 1) m) := by
  have hpublish := hstep.2
  simp only [step] at hpublish
  split at hpublish
  · rename_i input prepared hphase
    split_ifs at hpublish
    have hmeetings : (stepPublishCommit H s callId input prepared stop).1.meetings = s.meetings ∨
        ∃ o, Visits (publishCommitUnsafe H s.now input prepared) (s.meetings input.meetingId) o ∧
          (stepPublishCommit H s callId input prepared stop).1.meetings =
            Function.update s.meetings input.meetingId o :=
      meetings_section (passes_setPhase callId .idle) fun _ => passes_setPhase callId _
    rw [world_of_some hpublish]
    rcases hmeetings with hsame | ⟨o, hvisits, hupdate⟩
    · exact .inl (congrFun hsame meetingId)
    · by_cases hid : meetingId = input.meetingId
      · subst hid
        have hself : (stepPublishCommit H s callId input prepared stop).1.meetings input.meetingId = o :=
          (congrFun hupdate input.meetingId).trans (Function.update_self _ _ _)
        rcases wp_publishCommit.crash hvisits with hsame | ⟨m, hfrom, heq⟩
        · exact .inl (hself.trans hsame)
        · exact .inr ⟨input, prepared, m, hphase, rfl, hfrom, hself.trans heq⟩
      · exact .inl ((congrFun hupdate meetingId).trans (Function.update_of_ne hid _ _))
  · cases hpublish

/-! ### Runs -/

/-- The object of a recording is put over that of a chunk that matches only with the same content, and a
recording is published only where its object, or that of the first chunk, is this recording. The meeting is
not removed. -/
def AudioKept (H : Hashing) (meetingId : MeetingId) (s : AudioWorld) : AudioEvent → Prop
  | .putRecording callId => ∀ input prepared, s.calls callId = .putting input prepared →
    input.meetingId = meetingId → ∀ chunk ∈ (stored s meetingId).chunks,
      chunk.fileName = prepared.fileName → Matches H (s.meetings meetingId) chunk →
        prepared.content.length = chunk.bytes ∧
          ∀ digest, chunk.sha256 = some digest → H.sha256 prepared.content = digest
  | .publishCommit callId _ => ∀ input prepared, s.calls callId = .publishing input prepared →
    input.meetingId = meetingId → Publishable H (s.meetings meetingId) prepared
  | .removeMeeting id => id ≠ meetingId
  | _ => True

/-- **A step leaves the audio of a meeting intact.** -/
theorem intact_step {e : AudioEvent × Option Answer} (hinj : Function.Injective H.sha256)
    (hstep : AudioStep H policy s e t) (hkept : AudioKept H meetingId s e.1) (hsound : PreparedSound s)
    (ho : Tidy (stored s meetingId)) : Intact H (s.meetings meetingId) (t.meetings meetingId) := by
  by_cases htouched : touched s e.1 = some meetingId
  swap
  · rw [(step_objects hstep).others htouched]
    exact .refl ho
  have hchange := (step_objects hstep).touched htouched
  obtain ⟨event, answer⟩ := e
  dsimp only at hkept htouched hchange
  by_cases hpublish : ∃ callId stop, event = .publishCommit callId stop
  · obtain ⟨callId, stop, rfl⟩ := hpublish
    rcases @objects_publishCommit _ _ _ _ meetingId _ _ _ hstep with
      hsame | ⟨input, prepared, m, hphase, hmeeting, hfrom, heq⟩
    · rw [hsame]
      exact .refl ho
    · rw [heq]
      have hprepared : Phase.prepared? (s.calls callId) = some (input, prepared) := by
        rw [hphase]
        rfl
      exact intact_publish hfrom.toKeeps ho (hsound callId input prepared hprepared)
        (hkept input prepared hphase hmeeting)
  generalize t.meetings meetingId = o at hchange
  cases hchange with
  | written h =>
    refine intact_written hinj h (fun hw => ?_) ho
    cases event with
    | publishCommit callId stop => exact hpublish ⟨callId, stop, rfl⟩
    | readStatus | beginCommit | answerReceipt =>
      simp only [writerOf, receiptWriter] at hw
      split at hw <;> cases hw
    | _ => cases hw
  | part | partManifest | receipt => exact intact_same ho rfl (.refl _)
  | unstaged =>
    refine intact_same ho (removeStaged_chunks _ _ _) ?_
    rw [listing_of_manifest (removeStaged_manifest _ _ _)]
    exact .refl _
  | @recording callId input prepared hevent hphase =>
    subst hevent
    have hmeeting : input.meetingId = meetingId := by
      simpa only [touched, hphase, Option.some.injEq] using htouched
    exact intact_put ho (hkept input prepared hphase hmeeting)
  | removed hevent =>
    rw [hevent] at hkept
    exact absurd rfl hkept

/-- A step that keeps the audio of a meeting. -/
def KeepsAudio (H : Hashing) (policy : RecordingUploadResourcePolicy) (meetingId : MeetingId)
    (s : AudioWorld) (e : AudioEvent × Option Answer) (t : AudioWorld) : Prop :=
  AudioStep H policy s e t ∧ AudioKept H meetingId s e.1

theorem intact_run {es : List (AudioEvent × Option Answer)} (hinj : Function.Injective H.sha256)
    (hrun : Run (KeepsAudio H policy meetingId) s es t) (hsound : PreparedSound s)
    (ho : Tidy (stored s meetingId)) :
    PreparedSound t ∧ Intact H (s.meetings meetingId) (t.meetings meetingId) := by
  induction hrun with
  | nil => exact ⟨hsound, .refl ho⟩
  | cons hstep _ ih =>
    have hintact := intact_step hinj hstep.1 hstep.2 hsound ho
    obtain ⟨hlast, hrest⟩ := ih (preparedSound_step hstep.1 hsound) hintact.tidy
    exact ⟨hlast, hintact.trans hrest⟩

/-- **A failed write leaves the audio intact**: from any state of a run that keeps the audio to any later one,
a listed chunk that matched is still listed and matches, and the audio can be assembled if it could. -/
theorem audio_intact {es es' : List (AudioEvent × Option Answer)} {a : AudioWorld}
    (hinj : Function.Injective H.sha256) (hs : Quiet s) (ho : Tidy (stored s meetingId))
    (hbefore : Run (KeepsAudio H policy meetingId) s es a)
    (hrun : Run (KeepsAudio H policy meetingId) a es' t) :
    (∀ chunk ∈ (stored a meetingId).chunks, Matches H (a.meetings meetingId) chunk →
      ∃ chunk' ∈ (stored t meetingId).chunks, Recorded chunk chunk' ∧
        Matches H (t.meetings meetingId) chunk') ∧
    ((∃ content, assembleMeetingAudioFile H (a.meetings meetingId) (stored a meetingId) = .ok content) →
      ∃ content, assembleMeetingAudioFile H (t.meetings meetingId) (stored t meetingId) = .ok content) := by
  obtain ⟨hsound, htidy⟩ := intact_run hinj hbefore (Quiet.preparedSound hs) ho
  obtain ⟨-, hintact⟩ := intact_run hinj hrun hsound htidy.tidy
  refine ⟨hintact.matched, fun hassemble => ?_⟩
  have hwhole := (assemble_iff htidy.tidy.toOrdered).mp hassemble
  exact (assemble_iff hintact.tidy.toOrdered).mpr (hintact.whole hwhole)

theorem tidy_empty : Tidy (stored {} meetingId) := by
  refine ⟨(truthful_empty textHashing "" 0).toOrdered, fun chunk hmem => ?_⟩
  exact absurd hmem List.not_mem_nil

/-- A chunk that a client streams. -/
def streamedChunk (sequence : ℕ) (buffer : Bytes) : AudioChunkInput where
  meetingId := "meeting"
  ownerUserId := "user"
  sequence
  buffer
  mimeType := "audio/webm"
  recordedAt := 0
  durationMs := 1000

/-- The commit of the upload, until its recording is published. -/
def publication : List AudioEvent :=
  [.beginCommit "commit" ⟨"meeting", "user", "upload"⟩ none, .assemble "commit" 1000, .intend "commit",
   .putRecording "commit", .publishCommit "commit" none]

/-- Does the audio of the meeting have this assembly? -/
def assembles (s : AudioWorld) (outcome : Except AudioError Bytes) : Bool :=
  decide (assembleMeetingAudioFile textHashing (s.meetings "meeting") (stored s "meeting") = outcome)

/-- Is a chunk saved? -/
def savesChunk : AudioEvent → Bool
  | .saveChunk _ _ => true
  | _ => false

/-- A chunk that is sent again with other content is refused. -/
theorem audio_intact_streamed : ∃ es a es' t,
    es.map Prod.fst = [.saveChunk (streamedChunk 1 [65]) none] ∧
    es'.map Prod.fst = [.saveChunk (streamedChunk 1 [66]) none] ∧
    Run (AudioStep textHashing {}) {} es a ∧ Run (AudioStep textHashing {}) a es' t ∧
    es'.map Prod.snd = [some (.error chunkContentConflict)] ∧
    ∃ content, assembleMeetingAudioFile textHashing (t.meetings "meeting") (stored t "meeting") =
      .ok content := by
  obtain ⟨es, a, es', t, hes, hes', hbefore, hrun, hend⟩ := exists_runs textHashing {}
    (fun _ e _ => savesChunk e.1 = true) ["meeting"] 0 {} [.saveChunk (streamedChunk 1 [65]) none]
    [.saveChunk (streamedChunk 1 [66]) none]
    (fun a labels _ => assembles a (.ok [65]) &&
      decide (labels.map Prod.snd = [some (.error chunkContentConflict)]))
    (within_empty _ _) (by decide)
  rw [Bool.and_eq_true] at hend
  have hkeeps : ∀ s e t, AudioStep textHashing {} s e t ∧ savesChunk e.1 = true →
      KeepsAudio textHashing {} "meeting" s e t := by
    rintro s ⟨event, answer⟩ t ⟨hstep, hsave⟩
    cases event with
    | saveChunk => exact ⟨hstep, trivial⟩
    | _ => cases hsave
  refine ⟨es, a, es', t, hes, hes', hbefore.mono fun _ _ _ h => h.1, hrun.mono fun _ _ _ h => h.1,
    of_decide_eq_true hend.2, ?_⟩
  exact (audio_intact textHashing_injective quiet_empty tidy_empty (hbefore.mono hkeeps)
    (hrun.mono hkeeps)).2 ⟨[65], of_decide_eq_true hend.1⟩

/-- **A commit that is refused destroys the audio**: the first chunk of the meeting was streamed, and a
recording with other content is committed. It is put over the chunk before it is compared with it. -/
theorem refused_commit_destroys_audio : ∃ es a es' t,
    es.map Prod.fst = .saveChunk (streamedChunk 1 [65]) none :: wholeUpload ∧
    es'.map Prod.fst = publication ∧
    Run (AudioStep textHashing {}) {} es a ∧ Run (AudioStep textHashing {}) a es' t ∧
    es'.getLast?.map Prod.snd = some (some (.error chunkContentConflict)) ∧
    assembleMeetingAudioFile textHashing (a.meetings "meeting") (stored a "meeting") = .ok [65] ∧
    assembleMeetingAudioFile textHashing (t.meetings "meeting") (stored t "meeting") =
      .error storedDigestMismatch := by
  obtain ⟨es, a, es', t, hes, hes', hbefore, hrun, hend⟩ := exists_runs textHashing {}
    (fun _ _ _ => True) ["meeting"] 1 {} (.saveChunk (streamedChunk 1 [65]) none :: wholeUpload)
    publication
    (fun a labels t => decide (labels.getLast?.map Prod.snd = some (some (.error chunkContentConflict))) &&
      assembles a (.ok [65]) && assembles t (.error storedDigestMismatch))
    (within_empty _ _) (by decide)
  rw [Bool.and_eq_true, Bool.and_eq_true] at hend
  exact ⟨es, a, es', t, hes, hes', hbefore.mono fun _ _ _ h => h.1, hrun.mono fun _ _ _ h => h.1,
    of_decide_eq_true hend.1.1, of_decide_eq_true hend.1.2, of_decide_eq_true hend.2⟩

end OwnMinutes.Audio.IntactAudio
