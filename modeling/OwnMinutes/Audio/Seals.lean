import Mathlib.Tactic.Linarith
import OwnMinutes.Audio.Replays

/-! # The seal is truthful

A manifest is truthful (`Truthful`) when its chunks are in strictly increasing order, its size is theirs, and
a seal that counts is one of the chunks `1` to its last one. Every write keeps this, and a meeting that is
sealed keeps its chunks from the step that sealed it on. -/

namespace OwnMinutes.Audio.Seals

open OwnMinutes.Auth.ProcessingRoute OwnMinutes.Auth.Records OwnMinutes.Lib.Crash OwnMinutes.Lib.Runs
open OwnMinutes.Lib.Outcome OwnMinutes.Audio.Records OwnMinutes.Audio.Store OwnMinutes.Audio.Runs
open OwnMinutes.Audio.Sections OwnMinutes.Audio.Changes OwnMinutes.Audio.Replays

/-! ### Lists of chunks -/

/-- What a list of chunks says of each: its place and its size. -/
def keys (chunks : List AudioChunk) : List (ℕ × ℕ) := chunks.map fun chunk => (chunk.sequence, chunk.bytes)

theorem sequences_keys (chunks : List AudioChunk) :
    (keys chunks).map Prod.fst = chunks.map (·.sequence) := by
  unfold keys
  rw [List.map_map]
  rfl

theorem bytes_keys (chunks : List AudioChunk) : ((keys chunks).map Prod.snd).sum = chunkBytes chunks := by
  unfold keys chunkBytes
  rw [List.map_map]
  rfl

/-- In the order of their sequences, without repetition. -/
def Increasing (chunks : List AudioChunk) : Prop := (chunks.map (·.sequence)).Pairwise (· < ·)

variable {chunks chunks' : List AudioChunk}

theorem Increasing.congr (h : Increasing chunks) (hkeys : keys chunks' = keys chunks) : Increasing chunks' := by
  unfold Increasing at h ⊢
  rwa [← sequences_keys, hkeys, sequences_keys]

theorem upTo_iff {left right : AudioChunk} : left.upTo right = true ↔ left.sequence ≤ right.sequence :=
  decide_eq_true_iff

instance : Std.Total fun left right : AudioChunk => left.upTo right = true where
  total a b := by
    rw [upTo_iff, upTo_iff]
    exact Nat.le_total _ _

instance : IsTrans AudioChunk fun left right => left.upTo right = true where
  trans a b c hab hbc := by
    rw [upTo_iff] at hab hbc ⊢
    exact hab.trans hbc

theorem perm_pushChunk (chunks : List AudioChunk) (chunk : AudioChunk) :
    (pushChunk chunks chunk).Perm (chunks ++ [chunk]) := List.perm_insertionSort _ _

theorem mem_pushChunk {chunk c : AudioChunk} : c ∈ pushChunk chunks chunk ↔ c ∈ chunks ∨ c = chunk := by
  rw [(perm_pushChunk chunks chunk).mem_iff, List.mem_append, List.mem_singleton]

variable {m m' : AudioManifest}

theorem findChunk_eq_none {sequence : ℕ} : findChunk m sequence = none ↔ sequence ∉ m.chunks.map (·.sequence) := by
  unfold findChunk
  rw [List.find?_eq_none, List.mem_map]
  constructor
  · rintro h ⟨chunk, hmem, rfl⟩
    exact h chunk hmem (beq_self_eq_true _)
  · rintro h chunk hmem heq
    exact h ⟨chunk, hmem, eq_of_beq heq⟩

theorem findChunk_some {sequence : ℕ} {chunk : AudioChunk} (h : findChunk m sequence = some chunk) :
    chunk ∈ m.chunks ∧ chunk.sequence = sequence :=
  ⟨List.mem_of_find?_eq_some h, eq_of_beq (List.find?_some h :)⟩

/-- A chunk of a new sequence takes its place among the others. -/
theorem increasing_pushChunk {chunk : AudioChunk} (h : Increasing chunks)
    (hnew : chunk.sequence ∉ chunks.map (·.sequence)) : Increasing (pushChunk chunks chunk) := by
  have hle : (pushChunk chunks chunk).Pairwise fun left right => left.upTo right = true :=
    List.pairwise_insertionSort _ _
  have hnodup : ((pushChunk chunks chunk).map (·.sequence)).Nodup := by
    rw [((perm_pushChunk chunks chunk).map _).nodup_iff, List.map_append, List.map_singleton,
      List.nodup_append_comm]
    exact List.nodup_cons.mpr ⟨hnew, h.imp fun hlt => hlt.ne⟩
  have hlemap : ((pushChunk chunks chunk).map (·.sequence)).Pairwise (· ≤ ·) :=
    List.pairwise_map.mpr (hle.imp upTo_iff.mp)
  exact (hlemap.and hnodup).imp fun h => lt_of_le_of_ne h.1 h.2

theorem keys_setChunkDigest (sequence : ℕ) (digest : Digest) (chunks : List AudioChunk) :
    keys (setChunkDigest sequence digest chunks) = keys chunks := by
  induction chunks with
  | nil => rfl
  | cons chunk chunks ih =>
    unfold setChunkDigest
    split_ifs
    · rfl
    · unfold keys at ih ⊢
      rw [List.map_cons, ih, List.map_cons]

/-- Only the digest of a chunk is set. -/
theorem backfillChunkDigest_ok {H : Hashing} {o : MeetingObjects} {chunk chunk' : AudioChunk}
    (h : backfillChunkDigest H o chunk = .ok chunk') :
    chunk' = chunk ∧ chunk.sha256.isSome ∨
      ∃ content, chunk.sha256 = none ∧ getChunk o chunk.fileName = .ok content ∧
        content.length = chunk.bytes ∧ chunk' = { chunk with sha256 := some (H.sha256 content) } := by
  unfold backfillChunkDigest at h
  split at h
  · rename_i digest hdigest
    cases h
    exact .inl ⟨rfl, by rw [hdigest]; rfl⟩
  · rename_i hnone
    obtain ⟨content, hcontent, h⟩ := bind_eq_ok.mp h
    obtain ⟨hlength, h⟩ := guard_eq_ok.mp h
    cases h
    exact .inr ⟨content, hnone, hcontent, not_not.mp hlength, rfl⟩

theorem forall₂_backfill {H : Hashing} {o : MeetingObjects} (h : backfillManifestChunkDigests H o m = .ok m') :
    List.Forall₂ (fun chunk chunk' => backfillChunkDigest H o chunk = .ok chunk') m.chunks m'.chunks := by
  obtain ⟨chunks, hchunks, hm⟩ := bind_eq_ok.mp h
  cases hm
  exact mapM_eq_ok.mp hchunks

theorem keys_backfill {H : Hashing} {o : MeetingObjects} (h : backfillManifestChunkDigests H o m = .ok m') :
    keys m'.chunks = keys m.chunks := by
  have hkeys : List.Forall₂ Eq (keys m.chunks) (keys m'.chunks) := by
    refine List.forall₂_map_left_iff.mpr (List.forall₂_map_right_iff.mpr ?_)
    refine (forall₂_backfill h).imp fun chunk chunk' hchunk => ?_
    rcases backfillChunkDigest_ok hchunk with ⟨rfl, -⟩ | ⟨content, -, -, -, rfl⟩
    · rfl
    · rfl
  rw [List.forall₂_eq_eq_eq] at hkeys
  exact hkeys.symm

theorem completeSequence_iff {lastSequence : ℕ} :
    completeSequence chunks lastSequence = true ↔
      chunks.map (·.sequence) = List.range' 1 lastSequence :=
  beq_iff_eq

/-- The last of a list of chunks in order has the largest sequence. -/
theorem complete_of_last_one (h : Increasing chunks) (hpos : ∀ chunk ∈ chunks, 0 < chunk.sequence)
    (hlast : (chunks.getLast?.map (·.sequence)) = some 1) : completeSequence chunks 1 = true := by
  obtain ⟨last, hlast, hone⟩ := Option.map_eq_some_iff.mp hlast
  obtain ⟨init, rfl⟩ := List.getLast?_eq_some_iff.mp hlast
  have hinit : init = [] := by
    refine List.eq_nil_iff_forall_not_mem.mpr fun chunk hmem => ?_
    unfold Increasing at h
    rw [List.map_append, List.pairwise_append] at h
    have hlt := h.2.2 _ (List.mem_map_of_mem hmem) _ (List.mem_map_of_mem (List.mem_singleton_self last))
    have hchunk := hpos chunk (List.mem_append_left _ hmem)
    omega
  subst hinit
  rw [completeSequence_iff, List.nil_append, List.map_singleton, hone]
  rfl

/-! ### Truthful manifests -/

/-- The chunks and the size of a manifest. -/
structure Ordered (m : AudioManifest) : Prop where
  increasing : Increasing m.chunks
  positive : ∀ chunk ∈ m.chunks, 0 < chunk.sequence
  totalBytes : m.totalBytes = chunkBytes m.chunks

structure Truthful (H : Hashing) (m : AudioManifest) : Prop extends Ordered m where
  complete : isSealed H m = true → completeSequence m.chunks m.chunks.length = true

theorem isSealed_congr {H : Hashing} (h : SameAudio m m') (hm : normalizeAudioSeal m.audioSeal = m.audioSeal)
    (hm' : normalizeAudioSeal m'.audioSeal = m'.audioSeal) : isSealed H m' = isSealed H m := by
  have hseal : m'.audioSeal = m.audioSeal := by rw [← hm', h.audioSeal, hm]
  unfold isSealed
  rw [hseal, h.revision H, h.chunks, h.totalBytes]

theorem normalizeAudioSeal_some {stored : Option AudioSeal} {audioSeal : AudioSeal}
    (h : normalizeAudioSeal stored = some audioSeal) : stored = some audioSeal :=
  (Option.filter_eq_some_iff.mp h).1

theorem isSealed_none {H : Hashing} (h : m.audioSeal = none) : isSealed H m = false := by
  unfold isSealed
  rw [h]
  rfl

theorem Ordered.congr (hm : Ordered m) (h : SameAudio m m') : Ordered m' := by
  have hbytes := hm.totalBytes
  refine ⟨?_, ?_, ?_⟩
  · rw [h.chunks]
    exact hm.increasing
  · rw [h.chunks]
    exact hm.positive
  · rw [h.totalBytes, h.chunks, hbytes]

theorem truthful_empty (H : Hashing) (meetingId : MeetingId) (now : Timestamp) :
    Truthful H (emptyManifest meetingId now) :=
  ⟨⟨List.Pairwise.nil, fun _ h => absurd h List.not_mem_nil, rfl⟩, fun h => by
    rw [isSealed_none rfl] at h
    cases h⟩

theorem length_of_keys (h : keys chunks' = keys chunks) : chunks'.length = chunks.length := by
  have hlength := congrArg List.length h
  unfold keys at hlength
  rwa [List.length_map, List.length_map] at hlength

theorem sequences_of_keys (h : keys chunks' = keys chunks) : chunks'.map (·.sequence) = chunks.map (·.sequence) := by
  rw [← sequences_keys, h, sequences_keys]

theorem positive_of_keys (h : keys chunks' = keys chunks) (hpos : ∀ chunk ∈ chunks, 0 < chunk.sequence) :
    ∀ chunk ∈ chunks', 0 < chunk.sequence := by
  intro chunk hmem
  have hseq : chunk.sequence ∈ chunks.map (·.sequence) :=
    sequences_of_keys h ▸ List.mem_map_of_mem hmem
  obtain ⟨old, hold, heq⟩ := List.mem_map.mp hseq
  exact heq ▸ hpos old hold

theorem bytes_of_keys (h : keys chunks' = keys chunks) : chunkBytes chunks' = chunkBytes chunks := by
  rw [← bytes_keys, h, bytes_keys]

variable {input : AudioChunkInput}

section Writes

variable {H : Hashing} {o : MeetingObjects} {w : Writer}

variable {now : Timestamp} {o' : MeetingObjects}

theorem truthful_add (hm : Ordered m) (hpos : 0 < input.sequence) (hfind : findChunk m input.sequence = none) :
    Truthful H (normalizeManifest (addChunk H now input m)) := by
  obtain ⟨hchunks, htotal, hseal⟩ := addChunk_audio H now input m
  have hnormal : (normalizeManifest (addChunk H now input m)).audioSeal = none := by
    unfold normalizeManifest normalizeAudioSeal
    rw [hseal]
    rfl
  refine ⟨⟨?_, ?_, ?_⟩, fun hsealed => ?_⟩
  · change Increasing (addChunk H now input m).chunks
    rw [hchunks]
    exact increasing_pushChunk hm.increasing (findChunk_eq_none.mp hfind)
  · change ∀ chunk ∈ (addChunk H now input m).chunks, _
    rw [hchunks]
    intro chunk hmem
    rcases mem_pushChunk.mp hmem with hmem | rfl
    · exact hm.positive chunk hmem
    · exact hpos
  · change (addChunk H now input m).totalBytes = chunkBytes (addChunk H now input m).chunks
    rw [htotal, hchunks]
  · rw [isSealed_none hnormal] at hsealed
    cases hsealed

/-- A seal over all chunks, whose digests are set. -/
theorem truthful_sealed {audioSeal : Option AudioSeal} {last : ℕ} (hm : Ordered m)
    (hcomplete : completeSequence m.chunks last = true) (hback : backfillManifestChunkDigests H o m = .ok m') :
    Truthful H (normalizeManifest { m' with audioSeal := audioSeal, updatedAt := now }) := by
  have hkeys := keys_backfill hback
  have hbytes : m'.totalBytes = chunkBytes m'.chunks := by
    rw [(sameAudio_backfill hback).1, bytes_of_keys hkeys, hm.totalBytes]
  refine ⟨⟨hm.increasing.congr hkeys, positive_of_keys hkeys hm.positive, hbytes⟩, fun _ => ?_⟩
  have hsequences : m'.chunks.map (·.sequence) = List.range' 1 last := by
    rw [sequences_of_keys hkeys]
    exact completeSequence_iff.mp hcomplete
  have hlength : m'.chunks.length = last := by
    have hmap := congrArg List.length hsequences
    rwa [List.length_map, List.length_range'] at hmap
  change completeSequence m'.chunks m'.chunks.length = true
  rw [completeSequence_iff, hlength, hsequences]

theorem keys_publishChunks {prepared : PreparedCommit} {existing : AudioChunk} :
    keys (publishChunks H now prepared m.chunks (some existing)) = keys m.chunks := by
  unfold publishChunks
  dsimp only
  split_ifs
  · rfl
  · exact keys_setChunkDigest _ _ _

/-- A publication seals the chunk `1`; the seal counts where that is the only chunk. -/
theorem truthful_publish {input : UploadInput} {prepared : PreparedCommit} (hm : Ordered m) :
    Truthful H (normalizeManifest (publishManifest H now input prepared (findChunk m 1) m)) := by
  obtain ⟨hchunks, htotal, hseal⟩ := publishManifest_audio H now input prepared (findChunk m 1) m
  have haudio : Increasing (publishChunks H now prepared m.chunks (findChunk m 1)) ∧
      ∀ chunk ∈ publishChunks H now prepared m.chunks (findChunk m 1), 0 < chunk.sequence := by
    cases hfind : findChunk m 1 with
    | some existing =>
      exact ⟨hm.increasing.congr keys_publishChunks, positive_of_keys keys_publishChunks hm.positive⟩
    | none =>
      refine ⟨increasing_pushChunk hm.increasing (findChunk_eq_none.mp hfind), fun chunk hmem => ?_⟩
      rcases mem_pushChunk.mp hmem with hmem | rfl
      · exact hm.positive chunk hmem
      · exact Nat.one_pos
  rw [← hchunks] at haudio
  refine ⟨⟨haudio.1, haudio.2, ?_⟩, fun hsealed => ?_⟩
  · change (publishManifest H now input prepared (findChunk m 1) m).totalBytes = chunkBytes
      (publishManifest H now input prepared (findChunk m 1) m).chunks
    rw [htotal, hchunks]
  · obtain ⟨audioSeal, hnormal, hcounts⟩ := (Option.any_eq_true _ _).mp hsealed
    have hsome : (publishManifest H now input prepared (findChunk m 1) m).audioSeal = some audioSeal :=
      normalizeAudioSeal_some hnormal
    rw [hseal] at hsome
    cases hsome
    rw [Bool.and_eq_true, Bool.and_eq_true] at hcounts
    have hlast := (eq_of_beq hcounts.1.2).symm
    have hone := complete_of_last_one haudio.1 haudio.2 hlast
    have hlength := congrArg List.length (completeSequence_iff.mp hone)
    rw [List.length_map, List.length_range'] at hlength
    change completeSequence _ (List.length
      (publishManifest H now input prepared (findChunk m 1) m).chunks) = true
    rw [hlength]
    exact hone

/-- **Every write keeps a manifest truthful.** -/
theorem truthful_write (h : AudioWrite H o w o') (ho : Truthful H (listing o)) : Truthful H (listing o') := by
  have hordered : ∀ {m : AudioManifest}, SameAudio (listing o) m → Ordered m :=
    fun hm => ho.toOrdered.congr hm
  have hsame : ∀ {m : AudioManifest}, SameAudio (listing o) m → Truthful H (normalizeManifest m) := by
    intro m hm
    have hnormal := hm.trans (sameAudio_normalize m)
    refine ⟨hordered hnormal, fun hsealed => ?_⟩
    rw [isSealed_congr hnormal (normalizeAudioSeal_listing o) (normalizeAudioSeal_idem _)] at hsealed
    rw [hnormal.chunks]
    exact ho.complete hsealed
  cases h with
  | keep hm => exact hsame hm.toSameAudio
  | lease hm => exact hsame hm
  | rewrite | putNew => exact ho
  | add hpos hfind _ hm =>
    exact truthful_add (hordered hm.toSameAudio) hpos ((findChunk_congr hm.chunks _).trans hfind)
  | «sealed» _ hm hcomplete hback _ => exact truthful_sealed (hordered hm.toSameAudio) hcomplete hback
  | publish hm _ _ => exact truthful_publish (hordered hm.toSameAudio)

theorem truthful_written (h : Written H w o o') (ho : Truthful H (listing o)) : Truthful H (listing o') := by
  induction h with
  | refl => exact ho
  | tail _ hwrite ih => exact truthful_write hwrite ih

theorem putNew_unsealed : isSealed H (normalizeManifest (addChunk H now input m)) = false := by
  refine isSealed_none ?_
  unfold normalizeManifest normalizeAudioSeal
  rw [(addChunk_audio H now input m).2.2]
  rfl

/-- The calls that do not seal leave no seal, or the audio as it was. -/
theorem chunks_written (h : Written H w o o') (hw : ¬ w.Sealing) (hsealed : isSealed H (listing o') = true) :
    isSealed H (listing o) = true ∧ keys (listing o').chunks = keys (listing o).chunks := by
  induction h with
  | refl => exact ⟨hsealed, rfl⟩
  | @tail b c _ hwrite ih =>
    have hsame : ∀ {m : AudioManifest}, SameAudio (listing b) m →
        isSealed H (normalizeManifest m) = true →
        isSealed H (listing o) = true ∧ keys (normalizeManifest m).chunks = keys (listing o).chunks := by
      intro m hm hsealed
      have hnormal := hm.trans (sameAudio_normalize m)
      rw [isSealed_congr hnormal (normalizeAudioSeal_listing b) (normalizeAudioSeal_idem _)] at hsealed
      rw [hnormal.chunks]
      exact ih hsealed
    cases hwrite with
    | keep hm => exact hsame hm.toSameAudio hsealed
    | lease hm => exact hsame hm hsealed
    | rewrite | putNew => exact ih hsealed
    | @add now input m hpos hfind hput hm =>
      rw [listing_putManifest, putNew_unsealed] at hsealed
      cases hsealed
    | «sealed» | publish => exact absurd trivial hw

/-- The others add no chunk to a meeting that has a first one. -/
theorem seals_written (h : Written H w o o') (hw : w.Sealing) (hfirst : 1 ∈ (listing o).chunks.map (·.sequence)) :
    keys (listing o').chunks = keys (listing o).chunks := by
  induction h with
  | refl => rfl
  | @tail b c _ hwrite ih =>
    have hkeys : keys (listing c).chunks = keys (listing b).chunks := by
      cases hwrite with
      | keep hm | lease hm => exact congrArg keys hm.chunks
      | @«sealed» now last total m m' hlast hm hcomplete hback htotal =>
        change keys m'.chunks = _
        rw [keys_backfill hback, hm.chunks]
      | @publish now input prepared m hm howner hsha =>
        have hmem : 1 ∈ m.chunks.map (·.sequence) := by
          rw [hm.chunks, sequences_of_keys ih]
          exact hfirst
        obtain ⟨existing, hexisting⟩ := Option.ne_none_iff_exists'.mp
          fun hnone => findChunk_eq_none.mp hnone hmem
        change keys (publishManifest H now input prepared (findChunk m 1) m).chunks = _
        rw [(publishManifest_audio H now input prepared (findChunk m 1) m).1, hexisting,
          keys_publishChunks, hm.chunks]
      | rewrite | putNew | add => exact absurd hw id
    exact hkeys.trans ih

/-- The chunks of a sealed meeting are `1` to the last sequence of its seal. -/
theorem lastSequence_of_sealed (hm : Truthful H m) (hsealed : isSealed H m = true) :
    ∃ audioSeal, m.audioSeal = some audioSeal ∧
      completeSequence m.chunks audioSeal.lastSequence = true := by
  have hcomplete := completeSequence_iff.mp (hm.complete hsealed)
  obtain ⟨audioSeal, hseal, hcounts⟩ := (Option.any_eq_true _ _).mp hsealed
  rw [Bool.and_eq_true, Bool.and_eq_true] at hcounts
  have hlast := eq_of_beq hcounts.1.2
  rw [← List.getLast?_map, hcomplete, List.getLast?_range'] at hlast
  split_ifs at hlast
  have hlength : audioSeal.lastSequence = m.chunks.length := by
    have hsome := Option.some.inj hlast
    omega
  exact ⟨audioSeal, hseal, by rw [completeSequence_iff, hcomplete, hlength]⟩

/-- A sealed meeting has a first chunk. -/
theorem first_of_sealed (hm : Truthful H m) (hsealed : isSealed H m = true) : 1 ∈ m.chunks.map (·.sequence) := by
  obtain ⟨audioSeal, hseal, hcomplete⟩ := lastSequence_of_sealed hm hsealed
  obtain ⟨stored, hstored, hcounts⟩ := (Option.any_eq_true _ _).mp hsealed
  rw [Bool.and_eq_true, Bool.and_eq_true] at hcounts
  have hlast := eq_of_beq hcounts.1.2
  rw [hseal] at hstored
  cases hstored
  rw [← List.getLast?_map, completeSequence_iff.mp hcomplete] at hlast
  rw [completeSequence_iff.mp hcomplete, List.mem_range'_1]
  refine ⟨le_rfl, ?_⟩
  rw [List.getLast?_range'] at hlast
  split_ifs at hlast
  omega

/-- A call that saves a chunk of a new sequence leaves the meeting unsealed. -/
theorem unsealed_saveChunk (hfind : findChunk (listing o) input.sequence = none) :
    Wp (fun _ => True) (saveMeetingAudioChunkUnsafe H now input)
      (fun _ t => isSealed H (listing t) = false) o := by
  unfold saveMeetingAudioChunkUnsafe
  simp only [wp_bind, wp_readManifest, wp_require, wp_lift]
  refine ⟨trivial, trivial, fun howner => ⟨trivial, fun m hm => ?_⟩⟩
  have hkeeps : Keeps (listing o) m :=
    ((keeps_current input.meetingId now o).trans (keeps_owner howner _)).trans (keeps_consent hm).1
  refine (written_persistIf (H := H) (w := .chunks) hkeeps).mono (fun _ _ => trivial) fun _ t ht => ?_
  have hnone : findChunk m input.sequence = none := (findChunk_congr hkeeps.chunks _).trans hfind
  unfold storeAudioChunk
  rw [hnone]
  simp only [wp_bind, wp_persistChunk, wp_persistMeetingManifest, wp_pure]
  exact ⟨trivial, trivial, trivial, trivial, trivial, putNew_unsealed⟩

end Writes

/-! ### Runs -/

variable {H : Hashing} {policy : RecordingUploadResourcePolicy} {s t : AudioWorld}

/-- The stored manifest of a meeting. -/
def stored (s : AudioWorld) (meetingId : MeetingId) : AudioManifest := listing (s.meetings meetingId)

/-- Meetings without audio, or with that of a version before there were seals. -/
def Unsealed (s : AudioWorld) : Prop :=
  ∀ meetingId, Ordered (stored s meetingId) ∧ (stored s meetingId).audioSeal = none

/-- What a call does outside of the fence leaves the manifest as it is. -/
theorem change_listing {o : MeetingObjects} {e : AudioEvent} {meetingId : MeetingId}
    (h : ObjectsChange H e s meetingId o) :
    Written H (writerOf s e) (s.meetings meetingId) o ∨ listing o = stored s meetingId ∨
      listing o = emptyManifest "" 0 := by
  cases h with
  | written h => exact .inl h
  | part | partManifest | recording | receipt => exact .inr (.inl rfl)
  | unstaged => exact .inr (.inl (listing_of_manifest (removeStaged_manifest _ _ _)))
  | removed => exact .inr (.inr rfl)

theorem truthful_step {e : AudioEvent × Option Answer} (hstep : AudioStep H policy s e t)
    (hs : ∀ meetingId, Truthful H (stored s meetingId)) (meetingId : MeetingId) :
    Truthful H (stored t meetingId) := by
  rcases change_listing (step_meeting hstep meetingId) with h | h | h
  · exact truthful_written h (hs meetingId)
  · exact (congrArg (Truthful H) h).mpr (hs meetingId)
  · exact (congrArg (Truthful H) h).mpr (truthful_empty H _ _)

theorem Unsealed.truthful (hs : Unsealed s) (meetingId : MeetingId) :
    Truthful H (stored s meetingId) := by
  refine ⟨(hs meetingId).1, fun hsealed => ?_⟩
  rw [isSealed_none (hs meetingId).2] at hsealed
  cases hsealed

theorem truthful_run {es : List (AudioEvent × Option Answer)} (hrun : Run (AudioStep H policy) s es t)
    (hs : Unsealed s) (meetingId : MeetingId) : Truthful H (stored t meetingId) := by
  exact hrun.invariant (I := fun s => ∀ meetingId, Truthful H (stored s meetingId))
    (fun _ _ _ h hstep => truthful_step hstep h) hs.truthful meetingId

/-- A step leaves a meeting sealed only if it was so with the same chunks, or if the step sealed it. -/
theorem sealed_step {e : AudioEvent × Option Answer} {meetingId : MeetingId}
    (hstep : AudioStep H policy s e t) (hs : Truthful H (stored s meetingId))
    (hsealed : isSealed H (stored t meetingId) = true) :
    isSealed H (stored s meetingId) = true ∧
        keys (stored t meetingId).chunks = keys (stored s meetingId).chunks ∨
      isSealed H (stored s meetingId) = false ∧ (writerOf s e.1).Sealing := by
  rcases change_listing (step_meeting hstep meetingId) with h | h | h
  · by_cases hw : (writerOf s e.1).Sealing
    · cases hbefore : isSealed H (stored s meetingId) with
      | false => exact .inr ⟨rfl, hw⟩
      | true => exact .inl ⟨rfl, seals_written h hw (first_of_sealed hs hbefore)⟩
    · exact .inl (chunks_written h hw hsealed)
  · unfold stored at hsealed ⊢
    rw [h] at hsealed ⊢
    exact .inl ⟨hsealed, rfl⟩
  · unfold stored at hsealed
    rw [h, isSealed_none rfl] at hsealed
    cases hsealed

/-- A step after which the meeting is sealed, with the chunks it had before. -/
def KeepsSealed (H : Hashing) (policy : RecordingUploadResourcePolicy) (meetingId : MeetingId)
    (s : AudioWorld) (e : AudioEvent × Option Answer) (t : AudioWorld) : Prop :=
  AudioStep H policy s e t ∧ isSealed H (stored s meetingId) = true ∧
    isSealed H (stored t meetingId) = true ∧
    keys (stored t meetingId).chunks = keys (stored s meetingId).chunks

/-- What a run that ends with a sealed meeting did: it sealed the meeting, and added no chunk since. -/
theorem sealed_run {es : List (AudioEvent × Option Answer)} {meetingId : MeetingId}
    (hrun : Run (AudioStep H policy) s es t) (hs : ∀ meetingId, Truthful H (stored s meetingId))
    (hsealed : isSealed H (stored t meetingId) = true) :
    Run (KeepsSealed H policy meetingId) s es t ∨
      ∃ pre e post a b, es = pre ++ e :: post ∧ Run (AudioStep H policy) s pre a ∧
        AudioStep H policy a e b ∧ (writerOf a e.1).Sealing ∧
        isSealed H (stored a meetingId) = false ∧ isSealed H (stored b meetingId) = true ∧ Run (KeepsSealed H policy meetingId) b post t := by
  induction hrun with
  | nil => exact .inl (Run.nil _)
  | @cons s u t e es hstep hrest ih =>
    have hu := truthful_step hstep hs
    rcases ih hu hsealed with hkept | ⟨pre, e', post, a, b, rfl, hpre, hrun⟩
    · have husealed : isSealed H (stored u meetingId) = true := by
        cases hkept with
        | nil => exact hsealed
        | cons hstep _ => exact hstep.2.1
      rcases sealed_step hstep (hs meetingId) husealed with ⟨hssealed, hkeys⟩ | ⟨hunsealed, hwriter⟩
      · exact .inl (Run.cons ⟨hstep, hssealed, husealed, hkeys⟩ hkept)
      · exact .inr ⟨[], e, es, s, u, rfl, Run.nil s, hstep, hwriter, hunsealed, husealed, hkept⟩
    · exact .inr ⟨e :: pre, e', post, a, b, rfl, Run.cons hstep hpre, hrun⟩

theorem saveChunk_unsealed {stop : Option ℕ} {saved : SavedChunk}
    (hstep : AudioStep H policy s (.saveChunk input stop, some (.saved saved)) t)
    (hfind : findChunk (stored s input.meetingId) input.sequence = none) :
    isSealed H (stored t input.meetingId) = false := by
  have hstep := hstep.2
  simp only [step] at hstep
  split_ifs at hstep
  have heq := Option.some.inj hstep
  unfold stepSaveChunk continueWith at heq
  split at heq
  · cases heq
  · cases heq
  · rename_i a ha
    obtain ⟨-, o, hreturns, ho⟩ := userSection_ok ha
    rw [ho] at heq
    cases heq
    unfold stored
    rw [AudioWorld.setObjects_meetings, Function.update_self]
    exact (unsealed_saveChunk hfind).post hreturns

/-- **The seal is truthful**: over any run of the audio calls, the chunks of a meeting are in order and
sum up to its size; where its metadata say that it is sealed they are `1` to the last sequence of the seal,
some step sealed it, and since then every step kept it sealed with these chunks. A chunk of a new sequence
that is saved later leaves it unsealed. -/
theorem seal_truthful {es : List (AudioEvent × Option Answer)} (hs : Unsealed s)
    (hrun : Run (AudioStep H policy) s es t) (meetingId : MeetingId) :
    Ordered (stored t meetingId) ∧
      (∀ audio, meetingAudioMetadataFromManifest H (stored t meetingId) = some audio →
        audio.isSealed = true →
        (∃ audioSeal, (stored t meetingId).audioSeal = some audioSeal ∧
          completeSequence (stored t meetingId).chunks audioSeal.lastSequence = true) ∧
        ∃ pre e post a b, es = pre ++ e :: post ∧ Run (AudioStep H policy) s pre a ∧
          AudioStep H policy a e b ∧ (writerOf a e.1).Sealing ∧
          isSealed H (stored a meetingId) = false ∧ isSealed H (stored b meetingId) = true ∧
          Run (KeepsSealed H policy meetingId) b post t) ∧
      ∀ input stop saved u, input.meetingId = meetingId →
        findChunk (stored t meetingId) input.sequence = none →
        AudioStep H policy t (.saveChunk input stop, some (.saved saved)) u →
        isSealed H (stored u meetingId) = false := by
  have htruthful := truthful_run hrun hs meetingId
  refine ⟨htruthful.toOrdered, fun audio haudio hsealed => ?_, ?_⟩
  · have hcounts : isSealed H (stored t meetingId) = true := by
      unfold meetingAudioMetadataFromManifest at haudio
      split_ifs at haudio
      cases haudio
      exact hsealed
    constructor
    · exact lastSequence_of_sealed htruthful hcounts
    · rcases sealed_run hrun hs.truthful hcounts with hkept | hsplit
      · have hunsealed := isSealed_none (H := H) (hs meetingId).2
        cases hkept with
        | nil =>
          rw [hunsealed] at hcounts
          cases hcounts
        | cons hstep _ =>
          have hbefore := hstep.2.1
          rw [hunsealed] at hbefore
          cases hbefore
      · exact hsplit
  · rintro input stop saved u rfl hfind hstep
    exact saveChunk_unsealed hstep hfind

/-- A meeting of one chunk that is sealed. -/
def sealedRecording : List AudioEvent :=
  [.saveChunk
    { meetingId := "meeting", ownerUserId := "user", sequence := 1, buffer := [82, 73],
      mimeType := "audio/webm", recordedAt := 0, durationMs := 1000 } none,
   .sealAudio { meetingId := "meeting", ownerUserId := "user", expectedLastSequence := 1, totalBytes := 2 }
    none]

theorem seal_truthful_recording : ∃ es t, es.map Prod.fst = sealedRecording ∧
    Run (AudioStep textHashing {}) {} es t ∧ Ordered (stored t "meeting") ∧
    isSealed textHashing (stored t "meeting") = true ∧
    ∃ audioSeal, (stored t "meeting").audioSeal = some audioSeal ∧
      completeSequence (stored t "meeting").chunks audioSeal.lastSequence = true := by
  obtain ⟨es, t, hes, hrun, hsealed⟩ :=
    exists_run textHashing {} (fun _ _ _ => True) ["meeting"] 0 {} sealedRecording
      (fun _ t => (meetingAudioMetadataFromManifest textHashing (stored t "meeting")).any (·.isSealed))
      (within_empty _ _) (by decide)
  have hrun : Run (AudioStep textHashing {}) {} es t := hrun.mono fun _ _ _ h => h.1
  obtain ⟨audio, haudio, hcounts⟩ := (Option.any_eq_true _ _).mp hsealed
  have hstart : Unsealed {} := fun _ => ⟨(truthful_empty textHashing "" 0).toOrdered, rfl⟩
  have htruthful := seal_truthful hstart hrun "meeting"
  refine ⟨es, t, hes, hrun, htruthful.1, ?_, (htruthful.2.1 audio haudio hcounts).1⟩
  unfold meetingAudioMetadataFromManifest at haudio
  split_ifs at haudio
  cases haudio
  exact hcounts

end OwnMinutes.Audio.Seals
