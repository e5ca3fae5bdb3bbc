import OwnMinutes.AuditLog.Segments

/-! # What the parts of a sweep do

From a sound log no part of a sweep fails but the recovery of orphan sidecars, and that only at an orphan that
it does not take. -/

namespace OwnMinutes.AuditLog.RotationSteps

open OwnMinutes.AuditLog.LogFiles OwnMinutes.AuditLog.Rotation OwnMinutes.AuditLog.Segments
open OwnMinutes.Lib.Crash OwnMinutes.Lib.Crash.Durable

variable {β δ : Type} {sha256 : List β → δ} {input : Config} {appended : List β} {w origin : World β δ}
  {name : RotationName} {file : File (List β)} {s : Slot β δ}

/-- The start of a file has the digest of the file only if it is all of it. -/
def PrefixFree (sha256 : List β → δ) : Prop :=
  ∀ contents length, sha256 (contents.take length) = sha256 contents → contents.take length = contents

theorem ends_dateNow (h : Sound sha256 input appended w) :
    Ends (Sound sha256 input appended) (dateNow : Sweep β δ ℕ) (fun now t => t = w.tick ∧ now = t.clock) Never w := by
  unfold dateNow
  rw [ends_bind, ends_write]
  refine ⟨h, h.tick, ?_⟩
  rw [ends_bind, ends_read, ends_pure]
  exact ⟨h.tick, h.tick, rfl, rfl⟩

theorem ends_assertSafeRegularFile {γ : Type} {directory : World β δ → Directory γ} {found : File γ}
    (h : Sound sha256 input appended w) (hfile : Directory.file (directory w) name = some found) :
    Ends (Sound sha256 input appended) (assertSafeRegularFile directory name)
      (fun stats t => t = w ∧ stats = found) Never w := by
  unfold assertSafeRegularFile
  rw [ends_bind, ends_read, ends_lift, hfile]
  refine ⟨h, h, fun stats hstats => ?_, fun e he => ?_⟩
  · cases hstats
    exact ⟨rfl, rfl⟩
  · cases he

/-! ### Archiving a rotating file -/

/-- After this the copy is all of the file, if there is one. -/
theorem ends_dropDamagedPending [DecidableEq δ] (hsha : PrefixFree sha256) {pending : Option (File (List β))}
    (h : At sha256 input appended origin name file ⟨some file, none, pending, none⟩ w)
    (hpending : ∀ copy, pending = some copy → ∃ length, copy.contents = file.contents.take length) :
    Ends (Sound sha256 input appended) (dropDamagedPending sha256 name (sha256 file.contents))
      (fun _ t => ∃ pending, At sha256 input appended origin name file ⟨some file, none, pending, none⟩ t ∧
        ∀ copy, pending = some copy → copy.contents = file.contents) Never w := by
  unfold dropDamagedPending
  rw [ends_bind, ends_read]
  refine ⟨h.sound, ?_⟩
  have hslot : Directory.file w.pending name = pending := congrArg Slot.pending h.slot_eq
  rw [hslot]
  rcases pending with _ | copy
  · exact ends_pure.mpr ⟨h.sound, none, h, fun copy hcopy => by cases hcopy⟩
  · obtain ⟨length, hlength⟩ := hpending copy rfl
    dsimp only
    split_ifs with hdigest
    · refine ends_pure.mpr ⟨h.sound, some copy, h, fun other hother => ?_⟩
      cases hother
      rw [hlength] at hdigest ⊢
      exact hsha file.contents length hdigest
    · have hremoved : At sha256 input appended origin name file ⟨some file, none, none, none⟩
          (w.removePending name) := by
        refine h.touch touches_removePending ?_ (Stage.rotated rfl fun copy hcopy => by cases hcopy)
        rw [slot_removePending, if_pos rfl, h.slot_eq]
      exact ends_write.mpr ⟨h.sound, hremoved.sound, none, hremoved, fun copy hcopy => by cases hcopy⟩

/-- Every part of a copy is a start of the file. -/
theorem at_copyPart {pending : Option (File (List β))} (length : ℕ)
    (h : At sha256 input appended origin name file ⟨some file, none, pending, none⟩ w) :
    At sha256 input appended origin name file
      ⟨some file, none, some ⟨file.contents.take length, w.clock, file.mode⟩, none⟩ (w.copyPart name file length) := by
  refine h.touch touches_copyPart ?_ (Stage.rotated rfl fun copy hcopy => ?_)
  · rw [slot_copyPart, if_pos rfl, h.slot_eq]
  · cases hcopy
    exact ⟨length, rfl⟩

theorem after_copyParts (w : World β δ) (name : RotationName) (file : File (List β)) :
    after w (w.copyParts name file) = w.copyPart name file file.contents.length := by
  unfold World.copyParts after
  rw [List.range_succ, List.map_append, List.map_singleton, List.getLastD_concat]

theorem ends_copyPending {pending : Option (File (List β))}
    (h : At sha256 input appended origin name file ⟨some file, none, pending, none⟩ w)
    (hpending : ∀ copy, pending = some copy → copy.contents = file.contents) :
    Ends (Sound sha256 input appended) (copyPending name file)
      (fun _ t => ∃ copy, At sha256 input appended origin name file ⟨some file, none, some copy, none⟩ t ∧
        copy.contents = file.contents) Never w := by
  unfold copyPending
  rw [ends_bind, ends_read]
  refine ⟨h.sound, ?_⟩
  have hslot : Directory.file w.pending name = pending := congrArg Slot.pending h.slot_eq
  rw [hslot]
  rcases pending with _ | copy
  · rw [if_neg (by simp), ends_bind, ends_write]
    refine ⟨h.sound, h.tick.sound, ?_⟩
    rw [ends_bind, ends_through, after_copyParts]
    have hcopied := at_copyPart file.contents.length h.tick
    refine ⟨h.tick.sound, fun t ht => ?_, ?_⟩
    · obtain ⟨length, -, rfl⟩ := List.mem_map.mp ht
      exact (at_copyPart length h.tick).sound
    · rw [List.take_length] at hcopied
      have hcopy : Directory.file (w.tick.copyPart name file file.contents.length).pending name =
          some ⟨file.contents, w.tick.clock, file.mode⟩ := congrArg Slot.pending hcopied.slot_eq
      have hchanged : At sha256 input appended origin name file
          ⟨some file, none, some ⟨file.contents, w.tick.clock, 0o600⟩, none⟩
          ((w.tick.copyPart name file file.contents.length).chmodPending name) := by
        refine hcopied.touch (touches_chmodPending hcopy) ?_ (Stage.rotated rfl fun copy hcopy => ?_)
        · rw [slot_chmodPending hcopy, if_pos rfl, hcopied.slot_eq]
        · cases hcopy
          exact ⟨file.contents.length, List.take_length.symm⟩
      exact ends_write.mpr ⟨hcopied.sound, hchanged.sound, _, hchanged, rfl⟩
  · rw [Option.isSome_some, if_pos rfl]
    exact ends_pure.mpr ⟨h.sound, copy, h, hpending copy rfl⟩

/-- The archive holds the segment after this, whatever earlier sweeps left. -/
theorem ends_installArchive [DecidableEq δ] (hsha : PrefixFree sha256) (h : Sound sha256 input appended w)
    (hfile : Directory.file w.rotating name = some file) :
    Ends (Sound sha256 input appended) (installArchive sha256 name file (sha256 file.contents))
      (fun _ t => ∃ archive digest,
        At sha256 input appended w name file ⟨some file, some archive, none, digest⟩ t ∧
          archive.contents = file.contents ∧ Describes sha256 name file.contents digest) Never w := by
  unfold installArchive
  rw [ends_bind, ends_read]
  refine ⟨h, ?_⟩
  obtain ⟨s, hat, ⟨pending, rfl, hpending⟩ | ⟨archive, digest, rfl, harchive, hdigest⟩⟩ := h.at_rotating hfile
  · have hnone : Directory.file w.archive name = none := congrArg Slot.archive hat.slot_eq
    rw [hnone, if_neg (by simp)]
    refine (ends_dropDamagedPending hsha hat hpending).bind ?_
    rintro - t ⟨pending, ht, hpending⟩
    refine (ends_copyPending ht hpending).bind ?_
    rintro - u ⟨copy, hu, hcopy⟩
    have hslot : Directory.file u.pending name = some copy := congrArg Slot.pending hu.slot_eq
    refine (ends_assertSafeRegularFile hu.sound hslot).bind ?_
    rintro copy u ⟨rfl, rfl⟩
    rw [ends_bind, ends_require]
    refine ⟨hu.sound, fun _ => ?_, fun hbad => absurd (congrArg sha256 hcopy) hbad⟩
    have hpromoted := hu.touch (touches_promote hslot) (r := ⟨some file, some copy, none, none⟩) (by
      rw [slot_promote hslot, if_pos rfl, hu.slot_eq]) (Stage.archived rfl hcopy fun d hd => by cases hd)
    exact ends_write.mpr ⟨hu.sound, hpromoted.sound, copy, none, hpromoted, hcopy, fun d hd => by cases hd⟩
  · have hsome : Directory.file w.archive name = some archive := congrArg Slot.archive hat.slot_eq
    rw [hsome, Option.isSome_some, if_pos rfl]
    have hremoved := hat.touch touches_removePending (r := ⟨some file, some archive, none, digest⟩) (by
      rw [slot_removePending, if_pos rfl, hat.slot_eq]) (Stage.archived rfl harchive hdigest)
    exact ends_write.mpr ⟨h, hremoved.sound, archive, digest, hremoved, harchive, hdigest⟩

/-- The store in which a temporary file takes its place. -/
def written (w : World β δ) (text : ℕ → Temporary δ) : World β δ :=
  { w.tick with temporary := text w.tick.clock :: w.tick.temporary }

theorem ends_atomicWrite {text : ℕ → Temporary δ} (h : Sound sha256 input appended w)
    (hplaced : Sound sha256 input appended (written w text).placeTemporary) :
    Ends (Sound sha256 input appended) (atomicWrite text : Sweep β δ Unit)
      (fun _ t => t = (written w text).placeTemporary) Never w := by
  unfold atomicWrite
  refine (ends_dateNow h).bind ?_
  rintro now t ⟨rfl, rfl⟩
  have hparts : ∀ t ∈ w.tick.temporaryParts (text w.tick.clock), Sound sha256 input appended t := by
    intro t ht
    rcases List.mem_pair.mp ht with rfl | rfl
    · exact h.tick.withTemporary _
    · exact h.tick.withTemporary _
  rw [ends_bind, ends_through]
  refine ⟨h.tick, hparts, ?_⟩
  exact ends_write.mpr ⟨h.tick.withTemporary _, hplaced, rfl⟩

theorem ends_recordDigest [DecidableEq δ] {archive : File (List β)} {digest : Option (File (DigestText δ))}
    (h : At sha256 input appended origin name file ⟨some file, some archive, none, digest⟩ w)
    (harchive : archive.contents = file.contents) (hdigest : Describes sha256 name file.contents digest) :
    Ends (Sound sha256 input appended) (recordDigest name (sha256 archive.contents))
      (fun _ t => ∃ sidecar, At sha256 input appended origin name file ⟨some file, some archive, none, some sidecar⟩ t ∧
        Describes sha256 name file.contents (some sidecar)) Never w := by
  unfold recordDigest
  rw [ends_bind, ends_read]
  refine ⟨h.sound, ?_⟩
  have hslot : Directory.file w.digest name = digest := congrArg Slot.digest h.slot_eq
  rw [hslot, harchive]
  rcases digest with _ | sidecar
  · have hwritten : At sha256 input appended origin name file ⟨some file, some archive, none, none⟩
        (written w fun now => .digest name ⟨⟨sha256 file.contents, name⟩, now, 0o600⟩) := h.tick.withTemporary _
    have hdescribes : Describes sha256 name file.contents
        (some ⟨⟨sha256 file.contents, name⟩, w.tick.clock, 0o600⟩) := by
      intro d hd
      cases hd
      exact ⟨rfl, rfl⟩
    have hplaced := hwritten.touch (touches_placeTemporary rfl)
      (r := ⟨some file, some archive, none, some ⟨⟨sha256 file.contents, name⟩, w.tick.clock, 0o600⟩⟩) (by
        rw [slot_placeTemporary rfl, if_pos rfl, hwritten.slot_eq]) (Stage.archived rfl harchive hdescribes)
    refine (ends_atomicWrite h.sound hplaced.sound).post_mono ?_
    rintro - t rfl
    exact ⟨_, hplaced, hdescribes⟩
  · obtain ⟨-, hcontents⟩ := hdigest sidecar rfl
    exact ends_require.mpr ⟨h.sound, fun _ => ⟨sidecar, h, hdigest⟩, fun hbad => absurd hcontents hbad⟩

/-- **A rotating file is archived**, whatever earlier sweeps left of its archive. -/
theorem ends_archiveRotatedFile [DecidableEq δ] (hsha : PrefixFree sha256) (h : Sound sha256 input appended w)
    (hfile : Directory.file w.rotating name = some file) :
    Ends (Sound sha256 input appended) (archiveRotatedFile sha256 name)
      (fun _ t => Sound sha256 input appended t ∧ t.rotating = Directory.remove w.rotating name ∧
        t.rotated = w.rotated ∧ w.clock ≤ t.clock) Never w := by
  unfold archiveRotatedFile
  obtain ⟨s, hat, -⟩ := h.at_rotating hfile
  have hfilled : file.contents.length ≠ 0 := by
    intro hlength
    exact h.filled name _ hat.segment (List.length_eq_zero_iff.mp hlength)
  refine (ends_assertSafeRegularFile h hfile).bind ?_
  rintro file t ⟨rfl, rfl⟩
  rw [if_neg hfilled]
  refine (ends_installArchive hsha h hfile).bind ?_
  rintro - u ⟨archive, digest, hu, harchive, hdigest⟩
  have hslot : Directory.file u.archive name = some archive := congrArg Slot.archive hu.slot_eq
  refine (ends_assertSafeRegularFile hu.sound hslot).bind ?_
  rintro archive u ⟨rfl, rfl⟩
  rw [ends_bind, ends_require]
  refine ⟨hu.sound, fun _ => ?_, fun hbad => absurd (congrArg sha256 harchive.symm) hbad⟩
  refine (ends_recordDigest hu harchive hdigest).bind ?_
  rintro - v ⟨sidecar, hv, hsidecar⟩
  have hremoved : Sound sha256 input appended (v.removeRotating name) := by
    refine hv.sound.move hv.segment rfl rfl rfl rfl (fun n hn => ?_) ?_
    · rw [slot_removeRotating, if_neg hn]
    · rw [slot_removeRotating, if_pos rfl, hv.slot_eq]
      exact Stage.kept harchive hsidecar
  refine ends_write.mpr ⟨hv.sound, hremoved, hremoved, ?_, hv.quiet.rotated, hv.quiet.clock⟩
  exact congrArg (fun directory => Directory.remove directory name) hv.quiet.rotating

end OwnMinutes.AuditLog.RotationSteps
