import OwnMinutes.AuditLog.RotationSteps

/-! # What a sweep does

The loops over the rotating files, the archives and the sidecars, and the whole sweep: it is found in sound
logs only, and it fails exactly where an orphan sidecar is not yet older than the retention time. -/

namespace OwnMinutes.AuditLog.SweepSteps

open OwnMinutes.AuditLog.LogFiles OwnMinutes.AuditLog.Rotation OwnMinutes.AuditLog.Segments
open OwnMinutes.AuditLog.RotationSteps OwnMinutes.Lib.Crash OwnMinutes.Lib.Crash.Durable

variable {β δ : Type} {sha256 : List β → δ} {input : Config} {appended : List β} {w t origin : World β δ}
  {name : RotationName}

/-- All stamps so far are earlier than now, so that a new one is new. -/
def Early (w : World β δ) : Prop := ∀ n c, (n, c) ∈ w.rotated → n.stamp < w.clock

theorem Early.later (h : Early w) (hrotated : t.rotated = w.rotated) (hclock : w.clock ≤ t.clock) : Early t := by
  intro n c hmem
  rw [hrotated] at hmem
  have := h n c hmem
  omega

/-! ### The rotating files -/

section Pending

variable [DecidableEq δ]

/-- Before a round: the rotating files are those that are left to archive. -/
structure Archiving (sha256 : List β → δ) (input : Config) (appended : List β) (origin : World β δ)
    (rest : List RotationName) (w : World β δ) : Prop where
  sound : Sound sha256 input appended w
  rotated : w.rotated = origin.rotated
  clock : origin.clock ≤ w.clock
  left : ∀ n, n ∈ rest ↔ ∃ file, Directory.file w.rotating n = some file
  nodup : rest.Nodup

omit [DecidableEq δ] in
theorem Archiving.archived (h : Archiving sha256 input appended origin [] w) : Archived w := by
  intro n
  by_contra hsome
  obtain ⟨file, hfile⟩ := Option.ne_none_iff_exists'.mp hsome
  have := (h.left n).mpr ⟨file, hfile⟩
  cases this

theorem ends_archivePending (hsha : PrefixFree sha256) {rest : List RotationName} (progress : ℕ × Option ℕ)
    (h : Archiving sha256 input appended origin (name :: rest) w) :
    Ends (Sound sha256 input appended) (archivePending sha256 progress name)
      (fun _ t => Archiving sha256 input appended origin rest t) Never w := by
  unfold archivePending
  obtain ⟨file, hfile⟩ := (h.left name).mp List.mem_cons_self
  obtain ⟨hnot, hnodup⟩ := List.nodup_cons.mp h.nodup
  refine (ends_archiveRotatedFile hsha h.sound hfile).bind ?_
  rintro - t ⟨ht, hrotating, hrotated, hclock⟩
  refine (ends_dateNow ht).bind ?_
  rintro now u ⟨rfl, -⟩
  have hlater : origin.clock ≤ t.tick.clock := h.clock.trans (hclock.trans (Nat.le_add_right _ _))
  refine ends_pure.mpr ⟨ht.tick, ht.tick, hrotated.trans h.rotated, hlater, fun n => ?_, hnodup⟩
  · change n ∈ rest ↔ ∃ file, Directory.file t.rotating n = some file
    rw [hrotating, Directory.file_remove]
    by_cases hn : n = name
    · subst hn
      simp [hnot]
    · rw [if_neg hn, ← h.left n]
      simp [hn]

theorem ends_archiveAll (hsha : PrefixFree sha256) (progress : ℕ × Option ℕ) (h : Sound sha256 input appended w) :
    Ends (Sound sha256 input appended) (fold (archivePending sha256) progress (Directory.names w.rotating))
      (fun _ t => Archiving sha256 input appended w [] t) Never w := by
  refine ends_fold (fun _ rest t => Archiving sha256 input appended w rest t) (fun _ t ht => ht.sound)
    (fun progress n rest t ht => ends_archivePending hsha progress ht) (fun _ _ ht => ht) ?_
  exact ⟨h, rfl, le_rfl, fun n => Directory.mem_names, Directory.nodup_names⟩

theorem ends_rotateActive (hsha : PrefixFree sha256) (random : ℕ) (progress : ℕ × Option ℕ)
    (h : Sound sha256 input appended w) (hearly : Early w) (harchived : Archived w) :
    Ends (Sound sha256 input appended) (rotateActive sha256 input random progress)
      (fun _ t => Sound sha256 input appended t ∧ Archived t) Never w := by
  unfold rotateActive
  rw [ends_bind, ends_read]
  refine ⟨h, ?_⟩
  cases hactive : w.active with
  | none => exact ends_pure.mpr ⟨h, h, harchived⟩
  | some active =>
    dsimp only
    split_ifs with hsize
    · exact ends_pure.mpr ⟨h, h, harchived⟩
    · refine (ends_dateNow h).bind ?_
      rintro stamp t ⟨rfl, rfl⟩
      have hfilled : active.contents ≠ [] := by
        intro hnil
        have := input.rotateBytes_range.1
        rw [hnil, List.length_nil] at hsize
        omega
      have hsound : Sound sha256 input appended (w.tick.rotate ⟨w.tick.clock, random⟩) :=
        h.tick.rotate (hearly.later (t := w.tick) rfl (Nat.le_add_right _ _)) le_rfl hactive hfilled
      have hleft : ∀ n, n ∈ [(⟨w.tick.clock, random⟩ : RotationName)] ↔
          ∃ file, Directory.file (w.tick.rotate ⟨w.tick.clock, random⟩).rotating n = some file := by
        intro n
        have hslot : slot (w.tick.rotate ⟨w.tick.clock, random⟩) n =
            if n = ⟨w.tick.clock, random⟩ then { slot w.tick n with rotating := some active } else slot w.tick n :=
          slot_rotate hactive
        have hfile : Directory.file (w.tick.rotate ⟨w.tick.clock, random⟩).rotating n = _ :=
          congrArg Slot.rotating hslot
        rw [hfile, List.mem_singleton]
        split_ifs with hn
        · simp [hn]
        · have hnone : (slot w.tick n).rotating = none := harchived n
          simp [hn, hnone]
      rw [ends_bind, ends_write]
      refine ⟨h.tick, hsound, ?_⟩
      have hone : Archiving sha256 input appended (w.tick.rotate ⟨w.tick.clock, random⟩)
          [⟨w.tick.clock, random⟩] (w.tick.rotate ⟨w.tick.clock, random⟩) :=
        ⟨hsound, rfl, le_rfl, hleft, List.nodup_singleton _⟩
      exact (ends_archivePending hsha progress hone).post_mono fun _ t ht => ⟨ht.sound, ht.archived⟩

end Pending

/-! ### The archives -/

section Pruning

/-- Before a round: the archives that are left to look at are there. -/
structure Pruning (sha256 : List β → δ) (input : Config) (appended : List β) (rest : List RotationName)
    (w : World β δ) : Prop where
  sound : Sound sha256 input appended w
  archived : Archived w
  left : ∀ n ∈ rest, ∃ archive, Directory.file w.archive n = some archive
  nodup : rest.Nodup

variable [DecidableEq δ]

theorem ends_pruneArchive {rest : List RotationName} {now : ℕ} (hnow : now ≤ w.clock) (deleted : ℕ)
    (h : Pruning sha256 input appended (name :: rest) w) :
    Ends (Sound sha256 input appended) (pruneArchive sha256 input now deleted name)
      (fun _ t => Pruning sha256 input appended rest t ∧ w.clock ≤ t.clock) Never w := by
  unfold pruneArchive
  obtain ⟨archive, hfile⟩ := h.left name List.mem_cons_self
  obtain ⟨hnot, hnodup⟩ := List.nodup_cons.mp h.nodup
  have hrest : ∀ n ∈ rest, ∃ archive, Directory.file w.archive n = some archive :=
    fun n hn => h.left n (List.mem_cons_of_mem _ hn)
  refine (ends_assertSafeRegularFile h.sound hfile).bind ?_
  rintro archive t ⟨rfl, rfl⟩
  split_ifs with hfresh
  · exact ends_pure.mpr ⟨h.sound, ⟨h.sound, h.archived, hrest, hnodup⟩, le_rfl⟩
  have hsome : slot t name ≠ ⟨none, none, none, none⟩ := by
    intro hnone
    have := (congrArg Slot.archive hnone).symm.trans hfile
    cases this
  obtain ⟨c, hmem⟩ := h.sound.segment hsome
  rcases h.sound.settled h.archived hmem with ⟨found, digest, hslot, rfl, hdigest⟩ | ⟨digest, hslot, -⟩
  · have hfound : found = archive := Option.some.inj ((congrArg Slot.archive hslot).symm.trans hfile)
    subst hfound
    obtain ⟨hmode, hcontents⟩ := hdigest digest rfl
    have hsidecar : Directory.file t.digest name = some digest := congrArg Slot.digest hslot
    have hvalid : Ends (Sound sha256 input appended) (validateArchiveDigestPair sha256 name found)
        (fun _ u => u = t) Never t := by
      unfold validateArchiveDigestPair
      refine (ends_assertSafeRegularFile h.sound hsidecar).bind ?_
      rintro stats u ⟨rfl, rfl⟩
      rw [ends_bind, ends_require]
      refine ⟨h.sound, fun _ => ?_, fun hbad => hbad (by rw [hmode]; decide)⟩
      exact ends_require.mpr ⟨h.sound, fun _ => rfl, fun hbad => hbad hcontents⟩
    refine hvalid.bind ?_
    rintro - u rfl
    have hclock : u.clock ≤ u.tick.clock := Nat.le_add_right _ _
    obtain ⟨hremoved, hgone⟩ := h.sound.tick.removeArchive hmem hslot hdigest (by omega)
    have hcleared : Sound sha256 input appended ((u.tick.removeArchive name).removeDigest name) := by
      refine hremoved.move hmem rfl rfl rfl rfl (fun n hn => by rw [slot_removeDigest, if_neg hn]) ?_
      have hempty : slot ((u.tick.removeArchive name).removeDigest name) name = ⟨none, none, none, none⟩ := by
        have hticked : slot u.tick name = ⟨none, some found, none, some digest⟩ := hslot
        rw [slot_removeDigest, if_pos rfl, slot_removeArchive, if_pos rfl, hticked]
      rw [hempty]
      exact Stage.pruned hgone fun d hd => by cases hd
    rw [ends_bind, ends_write]
    refine ⟨h.sound, h.sound.tick, ?_⟩
    rw [ends_bind, ends_write]
    refine ⟨h.sound.tick, hremoved, ?_⟩
    rw [ends_bind, ends_write]
    refine ⟨hremoved, hcleared, ends_pure.mpr ⟨hcleared, ⟨hcleared, h.archived, fun n hn => ?_, hnodup⟩, hclock⟩⟩
    obtain ⟨other, hother⟩ := hrest n hn
    have hne : n ≠ name := by
      rintro rfl
      exact hnot hn
    refine ⟨other, ?_⟩
    change Directory.file (Directory.remove u.archive name) n = some other
    rw [Directory.file_remove, if_neg hne]
    exact hother
  · have := (congrArg Slot.archive hslot).symm.trans hfile
    cases this

theorem ends_pruneArchives (h : Sound sha256 input appended w) (harchived : Archived w) :
    Ends (Sound sha256 input appended) (pruneArchives sha256 input)
      (fun _ t => Sound sha256 input appended t ∧ Archived t) Never w := by
  unfold pruneArchives
  refine (ends_dateNow h).bind ?_
  rintro now t ⟨rfl, rfl⟩
  rw [ends_bind, ends_read]
  refine ⟨h.tick, ?_⟩
  refine ends_fold (fun _ rest t => Pruning sha256 input appended rest t ∧ w.tick.clock ≤ t.clock)
    (fun _ t ht => ht.1.sound) (fun deleted n rest t ht => ?_) (fun _ t ht => ⟨ht.1.sound, ht.1.archived⟩) ?_
  · refine (ends_pruneArchive ht.2 deleted ht.1).post_mono ?_
    rintro - u ⟨hu, hclock⟩
    exact ⟨hu, ht.2.trans hclock⟩
  · exact ⟨⟨h.tick, harchived, fun n hn => Directory.mem_names.mp hn, Directory.nodup_names⟩, le_rfl⟩

end Pruning

/-! ### The orphan sidecars -/

section Orphans

/-- Every sidecar without its archive is itself older than the retention time at `now`, and then the name of
the log has no line break. -/
def Recoverable (input : Config) (now : ℕ) (w : World β δ) : Prop :=
  ∀ n digest, Directory.file w.digest n = some digest → Directory.file w.archive n = none →
    input.PlainName ∧ digest.mtimeMs + input.retentionMs < now

/-- Before a round: the sidecars that are left to look at are as they were, and the orphans among the others
were old enough. -/
structure Recovering (sha256 : List β → δ) (input : Config) (appended : List β) (now : ℕ) (origin : World β δ)
    (rest : List RotationName) (w : World β δ) : Prop where
  sound : Sound sha256 input appended w
  rotated : w.rotated = origin.rotated
  clock : w.clock = origin.clock
  archive : w.archive = origin.archive
  left : ∀ n ∈ rest, (∃ digest, Directory.file w.digest n = some digest) ∧
    Directory.file w.digest n = Directory.file origin.digest n
  seen : ∀ n digest, Directory.file origin.digest n = some digest → n ∉ rest →
    Directory.file origin.archive n = none → input.PlainName ∧ digest.mtimeMs + input.retentionMs < now
  nodup : rest.Nodup

/-- An orphan is that of a pruned archive. -/
theorem orphan_pruned (h : Sound sha256 input appended w) {digest : File (DigestText δ)}
    (hdigest : Directory.file w.digest name = some digest) (harchive : Directory.file w.archive name = none) :
    ∃ c, (name, c) ∈ w.rotated ∧ slot w name = ⟨none, none, none, some digest⟩ ∧ Gone w name c ∧
      Describes sha256 name c (some digest) := by
  have hslot : (slot w name).digest = some digest := hdigest
  have harchive' : (slot w name).archive = none := harchive
  have hsome : slot w name ≠ ⟨none, none, none, none⟩ := by
    intro hnone
    rw [hnone] at hslot
    cases hslot
  obtain ⟨c, hmem⟩ := h.segment hsome
  refine ⟨c, hmem, ?_⟩
  have hstage := h.stage name c hmem
  generalize slot w name = s at hstage hslot harchive'
  rcases hstage with ⟨hf, hp⟩ | ⟨hf, ha, hd⟩ | ⟨ha, hd⟩ | ⟨hg, hd⟩
  · cases hslot
  · cases harchive'
  · cases harchive'
  · cases hslot
    exact ⟨rfl, hg, hd⟩

theorem ends_recoverOrphanDigestSidecar {rest : List RotationName} {now : ℕ} (recovered : ℕ)
    (h : Recovering sha256 input appended now origin (name :: rest) w) :
    Ends (Sound sha256 input appended) (recoverOrphanDigestSidecar input now recovered name)
      (fun _ t => Recovering sha256 input appended now origin rest t)
      (fun _ _ => ¬ Recoverable input now origin) w := by
  unfold recoverOrphanDigestSidecar
  obtain ⟨⟨digest, hdigest⟩, hsame⟩ := h.left name List.mem_cons_self
  obtain ⟨hnot, hnodup⟩ := List.nodup_cons.mp h.nodup
  have hleft : ∀ n ∈ rest, (∃ digest, Directory.file w.digest n = some digest) ∧
      Directory.file w.digest n = Directory.file origin.digest n :=
    fun n hn => h.left n (List.mem_cons_of_mem _ hn)
  have horigin : Directory.file origin.digest name = some digest := hsame.symm.trans hdigest
  rw [ends_bind, ends_read]
  refine ⟨h.sound, ?_⟩
  split_ifs with harchive
  · refine ends_pure.mpr ⟨h.sound, h.sound, h.rotated, h.clock, h.archive, hleft, ?_, hnodup⟩
    intro n d hd hn hnone
    by_cases heq : n = name
    · subst heq
      rw [h.archive, hnone] at harchive
      cases harchive
    · exact h.seen n d hd (by simp [heq, hn]) hnone
  have hnone : Directory.file w.archive name = none := by simpa using harchive
  have hnone' : Directory.file origin.archive name = none := h.archive ▸ hnone
  obtain ⟨c, hmem, hslot, hgone, hdescribes⟩ := orphan_pruned h.sound hdigest hnone
  obtain ⟨hmode, hcontents⟩ := hdescribes digest rfl
  refine (ends_assertSafeRegularFile h.sound hdigest).bind ?_
  rintro stats t ⟨rfl, rfl⟩
  rw [ends_bind, ends_require]
  refine ⟨h.sound, fun _ => ?_, fun hbad => absurd (by rw [hmode]; decide) hbad⟩
  rw [ends_bind, ends_require]
  refine ⟨h.sound, fun hplain => ?_, fun hbad hrecoverable => ?_⟩
  · rw [ends_bind, ends_require]
    refine ⟨h.sound, fun hold => ?_, fun hbad hrecoverable => ?_⟩
    · have hremoved : Sound sha256 input appended (t.removeDigest name) := by
        refine h.sound.move hmem rfl rfl rfl rfl (fun n hn => by rw [slot_removeDigest, if_neg hn]) ?_
        rw [slot_removeDigest, if_pos rfl, hslot]
        exact Stage.pruned hgone fun d hd => by cases hd
      rw [ends_bind, ends_write]
      refine ⟨h.sound, hremoved, ends_pure.mpr ⟨hremoved, hremoved, h.rotated, h.clock, h.archive, ?_, ?_, hnodup⟩⟩
      · intro n hn
        have hne : n ≠ name := by
          rintro rfl
          exact hnot hn
        change (∃ digest, Directory.file (Directory.remove t.digest name) n = some digest) ∧
          Directory.file (Directory.remove t.digest name) n = Directory.file origin.digest n
        rw [Directory.file_remove, if_neg hne]
        exact hleft n hn
      · intro n d hd hn hnone
        by_cases heq : n = name
        · subst heq
          rw [horigin] at hd
          cases hd
          exact ⟨hplain.1, not_le.mp hold⟩
        · exact h.seen n d hd (by simp [heq, hn]) hnone
    · obtain ⟨-, hold⟩ := hrecoverable name stats horigin hnone'
      exact hbad (not_le.mpr hold)
  · obtain ⟨hplain, -⟩ := hrecoverable name stats horigin hnone'
    exact hbad ⟨hplain, by rw [hcontents]⟩

theorem ends_recoverOrphanDigestSidecars (h : Sound sha256 input appended w) :
    Ends (Sound sha256 input appended) (recoverOrphanDigestSidecars input)
      (fun _ t => Recoverable input w.tick.clock w ∧ Sound sha256 input appended t ∧ t.rotated = w.rotated ∧
        w.clock ≤ t.clock)
      (fun _ _ => ¬ Recoverable input w.tick.clock w) w := by
  unfold recoverOrphanDigestSidecars
  refine (ends_dateNow h).bind ?_
  rintro now t ⟨rfl, rfl⟩
  rw [ends_bind, ends_read]
  refine ⟨h.tick, ?_⟩
  refine ends_fold (fun _ rest t => Recovering sha256 input appended w.tick.clock w.tick rest t)
    (fun _ t ht => ht.sound) (fun recovered n rest t ht => ends_recoverOrphanDigestSidecar recovered ht)
    (fun _ t ht => ?_) ?_
  · have hclock : w.clock ≤ t.clock := ht.clock ▸ Nat.le_add_right _ _
    exact ⟨fun n digest hdigest => ht.seen n digest hdigest (by simp), ht.sound, ht.rotated, hclock⟩
  · refine ⟨h.tick, rfl, rfl, rfl, fun n hn => ⟨Directory.mem_names.mp hn, rfl⟩, fun n digest hdigest hn => ?_,
      Directory.nodup_names⟩
    exact absurd (Directory.mem_names.mpr ⟨digest, hdigest⟩) hn

end Orphans

/-! ### The sweep -/

theorem ends_writeHeartbeat (heartbeat : ℕ → Heartbeat) (h : Sound sha256 input appended w) (harchived : Archived w) :
    Ends (Sound sha256 input appended) (writeHeartbeat heartbeat : Sweep β δ Heartbeat)
      (fun _ t => Sound sha256 input appended t ∧ Archived t) Never w := by
  unfold writeHeartbeat
  refine (ends_dateNow h).bind ?_
  rintro checkedAt t ⟨rfl, rfl⟩
  have hplaced : Sound sha256 input appended
      (written w.tick fun _ => .heartbeat (heartbeat w.tick.clock)).placeTemporary :=
    h.tick.tick.idle rfl rfl le_rfl rfl fun _ => rfl
  refine (ends_atomicWrite h.tick hplaced).bind ?_
  rintro - t rfl
  exact ends_pure.mpr ⟨hplaced, hplaced, harchived⟩

/-- **A sweep** is found in sound logs only; it ends with all segments archived, or fails at an orphan. -/
theorem ends_runSweep [DecidableEq δ] (hsha : PrefixFree sha256) (random : ℕ) (h : Sound sha256 input appended w)
    (hearly : Early w) :
    Ends (Sound sha256 input appended) (runSweep sha256 input random)
      (fun _ t => Recoverable input w.tick.clock w ∧ Sound sha256 input appended t ∧ Archived t)
      (fun _ _ => ¬ Recoverable input w.tick.clock w) w := by
  unfold runSweep
  rw [ends_bind, ends_read]
  refine ⟨h, ?_⟩
  rw [ends_bind]
  refine (ends_recoverOrphanDigestSidecars h).mono (fun _ ht => ht) ?_ fun _ _ hf => hf
  rintro recovered t ⟨hrecoverable, ht, hrotated, hclock⟩
  have hearly' := hearly.later hrotated hclock
  rw [ends_bind, ends_read]
  refine ⟨ht, ?_⟩
  refine (ends_archiveAll hsha _ ht).bind ?_
  intro pending u hu
  refine (ends_rotateActive hsha random pending hu.sound (hearly'.later hu.rotated hu.clock) hu.archived).bind ?_
  rintro progress v ⟨hv, hvarchived⟩
  refine (ends_pruneArchives hv hvarchived).bind ?_
  rintro deleted x ⟨hx, hxarchived⟩
  refine (ends_writeHeartbeat _ hx hxarchived).post_mono ?_
  rintro - y ⟨hy, hyarchived⟩
  exact ⟨hrecoverable, hy, hyarchived⟩

end OwnMinutes.AuditLog.SweepSteps
