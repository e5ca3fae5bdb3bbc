import OwnMinutes.AuditLog.SweepSteps

/-! # Runs of the audit log

Appends and sweeps in any order, each sweep complete, failed or killed after any of its steps: no byte is lost
before the retention time, and a sweep completes exactly where every sidecar that a killed deletion left is
itself older than the retention time. -/

namespace OwnMinutes.AuditLog.RotationRuns

open OwnMinutes.AuditLog.LogFiles OwnMinutes.AuditLog.Rotation OwnMinutes.AuditLog.Segments
open OwnMinutes.AuditLog.RotationSteps OwnMinutes.AuditLog.SweepSteps OwnMinutes.Lib.Crash
open OwnMinutes.Lib.Crash.Durable OwnMinutes.Lib.Keyed

variable {β δ : Type} {sha256 : List β → δ} {input : Config} {appended : List β} {w : World β δ}

/-- Every appended byte is in the active file or in a segment that was moved away from it. The segment is in
its rotating file, or, without that, in the archive of its name with the digest beside it, or this archive was
deleted. There is no other archive, and no other digest beside one. -/
structure Preserved (sha256 : List β → δ) (appended : List β) (w : World β δ) : Prop where
  bytes : appended = w.rotated.flatMap Prod.snd ++ w.activeBytes
  names : (w.rotated.map Prod.fst).Nodup
  held : ∀ n contents, (n, contents) ∈ w.rotated →
    (∃ file, Directory.file w.rotating n = some file ∧ file.contents = contents) ∨
    (Directory.file w.rotating n = none ∧
      ∃ archive digest, Directory.file w.archive n = some archive ∧ archive.contents = contents ∧
        Directory.file w.digest n = some digest ∧ digest.contents = ⟨sha256 contents, n⟩) ∨
    ∃ p ∈ w.pruned, p.name = n ∧ p.archive.contents = contents
  archives : ∀ n archive, Directory.file w.archive n = some archive →
    (n, archive.contents) ∈ w.rotated ∧
      ∀ digest, Directory.file w.digest n = some digest → digest.contents = ⟨sha256 archive.contents, n⟩

theorem preserved_of_sound (h : Sound sha256 input appended w) : Preserved sha256 appended w := by
  refine ⟨h.bytes, h.names, fun n contents hmem => ?_, fun n archive harchive => ?_⟩
  · have hstage := h.stage n contents hmem
    generalize hs : slot w n = s at hstage
    rcases hstage with ⟨hf, hp⟩ | ⟨hf, ha, hd⟩ | ⟨ha, hd⟩ | ⟨hg, hd⟩
    · exact Or.inl ⟨_, congrArg Slot.rotating hs, hf⟩
    · exact Or.inl ⟨_, congrArg Slot.rotating hs, hf⟩
    · exact Or.inr (Or.inl ⟨congrArg Slot.rotating hs, _, _, congrArg Slot.archive hs, ha,
        congrArg Slot.digest hs, (hd _ rfl).2⟩)
    · exact Or.inr (Or.inr hg)
  · have hslot : (slot w n).archive = some archive := harchive
    have hsome : slot w n ≠ ⟨none, none, none, none⟩ := by
      intro hnone
      rw [hnone] at hslot
      cases hslot
    obtain ⟨contents, hmem⟩ := h.segment hsome
    have hstage := h.stage n contents hmem
    generalize hs : slot w n = s at hstage hslot
    have hdigests : Directory.file w.digest n = s.digest := congrArg Slot.digest hs
    rcases hstage with ⟨hf, hp⟩ | ⟨hf, ha, hd⟩ | ⟨ha, hd⟩ | ⟨hg, hd⟩
    · cases hslot
    · cases hslot
      subst ha
      exact ⟨hmem, fun digest hdigest => (hd digest (hdigests.symm.trans hdigest)).2⟩
    · cases hslot
      subst ha
      exact ⟨hmem, fun digest hdigest => (hd digest (hdigests.symm.trans hdigest)).2⟩
    · cases hslot

/-! ### The invariant in every run -/

theorem sound_empty : Sound sha256 input [] (World.empty : World β δ) where
  bytes := rfl
  names := List.nodup_nil
  stamps := fun _ _ h => by cases h
  filled := fun _ _ h => by cases h
  stage := fun _ _ h => by cases h
  empty := fun _ _ => rfl
  pruned := fun _ h => by cases h

theorem sound_append (h : Sound sha256 input appended w) (bytes : List β) (wait : ℕ) :
    Sound sha256 input (appended ++ bytes) (World.append { w with clock := w.clock + wait } bytes) where
  bytes := by
    have hbytes := h.bytes
    change appended ++ bytes = w.rotated.flatMap Prod.snd ++ (w.activeBytes ++ bytes)
    rw [hbytes, List.append_assoc]
  names := h.names
  stamps := fun n c hmem => (h.stamps n c hmem).trans (Nat.le_add_right _ _)
  filled := h.filled
  stage := h.stage
  empty := h.empty
  pruned := h.pruned

theorem sound_start (h : Sound sha256 input appended w) (wait : ℕ) (waits : List ℕ) :
    Sound sha256 input appended (start wait waits w) ∧ Early (start wait waits w) := by
  have hclock : w.clock < (start wait waits w).clock := by
    change w.clock < w.clock + wait + 1
    omega
  refine ⟨h.idle rfl rfl hclock.le rfl fun _ => rfl, fun n c hmem => ?_⟩
  exact (h.stamps n c hmem).trans_lt hclock

theorem sound_of_reached [DecidableEq δ] (hsha : PrefixFree sha256) (h : Reached sha256 input appended w) :
    Sound sha256 input appended w := by
  induction h with
  | empty => exact sound_empty
  | append bytes wait h ih => exact sound_append ih bytes wait
  | sweep wait waits random h hsweep ih =>
    obtain ⟨hstart, hearly⟩ := sound_start ih wait waits
    exact (ends_runSweep hsha random hstart hearly).crash hsweep

/-- A sweep from a sound log returns exactly where it can remove all orphan sidecars. -/
theorem sweep_completes_iff [DecidableEq δ] (hsha : PrefixFree sha256) (h : Sound sha256 input appended w) (wait : ℕ)
    (waits : List ℕ) (random : ℕ) :
    (∃ heartbeat t, Returns (runSweep sha256 input random) (start wait waits w) heartbeat t ∧
        ∀ n, Directory.file t.rotating n = none ∧ Directory.file t.pending n = none) ↔
      Recoverable input (start wait waits w).tick.clock w := by
  obtain ⟨hstart, hearly⟩ := sound_start h wait waits
  have hends := ends_runSweep hsha random hstart hearly
  constructor
  · rintro ⟨heartbeat, t, hreturns, -⟩
    exact (hends.post hreturns).1
  · intro hrecoverable
    rcases returns_or_fails (runSweep sha256 input random) (start wait waits w) with ⟨heartbeat, t, hr⟩ | ⟨e, t, hf⟩
    · obtain ⟨-, ht, harchived⟩ := hends.post hr
      exact ⟨heartbeat, t, hr, fun n => ⟨harchived n, ht.no_pending harchived n⟩⟩
    · exact absurd hrecoverable (hends.error hf)

/-- **The audit log in every run**, with sweeps that are killed anywhere: nothing is lost, an archive is deleted
only when it is older than the retention time and has its digest, and the next sweep completes, with no
rotating and no unfinished file left, if and only if every orphan sidecar is older than the retention time. -/
theorem rotation_keeps_log [DecidableEq δ] (hsha : PrefixFree sha256) (h : Reached sha256 input appended w) :
    Preserved sha256 appended w ∧ (∀ p ∈ w.pruned, Expired sha256 input p) ∧
      ∀ wait waits random,
        (∃ heartbeat t, Returns (runSweep sha256 input random) (start wait waits w) heartbeat t ∧
          ∀ n, Directory.file t.rotating n = none ∧ Directory.file t.pending n = none) ↔
        Recoverable input (start wait waits w).tick.clock w := by
  have hsound := sound_of_reached hsha h
  exact ⟨preserved_of_sound hsound, hsound.pruned, fun wait waits random => sweep_completes_iff hsha hsound wait waits random⟩

/-! ### A sidecar younger than its archive -/

section YoungSidecar

/-- Archives are kept for 30 days and files of 1 MiB are rotated. -/
def thirtyDays : Config := ⟨"secret-audit.jsonl".toList, 30, 1024 * 1024, by decide, by decide⟩

def log : List ℕ := List.replicate (1024 * 1024) 0

theorem length_log : log.length = 1024 * 1024 := List.length_replicate

/-- Killed between the archive and its sidecar. -/
def withoutSidecar : World ℕ (List ℕ) :=
  { World.empty with
    rotating := Directory.put Table.empty ⟨1, 0⟩ ⟨log, 0, 0o600⟩
    archive := Directory.put Table.empty ⟨1, 0⟩ ⟨log, 1, 0o600⟩
    clock := 1
    rotated := [(⟨1, 0⟩, log)] }

/-- The next sweep, a day later, writes the sidecar; it is killed once the rotating file is gone. -/
def withSidecar : World ℕ (List ℕ) :=
  { withoutSidecar with
    rotating := Table.empty
    digest := Directory.put Table.empty ⟨1, 0⟩ ⟨⟨log, ⟨1, 0⟩⟩, 86400001, 0o600⟩
    clock := 86400001 }

/-- Killed between the deletion of the archive, now older than 30 days, and that of the sidecar. -/
def withoutArchive : World ℕ (List ℕ) :=
  { withSidecar with
    archive := Table.empty
    clock := 2592000002
    pruned := [⟨⟨1, 0⟩, ⟨log, 1, 0o600⟩, some ⟨⟨log, ⟨1, 0⟩⟩, 86400001, 0o600⟩, 2592000002⟩] }

/-- The rotating file, without a copy yet. -/
def moved : World ℕ (List ℕ) :=
  { World.empty with
    rotating := Directory.put Table.empty ⟨1, 0⟩ ⟨log, 0, 0o600⟩
    clock := 1
    rotated := [(⟨1, 0⟩, log)] }

/-- With a whole copy. -/
def copied : World ℕ (List ℕ) :=
  { moved with pending := Directory.put Table.empty ⟨1, 0⟩ ⟨log, 1, 0o600⟩ }

theorem moved_copied : after moved (moved.copyParts ⟨1, 0⟩ ⟨log, 0, 0o600⟩) = copied := by
  rw [after_copyParts]
  unfold World.copyPart
  rw [List.take_length]
  rfl

theorem returns_installArchive :
    Returns (installArchive (fun contents => contents) ⟨1, 0⟩ ⟨log, 0, 0o600⟩ log) moved () withoutSidecar := by
  refine returns_bind.mpr ⟨_, _, returns_read.mpr ⟨rfl, rfl⟩, ?_⟩
  refine returns_bind.mpr ⟨(), moved, ⟨rfl, rfl⟩, ?_⟩
  refine returns_bind.mpr ⟨(), copied, ?_, ?_⟩
  · refine returns_bind.mpr ⟨_, _, returns_read.mpr ⟨rfl, rfl⟩, ?_⟩
    refine returns_bind.mpr ⟨(), moved, ⟨rfl, rfl⟩, ?_⟩
    refine returns_bind.mpr ⟨(), copied, returns_through.mpr moved_copied.symm, ?_⟩
    exact returns_write.mpr rfl
  · refine returns_bind.mpr ⟨⟨log, 1, 0o600⟩, copied, ⟨rfl, rfl⟩, ?_⟩
    refine returns_bind.mpr ⟨(), copied, returns_require.mpr ⟨rfl, rfl⟩, ?_⟩
    exact returns_write.mpr rfl

theorem visits_withoutSidecar :
    Visits (runSweep (fun contents => contents) thirtyDays 0) (start 0 [] (World.append World.empty log))
      withoutSidecar := by
  have hfilled : log.length ≠ 0 := by
    rw [length_log]
    decide
  refine visits_bind.mpr (Or.inr ⟨_, _, returns_read.mpr ⟨rfl, rfl⟩, ?_⟩)
  refine visits_bind.mpr (Or.inr ⟨0, start 0 [] (World.append World.empty log), ⟨rfl, rfl⟩, ?_⟩)
  refine visits_bind.mpr (Or.inr ⟨_, _, returns_read.mpr ⟨rfl, rfl⟩, ?_⟩)
  refine visits_bind.mpr (Or.inr ⟨(0, none), start 0 [] (World.append World.empty log), ⟨rfl, rfl⟩, ?_⟩)
  refine visits_bind.mpr (Or.inl ?_)
  refine visits_bind.mpr (Or.inr ⟨_, _, returns_read.mpr ⟨rfl, rfl⟩, ?_⟩)
  change Visits (if log.length < 1024 * 1024 then _ else _) _ _
  rw [if_neg (by rw [length_log]; exact lt_irrefl _)]
  refine visits_bind.mpr (Or.inr ⟨1, start 0 [] (World.append World.empty log), ⟨rfl, rfl⟩, ?_⟩)
  refine visits_bind.mpr (Or.inr ⟨(), moved, returns_write.mpr rfl, ?_⟩)
  refine visits_bind.mpr (Or.inl ?_)
  refine visits_bind.mpr (Or.inr ⟨⟨log, 0, 0o600⟩, moved, ⟨rfl, rfl⟩, ?_⟩)
  rw [if_neg hfilled]
  exact visits_bind.mpr (Or.inl returns_installArchive.visits)

theorem visits_withSidecar :
    Visits (runSweep (fun contents => contents) thirtyDays 0) (start 86399999 [] withoutSidecar)
      withSidecar := by
  have hfilled : log.length ≠ 0 := by
    rw [length_log]
    decide
  refine visits_bind.mpr (Or.inr ⟨_, _, returns_read.mpr ⟨rfl, rfl⟩, ?_⟩)
  refine visits_bind.mpr (Or.inr ⟨0, start 86399999 [] withoutSidecar, ⟨rfl, rfl⟩, ?_⟩)
  refine visits_bind.mpr (Or.inr ⟨_, _, returns_read.mpr ⟨rfl, rfl⟩, ?_⟩)
  refine visits_bind.mpr (Or.inl (visits_bind.mpr (Or.inl (visits_bind.mpr (Or.inl ?_)))))
  refine visits_bind.mpr (Or.inr ⟨⟨log, 0, 0o600⟩, start 86399999 [] withoutSidecar, ⟨rfl, rfl⟩, ?_⟩)
  rw [if_neg hfilled]
  refine visits_bind.mpr (Or.inr ⟨(), start 86399999 [] withoutSidecar, ⟨rfl, rfl⟩, ?_⟩)
  refine visits_bind.mpr (Or.inr ⟨⟨log, 1, 0o600⟩, start 86399999 [] withoutSidecar, ⟨rfl, rfl⟩, ?_⟩)
  refine visits_bind.mpr (Or.inr ⟨(), _, returns_require.mpr ⟨rfl, rfl⟩, ?_⟩)
  refine visits_bind.mpr (Or.inr ⟨(), _, ⟨rfl, rfl⟩, ?_⟩)
  exact visits_write.mpr (Or.inr rfl)

theorem visits_withoutArchive :
    Visits (runSweep (fun contents => contents) thirtyDays 0) (start 2505600000 [] withSidecar)
      withoutArchive := by
  refine visits_bind.mpr (Or.inr ⟨_, _, returns_read.mpr ⟨rfl, rfl⟩, ?_⟩)
  refine visits_bind.mpr (Or.inr ⟨0, start 2505600000 [] withSidecar, ⟨rfl, rfl⟩, ?_⟩)
  refine visits_bind.mpr (Or.inr ⟨_, _, returns_read.mpr ⟨rfl, rfl⟩, ?_⟩)
  refine visits_bind.mpr (Or.inr ⟨(0, none), start 2505600000 [] withSidecar, ⟨rfl, rfl⟩, ?_⟩)
  refine visits_bind.mpr (Or.inr ⟨(0, none), start 2505600000 [] withSidecar, ⟨rfl, rfl⟩, ?_⟩)
  refine visits_bind.mpr (Or.inl ?_)
  refine visits_bind.mpr (Or.inr ⟨2592000002, start 2505600000 [] withSidecar, ⟨rfl, rfl⟩, ?_⟩)
  refine visits_bind.mpr (Or.inr ⟨_, _, returns_read.mpr ⟨rfl, rfl⟩, ?_⟩)
  refine visits_bind.mpr (Or.inl ?_)
  refine visits_bind.mpr (Or.inr ⟨⟨log, 1, 0o600⟩, start 2505600000 [] withSidecar, ⟨rfl, rfl⟩, ?_⟩)
  rw [if_neg (by decide)]
  refine visits_bind.mpr (Or.inr ⟨(), start 2505600000 [] withSidecar, ?_, ?_⟩)
  · refine returns_bind.mpr ⟨⟨⟨log, ⟨1, 0⟩⟩, 86400001, 0o600⟩, _, ⟨rfl, rfl⟩, ?_⟩
    refine returns_bind.mpr ⟨(), _, returns_require.mpr ⟨by decide, rfl⟩, ?_⟩
    exact returns_require.mpr ⟨rfl, rfl⟩
  · refine visits_bind.mpr (Or.inr ⟨(), start 2505600000 [] withSidecar, returns_write.mpr rfl, ?_⟩)
    exact visits_bind.mpr (Or.inl (visits_write.mpr (Or.inr rfl)))

theorem reached_withSidecar : Reached (fun contents => contents) thirtyDays log withSidecar := by
  have happended : Reached (fun contents => contents) thirtyDays log
      (World.append (World.empty : World ℕ (List ℕ)) log) := Reached.append log 0 Reached.empty
  have hfirst := Reached.sweep 0 [] 0 happended visits_withoutSidecar
  exact Reached.sweep 86399999 [] 0 hfirst visits_withSidecar

/-- After the second of these sweeps nothing is lost and the next one completes. -/
theorem rotation_keeps_log_day :
    Preserved (fun contents => contents) log withSidecar ∧
      ∃ heartbeat t, Returns (runSweep (fun contents => contents) thirtyDays 0) (start 0 [] withSidecar) heartbeat t ∧
        ∀ n, Directory.file t.rotating n = none ∧ Directory.file t.pending n = none := by
  have h := rotation_keeps_log (fun _ _ hsame => hsame) reached_withSidecar
  refine ⟨h.1, (h.2.2 0 [] 0).mpr fun n digest hdigest harchive => ?_⟩
  unfold withSidecar withoutSidecar at hdigest harchive
  rw [Directory.file_put] at hdigest harchive
  split_ifs at hdigest harchive
  cases hdigest

/-- The sidecar that the killed deletion leaves is a day younger than the archive was, and for a day every
sweep fails. -/
theorem sweep_blocked :
    ∃ w : World ℕ (List ℕ), Reached (fun contents => contents) thirtyDays log w ∧
      ∃ t, Fails (runSweep (fun contents => contents) thirtyDays 0) (start 0 [] w) .auditArchiveOrphanDigestFresh t := by
  have hthird := Reached.sweep 2505600000 [] 0 reached_withSidecar visits_withoutArchive
  have hnow : ¬ ¬ 2592000003 ≤ 86400001 + thirtyDays.retentionMs := by
    change ¬ ¬ 2592000003 ≤ 86400001 + 30 * 86400000
    omega
  have horphan : Fails (recoverOrphanDigestSidecar thirtyDays 2592000003 0 ⟨1, 0⟩) (start 0 [] withoutArchive)
      .auditArchiveOrphanDigestFresh (start 0 [] withoutArchive) := by
    refine fails_bind.mpr (Or.inr ⟨_, _, returns_read.mpr ⟨rfl, rfl⟩, ?_⟩)
    refine fails_bind.mpr (Or.inr ⟨⟨⟨log, ⟨1, 0⟩⟩, 86400001, 0o600⟩, start 0 [] withoutArchive, ⟨rfl, rfl⟩, ?_⟩)
    refine fails_bind.mpr (Or.inr ⟨(), _, returns_require.mpr ⟨by decide, rfl⟩, ?_⟩)
    refine fails_bind.mpr (Or.inr ⟨(), _, returns_require.mpr ⟨⟨by decide, rfl⟩, rfl⟩, ?_⟩)
    exact fails_bind.mpr (Or.inl (fails_require.mpr ⟨hnow, rfl, rfl⟩))
  have hrecover : Fails (recoverOrphanDigestSidecars thirtyDays) (start 0 [] withoutArchive)
      .auditArchiveOrphanDigestFresh (start 0 [] withoutArchive) := by
    refine fails_bind.mpr (Or.inr ⟨2592000003, start 0 [] withoutArchive, ⟨rfl, rfl⟩, ?_⟩)
    refine fails_bind.mpr (Or.inr ⟨_, _, returns_read.mpr ⟨rfl, rfl⟩, ?_⟩)
    exact fails_bind.mpr (Or.inl horphan)
  exact ⟨withoutArchive, hthird, _,
    fails_bind.mpr (Or.inr ⟨_, _, returns_read.mpr ⟨rfl, rfl⟩, fails_bind.mpr (Or.inl hrecover)⟩)⟩

end YoungSidecar
end OwnMinutes.AuditLog.RotationRuns
