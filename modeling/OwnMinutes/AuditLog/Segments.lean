import OwnMinutes.AuditLog.Rotation

/-! # Where the bytes of the audit log are

Each rotation moves a segment of the log away. From there on its four files are in one of four stages: in the
rotating file only, perhaps with an unfinished copy; in the archive too; in the archive only, with the
sidecar; pruned. `Sound` says so of all segments, and that with the active file they are all that was
appended. -/

namespace OwnMinutes.AuditLog.Segments

open OwnMinutes.AuditLog.LogFiles OwnMinutes.AuditLog.Rotation

variable {β δ : Type}

/-- The files under one name. -/
@[ext]
structure Slot (β δ : Type) where
  rotating : Option (File (List β))
  archive : Option (File (List β))
  pending : Option (File (List β))
  digest : Option (File (DigestText δ))

def slot (w : World β δ) (name : RotationName) : Slot β δ where
  rotating := Directory.file w.rotating name
  archive := Directory.file w.archive name
  pending := Directory.file w.pending name
  digest := Directory.file w.digest name

/-- A sidecar, if there is one, is that of `contents`. -/
def Describes (sha256 : List β → δ) (name : RotationName) (contents : List β)
    (digest : Option (File (DigestText δ))) : Prop :=
  ∀ file, digest = some file → file.mode = 0o600 ∧ file.contents = ⟨sha256 contents, name⟩

/-- The stages of a segment; `gone` says that its archive was pruned. -/
inductive Stage (sha256 : List β → δ) (name : RotationName) (contents : List β) (gone : Prop) :
    Slot β δ → Prop
  | rotated {file : File (List β)} {pending : Option (File (List β))} (hfile : file.contents = contents)
      (hpending : ∀ copy, pending = some copy → ∃ length, copy.contents = contents.take length) :
      Stage sha256 name contents gone ⟨some file, none, pending, none⟩
  | archived {file archive : File (List β)} {digest : Option (File (DigestText δ))}
      (hfile : file.contents = contents) (harchive : archive.contents = contents)
      (hdigest : Describes sha256 name contents digest) :
      Stage sha256 name contents gone ⟨some file, some archive, none, digest⟩
  | kept {archive : File (List β)} {digest : File (DigestText δ)} (harchive : archive.contents = contents)
      (hdigest : Describes sha256 name contents (some digest)) :
      Stage sha256 name contents gone ⟨none, some archive, none, some digest⟩
  | pruned {digest : Option (File (DigestText δ))} (hgone : gone)
      (hdigest : Describes sha256 name contents digest) :
      Stage sha256 name contents gone ⟨none, none, none, digest⟩

/-- The deletion of an archive that is older than the retention time and has its digest beside it. -/
def Expired (sha256 : List β → δ) (input : Config) (p : Pruned β δ) : Prop :=
  p.archive.mtimeMs + input.retentionMs < p.time ∧
    ∃ digest, p.digest = some digest ∧ digest.contents = ⟨sha256 p.archive.contents, p.name⟩

def Gone (w : World β δ) (name : RotationName) (contents : List β) : Prop :=
  ∃ p ∈ w.pruned, p.name = name ∧ p.archive.contents = contents

/-- **The invariant** of the audit log, in the middle of a sweep as well. -/
structure Sound (sha256 : List β → δ) (input : Config) (appended : List β) (w : World β δ) : Prop where
  bytes : appended = w.rotated.flatMap Prod.snd ++ w.activeBytes
  names : (w.rotated.map Prod.fst).Nodup
  stamps : ∀ name contents, (name, contents) ∈ w.rotated → name.stamp ≤ w.clock
  filled : ∀ name contents, (name, contents) ∈ w.rotated → contents ≠ []
  stage : ∀ name contents, (name, contents) ∈ w.rotated →
    Stage sha256 name contents (Gone w name contents) (slot w name)
  empty : ∀ name, name ∉ w.rotated.map Prod.fst → slot w name = ⟨none, none, none, none⟩
  pruned : ∀ p ∈ w.pruned, Expired sha256 input p

variable {sha256 : List β → δ} {input : Config} {appended : List β} {w t : World β δ} {name other : RotationName}
  {contents : List β} {s : Slot β δ} {gone gone' : Prop}

theorem Stage.mono (h : Stage sha256 name contents gone s) (hgone : gone → gone') :
    Stage sha256 name contents gone' s := by
  rcases h with ⟨hf, hp⟩ | ⟨hf, ha, hd⟩ | ⟨ha, hd⟩ | ⟨hg, hd⟩
  · exact Stage.rotated hf hp
  · exact Stage.archived hf ha hd
  · exact Stage.kept ha hd
  · exact Stage.pruned (hgone hg) hd

/-- Each name has one segment. -/
theorem Sound.contents_eq (h : Sound sha256 input appended w) {contents' : List β}
    (hmem : (name, contents) ∈ w.rotated) (hmem' : (name, contents') ∈ w.rotated) : contents = contents' := by
  have := List.inj_on_of_nodup_map h.names hmem hmem' rfl
  exact congrArg Prod.snd this

/-- A name with a file is that of a segment. -/
theorem Sound.segment (h : Sound sha256 input appended w) (hslot : slot w name ≠ ⟨none, none, none, none⟩) :
    ∃ contents, (name, contents) ∈ w.rotated := by
  by_contra hnone
  refine hslot (h.empty name fun hmem => hnone ?_)
  obtain ⟨⟨n, contents⟩, hsegment, rfl⟩ := List.mem_map.mp hmem
  exact ⟨contents, hsegment⟩

/-- What a step keeps that leaves the segments as they are: each slot is as it was or in a stage of its
segment. -/
theorem Sound.step (h : Sound sha256 input appended w) (hactive : t.active = w.active)
    (hrotated : t.rotated = w.rotated) (hclock : w.clock ≤ t.clock) (hold : ∀ p ∈ w.pruned, p ∈ t.pruned)
    (hnew : ∀ p ∈ t.pruned, p ∈ w.pruned ∨ Expired sha256 input p)
    (hslots : ∀ n, slot t n = slot w n ∨
      ∃ c, (n, c) ∈ w.rotated ∧ Stage sha256 n c (Gone t n c) (slot t n)) :
    Sound sha256 input appended t := by
  have hgone : ∀ n c, Gone w n c → Gone t n c := by
    rintro n c ⟨p, hp, hname, hcontents⟩
    exact ⟨p, hold p hp, hname, hcontents⟩
  refine ⟨?_, ?_, ?_, ?_, ?_, ?_, ?_⟩
  · rw [hrotated, World.activeBytes, hactive]
    exact h.bytes
  · rw [hrotated]
    exact h.names
  · intro n c hmem
    rw [hrotated] at hmem
    exact (h.stamps n c hmem).trans hclock
  · intro n c hmem
    rw [hrotated] at hmem
    exact h.filled n c hmem
  · intro n c hmem
    rw [hrotated] at hmem
    rcases hslots n with hsame | ⟨c', hmem', hstage⟩
    · rw [hsame]
      exact (h.stage n c hmem).mono (hgone n c)
    · rw [h.contents_eq hmem hmem']
      exact hstage
  · intro n hn
    rw [hrotated] at hn
    rcases hslots n with hsame | ⟨c, hmem, -⟩
    · rw [hsame]
      exact h.empty n hn
    · exact absurd (List.mem_map_of_mem hmem) hn
  · intro p hp
    rcases hnew p hp with hp | hp
    · exact h.pruned p hp
    · exact hp

/-- A step that touches no file of a segment. -/
theorem Sound.idle (h : Sound sha256 input appended w) (hactive : t.active = w.active)
    (hrotated : t.rotated = w.rotated) (hclock : w.clock ≤ t.clock) (hpruned : t.pruned = w.pruned)
    (hslots : ∀ n, slot t n = slot w n) : Sound sha256 input appended t :=
  h.step hactive hrotated hclock (fun _ hp => hpruned ▸ hp) (fun _ hp => Or.inl (hpruned ▸ hp))
    fun n => Or.inl (hslots n)

/-- A step on the files of one segment. -/
theorem Sound.move (h : Sound sha256 input appended w) (hmem : (name, contents) ∈ w.rotated)
    (hactive : t.active = w.active) (hrotated : t.rotated = w.rotated) (hclock : t.clock = w.clock)
    (hpruned : t.pruned = w.pruned) (hothers : ∀ n, n ≠ name → slot t n = slot w n)
    (hstage : Stage sha256 name contents (Gone w name contents) (slot t name)) :
    Sound sha256 input appended t := by
  refine h.step hactive hrotated hclock.ge (fun _ hp => hpruned ▸ hp) (fun _ hp => Or.inl (hpruned ▸ hp))
    fun n => ?_
  by_cases hn : n = name
  · subst hn
    refine Or.inr ⟨contents, hmem, ?_⟩
    rwa [Gone, hpruned]
  · exact Or.inl (hothers n hn)

theorem Sound.tick (h : Sound sha256 input appended w) : Sound sha256 input appended w.tick :=
  h.idle rfl rfl (Nat.le_add_right _ _) rfl fun _ => rfl

theorem Sound.withTemporary (h : Sound sha256 input appended w) (temporary : List (Temporary δ)) :
    Sound sha256 input appended { w with temporary } :=
  h.idle rfl rfl le_rfl rfl fun _ => rfl

/-! ### The files of a step -/

section Slots

theorem slot_removeRotating :
    slot (w.removeRotating name) other =
      if other = name then { slot w other with rotating := none } else slot w other := by
  unfold slot World.removeRotating
  rw [Directory.file_remove]
  split_ifs
  · rfl
  · rfl

theorem slot_removePending :
    slot (w.removePending name) other =
      if other = name then { slot w other with pending := none } else slot w other := by
  unfold slot World.removePending
  rw [Directory.file_remove]
  split_ifs
  · rfl
  · rfl

theorem slot_removeDigest :
    slot (w.removeDigest name) other =
      if other = name then { slot w other with digest := none } else slot w other := by
  unfold slot World.removeDigest
  rw [Directory.file_remove]
  split_ifs
  · rfl
  · rfl

theorem slot_removeArchive :
    slot (w.removeArchive name) other =
      if other = name then { slot w other with archive := none } else slot w other := by
  unfold slot World.removeArchive
  rw [Directory.file_remove]
  split_ifs
  · rfl
  · rfl

theorem slot_copyPart {source : File (List β)} {length : ℕ} :
    slot (w.copyPart name source length) other =
      if other = name then
        { slot w other with pending := some ⟨source.contents.take length, w.clock, source.mode⟩ }
      else slot w other := by
  unfold slot World.copyPart
  rw [Directory.file_put]
  split_ifs
  · rfl
  · rfl

theorem slot_chmodPending {copy : File (List β)} (h : Directory.file w.pending name = some copy) :
    slot (w.chmodPending name) other =
      if other = name then { slot w other with pending := some { copy with mode := 0o600 } }
      else slot w other := by
  unfold slot World.chmodPending
  rw [h]
  dsimp only
  rw [Directory.file_put]
  split_ifs
  · rfl
  · rfl

theorem slot_promote {copy : File (List β)} (h : Directory.file w.pending name = some copy) :
    slot (w.promote name) other =
      if other = name then { slot w other with archive := some copy, pending := none }
      else slot w other := by
  unfold slot World.promote
  rw [h]
  dsimp only
  rw [Directory.file_put, Directory.file_remove]
  split_ifs
  · rfl
  · rfl

theorem slot_placeTemporary {file : File (DigestText δ)} {rest : List (Temporary δ)}
    (h : w.temporary = .digest name file :: rest) :
    slot w.placeTemporary other =
      if other = name then { slot w other with digest := some file } else slot w other := by
  unfold slot World.placeTemporary
  rw [h]
  dsimp only
  rw [Directory.file_put]
  split_ifs
  · rfl
  · rfl

theorem slot_rotate {active : File (List β)} (h : w.active = some active) :
    slot (w.rotate name) other =
      if other = name then { slot w other with rotating := some active } else slot w other := by
  unfold slot World.rotate
  rw [h]
  dsimp only
  rw [Directory.file_put]
  split_ifs
  · rfl
  · rfl

end Slots

/-- The active file becomes a segment of its own. -/
theorem Sound.rotate (h : Sound sha256 input appended w) (hearly : ∀ n c, (n, c) ∈ w.rotated → n.stamp < name.stamp)
    (hstamp : name.stamp ≤ w.clock) {active : File (List β)} (hactive : w.active = some active)
    (hfilled : active.contents ≠ []) : Sound sha256 input appended (w.rotate name) := by
  have hnew : name ∉ w.rotated.map Prod.fst := by
    intro hmem
    obtain ⟨⟨n, c⟩, hsegment, rfl⟩ := List.mem_map.mp hmem
    exact lt_irrefl _ (hearly n c hsegment)
  have hslot : ∀ n, slot (w.rotate name) n =
      if n = name then { slot w n with rotating := some active } else slot w n := fun n => slot_rotate hactive
  have hrotated : (w.rotate name).rotated = w.rotated ++ [(name, active.contents)] := by
    unfold World.rotate
    rw [hactive]
  have hclock : (w.rotate name).clock = w.clock := by
    unfold World.rotate
    rw [hactive]
  have hpruned : (w.rotate name).pruned = w.pruned := by
    unfold World.rotate
    rw [hactive]
  have hnone : (w.rotate name).activeBytes = [] := by
    unfold World.rotate World.activeBytes
    rw [hactive]
    rfl
  have hbytes : w.activeBytes = active.contents := by
    unfold World.activeBytes
    rw [hactive]
    rfl
  refine ⟨?_, ?_, ?_, ?_, ?_, ?_, ?_⟩
  · rw [hrotated, hnone, List.flatMap_append, List.append_nil, h.bytes, hbytes]
    simp
  · rw [hrotated, List.map_append, List.map_singleton, List.nodup_append]
    refine ⟨h.names, List.nodup_singleton _, ?_⟩
    intro n hn m hm heq
    rw [List.mem_singleton] at hm
    rw [heq, hm] at hn
    exact hnew hn
  · intro n c hmem
    rw [hrotated, List.mem_append, List.mem_singleton] at hmem
    rw [hclock]
    rcases hmem with hmem | hmem
    · exact h.stamps n c hmem
    · cases hmem
      exact hstamp
  · intro n c hmem
    rw [hrotated, List.mem_append, List.mem_singleton] at hmem
    rcases hmem with hmem | hmem
    · exact h.filled n c hmem
    · cases hmem
      exact hfilled
  · intro n c hmem
    rw [hrotated, List.mem_append, List.mem_singleton] at hmem
    rw [hslot n, Gone, hpruned]
    rcases hmem with hmem | hmem
    · have hne : n ≠ name := by
        rintro rfl
        exact hnew (List.mem_map_of_mem hmem)
      rw [if_neg hne]
      exact h.stage n c hmem
    · cases hmem
      rw [if_pos rfl, h.empty name hnew]
      exact Stage.rotated rfl fun copy hcopy => by cases hcopy
  · intro n hn
    rw [hrotated, List.map_append, List.mem_append, not_or] at hn
    have hne : n ≠ name := fun he => hn.2 (List.mem_singleton.mpr he)
    rw [hslot n, if_neg hne]
    exact h.empty n hn.1
  · intro p hp
    rw [hpruned] at hp
    exact h.pruned p hp

/-! ### Where a sweep is with one segment -/

/-- A step touched no file but the archive, the copy and the sidecar of one segment. -/
structure Touches (name : RotationName) (w t : World β δ) : Prop where
  active : t.active = w.active
  rotated : t.rotated = w.rotated
  clock : t.clock = w.clock
  pruned : t.pruned = w.pruned
  rotating : t.rotating = w.rotating
  others : ∀ n, n ≠ name → slot t n = slot w n

theorem touches_removePending : Touches name w (w.removePending name) :=
  ⟨rfl, rfl, rfl, rfl, rfl, fun n hn => by rw [slot_removePending, if_neg hn]⟩

theorem touches_copyPart {source : File (List β)} {length : ℕ} : Touches name w (w.copyPart name source length) :=
  ⟨rfl, rfl, rfl, rfl, rfl, fun n hn => by rw [slot_copyPart, if_neg hn]⟩

theorem touches_chmodPending {copy : File (List β)} (h : Directory.file w.pending name = some copy) :
    Touches name w (w.chmodPending name) := by
  have hothers : ∀ n, n ≠ name → slot (w.chmodPending name) n = slot w n := by
    intro n hn
    rw [slot_chmodPending h, if_neg hn]
  unfold World.chmodPending at hothers ⊢
  rw [h] at hothers ⊢
  exact ⟨rfl, rfl, rfl, rfl, rfl, hothers⟩

theorem touches_promote {copy : File (List β)} (h : Directory.file w.pending name = some copy) :
    Touches name w (w.promote name) := by
  have hothers : ∀ n, n ≠ name → slot (w.promote name) n = slot w n := by
    intro n hn
    rw [slot_promote h, if_neg hn]
  unfold World.promote at hothers ⊢
  rw [h] at hothers ⊢
  exact ⟨rfl, rfl, rfl, rfl, rfl, hothers⟩

theorem touches_placeTemporary {file : File (DigestText δ)} {rest : List (Temporary δ)}
    (h : w.temporary = .digest name file :: rest) : Touches name w w.placeTemporary := by
  have hothers : ∀ n, n ≠ name → slot w.placeTemporary n = slot w n := by
    intro n hn
    rw [slot_placeTemporary h, if_neg hn]
  unfold World.placeTemporary at hothers ⊢
  rw [h] at hothers ⊢
  exact ⟨rfl, rfl, rfl, rfl, rfl, hothers⟩

/-- A later state of the same sweep: no new segment, and the rotating files as they were. -/
structure Quiet (w t : World β δ) : Prop where
  rotating : t.rotating = w.rotating
  rotated : t.rotated = w.rotated
  clock : w.clock ≤ t.clock

theorem Quiet.refl (w : World β δ) : Quiet w w := ⟨rfl, rfl, le_rfl⟩

theorem Quiet.trans {u : World β δ} (h : Quiet w t) (h' : Quiet t u) : Quiet w u :=
  ⟨h'.rotating.trans h.rotating, h'.rotated.trans h.rotated, h.clock.trans h'.clock⟩

theorem Touches.quiet (h : Touches name w t) : Quiet w t := ⟨h.rotating, h.rotated, h.clock.ge⟩

/-- Since `origin` the sweep is busy with the segment in the rotating file `file`, whose files are now `s`. -/
structure At (sha256 : List β → δ) (input : Config) (appended : List β) (origin : World β δ)
    (name : RotationName) (file : File (List β)) (s : Slot β δ) (w : World β δ) : Prop where
  sound : Sound sha256 input appended w
  quiet : Quiet origin w
  segment : (name, file.contents) ∈ w.rotated
  slot_eq : slot w name = s

variable {origin : World β δ} {file : File (List β)}

theorem At.tick (h : At sha256 input appended origin name file s w) :
    At sha256 input appended origin name file s w.tick :=
  ⟨h.sound.tick, h.quiet.trans ⟨rfl, rfl, Nat.le_add_right _ _⟩, h.segment, h.slot_eq⟩

theorem At.withTemporary (h : At sha256 input appended origin name file s w) (temporary : List (Temporary δ)) :
    At sha256 input appended origin name file s { w with temporary } :=
  ⟨h.sound.withTemporary temporary, h.quiet.trans ⟨rfl, rfl, le_rfl⟩, h.segment, h.slot_eq⟩

theorem At.touch (h : At sha256 input appended origin name file s w) {r : Slot β δ} (ht : Touches name w t)
    (hslot : slot t name = r) (hstage : Stage sha256 name file.contents (Gone w name file.contents) r) :
    At sha256 input appended origin name file r t := by
  have hsound := h.sound.move h.segment ht.active ht.rotated ht.clock ht.pruned ht.others (hslot ▸ hstage)
  exact ⟨hsound, h.quiet.trans ht.quiet, ht.rotated ▸ h.segment, hslot⟩

/-- The two stages of a segment that is still in its rotating file. -/
theorem Sound.at_rotating (h : Sound sha256 input appended w)
    (hfile : Directory.file w.rotating name = some file) :
    ∃ s, At sha256 input appended w name file s w ∧
      ((∃ pending, s = ⟨some file, none, pending, none⟩ ∧
          ∀ copy, pending = some copy → ∃ length, copy.contents = file.contents.take length) ∨
        ∃ archive digest, s = ⟨some file, some archive, none, digest⟩ ∧ archive.contents = file.contents ∧
          Describes sha256 name file.contents digest) := by
  have hrotating : (slot w name).rotating = some file := hfile
  have hslot : slot w name ≠ ⟨none, none, none, none⟩ := by
    intro hnone
    rw [hnone] at hrotating
    cases hrotating
  obtain ⟨c, hmem⟩ := h.segment hslot
  have hstage := h.stage name c hmem
  generalize hs : slot w name = s at hstage hrotating
  rcases hstage with ⟨hf, hp⟩ | ⟨hf, ha, hd⟩ | ⟨ha, hd⟩ | ⟨hg, hd⟩
  · cases hrotating
    subst hf
    exact ⟨_, ⟨h, Quiet.refl w, hmem, hs⟩, Or.inl ⟨_, rfl, hp⟩⟩
  · cases hrotating
    subst hf
    exact ⟨_, ⟨h, Quiet.refl w, hmem, hs⟩, Or.inr ⟨_, _, rfl, ha, hd⟩⟩
  · cases hrotating
  · cases hrotating

/-! ### Archived segments -/

/-- No file waits for its archive. -/
def Archived (w : World β δ) : Prop := ∀ n, Directory.file w.rotating n = none

/-- A segment that no rotating file holds is in its archive with its sidecar, or pruned. -/
theorem Sound.settled (h : Sound sha256 input appended w) (harchived : Archived w) {c : List β}
    (hmem : (name, c) ∈ w.rotated) :
    (∃ archive digest, slot w name = ⟨none, some archive, none, some digest⟩ ∧ archive.contents = c ∧
        Describes sha256 name c (some digest)) ∨
      ∃ digest, slot w name = ⟨none, none, none, digest⟩ ∧ Gone w name c ∧ Describes sha256 name c digest := by
  have hstage := h.stage name c hmem
  have hrotating : (slot w name).rotating = none := harchived name
  generalize slot w name = s at hstage hrotating
  rcases hstage with ⟨hf, hp⟩ | ⟨hf, ha, hd⟩ | ⟨ha, hd⟩ | ⟨hg, hd⟩
  · cases hrotating
  · cases hrotating
  · exact Or.inl ⟨_, _, rfl, ha, hd⟩
  · exact Or.inr ⟨_, rfl, hg, hd⟩

/-- Where nothing waits for its archive there is no unfinished copy. -/
theorem Sound.no_pending (h : Sound sha256 input appended w) (harchived : Archived w) (n : RotationName) :
    Directory.file w.pending n = none := by
  by_cases hmem : n ∈ w.rotated.map Prod.fst
  · obtain ⟨⟨m, c⟩, hsegment, rfl⟩ := List.mem_map.mp hmem
    rcases h.settled harchived hsegment with ⟨archive, digest, hslot, -⟩ | ⟨digest, hslot, -⟩
    · exact congrArg Slot.pending hslot
    · exact congrArg Slot.pending hslot
  · exact congrArg Slot.pending (h.empty n hmem)

/-- The deletion of an archive with its digest beside it, long after it was written. -/
theorem Sound.removeArchive (h : Sound sha256 input appended w) {archive : File (List β)}
    {digest : File (DigestText δ)} (hmem : (name, archive.contents) ∈ w.rotated)
    (hslot : slot w name = ⟨none, some archive, none, some digest⟩)
    (hdigest : Describes sha256 name archive.contents (some digest))
    (hold : archive.mtimeMs + input.retentionMs < w.clock) :
    Sound sha256 input appended (w.removeArchive name) ∧ Gone (w.removeArchive name) name archive.contents := by
  have hfile : Directory.file w.archive name = some archive := congrArg Slot.archive hslot
  have hsidecar : Directory.file w.digest name = some digest := congrArg Slot.digest hslot
  have hpruned : (w.removeArchive name).pruned = ⟨name, archive, some digest, w.clock⟩ :: w.pruned := by
    unfold World.removeArchive
    rw [hfile, hsidecar]
    rfl
  have hgone : Gone (w.removeArchive name) name archive.contents := by
    unfold Gone
    rw [hpruned]
    exact ⟨_, List.mem_cons_self, rfl, rfl⟩
  refine ⟨h.step rfl rfl le_rfl (fun p hp => ?_) (fun p hp => ?_) fun n => ?_, hgone⟩
  · rw [hpruned]
    exact List.mem_cons_of_mem _ hp
  · rw [hpruned] at hp
    rcases List.mem_cons.mp hp with rfl | hp
    · exact Or.inr ⟨hold, digest, rfl, (hdigest digest rfl).2⟩
    · exact Or.inl hp
  · rw [slot_removeArchive]
    split_ifs with hn
    · subst hn
      rw [hslot]
      exact Or.inr ⟨archive.contents, hmem, Stage.pruned hgone hdigest⟩
    · exact Or.inl rfl

end OwnMinutes.AuditLog.Segments
