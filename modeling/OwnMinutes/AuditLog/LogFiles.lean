import OwnMinutes.Lib.Keyed
import Mathlib.Data.List.Sort

/-! # The files of the audit log

The active log, the files that a rotation moves it to, and the archive directory with its archives, its
unfinished copies (`.pending`) and its digest sidecars (`.sha256`). All files of one rotation are found under
the name of that rotation, the time and the random part that its sweep drew. A directory lists its files
sorted by name.

`rotated` and `pruned` are kept for the statements only: what each rename moved away from the active file, and
what each deletion of an archive found. -/

namespace OwnMinutes.AuditLog.LogFiles

open OwnMinutes.Lib.Keyed

/-- `<stamp>-<random>`, the part of a name that tells one rotation from the others. -/
structure RotationName where
  stamp : ℕ
  random : ℕ
  deriving DecidableEq, Repr

/-- The order of the names as texts; the stamp is a time of fixed width. -/
def RotationName.before (a b : RotationName) : Bool :=
  a.stamp < b.stamp || (a.stamp = b.stamp && a.random ≤ b.random)

structure File (γ : Type) where
  contents : γ
  mtimeMs : ℕ
  mode : ℕ
  deriving DecidableEq, Repr

/-- The text of a sidecar, `<digest>  <archive name>` and a line break. -/
structure DigestText (δ : Type) where
  digest : δ
  archiveName : RotationName
  deriving DecidableEq, Repr

structure Entry (γ : Type) where
  name : RotationName
  file : File γ
  deriving DecidableEq, Repr

instance {γ : Type} : HasKey (Entry γ) RotationName := ⟨Entry.name⟩

/-! ### Directories -/

abbrev Directory (γ : Type) := Table (Entry γ)

namespace Directory

variable {γ : Type} (directory : Directory γ)

def file (name : RotationName) : Option (File γ) := (directory.get? name).map Entry.file

/-- `readdirSync(..).sort()`. -/
def names : List RotationName := (directory.rows.map Entry.name).insertionSort fun a b => a.before b

def remove (name : RotationName) : Directory γ := directory.removeWhere fun entry => entry.name = name

def put (name : RotationName) (file : File γ) : Directory γ := (remove directory name).insert ⟨name, file⟩

variable {directory} {name other : RotationName} {f : File γ}

theorem remove_fresh : Table.Fresh (remove directory name) name := by
  intro entry hentry
  have hkept := (Table.mem_removeWhere.mp hentry).2
  exact of_decide_eq_false hkept

theorem file_remove :
    file (remove directory name) other = if other = name then none else file directory other := by
  unfold file
  by_cases h : other = name
  · subst h
    rw [if_pos rfl, Option.map_eq_none_iff, ← Table.fresh_iff]
    exact remove_fresh
  · rw [if_neg h]
    congr 1
    cases hget : Table.get? directory other with
    | none =>
      rw [Table.get?_eq_none] at hget ⊢
      exact fun entry hentry => hget entry (Table.mem_removeWhere.mp hentry).1
    | some entry =>
      rw [Table.get?_eq_some] at hget ⊢
      obtain ⟨hentry, hname⟩ := hget
      refine ⟨Table.mem_removeWhere.mpr ⟨hentry, ?_⟩, hname⟩
      have hne : entry.name ≠ name := fun he => h (hname.symm.trans he)
      simpa using hne

theorem file_put :
    file (put directory name f) other = if other = name then some f else file directory other := by
  by_cases h : other = name
  · subst h
    have hself := Table.get?_insert_self (t := remove directory other) (x := (⟨other, f⟩ : Entry γ)) remove_fresh
    rw [if_pos rfl, file, put]
    change (Table.get? _ (HasKey.key (⟨other, f⟩ : Entry γ))).map Entry.file = some f
    rw [hself]
    rfl
  · have hne : HasKey.key (⟨name, f⟩ : Entry γ) ≠ other := fun he => h he.symm
    rw [if_neg h, file, put, Table.get?_insert_of_ne hne]
    change file (remove directory name) other = _
    rw [file_remove, if_neg h]

theorem mem_names : name ∈ names directory ↔ ∃ f, file directory name = some f := by
  unfold names file
  rw [List.mem_insertionSort, List.mem_map]
  constructor
  · rintro ⟨entry, hentry, rfl⟩
    exact ⟨entry.file, Option.map_eq_some_iff.mpr ⟨entry, Table.get?_key hentry, rfl⟩⟩
  · rintro ⟨f, hf⟩
    obtain ⟨entry, hentry, -⟩ := Option.map_eq_some_iff.mp hf
    exact ⟨entry, Table.mem_of_get? hentry, Table.key_of_get? hentry⟩

theorem nodup_names : (names directory).Nodup :=
  ((List.perm_insertionSort _ _).nodup_iff).mpr directory.nodup

end Directory

/-! ### The store -/

/-- What the heartbeat file reports. -/
structure Heartbeat where
  checkedAt : ℕ
  lastRotationAt : Option ℕ
  archived : ℕ
  recoveredOrphanSidecars : ℕ
  deletedArchives : ℕ
  retentionDays : ℕ
  rotateBytes : ℕ
  deriving DecidableEq, Repr

/-- A file that is written under a name of its own before it takes its place. -/
inductive Temporary (δ : Type)
  | torn
  | digest (name : RotationName) (file : File (DigestText δ))
  | heartbeat (heartbeat : Heartbeat)
  deriving DecidableEq, Repr

/-- A deletion: the archive and the sidecar beside it, and when. -/
structure Pruned (β δ : Type) where
  name : RotationName
  archive : File (List β)
  digest : Option (File (DigestText δ))
  time : ℕ
  deriving DecidableEq, Repr

structure World (β δ : Type) where
  active : Option (File (List β))
  rotating : Directory (List β)
  archive : Directory (List β)
  pending : Directory (List β)
  digest : Directory (DigestText δ)
  temporary : List (Temporary δ)
  heartbeat : Option Heartbeat
  /-- The time in ms, and how long the next looks at the clock are after each other. -/
  clock : ℕ
  waits : List ℕ
  rotated : List (RotationName × List β)
  pruned : List (Pruned β δ)
  deriving DecidableEq

namespace World

variable {β δ : Type}

def empty : World β δ where
  active := none
  rotating := Table.empty
  archive := Table.empty
  pending := Table.empty
  digest := Table.empty
  temporary := []
  heartbeat := none
  clock := 0
  waits := []
  rotated := []
  pruned := []

variable (w : World β δ)

def tick : World β δ := { w with clock := w.clock + w.waits.headD 0, waits := w.waits.tail }

/-- The bytes of the active log. -/
def activeBytes : List β := (w.active.map File.contents).getD []

/-- An append, under the lock. -/
def append (bytes : List β) : World β δ :=
  { w with active := some ⟨w.activeBytes ++ bytes, w.clock, 0o600⟩ }

/-! ### Steps on the files -/

def removeRotating (name : RotationName) : World β δ :=
  { w with rotating := Directory.remove w.rotating name }

def removePending (name : RotationName) : World β δ :=
  { w with pending := Directory.remove w.pending name }

def removeDigest (name : RotationName) : World β δ :=
  { w with digest := Directory.remove w.digest name }

def removeArchive (name : RotationName) : World β δ :=
  { w with
    archive := Directory.remove w.archive name
    pruned := ((Directory.file w.archive name).map fun archive =>
      ⟨name, archive, Directory.file w.digest name, w.clock⟩).toList ++ w.pruned }

/-- `renameSync(activePath, rotatingPath)`. -/
def rotate (name : RotationName) : World β δ :=
  match w.active with
  | none => w
  | some active =>
    { w with
      active := none
      rotating := Directory.put w.rotating name active
      rotated := w.rotated ++ [(name, active.contents)] }

/-- What a copy leaves: the first `length` bytes. -/
def copyPart (name : RotationName) (source : File (List β)) (length : ℕ) : World β δ :=
  { w with pending := Directory.put w.pending name ⟨source.contents.take length, w.clock, source.mode⟩ }

def copyParts (name : RotationName) (source : File (List β)) : List (World β δ) :=
  (List.range (source.contents.length + 1)).map (w.copyPart name source)

def chmodPending (name : RotationName) : World β δ :=
  match Directory.file w.pending name with
  | none => w
  | some pending => { w with pending := Directory.put w.pending name { pending with mode := 0o600 } }

/-- `renameSync(pendingArchivePath, archivePath)`. -/
def promote (name : RotationName) : World β δ :=
  match Directory.file w.pending name with
  | none => w
  | some pending =>
    { w with
      pending := Directory.remove w.pending name
      archive := Directory.put w.archive name pending }

/-- A temporary file, after a part of the text and with all of it. -/
def temporaryParts (file : Temporary δ) : List (World β δ) :=
  [{ w with temporary := .torn :: w.temporary }, { w with temporary := file :: w.temporary }]

/-- The newest temporary file takes its place. -/
def placeTemporary : World β δ :=
  match w.temporary with
  | .digest name file :: rest => { w with digest := Directory.put w.digest name file, temporary := rest }
  | .heartbeat heartbeat :: rest => { w with heartbeat := some heartbeat, temporary := rest }
  | _ => w

end World

end OwnMinutes.AuditLog.LogFiles
