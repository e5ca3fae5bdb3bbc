import OwnMinutes.AuditLog.LogFiles
import OwnMinutes.Lib.Endings

/-! # Rotating the audit log

A sweep runs under the file lock: it removes sidecars whose archive is gone, archives what earlier sweeps left
in rotating files, moves a large active file away and archives it, and prunes the archives that are older than
the retention time. Killed, it is found after one of its steps on the files. -/

namespace OwnMinutes.AuditLog.Rotation

open OwnMinutes.AuditLog.LogFiles OwnMinutes.Lib.Crash
open OwnMinutes.Lib.Crash.Durable

inductive RotationError
  | auditArchiveOrphanDigestFresh
  | auditArchiveOrphanDigestInvalid
  | unsafeAuditArchiveDigestPermissions
  | auditArchiveChecksumMismatch
  | auditArchiveDigestMismatch
  | enoent
  deriving DecidableEq, Repr

structure Config where
  /-- The name of the active log, `path.basename(activePath)`. -/
  basename : List Char
  retentionDays : ℕ
  rotateBytes : ℕ
  retentionDays_range : 30 ≤ retentionDays ∧ retentionDays ≤ 2555
  rotateBytes_range : 1024 * 1024 ≤ rotateBytes ∧ rotateBytes ≤ 1024 * 1024 * 1024

/-- `retentionDays * 86_400_000`. -/
def Config.retentionMs (input : Config) : ℕ := input.retentionDays * 86400000

/-- The name has no line break: only then do the sidecars of its archives match the pattern
`/^([0-9a-f]{64})  ([^/\0\r\n]+)\n$/`. -/
def Config.PlainName (input : Config) : Prop := ∀ c ∈ input.basename, c ≠ '\r' ∧ c ≠ '\n'

instance (input : Config) : Decidable input.PlainName :=
  List.decidableBAll (fun c => c ≠ '\r' ∧ c ≠ '\n') input.basename

section Sweep

variable {β δ : Type} [DecidableEq β] [DecidableEq δ]

abbrev Sweep (β δ α : Type) := Durable (World β δ) RotationError α

def dateNow : Sweep β δ ℕ := do
  write World.tick
  let w ← read
  pure w.clock

/-- The file of a directory, `ENOENT` without it. -/
def assertSafeRegularFile {γ : Type} (directory : World β δ → Directory γ) (name : RotationName) :
    Sweep β δ (File γ) := do
  let w ← read
  lift ((Directory.file (directory w) name).elim (.error .enoent) .ok)

/-- `atomicWriteText`, `atomicWriteJson`: write a temporary file and rename it. -/
def atomicWrite (text : ℕ → Temporary δ) : Sweep β δ Unit := do
  let now ← dateNow
  through fun w => w.temporaryParts (text now)
  write World.placeTemporary

/-- A sidecar without its archive: a deletion was cut short. -/
def recoverOrphanDigestSidecar (input : Config) (now : ℕ) (recovered : ℕ) (name : RotationName) :
    Sweep β δ ℕ := do
  let w ← read
  if (Directory.file w.archive name).isSome then pure recovered
  else
    let stats ← assertSafeRegularFile World.digest name
    require (stats.mode &&& 0o077 = 0) .unsafeAuditArchiveDigestPermissions
    require (input.PlainName ∧ stats.contents.archiveName = name) .auditArchiveOrphanDigestInvalid
    -- `stats.mtimeMs >= cutoff`
    require (¬ now ≤ stats.mtimeMs + input.retentionMs) .auditArchiveOrphanDigestFresh
    write fun w => w.removeDigest name
    pure (recovered + 1)

def recoverOrphanDigestSidecars (input : Config) : Sweep β δ ℕ := do
  let now ← dateNow
  let w ← read
  fold (recoverOrphanDigestSidecar input now) 0 (Directory.names w.digest)

variable (sha256 : List β → δ)

/-- An unfinished copy of an earlier sweep is of no use. -/
def dropDamagedPending (name : RotationName) (sourceDigest : δ) : Sweep β δ Unit := do
  let w ← read
  match Directory.file w.pending name with
  | none => pure ()
  | some pending => if sha256 pending.contents = sourceDigest then pure () else write fun w => w.removePending name

def copyPending (name : RotationName) (rotating : File (List β)) : Sweep β δ Unit := do
  let w ← read
  if (Directory.file w.pending name).isSome then pure ()
  else
    write World.tick
    through fun w => w.copyParts name rotating
    write fun w => w.chmodPending name

def installArchive (name : RotationName) (rotating : File (List β)) (sourceDigest : δ) : Sweep β δ Unit := do
  let w ← read
  if (Directory.file w.archive name).isSome then write fun w => w.removePending name
  else
    dropDamagedPending sha256 name sourceDigest
    copyPending name rotating
    let pending ← assertSafeRegularFile World.pending name
    require (sha256 pending.contents = sourceDigest) .auditArchiveChecksumMismatch
    write fun w => w.promote name

def recordDigest (name : RotationName) (archiveDigest : δ) : Sweep β δ Unit := do
  let w ← read
  match Directory.file w.digest name with
  | some digest => require (digest.contents = ⟨archiveDigest, name⟩) .auditArchiveDigestMismatch
  | none => atomicWrite fun now => .digest name ⟨⟨archiveDigest, name⟩, now, 0o600⟩

def archiveRotatedFile (name : RotationName) : Sweep β δ Unit := do
  let rotating ← assertSafeRegularFile World.rotating name
  if rotating.contents.length = 0 then write fun w => w.removeRotating name
  else
    installArchive sha256 name rotating (sha256 rotating.contents)
    let archive ← assertSafeRegularFile World.archive name
    require (sha256 rotating.contents = sha256 archive.contents) .auditArchiveChecksumMismatch
    recordDigest name (sha256 archive.contents)
    write fun w => w.removeRotating name

def archivePending (progress : ℕ × Option ℕ) (name : RotationName) : Sweep β δ (ℕ × Option ℕ) := do
  archiveRotatedFile sha256 name
  let now ← dateNow
  pure (progress.1 + 1, some now)

/-- The active file, once it is large enough. -/
def rotateActive (input : Config) (random : ℕ) (progress : ℕ × Option ℕ) : Sweep β δ (ℕ × Option ℕ) := do
  let w ← read
  match w.active with
  | none => pure progress
  | some active =>
    if active.contents.length < input.rotateBytes then pure progress
    else
      let stamp ← dateNow
      write fun w => w.rotate ⟨stamp, random⟩
      archivePending sha256 progress ⟨stamp, random⟩

def validateArchiveDigestPair (name : RotationName) (archive : File (List β)) : Sweep β δ Unit := do
  let digest ← assertSafeRegularFile World.digest name
  require (digest.mode &&& 0o077 = 0) .unsafeAuditArchiveDigestPermissions
  require (digest.contents = ⟨sha256 archive.contents, name⟩) .auditArchiveDigestMismatch

def pruneArchive (input : Config) (now : ℕ) (deleted : ℕ) (name : RotationName) : Sweep β δ ℕ := do
  let archive ← assertSafeRegularFile World.archive name
  if now ≤ archive.mtimeMs + input.retentionMs then pure deleted
  else
    validateArchiveDigestPair sha256 name archive
    write World.tick
    write fun w => w.removeArchive name
    write fun w => w.removeDigest name
    pure (deleted + 1)

def pruneArchives (input : Config) : Sweep β δ ℕ := do
  let now ← dateNow
  let w ← read
  fold (pruneArchive sha256 input now) 0 (Directory.names w.archive)

def writeHeartbeat (heartbeat : ℕ → Heartbeat) : Sweep β δ Heartbeat := do
  let checkedAt ← dateNow
  atomicWrite fun _ => .heartbeat (heartbeat checkedAt)
  pure (heartbeat checkedAt)

/-- `random` is what the name of a new rotating file is drawn with. -/
def runSweep (input : Config) (random : ℕ) : Sweep β δ Heartbeat := do
  let w ← read
  let recoveredOrphanSidecars ← recoverOrphanDigestSidecars input
  let w' ← read
  let pending ← fold (archivePending sha256) (0, w.heartbeat.bind Heartbeat.lastRotationAt)
    (Directory.names w'.rotating)
  let progress ← rotateActive sha256 input random pending
  let deletedArchives ← pruneArchives sha256 input
  writeHeartbeat fun checkedAt =>
    { checkedAt
      lastRotationAt := progress.2
      archived := progress.1
      recoveredOrphanSidecars
      deletedArchives
      retentionDays := input.retentionDays
      rotateBytes := input.rotateBytes }

/-! ### Runs -/

/-- A sweep starts, later than all that was done before. -/
def start (wait : ℕ) (waits : List ℕ) (w : World β δ) : World β δ :=
  { w with clock := w.clock + wait + 1, waits }

/-- The store after appends of `appended` in all and sweeps, each of them complete, failed or killed. -/
inductive Reached (input : Config) : List β → World β δ → Prop
  | empty : Reached input [] World.empty
  | append {appended : List β} {w : World β δ} (bytes : List β) (wait : ℕ) (h : Reached input appended w) :
      Reached input (appended ++ bytes) (World.append { w with clock := w.clock + wait } bytes)
  | sweep {appended : List β} {w t : World β δ} (wait : ℕ) (waits : List ℕ) (random : ℕ)
      (h : Reached input appended w) (hsweep : Visits (runSweep sha256 input random) (start wait waits w) t) :
      Reached input appended t

end Sweep

end OwnMinutes.AuditLog.Rotation
