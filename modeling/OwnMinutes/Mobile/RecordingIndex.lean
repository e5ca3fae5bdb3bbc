import OwnMinutes.Lib.Faults

/-! # The recording index of the mobile app

`atomic-recording-index.ts`: an index of records kept in four files. A write puts a checked temporary file in
the place of the primary one and then refreshes the backup; a read returns the primary index, or restores it
from the temporary file, the temporary backup or the backup, in this order. Contents are lists of characters,
and `IndexCodec` is the JSON text of a list of records. -/

namespace OwnMinutes.Mobile.RecordingIndex

open OwnMinutes.Lib.Faults OwnMinutes.Lib.Faults.Faulty

/-- `AtomicIndexPaths` -/
inductive IndexPath
  | primary
  | temporary
  | backup
  | backupTemporary
  deriving DecidableEq, Repr

abbrev Contents := List Char

abbrev IndexFiles := Files IndexPath Char

/-- `JSON.stringify(records, null, 2)` and `parseIndex` on lists of valid records. The closing bracket of an
array ends its text: what is cut off before it is not one. -/
structure IndexCodec (T : Type) where
  stringify : List T → Contents
  parseIndex : Contents → Option (List T)
  parse_stringify : ∀ records, parseIndex (stringify records) = some records
  parse_take : ∀ records k, k < (stringify records).length → parseIndex ((stringify records).take k) = none

inductive IndexSource
  | backup
  | empty
  | primary
  | temporary
  | unrecoverable
  deriving DecidableEq, Repr

structure AtomicIndexReadResult (T : Type) where
  records : List T
  source : IndexSource
  deriving DecidableEq, Repr

structure IndexCandidate (T : Type) where
  path : IndexPath
  records : List T
  source : IndexSource

section Store

variable {T : Type} (J : IndexCodec T)

def readCandidate (path : IndexPath) (source : IndexSource) :
    Faulty IndexFiles (Option (IndexCandidate T)) := do
  if ← fileExists path then
    attempt (do
      let contents ← read path
      return (J.parseIndex contents).map fun records => ⟨path, records, source⟩) (return none)
  else
    return none

def assertValidIndexFile (path : IndexPath) : Faulty IndexFiles Unit := do
  let contents ← read path
  match J.parseIndex contents with
  | some _ => return ()
  | none => fail

def anyExists : List IndexPath → Faulty IndexFiles Bool
  | [] => return false
  | path :: paths => do
    if ← fileExists path then
      return true
    else
      anyExists paths

def removeQuietly (path : IndexPath) : Faulty IndexFiles Unit :=
  attempt (remove path) (return ())

def refreshBackup : Faulty IndexFiles Unit := do
  remove .backupTemporary
  copy .primary .backupTemporary
  assertValidIndexFile J .backupTemporary
  remove .backup
  move .backupTemporary .backup

def restorePrimary (candidate : IndexCandidate T) : Faulty IndexFiles Unit := do
  remove .primary
  copy candidate.path .primary
  refreshBackup J
  removeQuietly .temporary
  removeQuietly .backupTemporary

def writeAtomicArrayIndex (records : List T) : Faulty IndexFiles Unit := do
  let contents := J.stringify records
  remove .temporary
  write .temporary contents
  assertValidIndexFile J .temporary
  remove .primary
  move .temporary .primary
  assertValidIndexFile J .primary
  refreshBackup J

def readAtomicArrayIndex : Faulty IndexFiles (AtomicIndexReadResult T) := do
  match ← readCandidate J .primary .primary with
  | some primary =>
    attempt (refreshBackup J) (return ())
    removeQuietly .temporary
    return ⟨primary.records, .primary⟩
  | none =>
    let temporary ← readCandidate J .temporary .temporary
    let backupTemporary ← readCandidate J .backupTemporary .backup
    let backup ← readCandidate J .backup .backup
    match temporary <|> backupTemporary <|> backup with
    | some recovery =>
      restorePrimary J recovery
      return ⟨recovery.records, recovery.source⟩
    | none =>
      let anyIndexFileExists ← anyExists [.primary, .temporary, .backupTemporary, .backup]
      return ⟨[], if anyIndexFileExists then .unrecoverable else .empty⟩

/-! ### Runs -/

inductive IndexCall (T : Type)
  | write (records : List T)
  | read
  deriving DecidableEq, Repr

/-- A call with the faults of its steps, and how it ended: a read that returned has a result. -/
structure IndexEvent (T : Type) where
  call : IndexCall T
  faults : List Fault
  ending : Ending (Option (AtomicIndexReadResult T))
  deriving DecidableEq, Repr

def IndexCall.perform : IndexCall T → Faulty IndexFiles (Option (AtomicIndexReadResult T))
  | .write records => do
    writeAtomicArrayIndex J records
    return none
  | .read => do
    let result ← readAtomicArrayIndex J
    return some result

/-- The calls run one after the other (`createSerialExecutor`). -/
def IndexStep (s : IndexFiles) (e : IndexEvent T) (t : IndexFiles) : Prop :=
  ∃ rest, e.call.perform J e.faults s = (e.ending, rest, t)

end Store

def noFiles : IndexFiles := fun _ => none

end OwnMinutes.Mobile.RecordingIndex
