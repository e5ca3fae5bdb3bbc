import OwnMinutes.Lib.Runs

/-! # The audio snapshot of a meeting

The closure of `prepareMeetingAudioSnapshot` with the objects, the transfer intents and the directory outside. Its
operations are queued and run one after the other; a call of `cleanup` may come at any moment. Every request to the
outside may fail, and one that fails may have been carried out nevertheless. -/

namespace OwnMinutes.AsrTransient.Snapshot

open OwnMinutes.Lib.Runs

inductive Operation
  | prepare
  | cleanup
  deriving DecidableEq, Repr

/-- Where `deleteTransientUnsafe` is called. -/
inductive Caller
  /-- After the PUT, when a cleanup was requested. -/
  | cancelled
  /-- Before the local fallback. -/
  | inaccessible
  /-- In the handler of `prepareForAsr`, where its error is swallowed. -/
  | failed
  | cleanup
  deriving DecidableEq, Repr

/-- What the running operation waits for. -/
inductive Point
  | idle
  | normalizing
  | beginning
  | putting
  | revising
  | presigning
  | reading
  /-- In the handler of `prepareForAsr`. -/
  | failing
  | deletingPrefix (caller : Caller) (deletingPrefix : ℕ)
  | completingIntent (caller : Caller) (deletingPrefix : ℕ)
  | removingDirectory (deletionFailed : Bool)
  deriving DecidableEq, Repr

/-- Prefixes and intents are named by the order in which their ids were drawn. -/
structure State where
  transientPrefix : Option ℕ := none
  transientTransferIntentId : Option ℕ := none
  cleanupComplete : Bool := false
  cleanupInFlight : Bool := false
  cleanupRequested : Bool := false
  preparedPayload : Bool := false
  lifecycleTail : List Operation := []
  point : Point := .idle
  /-- The prefixes with an object in the store. -/
  objects : List ℕ := []
  /-- The rows of the intents that are begun and not completed. -/
  intents : List ℕ := []
  directory : Bool := true
  drawn : ℕ := 0
  deriving DecidableEq, Repr

inductive Event
  | put (key : ℕ)
  | prepared
  | prepareFailed
  | cleanupResolved
  | cleanupRejected
  deriving DecidableEq, Repr

/-- How `beginAsrTransientTransfer` ends. -/
inductive Begin
  /-- There are no intents, and it gives `null`. -/
  | disabled
  | begun
  | failed (inserted : Bool)
  deriving DecidableEq, Repr

inductive Action
  | callPrepare
  | callCleanup
  /-- The next operation of the queue begins. -/
  | start
  | normalized (ok supportsPresignedGet : Bool)
  | began (result : Begin)
  | putDone (ok stored : Bool)
  | revised (ok : Bool)
  /-- Whether the provider can access the URL; nothing where there is none. -/
  | presigned (accessible : Option Bool)
  /-- `readFile` and the second `assertRevisionCurrent`. -/
  | audioRead (ok : Bool)
  /-- `scheduleLateMeetingDeletionCleanup`, where the error calls for it; of the objects only `kept` may be left. -/
  | reported (ok : Bool) (kept : List ℕ)
  /-- A deletion that fails may have deleted objects, and so may the late cleanup after it. -/
  | prefixDeleted (ok : Bool) (kept : List ℕ)
  | intentCompleted (ok deleted : Bool)
  | directoryRemoved (ok gone : Bool)
  deriving DecidableEq, Repr

variable (s : State)

/-- `deleteTransientUnsafe` has returned or thrown. -/
def afterDelete (caller : Caller) (ok : Bool) : State × List Event :=
  match caller with
  | .cancelled => ({ s with point := .failing }, [])
  | .inaccessible => ({ s with point := if ok then .reading else .failing }, [])
  | .failed => ({ s with point := .idle }, [.prepareFailed])
  | .cleanup => ({ s with point := .removingDirectory (!ok) }, [])

def deleteTransientUnsafe (caller : Caller) : State × List Event :=
  match s.transientPrefix with
  | none => afterDelete s caller true
  | some deletingPrefix => ({ s with point := .deletingPrefix caller deletingPrefix }, [])

/-- What `deleteTransientUnsafe` forgets. -/
def forget (deletingPrefix : ℕ) : State :=
  { s with
    transientTransferIntentId := none
    transientPrefix := if s.transientPrefix = some deletingPrefix then none else s.transientPrefix }

/-- `cleanup()` -/
def callCleanup : State × List Event :=
  let s := { s with cleanupRequested := true }
  if s.cleanupComplete then (s, [.cleanupResolved])
  else if s.cleanupInFlight then (s, [])
  else ({ s with cleanupInFlight := true, lifecycleTail := s.lifecycleTail ++ [.cleanup] }, [])

def start : Option (State × List Event) :=
  match s.point, s.lifecycleTail with
  | .idle, .prepare :: rest =>
    let s := { s with lifecycleTail := rest }
    if s.cleanupRequested then some (s, [.prepareFailed])
    else if s.preparedPayload then some (s, [.prepared])
    else some ({ s with point := .normalizing }, [])
  | .idle, .cleanup :: rest => some (deleteTransientUnsafe { s with lifecycleTail := rest } .cleanup)
  | _, _ => none

def normalized (ok supportsPresignedGet : Bool) : State :=
  if !ok || s.cleanupRequested then { s with point := .failing }
  else if supportsPresignedGet then
    { s with transientPrefix := some s.drawn, drawn := s.drawn + 1, point := .beginning }
  else { s with point := .reading }

/-- The intent is begun, and the PUT is sent. -/
def began (result : Begin) : State × List Event :=
  match result with
  | .disabled =>
    ({ s with transientTransferIntentId := none, point := .putting }, s.transientPrefix.toList.map .put)
  | .begun =>
    ({ s with
        transientTransferIntentId := some s.drawn, intents := s.drawn :: s.intents, drawn := s.drawn + 1,
        point := .putting },
      s.transientPrefix.toList.map .put)
  | .failed true => ({ s with intents := s.drawn :: s.intents, drawn := s.drawn + 1, point := .failing }, [])
  | .failed false => ({ s with point := .failing }, [])

def putDone (ok stored : Bool) : State × List Event :=
  let s := { s with objects := if ok || stored then s.transientPrefix.toList ++ s.objects else s.objects }
  if !ok then ({ s with point := .failing }, [])
  else if s.cleanupRequested then deleteTransientUnsafe s .cancelled
  else ({ s with point := .revising }, [])

def presigned (accessible : Option Bool) : State × List Event :=
  match accessible with
  | none => ({ s with point := .failing }, [])
  | some true => ({ s with preparedPayload := true, point := .idle }, [.prepared])
  | some false => deleteTransientUnsafe s .inaccessible

def audioRead (ok : Bool) : State × List Event :=
  if !ok then ({ s with point := .failing }, [])
  else if s.cleanupRequested then ({ s with preparedPayload := true, point := .failing }, [])
  else ({ s with preparedPayload := true, point := .idle }, [.prepared])

def reported (ok : Bool) (kept : List ℕ) : State × List Event :=
  let s := { s with objects := s.objects.filter (· ∈ kept) }
  if ok then deleteTransientUnsafe s .failed else ({ s with point := .idle }, [.prepareFailed])

def prefixDeleted (caller : Caller) (deletingPrefix : ℕ) (ok : Bool) (kept : List ℕ) : State × List Event :=
  if ok then
    let s := { s with objects := s.objects.filter (· ≠ deletingPrefix) }
    match s.transientTransferIntentId with
    | some _ => ({ s with point := .completingIntent caller deletingPrefix }, [])
    | none => afterDelete (forget s deletingPrefix) caller true
  else afterDelete { s with objects := s.objects.filter (· ∈ kept) } caller false

/-- `completeMeetingObjectTransferIntent`: the row must be there. -/
def intentCompleted (caller : Caller) (deletingPrefix : ℕ) (ok deleted : Bool) : State × List Event :=
  let isCurrent (intent : ℕ) : Bool := s.transientTransferIntentId = some intent
  let remaining := s.intents.filter fun intent => !isCurrent intent
  if ok && s.intents.any isCurrent then afterDelete (forget { s with intents := remaining } deletingPrefix) caller true
  else afterDelete { s with intents := if deleted then remaining else s.intents } caller false

def directoryRemoved (deletionFailed ok gone : Bool) : State × List Event :=
  let s := { s with directory := s.directory && !(ok || gone), cleanupInFlight := false, point := .idle }
  if ok && !deletionFailed then ({ s with cleanupComplete := true }, [.cleanupResolved]) else (s, [.cleanupRejected])

def step (action : Action) : Option (State × List Event) :=
  match action, s.point with
  | .callPrepare, _ => some ({ s with lifecycleTail := s.lifecycleTail ++ [.prepare] }, [])
  | .callCleanup, _ => some (callCleanup s)
  | .start, _ => start s
  | .normalized ok supportsPresignedGet, .normalizing => some (normalized s ok supportsPresignedGet, [])
  | .began result, .beginning => some (began s result)
  | .putDone ok stored, .putting => some (putDone s ok stored)
  | .revised ok, .revising => some ({ s with point := if ok then .presigning else .failing }, [])
  | .presigned accessible, .presigning => some (presigned s accessible)
  | .audioRead ok, .reading => some (audioRead s ok)
  | .reported ok kept, .failing => some (reported s ok kept)
  | .prefixDeleted ok kept, .deletingPrefix caller deletingPrefix =>
    some (prefixDeleted s caller deletingPrefix ok kept)
  | .intentCompleted ok deleted, .completingIntent caller deletingPrefix =>
    some (intentCompleted s caller deletingPrefix ok deleted)
  | .directoryRemoved ok gone, .removingDirectory deletionFailed => some (directoryRemoved s deletionFailed ok gone)
  | _, _ => none

/-- A step with the events that come of it. -/
def Step (s : State) (label : Action × List Event) (t : State) : Prop := step s label.1 = some (t, label.2)

end OwnMinutes.AsrTransient.Snapshot
