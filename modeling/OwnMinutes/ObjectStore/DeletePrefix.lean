import OwnMinutes.ObjectStore.CorrectListings
import Mathlib.Logic.Relation

/-! # Deleting the objects under a prefix

The current keys are listed and deleted by some requests at a time; for a versioned provider the versions and delete
markers that are left are listed and deleted too. A last listing has to find nothing. The service applies a request
that succeeds before it answers, and one that failed for the caller at any time, or never. -/

namespace OwnMinutes.ObjectStore.DeletePrefix

open OwnMinutes.ObjectStore.Keys OwnMinutes.ObjectStore.Listing OwnMinutes.ObjectStore.CorrectListings

/-! ### The bucket -/

/-- A version of an object, or a delete marker. -/
structure Version where
  key : Text
  versionId : Text
  isDeleteMarker : Bool
  key_ne : key ≠ []
  versionId_ne : versionId ≠ []
  deriving DecidableEq

/-- What is stored, the newest first. -/
abbrev Bucket := List Version

inductive Versioning
  | off
  | enabled
  | suspended
  deriving DecidableEq, Repr

/-- The latest version of a key is an object. -/
def IsCurrent (bucket : Bucket) (key : Text) : Prop :=
  ∃ version, bucket.find? (fun version => version.key = key) = some version ∧ version.isDeleteMarker = false

instance (bucket : Bucket) (key : Text) : Decidable (IsCurrent bucket key) :=
  decidable_of_iff ((bucket.find? fun version => version.key = key).any fun version => !version.isDeleteMarker) (by
    unfold IsCurrent
    cases bucket.find? fun version => version.key = key <;> simp)

/-- A DELETE request, for a key or for one version of it. -/
structure Delete where
  key : Text
  versionId : Option Text
  deriving DecidableEq, Repr

def nullVersion : Text := "null".toList

/-- What the service makes of a DELETE request. (A path without a key is no request for an object.) -/
inductive Applied : Versioning → Delete → Bucket → Bucket → Prop
  | version {versioning : Versioning} {bucket : Bucket} (key versionId : Text) :
      Applied versioning ⟨key, some versionId⟩ bucket
        (bucket.filter fun version => ¬ (version.key = key ∧ version.versionId = versionId))
  | removed {bucket : Bucket} (key : Text) :
      Applied .off ⟨key, none⟩ bucket (bucket.filter fun version => version.key ≠ key)
  | marked {bucket : Bucket} (marker : Version) (hmarker : marker.isDeleteMarker = true)
      (hnew : ∀ version ∈ bucket, version.key = marker.key → version.versionId ≠ marker.versionId) :
      Applied .enabled ⟨marker.key, none⟩ bucket (marker :: bucket)
  | replaced {bucket : Bucket} (marker : Version) (hmarker : marker.isDeleteMarker = true)
      (hnull : marker.versionId = nullVersion) :
      Applied .suspended ⟨marker.key, none⟩ bucket
        (marker :: bucket.filter fun version => ¬ (version.key = marker.key ∧ version.versionId = nullVersion))

/-! ### Correct listings of the bucket -/

def stored (version : Version) : StoredObjectVersion := ⟨version.key, version.versionId⟩

/-- The pages show each current key under the prefix once. -/
structure ListsCurrent (refs : Text → Char → Prop) (bucket : Bucket) (scopedPrefix : Text) (answer : Query → Text)
    (listing : Paged Text Text) : Prop extends ListsKeys refs answer scopedPrefix listing where
  nodup : listing.items.Nodup
  mem_iff : ∀ key, key ∈ listing.items ↔ withSlash scopedPrefix <+: key ∧ IsCurrent bucket key

/-- The pages show the versions and delete markers under the prefix. -/
structure ListsStored (refs : Text → Char → Prop) (bucket : Bucket) (scopedPrefix : Text) (answer : Query → Text)
    (listing : Paged StoredObjectVersion (Text × Text)) : Prop
    extends ListsVersions refs answer scopedPrefix listing where
  perm : listing.items.Perm ((bucket.filter fun version => withSlash scopedPrefix <+: version.key).map stored)

/-! ### The run -/

inductive Phase
  | listingKeys
  | deletingKeys
  | listingVersions
  | deletingVersions
  | verifying
  | returned
  | threw
  deriving DecidableEq, Repr

structure State where
  bucket : Bucket
  phase : Phase
  /-- The items that `runWithConcurrency` has not taken yet: listed keys, with the version ids of the second pass. -/
  waiting : List Delete
  /-- The requests without an answer, one of each busy runner. -/
  inFlight : List Delete
  /-- The runners that may take an item. -/
  idle : ℕ
  /-- The requests that failed for the caller. -/
  lost : List Delete
  /-- The requests so far. -/
  sent : List Delete
  /-- A request failed. -/
  failed : Bool

def start (bucket : Bucket) : State := ⟨bucket, .listingKeys, [], [], 0, [], [], false⟩

/-- `config.provider !== "r2"`. -/
def versionAware (config : S3CompatibleConfig) : Bool := config.provider != .r2

/-- `runWithConcurrency(items, getObjectStoreDeleteConcurrency(), …)`. -/
def State.delete (config : S3CompatibleConfig) (phase : Phase) (items : List Delete) (s : State) : State :=
  { s with phase, waiting := items, idle := min config.deleteConcurrency items.length }

/-- The answers to all requests of a listing. -/
def answered (answer : Query → Text) : ℕ → Query → Except String Text := fun _ query => .ok (answer query)

section Steps
variable (config : S3CompatibleConfig) (scopedPrefix : Text)

/-- What the service does: the state of its versioning, the references that it writes, and the numbers of pages that its
listings have. -/
structure Service where
  versioning : Versioning
  refs : Text → Char → Prop
  pages : ℕ → Prop

variable (service : Service)

/-- The first listing and the last one see the bucket as it is. -/
inductive KeysListed (s : State) : Except String (List Text) → Prop
  | mk {answer : Query → Text} {listing : Paged Text Text} {fuel : ℕ} {result : Except String (List Text)}
      (hlisting : ListsCurrent service.refs s.bucket scopedPrefix answer listing) (hpages : service.pages listing.pages)
      (hresult : listObjectKeys scopedPrefix (answered answer) fuel = some result) : KeysListed s result

inductive VersionsListed (s : State) : Except String (List StoredObjectVersion) → Prop
  | mk {answer : Query → Text} {listing : Paged StoredObjectVersion (Text × Text)} {fuel : ℕ}
      {result : Except String (List StoredObjectVersion)}
      (hlisting : ListsStored service.refs s.bucket scopedPrefix answer listing) (hpages : service.pages listing.pages)
      (hresult : listObjectVersions scopedPrefix (answered answer) fuel = some result) : VersionsListed s result

/-- `versionAware ? listObjectVersions(…) : Promise.resolve([])`. -/
inductive RemainingVersions (s : State) : Except String (List StoredObjectVersion) → Prop
  | listed {result : Except String (List StoredObjectVersion)} (haware : versionAware config = true)
      (h : VersionsListed scopedPrefix service s result) : RemainingVersions s result
  | none (haware : versionAware config = false) : RemainingVersions s (.ok [])

inductive Step : State → State → Prop
  | keys {s : State} {keys : List Text} (hphase : s.phase = .listingKeys)
      (h : KeysListed scopedPrefix service s (.ok keys)) :
      Step s (s.delete config .deletingKeys (keys.map fun key => ⟨key, none⟩))
  | keysThrow {s : State} {message : String} (hphase : s.phase = .listingKeys)
      (h : KeysListed scopedPrefix service s (.error message)) : Step s { s with phase := .threw }
  /-- A request of a listing fails. -/
  | listingFails {s : State} (hphase : s.phase ∈ [.listingKeys, .listingVersions, .verifying]) :
      Step s { s with phase := .threw, failed := true }
  /-- A runner takes an item and sends its request. -/
  | take {s : State} {item : Delete} {rest : List Delete} {idle : ℕ} {named : Text} (hwaiting : s.waiting = item :: rest)
      (hidle : s.idle = idle + 1) (hnamed : requestedKey item.key = some named) :
      Step s { s with
        waiting := rest
        idle := idle
        inFlight := ⟨named, item.versionId⟩ :: s.inFlight
        sent := ⟨named, item.versionId⟩ :: s.sent }
  /-- The key of the item is invalid. -/
  | refuse {s : State} {item : Delete} {rest : List Delete} {idle : ℕ} (hwaiting : s.waiting = item :: rest)
      (hidle : s.idle = idle + 1) (hnamed : requestedKey item.key = none) :
      Step s { s with phase := .threw, waiting := rest, idle := idle }
  | succeed {s : State} {request : Delete} {before after : List Delete} {bucket : Bucket}
      (hrequest : s.inFlight = before ++ request :: after)
      (happlied : Applied service.versioning request s.bucket bucket) :
      Step s { s with bucket, inFlight := before ++ after, idle := s.idle + 1 }
  /-- `Promise.all` rejects with the first failure, while the other runners go on. -/
  | fail {s : State} {request : Delete} {before after : List Delete}
      (hrequest : s.inFlight = before ++ request :: after) :
      Step s { s with phase := .threw, inFlight := before ++ after, lost := request :: s.lost, failed := true }
  | late {s : State} {request : Delete} {bucket : Bucket} (hrequest : request ∈ s.lost)
      (happlied : Applied service.versioning request s.bucket bucket) : Step s { s with bucket }
  | keysDeleted {s : State} (hphase : s.phase = .deletingKeys) (hdone : s.waiting = [] ∧ s.inFlight = []) :
      Step s { s with phase := if versionAware config then .listingVersions else .verifying }
  | versions {s : State} {versions : List StoredObjectVersion} (hphase : s.phase = .listingVersions)
      (h : VersionsListed scopedPrefix service s (.ok versions)) :
      Step s (s.delete config .deletingVersions (versions.map fun version => ⟨version.key, some version.versionId⟩))
  | versionsThrow {s : State} {message : String} (hphase : s.phase = .listingVersions)
      (h : VersionsListed scopedPrefix service s (.error message)) : Step s { s with phase := .threw }
  | versionsDeleted {s : State} (hphase : s.phase = .deletingVersions) (hdone : s.waiting = [] ∧ s.inFlight = []) :
      Step s { s with phase := .verifying }
  | verify {s : State} {remainingKeys : List Text} {remainingVersions : List StoredObjectVersion}
      (hphase : s.phase = .verifying) (hkeys : KeysListed scopedPrefix service s (.ok remainingKeys))
      (hversions : RemainingVersions config scopedPrefix service s (.ok remainingVersions)) :
      Step s { s with phase := if remainingKeys = [] ∧ remainingVersions = [] then .returned else .threw }
  | verifyThrows {s : State} {message : String} (hphase : s.phase = .verifying)
      (h : KeysListed scopedPrefix service s (.error message) ∨
        RemainingVersions config scopedPrefix service s (.error message)) : Step s { s with phase := .threw }

/-- The states of the runs of `deletePrefix` on a bucket, whose scoped prefix is that of the call. -/
abbrev Reached (bucket : Bucket) : State → Prop :=
  Relation.ReflTransGen (Step config scopedPrefix service) (start bucket)

end Steps

end OwnMinutes.ObjectStore.DeletePrefix
