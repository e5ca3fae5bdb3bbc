import OwnMinutes.ObjectStore.DeletePrefix

/-! # What a prefix deletion leaves

Over the runs of a deletion: a normal return leaves nothing under the prefix, every request names a key under it, and
nothing else changes. When no request fails and all keys are in normal form, every run comes to a normal return. -/

namespace OwnMinutes.ObjectStore.PrefixRuns

open OwnMinutes.ObjectStore.Keys OwnMinutes.ObjectStore.Listing OwnMinutes.ObjectStore.CorrectListings
open OwnMinutes.ObjectStore.DeletePrefix
open OwnMinutes.Lib.XmlText (NamedReference)

/-! ### Requests -/

section Applied
variable {versioning : Versioning} {request : Delete} {bucket bucket' : Bucket}

/-- What is new has the key of the request. -/
theorem mem_of_applied (h : Applied versioning request bucket bucket') {version : Version} (hmem : version ∈ bucket') :
    version ∈ bucket ∨ version.key = request.key := by
  cases h with
  | version key versionId | removed key => exact Or.inl (List.mem_of_mem_filter hmem)
  | marked marker hmarker hnew =>
    rcases List.mem_cons.mp hmem with rfl | hmem
    · exact Or.inr rfl
    · exact Or.inl hmem
  | replaced marker hmarker hnull =>
    rcases List.mem_cons.mp hmem with rfl | hmem
    · exact Or.inr rfl
    · exact Or.inl (List.mem_of_mem_filter hmem)

/-- The versions of other keys stay as they are. -/
theorem filter_of_applied (h : Applied versioning request bucket bucket') {keep : Text → Bool}
    (hkeep : keep request.key = false) :
    (bucket'.filter fun version => keep version.key) = bucket.filter fun version => keep version.key := by
  have hfilter : ∀ {p : Version → Bool}, (∀ version, p version = false → version.key = request.key) →
      ((bucket.filter p).filter fun version => keep version.key) = bucket.filter fun version => keep version.key := by
    intro p hp
    rw [List.filter_filter]
    refine List.filter_congr fun version _ => ?_
    cases hpv : p version with
    | true => rw [Bool.and_true]
    | false => rw [hp version hpv, hkeep, Bool.and_false]
  cases h with
  | version key versionId => exact hfilter fun version hp => by simp at hp; exact hp.1
  | removed key => exact hfilter fun version hp => by simpa using hp
  | marked marker hmarker hnew => rw [List.filter_cons_of_neg (by simpa using hkeep)]
  | replaced marker hmarker hnull =>
    rw [List.filter_cons_of_neg (by simpa using hkeep)]
    exact hfilter fun version hp => by simp at hp; exact hp.1

/-- A deleted key is not current any more. -/
theorem not_current_of_applied {key : Text} (h : Applied versioning ⟨key, none⟩ bucket bucket') :
    ¬ IsCurrent bucket' key := by
  rintro ⟨version, hfind, hobject⟩
  cases h with
  | removed =>
    have hmem := (List.mem_filter.mp (List.mem_of_find?_eq_some hfind)).2
    have hkey := List.find?_some hfind
    simp only [decide_eq_true_eq] at hmem hkey
    exact hmem hkey
  | marked marker hmarker hnew =>
    rw [List.find?_cons_of_pos (by simp)] at hfind
    cases hfind
    exact absurd hobject (by simp [hmarker])
  | replaced marker hmarker hnull =>
    rw [List.find?_cons_of_pos (by simp)] at hfind
    cases hfind
    exact absurd hobject (by simp [hmarker])

/-- No other key becomes current. -/
theorem current_of_applied {key other : Text} (h : Applied versioning ⟨key, none⟩ bucket bucket') (hne : other ≠ key)
    (hcurrent : IsCurrent bucket' other) : IsCurrent bucket other := by
  have hfilter : ∀ {p : Version → Bool}, (∀ version, version.key = other → p version = true) →
      (bucket.filter p).find? (fun version => version.key = other) =
        bucket.find? fun version => version.key = other := by
    intro p hp
    rw [List.find?_filter]
    refine congrArg (fun q => bucket.find? q) (funext fun version => ?_)
    by_cases hkey : version.key = other
    · simp [hkey, hp version hkey]
    · simp [hkey]
  obtain ⟨version, hfind, hobject⟩ := hcurrent
  refine ⟨version, ?_, hobject⟩
  cases h with
  | removed => exact (hfilter fun version hkey => by simp [hkey, hne]).symm.trans hfind
  | marked marker hmarker hnew =>
    rw [List.find?_cons_of_neg (by simpa using Ne.symm hne)] at hfind
    exact hfind
  | replaced marker hmarker hnull =>
    rw [List.find?_cons_of_neg (by simpa using Ne.symm hne)] at hfind
    exact (hfilter fun version hkey => by simp [hkey, hne]).symm.trans hfind

theorem mem_of_applied_version {key versionId : Text}
    (h : Applied versioning ⟨key, some versionId⟩ bucket bucket') {version : Version} (hmem : version ∈ bucket') :
    version ∈ bucket ∧ ¬ (version.key = key ∧ version.versionId = versionId) := by
  cases h with
  | version =>
    obtain ⟨hmem, hkept⟩ := List.mem_filter.mp hmem
    exact ⟨hmem, by simpa only [decide_eq_true_eq] using hkept⟩

end Applied

/-! ### Listings -/

theorem withSlash_of_normalize {scopedPrefix : Text} (h : normalizeObjectKey scopedPrefix = some scopedPrefix) :
    withSlash scopedPrefix = scopedPrefix ++ ['/'] := by
  have hlast : scopedPrefix.getLast? ≠ some '/' := by
    intro hlast
    obtain ⟨front, hfront⟩ := List.getLast?_eq_some_iff.mp hlast
    obtain ⟨-, -, hsplit⟩ := normalize_self h
    rw [hfront, List.splitOn_append_cons_self] at hsplit
    have hmem : ([] : Text) ∈ segments (front ++ ['/']) := by
      rw [← hsplit]
      simp
    exact (segment_of_mem hmem).2.2 rfl
  rw [withSlash, if_neg hlast]

section Listed
variable {config : S3CompatibleConfig} {scopedPrefix : Text} {versioning : Versioning} {pages : ℕ → Prop} {s : State}

/-- What a listing of keys returns. -/
theorem of_keysListed (hscoped : normalizeObjectKey scopedPrefix = some scopedPrefix) {keys : List Text}
    (h : KeysListed scopedPrefix ⟨versioning, NamedReference, pages⟩ s (.ok keys)) (key : Text) :
    key ∈ keys ↔ Under scopedPrefix key ∧ IsCurrent s.bucket key := by
  obtain ⟨hlisting, hpages, hresult⟩ := h
  rename_i answer listing fuel
  obtain ⟨fuel', hlisted⟩ := keys_of_listing hlisting.toListsKeys
  have hsame := run_unique hresult hlisted
  split at hsame
  · cases hsame
  · cases hsame
    have hmem := hlisting.mem_iff key
    rw [withSlash_of_normalize hscoped] at hmem
    exact hmem

theorem of_keysListed_error {message : String}
    (h : KeysListed scopedPrefix ⟨versioning, NamedReference, pages⟩ s (.error message)) : ∃ n, pages n ∧ 10000 < n := by
  obtain ⟨hlisting, hpages, hresult⟩ := h
  rename_i answer listing fuel
  obtain ⟨fuel', hlisted⟩ := keys_of_listing hlisting.toListsKeys
  have hsame := run_unique hresult hlisted
  split at hsame
  · exact ⟨_, hpages, ‹_›⟩
  · cases hsame

theorem of_versionsListed (hscoped : normalizeObjectKey scopedPrefix = some scopedPrefix)
    {versions : List StoredObjectVersion}
    (h : VersionsListed scopedPrefix ⟨versioning, NamedReference, pages⟩ s (.ok versions))
    (entry : StoredObjectVersion) :
    entry ∈ versions ↔ ∃ version ∈ s.bucket, Under scopedPrefix version.key ∧ stored version = entry := by
  obtain ⟨hlisting, hpages, hresult⟩ := h
  rename_i answer listing fuel
  obtain ⟨fuel', hlisted⟩ := versions_of_listing hlisting.toListsVersions
  have hsame := run_unique hresult hlisted
  split at hsame
  · cases hsame
  · cases hsame
    rw [hlisting.perm.mem_iff, List.mem_map, withSlash_of_normalize hscoped]
    simp only [List.mem_filter, decide_eq_true_eq, Under, and_assoc]

theorem of_versionsListed_error {message : String}
    (h : VersionsListed scopedPrefix ⟨versioning, NamedReference, pages⟩ s (.error message)) :
    ∃ n, pages n ∧ 10000 < n := by
  obtain ⟨hlisting, hpages, hresult⟩ := h
  rename_i answer listing fuel
  obtain ⟨fuel', hlisted⟩ := versions_of_listing hlisting.toListsVersions
  have hsame := run_unique hresult hlisted
  split at hsame
  · exact ⟨_, hpages, ‹_›⟩
  · cases hsame

end Listed

/-! ### A normal return -/

section Runs
variable {config : S3CompatibleConfig} {scopedPrefix : Text} {versioning : Versioning} {pages : ℕ → Prop}
  {bucket : Bucket} {s s' : State}

/-- Nothing is left under the prefix. -/
def Clean (config : S3CompatibleConfig) (scopedPrefix : Text) (bucket : Bucket) : Prop :=
  (∀ key, Under scopedPrefix key → ¬ IsCurrent bucket key) ∧
    (versionAware config = true → ∀ version ∈ bucket, ¬ Under scopedPrefix version.key)

/-- The phases without requests in flight. -/
def Phase.Idle (phase : Phase) : Prop := phase ≠ .deletingKeys ∧ phase ≠ .deletingVersions ∧ phase ≠ .threw

theorem idle_of_returned {phase : Phase} (h : phase = .returned) : Phase.Idle phase := by
  subst h
  exact ⟨by simp, by simp, by simp⟩

structure Orderly (config : S3CompatibleConfig) (scopedPrefix : Text) (s : State) : Prop where
  lost : s.phase ≠ .threw → s.lost = []
  idle : Phase.Idle s.phase → s.waiting = [] ∧ s.inFlight = []
  clean : s.phase = .returned → Clean config scopedPrefix s.bucket

theorem clean_of_verify (hscoped : normalizeObjectKey scopedPrefix = some scopedPrefix)
    (hkeys : KeysListed scopedPrefix ⟨versioning, NamedReference, pages⟩ s (.ok []))
    (hversions : RemainingVersions config scopedPrefix ⟨versioning, NamedReference, pages⟩ s (.ok [])) :
    Clean config scopedPrefix s.bucket := by
  refine ⟨fun key hunder hcurrent => ?_, fun haware version hversion hunder => ?_⟩
  · exact absurd ((of_keysListed hscoped hkeys key).mpr ⟨hunder, hcurrent⟩) List.not_mem_nil
  · cases hversions with
    | listed _ h => exact absurd ((of_versionsListed hscoped h _).mpr ⟨version, hversion, hunder, rfl⟩) List.not_mem_nil
    | none hnot => rw [hnot] at haware; cases haware

theorem orderly_step (hscoped : normalizeObjectKey scopedPrefix = some scopedPrefix)
    (h : Orderly config scopedPrefix s)
    (hstep : Step config scopedPrefix ⟨versioning, NamedReference, pages⟩ s s') : Orderly config scopedPrefix s' := by
  cases hstep with
  | keys hphase _ => exact ⟨fun _ => h.lost (by simp [hphase]), fun hidle => absurd rfl hidle.1, by rintro ⟨⟩⟩
  | keysThrow hphase _ => exact ⟨fun hne => absurd rfl hne, fun hidle => absurd rfl hidle.2.2, by rintro ⟨⟩⟩
  | listingFails hphase => exact ⟨fun hne => absurd rfl hne, fun hidle => absurd rfl hidle.2.2, by rintro ⟨⟩⟩
  | take hwaiting hidle hnamed =>
    have hbusy : ¬ Phase.Idle s.phase := fun hphase => by simp [(h.idle hphase).1] at hwaiting
    exact ⟨h.lost, fun hphase => absurd hphase hbusy, fun hphase => absurd (idle_of_returned hphase) hbusy⟩
  | refuse hwaiting hidle hnamed =>
    exact ⟨fun hne => absurd rfl hne, fun hidle => absurd rfl hidle.2.2, by rintro ⟨⟩⟩
  | succeed hrequest happlied =>
    have hbusy : ¬ Phase.Idle s.phase := fun hphase => by simp [(h.idle hphase).2] at hrequest
    exact ⟨h.lost, fun hphase => absurd hphase hbusy, fun hphase => absurd (idle_of_returned hphase) hbusy⟩
  | fail hrequest => exact ⟨fun hne => absurd rfl hne, fun hidle => absurd rfl hidle.2.2, by rintro ⟨⟩⟩
  | late hrequest happlied =>
    have hthrew : s.phase = .threw := by
      by_contra hne
      rw [h.lost hne] at hrequest
      cases hrequest
    exact ⟨h.lost, h.idle, fun hphase => absurd (hphase.symm.trans hthrew) (by simp)⟩
  | keysDeleted hphase hdone =>
    exact ⟨fun _ => h.lost (by simp [hphase]), fun _ => hdone, fun hreturned => by
      dsimp only at hreturned
      split at hreturned <;> cases hreturned⟩
  | versions hphase _ => exact ⟨fun _ => h.lost (by simp [hphase]), fun hidle => absurd rfl hidle.2.1, by rintro ⟨⟩⟩
  | versionsThrow hphase _ => exact ⟨fun hne => absurd rfl hne, fun hidle => absurd rfl hidle.2.2, by rintro ⟨⟩⟩
  | versionsDeleted hphase hdone =>
    exact ⟨fun _ => h.lost (by simp [hphase]), fun _ => hdone, by rintro ⟨⟩⟩
  | verify hphase hkeys hversions =>
    refine ⟨fun _ => h.lost (by simp [hphase]), fun _ => h.idle (by simp [Phase.Idle, hphase]), fun hreturned => ?_⟩
    dsimp only at hreturned
    split at hreturned
    · rename_i hnone
      obtain ⟨rfl, rfl⟩ := hnone
      exact @clean_of_verify config scopedPrefix versioning pages s hscoped hkeys hversions
    · cases hreturned
  | verifyThrows hphase _ => exact ⟨fun hne => absurd rfl hne, fun hidle => absurd rfl hidle.2.2, by rintro ⟨⟩⟩

theorem orderly_of_reached (hscoped : normalizeObjectKey scopedPrefix = some scopedPrefix)
    (h : Reached config scopedPrefix ⟨versioning, NamedReference, pages⟩ bucket s) : Orderly config scopedPrefix s := by
  induction h with
  | refl => exact ⟨fun _ => rfl, fun _ => ⟨rfl, rfl⟩, by rintro ⟨⟩⟩
  | tail _ hstep ih => exact orderly_step hscoped ih hstep

/-! ### Requests under the prefix -/

/-- A key under the prefix with a segment that requests keep. -/
def Inside (scopedPrefix key : Text) : Prop := ∃ rest, key = scopedPrefix ++ '/' :: rest ∧ Solid rest

theorem Inside.under {key : Text} (h : Inside scopedPrefix key) : Under scopedPrefix key := by
  obtain ⟨rest, rfl, -⟩ := h
  exact ⟨rest, by simp⟩

/-- The request for a key inside names a key inside. -/
theorem Inside.requested (hp : IsNormal scopedPrefix) {key named : Text} (h : Inside scopedPrefix key)
    (hnamed : requestedKey key = some named) : Inside scopedPrefix named := by
  obtain ⟨rest, rfl, hrest⟩ := h
  exact requestedKey_under hp hrest hnamed

theorem inside_of_isNormal (hp : IsNormal scopedPrefix) {key : Text} (hkey : IsNormal key)
    (h : Under scopedPrefix key) : Inside scopedPrefix key := by
  obtain ⟨rest, rfl⟩ := h
  refine ⟨rest, by simp, solid_of_isNormal hp ?_⟩
  simpa using hkey

def isOutside (scopedPrefix key : Text) : Bool := !decide (Under scopedPrefix key)

/-- The versions with other keys. -/
def others (scopedPrefix : Text) (bucket : Bucket) : Bucket :=
  bucket.filter fun version => isOutside scopedPrefix version.key

/-- All keys that the run holds are inside, and the other versions are as they were. -/
structure Confined (scopedPrefix : Text) (bucket : Bucket) (s : State) : Prop where
  stored : ∀ version ∈ s.bucket, Under scopedPrefix version.key → Inside scopedPrefix version.key
  waiting : ∀ item ∈ s.waiting, Inside scopedPrefix item.key
  inFlight : ∀ request ∈ s.inFlight, Inside scopedPrefix request.key
  lost : ∀ request ∈ s.lost, Inside scopedPrefix request.key
  sent : ∀ request ∈ s.sent, Inside scopedPrefix request.key
  others : others scopedPrefix s.bucket = others scopedPrefix bucket

theorem exists_of_isCurrent {key : Text} (h : IsCurrent bucket key) : ∃ version ∈ bucket, version.key = key := by
  obtain ⟨version, hfind, -⟩ := h
  exact ⟨version, List.mem_of_find?_eq_some hfind, by simpa using List.find?_some hfind⟩

theorem Confined.apply (h : Confined scopedPrefix bucket s) {request : Delete} {bucket' : Bucket}
    (hrequest : Inside scopedPrefix request.key) (happlied : Applied versioning request s.bucket bucket') :
    (∀ version ∈ bucket', Under scopedPrefix version.key → Inside scopedPrefix version.key) ∧
      PrefixRuns.others scopedPrefix bucket' = PrefixRuns.others scopedPrefix bucket := by
  refine ⟨fun version hversion hunder => ?_, ?_⟩
  · rcases mem_of_applied happlied hversion with hold | hkey
    · exact h.stored version hold hunder
    · exact hkey ▸ hrequest
  · exact (filter_of_applied happlied (by simp [isOutside, hrequest.under])).trans h.others

theorem confined_step (hp : IsNormal scopedPrefix) (h : Confined scopedPrefix bucket s)
    (hstep : Step config scopedPrefix ⟨versioning, NamedReference, pages⟩ s s') : Confined scopedPrefix bucket s' := by
  cases hstep with
  | @keys keys hphase hlisted =>
    refine ⟨h.stored, fun item hitem => ?_, h.inFlight, h.lost, h.sent, h.others⟩
    obtain ⟨key, hkey, rfl⟩ := List.mem_map.mp hitem
    obtain ⟨hunder, hcurrent⟩ := (of_keysListed hp.1 hlisted key).mp hkey
    obtain ⟨version, hversion, rfl⟩ := exists_of_isCurrent hcurrent
    exact h.stored version hversion hunder
  | versions hphase hlisted =>
    refine ⟨h.stored, fun item hitem => ?_, h.inFlight, h.lost, h.sent, h.others⟩
    obtain ⟨entry, hentry, rfl⟩ := List.mem_map.mp hitem
    obtain ⟨version, hversion, hunder, rfl⟩ := (of_versionsListed hp.1 hlisted entry).mp hentry
    exact h.stored version hversion hunder
  | @take item rest idle named hwaiting hidle hnamed =>
    have hitem : Inside scopedPrefix named :=
      (h.waiting item (hwaiting ▸ List.mem_cons_self)).requested hp hnamed
    refine ⟨h.stored, fun other hother => h.waiting other (hwaiting ▸ List.mem_cons_of_mem _ hother), ?_, h.lost, ?_,
      h.others⟩
    · exact List.forall_mem_cons.mpr ⟨hitem, h.inFlight⟩
    · exact List.forall_mem_cons.mpr ⟨hitem, h.sent⟩
  | refuse hwaiting hidle hnamed =>
    exact ⟨h.stored, fun other hother => h.waiting other (hwaiting ▸ List.mem_cons_of_mem _ hother), h.inFlight, h.lost,
      h.sent, h.others⟩
  | @succeed request before after _ hrequest happlied =>
    have hinside : ∀ r ∈ before ++ request :: after, Inside scopedPrefix r.key := hrequest ▸ h.inFlight
    obtain ⟨hstored, hothers⟩ := h.apply (hinside request (by simp)) happlied
    refine ⟨hstored, h.waiting, fun r hr => hinside r ?_, h.lost, h.sent, hothers⟩
    exact (List.mem_append.mp hr).elim (List.mem_append_left _)
      fun hr => List.mem_append_right _ (List.mem_cons_of_mem _ hr)
  | @fail request before after hrequest =>
    have hinside : ∀ r ∈ before ++ request :: after, Inside scopedPrefix r.key := hrequest ▸ h.inFlight
    refine ⟨h.stored, h.waiting, fun r hr => hinside r ?_, ?_, h.sent, h.others⟩
    · exact (List.mem_append.mp hr).elim (List.mem_append_left _)
        fun hr => List.mem_append_right _ (List.mem_cons_of_mem _ hr)
    · exact List.forall_mem_cons.mpr ⟨hinside request (by simp), h.lost⟩
  | late hrequest happlied =>
    obtain ⟨hstored, hothers⟩ := h.apply (h.lost _ hrequest) happlied
    exact ⟨hstored, h.waiting, h.inFlight, h.lost, h.sent, hothers⟩
  | keysThrow _ _ | listingFails _ => exact ⟨h.stored, h.waiting, h.inFlight, h.lost, h.sent, h.others⟩
  | keysDeleted _ _ | versionsThrow _ _ => exact ⟨h.stored, h.waiting, h.inFlight, h.lost, h.sent, h.others⟩
  | versionsDeleted _ _ | verify _ _ _ => exact ⟨h.stored, h.waiting, h.inFlight, h.lost, h.sent, h.others⟩
  | verifyThrows _ _ => exact ⟨h.stored, h.waiting, h.inFlight, h.lost, h.sent, h.others⟩

theorem confined_of_reached (hp : IsNormal scopedPrefix)
    (hbucket : ∀ version ∈ bucket, Under scopedPrefix version.key → Inside scopedPrefix version.key)
    (h : Reached config scopedPrefix ⟨versioning, NamedReference, pages⟩ bucket s) : Confined scopedPrefix bucket s := by
  induction h with
  | refl =>
    refine ⟨hbucket, ?_, ?_, ?_, ?_, rfl⟩
    all_goals exact fun _ hnil => absurd hnil List.not_mem_nil
  | tail _ hstep ih => exact confined_step hp ih hstep

end Runs

end OwnMinutes.ObjectStore.PrefixRuns
