import OwnMinutes.ObjectStore.PrefixRuns
import Mathlib.Data.Fintype.EquivFin
import Mathlib.Data.List.Dedup
import Mathlib.Data.Prod.Lex
import Mathlib.Order.OrderIsoNat

/-! # Prefix deletions come to an end

Without failures and with all keys in normal form, the items and requests that are left cover what the next listing would
find. A run cannot get stuck, and in each step something is left less, so that it ends in a normal return. -/

namespace OwnMinutes.ObjectStore.PrefixDeleted

open OwnMinutes.ObjectStore.Keys OwnMinutes.ObjectStore.Listing OwnMinutes.ObjectStore.CorrectListings
open OwnMinutes.ObjectStore.DeletePrefix OwnMinutes.ObjectStore.PrefixRuns
open OwnMinutes.Lib.XmlText (NamedReference write)

variable {config : S3CompatibleConfig} {scopedPrefix : Text} {versioning : Versioning} {bucket : Bucket} {s s' : State}

/-- The service with listings that the loops read to their ends. -/
def bounded (versioning : Versioning) : Service := ⟨versioning, NamedReference, fun pages => pages ≤ 10000⟩

/-! ### What is left to do -/

def Pending (s : State) (request : Delete) : Prop := request ∈ s.waiting ∨ request ∈ s.inFlight

/-- What is pending covers what there is under the prefix. -/
def Covered (config : S3CompatibleConfig) (scopedPrefix : Text) (s : State) : Prop :=
  match s.phase with
  | .listingKeys => True
  | .deletingKeys => ∀ key, Under scopedPrefix key → IsCurrent s.bucket key → Pending s ⟨key, none⟩
  | .listingVersions => versionAware config = true
  | .deletingVersions => ∀ version ∈ s.bucket, Under scopedPrefix version.key →
      Pending s ⟨version.key, some version.versionId⟩
  | .verifying => Clean config scopedPrefix s.bucket
  | .returned => True
  | .threw => False

/-- The request is one of its pass, for a key in normal form. -/
structure Fits (scopedPrefix : Text) (phase : Phase) (request : Delete) : Prop where
  under : Under scopedPrefix request.key
  normal : IsNormal request.key
  keys : phase = .deletingKeys → request.versionId = none
  versions : phase = .deletingVersions → request.versionId ≠ none

structure Sound (config : S3CompatibleConfig) (scopedPrefix : Text) (s : State) : Prop where
  normal : ∀ version ∈ s.bucket, Under scopedPrefix version.key → IsNormal version.key
  pending : ∀ request, Pending s request → Fits scopedPrefix s.phase request
  runner : s.waiting = [] ∨ 0 < s.idle + s.inFlight.length
  idle : Phase.Idle s.phase → s.waiting = [] ∧ s.inFlight = []
  lost : s.lost = []
  covered : Covered config scopedPrefix s

theorem Sound.ne_threw (h : Sound config scopedPrefix s) : s.phase ≠ .threw := by
  intro hphase
  have hcovered := h.covered
  rw [Covered, hphase] at hcovered
  exact hcovered

/-- Requests are pending in the two passes only. -/
theorem Sound.deleting (h : Sound config scopedPrefix s) {request : Delete} (hpending : Pending s request) :
    s.phase = .deletingKeys ∨ s.phase = .deletingVersions := by
  by_contra hne
  obtain ⟨hkeys, hversions⟩ := not_or.mp hne
  obtain ⟨hwaiting, hinFlight⟩ := h.idle ⟨hkeys, hversions, h.ne_threw⟩
  rcases hpending with hmem | hmem
  · rw [hwaiting] at hmem
    cases hmem
  · rw [hinFlight] at hmem
    cases hmem

theorem sound_delete {phase : Phase} {items : List Delete} (h : Sound config scopedPrefix s)
    (hinFlight : s.inFlight = []) (hphase : phase = .deletingKeys ∨ phase = .deletingVersions)
    (hitems : ∀ item ∈ items, Fits scopedPrefix phase item)
    (hcovered : Covered config scopedPrefix (s.delete config phase items)) :
    Sound config scopedPrefix (s.delete config phase items) := by
  refine ⟨h.normal, fun request hpending => ?_, ?_, fun hidle => ?_, h.lost, hcovered⟩
  · rcases hpending with hmem | hmem
    · exact hitems request hmem
    · exact absurd (hinFlight ▸ hmem : request ∈ []) List.not_mem_nil
  · rcases items with _ | ⟨item, items⟩
    · exact Or.inl rfl
    · refine Or.inr ?_
      have hone := config.deleteConcurrency_range.1
      have hidle : (s.delete config phase (item :: items)).idle = min config.deleteConcurrency (items.length + 1) := rfl
      omega
  · rcases hphase with rfl | rfl
    · exact absurd rfl hidle.1
    · exact absurd rfl hidle.2.1

/-! ### Steps -/

theorem sound_take (h : Sound config scopedPrefix s) {item : Delete} {rest : List Delete} {idle : ℕ} {named : Text}
    (hwaiting : s.waiting = item :: rest) (hnamed : requestedKey item.key = some named) :
    Sound config scopedPrefix { s with
      waiting := rest
      idle := idle
      inFlight := ⟨named, item.versionId⟩ :: s.inFlight
      sent := ⟨named, item.versionId⟩ :: s.sent } := by
  have hitem : Pending s item := Or.inl (hwaiting ▸ List.mem_cons_self)
  -- a key in normal form names itself, so the request is the item
  obtain rfl : item.key = named := Option.some.inj ((requestedKey_of_isNormal (h.pending item hitem).normal).symm.trans hnamed)
  have hpending : ∀ request, Pending { s with
      waiting := rest
      idle := idle
      inFlight := ⟨item.key, item.versionId⟩ :: s.inFlight
      sent := ⟨item.key, item.versionId⟩ :: s.sent } request ↔ Pending s request := by
    intro request
    simp only [Pending, hwaiting, List.mem_cons]
    tauto
  refine ⟨h.normal, fun request hrequest => h.pending request ((hpending request).mp hrequest), Or.inr ?_,
    fun hphase => ?_, h.lost, ?_⟩
  · dsimp only
    rw [List.length_cons]
    omega
  · rcases h.deleting hitem with hdeleting | hdeleting
    · exact absurd hdeleting hphase.1
    · exact absurd hdeleting hphase.2.1
  · have hcovered := h.covered
    rcases h.deleting hitem with hphase | hphase
    · simp only [Covered, hphase] at hcovered ⊢
      exact fun key hunder hcurrent => (hpending _).mpr (hcovered key hunder hcurrent)
    · simp only [Covered, hphase] at hcovered ⊢
      exact fun version hversion hunder => (hpending _).mpr (hcovered version hversion hunder)

theorem sound_succeed (h : Sound config scopedPrefix s) {request : Delete} {before after : List Delete}
    {bucket : Bucket} (hrequest : s.inFlight = before ++ request :: after)
    (happlied : Applied versioning request s.bucket bucket) :
    Sound config scopedPrefix { s with bucket, inFlight := before ++ after, idle := s.idle + 1 } := by
  have hself : Pending s request := Or.inr (hrequest ▸ by simp)
  have hfits := h.pending request hself
  have hkept : ∀ other, Pending { s with bucket, inFlight := before ++ after, idle := s.idle + 1 } other →
      Pending s other := by
    rintro other (hmem | hmem)
    · exact Or.inl hmem
    · refine Or.inr (hrequest ▸ ?_)
      exact (List.mem_append.mp hmem).elim (List.mem_append_left _)
        fun hmem => List.mem_append_right _ (List.mem_cons_of_mem _ hmem)
  have hleft : ∀ other, Pending s other → other ≠ request →
      Pending { s with bucket, inFlight := before ++ after, idle := s.idle + 1 } other := by
    rintro other (hmem | hmem) hne
    · exact Or.inl hmem
    · rw [hrequest] at hmem
      refine Or.inr ?_
      rcases List.mem_append.mp hmem with hmem | hmem
      · exact List.mem_append_left _ hmem
      · exact List.mem_append_right _ ((List.mem_cons.mp hmem).resolve_left hne)
  have hnormal : ∀ version ∈ bucket, Under scopedPrefix version.key → IsNormal version.key := by
    intro version hversion hunder
    rcases mem_of_applied happlied hversion with hold | hkey
    · exact h.normal version hold hunder
    · exact hkey ▸ hfits.normal
  refine ⟨hnormal, fun other hother => h.pending other (hkept other hother), Or.inr (by dsimp only; omega),
    fun hphase => ?_, h.lost, ?_⟩
  · rcases h.deleting hself with hdeleting | hdeleting
    · exact absurd hdeleting hphase.1
    · exact absurd hdeleting hphase.2.1
  · have hcovered := h.covered
    rcases h.deleting hself with hphase | hphase
    · obtain ⟨key, versionId⟩ := request
      obtain rfl : versionId = none := hfits.keys hphase
      simp only [Covered, hphase] at hcovered ⊢
      intro other hunder hcurrent
      have hne : other ≠ key := by
        rintro rfl
        exact not_current_of_applied happlied hcurrent
      refine hleft _ (hcovered other hunder (current_of_applied happlied hne hcurrent)) fun hsame => hne ?_
      exact congrArg Delete.key hsame
    · obtain ⟨key, versionId⟩ := request
      obtain ⟨versionId, rfl⟩ := Option.ne_none_iff_exists'.mp (hfits.versions hphase)
      simp only [Covered, hphase] at hcovered ⊢
      intro version hversion hunder
      obtain ⟨hold, hother⟩ := mem_of_applied_version happlied hversion
      refine hleft _ (hcovered version hold hunder) fun hsame => hother ?_
      exact ⟨congrArg Delete.key hsame, Option.some.inj (congrArg Delete.versionId hsame)⟩

/-- Nothing is pending at the end of a pass, so the pass has covered everything. -/
theorem not_pending (hdone : s.waiting = [] ∧ s.inFlight = []) (request : Delete) : ¬ Pending s request := by
  rintro (hmem | hmem)
  · rw [hdone.1] at hmem
    cases hmem
  · rw [hdone.2] at hmem
    cases hmem

theorem Sound.advance (h : Sound config scopedPrefix s) (hdone : s.waiting = [] ∧ s.inFlight = []) {phase : Phase}
    (hcovered : Covered config scopedPrefix { s with phase }) : Sound config scopedPrefix { s with phase } :=
  ⟨h.normal, fun request hpending => absurd hpending (not_pending hdone request), Or.inl hdone.1, fun _ => hdone,
    h.lost, hcovered⟩

theorem clean_of_empty (h : ∀ version ∈ bucket, ¬ Under scopedPrefix version.key) : Clean config scopedPrefix bucket := by
  refine ⟨fun key hunder hcurrent => ?_, fun _ => h⟩
  obtain ⟨version, hversion, rfl⟩ := exists_of_isCurrent hcurrent
  exact h version hversion hunder

theorem nil_of_verify (hscoped : normalizeObjectKey scopedPrefix = some scopedPrefix)
    (hclean : Clean config scopedPrefix s.bucket) {keys : List Text} {versions : List StoredObjectVersion}
    (hkeys : KeysListed scopedPrefix (bounded versioning) s (.ok keys))
    (hversions : RemainingVersions config scopedPrefix (bounded versioning) s (.ok versions)) :
    keys = [] ∧ versions = [] := by
  constructor
  · refine List.eq_nil_iff_forall_not_mem.mpr fun key hkey => ?_
    obtain ⟨hunder, hcurrent⟩ := (of_keysListed hscoped hkeys key).mp hkey
    exact hclean.1 key hunder hcurrent
  · cases hversions with
    | listed haware h =>
      refine List.eq_nil_iff_forall_not_mem.mpr fun entry hentry => ?_
      obtain ⟨version, hversion, hunder, -⟩ := (of_versionsListed hscoped h entry).mp hentry
      exact hclean.2 haware version hversion hunder
    | none _ => rfl

theorem not_keysListed_error {message : String} :
    ¬ KeysListed scopedPrefix (bounded versioning) s (.error message) := by
  intro h
  obtain ⟨n, hle, hlt⟩ := of_keysListed_error h
  have hle : n ≤ 10000 := hle
  omega

theorem not_versionsListed_error {message : String} :
    ¬ VersionsListed scopedPrefix (bounded versioning) s (.error message) := by
  intro h
  obtain ⟨n, hle, hlt⟩ := of_versionsListed_error h
  have hle : n ≤ 10000 := hle
  omega

/-- **A step in which no request fails** keeps what is needed. -/
theorem sound_step (hp : IsNormal scopedPrefix) (h : Sound config scopedPrefix s)
    (hstep : Step config scopedPrefix (bounded versioning) s s') (hok : s'.failed = false) :
    Sound config scopedPrefix s' := by
  have hidle : ∀ {phase}, s.phase = phase → Phase.Idle phase → s.waiting = [] ∧ s.inFlight = [] :=
    fun hphase hidle => h.idle (hphase ▸ hidle)
  cases hstep with
  | @keys keys hphase hlisted =>
    refine sound_delete h (hidle hphase ⟨by simp, by simp, by simp⟩).2 (Or.inl rfl) (fun item hitem => ?_) ?_
    · obtain ⟨key, hkey, rfl⟩ := List.mem_map.mp hitem
      obtain ⟨hunder, hcurrent⟩ := (of_keysListed hp.1 hlisted key).mp hkey
      obtain ⟨version, hversion, rfl⟩ := exists_of_isCurrent hcurrent
      exact ⟨hunder, h.normal version hversion hunder, fun _ => rfl, by rintro ⟨⟩⟩
    · intro key hunder hcurrent
      exact Or.inl (List.mem_map.mpr ⟨key, (of_keysListed hp.1 hlisted key).mpr ⟨hunder, hcurrent⟩, rfl⟩)
  | @versions entries hphase hlisted =>
    refine sound_delete h (hidle hphase ⟨by simp, by simp, by simp⟩).2 (Or.inr rfl) (fun item hitem => ?_) ?_
    · obtain ⟨entry, hentry, rfl⟩ := List.mem_map.mp hitem
      obtain ⟨version, hversion, hunder, rfl⟩ := (of_versionsListed hp.1 hlisted entry).mp hentry
      exact ⟨hunder, h.normal version hversion hunder, (by rintro ⟨⟩), fun _ => by simp⟩
    · intro version hversion hunder
      have hentry := (of_versionsListed hp.1 hlisted (stored version)).mpr ⟨version, hversion, hunder, rfl⟩
      exact Or.inl (List.mem_map.mpr ⟨stored version, hentry, rfl⟩)
  | take hwaiting _ hnamed => exact sound_take h hwaiting hnamed
  | @refuse item rest idle hwaiting _ hnamed =>
    have hitem := h.pending item (Or.inl (hwaiting ▸ List.mem_cons_self))
    exact absurd ((requestedKey_of_isNormal hitem.normal).symm.trans hnamed) (by simp)
  | succeed hrequest happlied => exact sound_succeed h hrequest happlied
  | late hrequest _ =>
    rw [h.lost] at hrequest
    cases hrequest
  | keysDeleted hphase hdone =>
    refine h.advance hdone ?_
    have hcovered := h.covered
    simp only [Covered, hphase] at hcovered
    cases haware : versionAware config with
    | true => exact haware
    | false =>
      refine ⟨fun key hunder hcurrent => not_pending hdone _ (hcovered key hunder hcurrent), fun htrue => ?_⟩
      rw [haware] at htrue
      cases htrue
  | versionsDeleted hphase hdone =>
    refine h.advance hdone ?_
    have hcovered := h.covered
    simp only [Covered, hphase] at hcovered
    exact clean_of_empty fun version hversion hunder => not_pending hdone _ (hcovered version hversion hunder)
  | verify hphase hkeys hversions =>
    have hclean := h.covered
    simp only [Covered, hphase] at hclean
    rw [if_pos (nil_of_verify hp.1 hclean hkeys hversions)]
    exact h.advance (hidle hphase ⟨by simp, by simp, by simp⟩) trivial
  | listingFails _ | fail _ => cases hok
  | keysThrow _ hlisted => exact absurd hlisted not_keysListed_error
  | versionsThrow _ hlisted => exact absurd hlisted not_versionsListed_error
  | verifyThrows _ hlisted =>
    rcases hlisted with hlisted | hlisted
    · exact absurd hlisted not_keysListed_error
    · cases hlisted with
      | listed _ hlisted => exact absurd hlisted not_versionsListed_error

/-! ### No run is stuck -/

theorem exists_applied (versioning : Versioning) (request : Delete) (hkey : request.key ≠ []) (bucket : Bucket) :
    ∃ bucket', Applied versioning request bucket bucket' := by
  obtain ⟨key, versionId⟩ := request
  cases versionId with
  | some versionId => exact ⟨_, .version key versionId⟩
  | none =>
    cases versioning with
    | off => exact ⟨_, .removed key⟩
    | suspended =>
      exact ⟨_, .replaced ⟨key, nullVersion, true, hkey, by decide⟩ rfl rfl⟩
    | enabled =>
      obtain ⟨id, hid⟩ := Infinite.exists_notMem_finset (([] : Text) :: bucket.map Version.versionId).toFinset
      rw [List.mem_toFinset, List.mem_cons, not_or] at hid
      exact ⟨_, .marked ⟨key, id, true, hkey, hid.1⟩ rfl fun version hversion _ hsame =>
        hid.2 (List.mem_map.mpr ⟨version, hversion, hsame⟩)⟩

theorem exists_keysListed (s : State) :
    ∃ keys, KeysListed scopedPrefix (bounded versioning) s (.ok keys) := by
  let keys := ((s.bucket.map Version.key).dedup).filter fun key => withSlash scopedPrefix <+: key ∧ IsCurrent s.bucket key
  let listing : Paged Text Text := ⟨[], keys⟩
  have hshown : ListsKeys NamedReference (fun _ => write (keyPage keys none)) scopedPrefix listing :=
    ⟨⟨keyPage keys none, rfl, isKeyPage_keyPage keys fun _ hnone => by cases hnone⟩, List.nodup_nil⟩
  have hcurrent : ListsCurrent NamedReference s.bucket scopedPrefix (fun _ => write (keyPage keys none)) listing := by
    refine ⟨hshown, ?_, fun key => ?_⟩
    · exact (List.nodup_dedup _).filter _
    · change key ∈ keys ↔ _
      rw [List.mem_filter, List.mem_dedup, decide_eq_true_eq]
      refine ⟨fun h => h.2, fun h => ⟨?_, h⟩⟩
      obtain ⟨version, hversion, rfl⟩ := exists_of_isCurrent h.2
      exact List.mem_map_of_mem hversion
  obtain ⟨fuel, hfuel⟩ := keys_of_listing hshown
  rw [if_neg (show ¬ 10000 < listing.pages from Nat.not_lt.mpr (show 1 ≤ 10000 by decide))] at hfuel
  exact ⟨listing.items, .mk hcurrent (show 1 ≤ 10000 by decide) hfuel⟩

theorem exists_versionsListed (s : State) :
    ∃ versions, VersionsListed scopedPrefix (bounded versioning) s (.ok versions) := by
  let versions := (s.bucket.filter fun version => withSlash scopedPrefix <+: version.key).map stored
  let listing : Paged StoredObjectVersion (Text × Text) := ⟨[], versions⟩
  let page := write (nodesOfPage versionHead (versions.map entryBlock))
  have hne : ∀ version ∈ versions, version.key ≠ [] ∧ version.versionId ≠ [] := by
    intro entry hentry
    obtain ⟨version, -, rfl⟩ := List.mem_map.mp hentry
    exact ⟨version.key_ne, version.versionId_ne⟩
  have hshown : ListsVersions NamedReference (fun _ => page) scopedPrefix listing :=
    ⟨⟨versionHead, versions.map entryBlock, rfl, isVersionPage_entryBlocks hne⟩, List.nodup_nil⟩
  have hstored : ListsStored NamedReference s.bucket scopedPrefix (fun _ => page) listing :=
    ⟨hshown, List.Perm.refl _⟩
  obtain ⟨fuel, hfuel⟩ := versions_of_listing hshown
  rw [if_neg (show ¬ 10000 < listing.pages from Nat.not_lt.mpr (show 1 ≤ 10000 by decide))] at hfuel
  exact ⟨listing.items, .mk hstored (show 1 ≤ 10000 by decide) hfuel⟩

/-- A pass goes on until nothing is pending. -/
theorem exists_pass_step (h : Sound config scopedPrefix s) :
    (s.waiting = [] ∧ s.inFlight = []) ∨
      ∃ s', Step config scopedPrefix (bounded versioning) s s' ∧ s'.failed = s.failed := by
  rcases hinFlight : s.inFlight with _ | ⟨request, rest⟩
  · rcases hwaiting : s.waiting with _ | ⟨item, rest⟩
    · exact Or.inl ⟨rfl, rfl⟩
    · have hitem := h.pending item (Or.inl (hwaiting ▸ List.mem_cons_self))
      have hrunner : 0 < s.idle := by
        rcases h.runner with hnil | hpositive
        · rw [hwaiting] at hnil
          cases hnil
        · simpa [hinFlight] using hpositive
      obtain ⟨idle, hidle⟩ := Nat.exists_eq_succ_of_ne_zero hrunner.ne'
      exact Or.inr ⟨_, .take hwaiting hidle (requestedKey_of_isNormal hitem.normal), rfl⟩
  · have hrequest := h.pending request (Or.inr (hinFlight ▸ List.mem_cons_self))
    have hkey : request.key ≠ [] := by
      intro hnil
      have hunder := hrequest.under
      rw [hnil] at hunder
      exact absurd (List.prefix_nil.mp hunder) (by simp)
    obtain ⟨bucket', happlied⟩ := exists_applied versioning request hkey s.bucket
    have hsplit : s.inFlight = [] ++ request :: rest := hinFlight
    exact Or.inr ⟨_, .succeed hsplit happlied, rfl⟩

/-- **A run that has not returned can go on** without a failure. -/
theorem exists_step (h : Sound config scopedPrefix s) :
    s.phase = .returned ∨ ∃ s', Step config scopedPrefix (bounded versioning) s s' ∧ s'.failed = s.failed := by
  cases hphase : s.phase with
  | listingKeys =>
    obtain ⟨keys, hkeys⟩ := @exists_keysListed scopedPrefix versioning s
    exact Or.inr ⟨_, .keys hphase hkeys, rfl⟩
  | deletingKeys =>
    rcases @exists_pass_step config scopedPrefix versioning s h with hdone | hstep
    · exact Or.inr ⟨_, .keysDeleted hphase hdone, rfl⟩
    · exact Or.inr hstep
  | listingVersions =>
    obtain ⟨versions, hversions⟩ := @exists_versionsListed scopedPrefix versioning s
    exact Or.inr ⟨_, .versions hphase hversions, rfl⟩
  | deletingVersions =>
    rcases @exists_pass_step config scopedPrefix versioning s h with hdone | hstep
    · exact Or.inr ⟨_, .versionsDeleted hphase hdone, rfl⟩
    · exact Or.inr hstep
  | verifying =>
    obtain ⟨keys, hkeys⟩ := @exists_keysListed scopedPrefix versioning s
    cases haware : versionAware config with
    | true =>
      obtain ⟨versions, hversions⟩ := @exists_versionsListed scopedPrefix versioning s
      exact Or.inr ⟨_, .verify hphase hkeys (.listed haware hversions), rfl⟩
    | false => exact Or.inr ⟨_, .verify hphase hkeys (.none haware), rfl⟩
  | returned => exact Or.inl rfl
  | threw => exact absurd hphase h.ne_threw

/-! ### No run is endless -/

def rank : Phase → ℕ
  | .listingKeys => 5
  | .deletingKeys => 4
  | .listingVersions => 3
  | .deletingVersions => 2
  | .verifying => 1
  | .returned => 0
  | .threw => 0

/-- The phases that are left, and the items and requests of the pass: an item is to be taken and to be answered. -/
def weight (s : State) : ℕ ×ₗ ℕ := toLex (rank s.phase, 2 * s.waiting.length + s.inFlight.length)

theorem weight_step (h : Sound config scopedPrefix s)
    (hstep : Step config scopedPrefix (bounded versioning) s s') (hok : s'.failed = false) : weight s' < weight s := by
  rw [weight, weight, Prod.Lex.toLex_lt_toLex]
  cases hstep with
  | keys hphase _ => exact Or.inl (show 4 < rank s.phase by rw [hphase]; decide)
  | versions hphase _ => exact Or.inl (show 2 < rank s.phase by rw [hphase]; decide)
  | take hwaiting _ _ =>
    refine Or.inr ⟨rfl, ?_⟩
    dsimp only
    rw [hwaiting, List.length_cons, List.length_cons]
    omega
  | succeed hrequest _ =>
    refine Or.inr ⟨rfl, ?_⟩
    dsimp only
    rw [hrequest, List.length_append, List.length_append, List.length_cons]
    omega
  | keysDeleted hphase _ =>
    refine Or.inl ?_
    dsimp only
    rw [hphase]
    split <;> decide
  | versionsDeleted hphase _ => exact Or.inl (show 1 < rank s.phase by rw [hphase]; decide)
  | verify hphase _ _ =>
    refine Or.inl ?_
    dsimp only
    rw [hphase]
    split <;> decide
  | keysThrow hphase _ | versionsThrow hphase _ => exact Or.inl (show 0 < rank s.phase by rw [hphase]; decide)
  | verifyThrows hphase _ => exact Or.inl (show 0 < rank s.phase by rw [hphase]; decide)
  | refuse hwaiting _ hnamed =>
    have hitem := h.pending _ (Or.inl (hwaiting ▸ List.mem_cons_self))
    exact absurd ((requestedKey_of_isNormal hitem.normal).symm.trans hnamed) (by simp)
  | late hrequest _ =>
    rw [h.lost] at hrequest
    cases hrequest
  | listingFails _ | fail _ => cases hok

/-! ### The results -/

theorem sound_start (hbucket : ∀ version ∈ bucket, Under scopedPrefix version.key → IsNormal version.key) :
    Sound config scopedPrefix (start bucket) := by
  refine ⟨hbucket, fun request hpending => ?_, Or.inl rfl, fun _ => ⟨rfl, rfl⟩, rfl, trivial⟩
  rcases hpending with hmem | hmem <;> cases hmem

theorem failed_mono {service : Service} (hstep : Step config scopedPrefix service s s') (hok : s'.failed = false) :
    s.failed = false := by
  cases hstep with
  | listingFails _ | fail _ => cases hok
  | keys _ _ | keysThrow _ _ | take _ _ _ | refuse _ _ _ | succeed _ _ | late _ _ | keysDeleted _ _ => exact hok
  | versions _ _ | versionsThrow _ _ | versionsDeleted _ _ | verify _ _ _ | verifyThrows _ _ => exact hok

theorem sound_of_reached (hp : IsNormal scopedPrefix)
    (hbucket : ∀ version ∈ bucket, Under scopedPrefix version.key → IsNormal version.key)
    (h : Reached config scopedPrefix (bounded versioning) bucket s) (hok : s.failed = false) :
    Sound config scopedPrefix s := by
  induction h with
  | refl => exact sound_start hbucket
  | tail _ hstep ih => exact sound_step hp (ih (failed_mono hstep hok)) hstep hok

/-- Some run comes to a normal return. -/
theorem exists_returned (hp : IsNormal scopedPrefix)
    (hbucket : ∀ version ∈ bucket, Under scopedPrefix version.key → IsNormal version.key)
    (h : Reached config scopedPrefix (bounded versioning) bucket s) (hok : s.failed = false) :
    ∃ s', Reached config scopedPrefix (bounded versioning) bucket s' ∧ s'.phase = .returned := by
  induction hweight : weight s using WellFoundedLT.induction generalizing s with
  | ind w ih =>
    have hsound := sound_of_reached hp hbucket h hok
    rcases @exists_step config scopedPrefix versioning s hsound with hreturned | ⟨s', hstep, hsame⟩
    · exact ⟨s, h, hreturned⟩
    · have hless := weight_step hsound hstep (hsame.trans hok)
      exact ih _ (hweight ▸ hless) (h.tail hstep) (hsame.trans hok) rfl

/-- **A prefix deletion is verified and confined.** After a normal return nothing is left under the prefix. In any run
every DELETE request names a key under the prefix, and the versions of other keys, those of other meetings among them,
stay as they are, when no key under the prefix is only blank segments and single dots behind it. -/
theorem prefix_deletion_safe (config : S3CompatibleConfig) {key scopedPrefix : Text}
    (hscoped : scopeObjectKey config key = some scopedPrefix) (versioning : Versioning) (pages : ℕ → Prop)
    {bucket : Bucket} {s : State}
    (h : Reached config scopedPrefix ⟨versioning, NamedReference, pages⟩ bucket s) :
    (s.phase = .returned → Clean config scopedPrefix s.bucket) ∧
      (['.'] ∉ segments scopedPrefix →
        (∀ version ∈ bucket, Under scopedPrefix version.key → Inside scopedPrefix version.key) →
        (∀ request ∈ s.sent, Under scopedPrefix request.key) ∧
          others scopedPrefix s.bucket = others scopedPrefix bucket ∧
          ∀ id id' scopedOther, '/' ∉ id → '/' ∉ id' → scopeObjectKey config id = some scopedPrefix →
            scopeObjectKey config id' = some scopedOther → scopedPrefix ≠ scopedOther →
            (s.bucket.filter fun version => Under scopedOther version.key) =
              bucket.filter fun version => Under scopedOther version.key) := by
  have hself := normalize_scope hscoped
  refine ⟨(orderly_of_reached hself h).clean, fun hdots hbucket => ?_⟩
  have hconfined := confined_of_reached ⟨hself, hdots⟩ hbucket h
  refine ⟨fun request hrequest => (hconfined.sent request hrequest).under, hconfined.others, ?_⟩
  intro id id' scopedOther hid hid' hscopedId hscopedId' hne
  have hfilter : ∀ bucket : Bucket, ((others scopedPrefix bucket).filter fun version => Under scopedOther version.key) =
      bucket.filter fun version => Under scopedOther version.key := by
    intro bucket
    rw [others, List.filter_filter]
    refine List.filter_congr fun version _ => ?_
    by_cases hunder : Under scopedOther version.key
    · have houtside := not_under_other hid hid' hscopedId hscopedId' hne hunder
      simp [isOutside, houtside]
    · simp [hunder]
  rw [← hfilter s.bucket, hconfined.others, hfilter bucket]

def sampleConfig : S3CompatibleConfig :=
  ⟨.s3, "env".toList, Or.inr (by decide), 8, by decide⟩

/-- Two meetings, one id the beginning of the other, and a delete marker. -/
def sampleBucket : Bucket :=
  [⟨"env/m/a b".toList, "2".toList, true, by decide, by decide⟩,
    ⟨"env/m/a b".toList, "1".toList, false, by decide, by decide⟩,
    ⟨"env/m1/a".toList, "1".toList, false, by decide, by decide⟩]

theorem sampleBucket_normal :
    ∀ version ∈ sampleBucket, Under "env/m".toList version.key → IsNormal version.key := by
  unfold IsNormal
  decide

theorem prefix_deletion_safe_sample :
    ∃ s, Reached sampleConfig "env/m".toList ⟨.enabled, NamedReference, fun pages => pages ≤ 10000⟩ sampleBucket s ∧
      s.phase = .returned ∧ Clean sampleConfig "env/m".toList s.bucket ∧
        others "env/m".toList s.bucket = others "env/m".toList sampleBucket := by
  have hp : IsNormal "env/m".toList := ⟨by decide, by decide⟩
  obtain ⟨s, h, hreturned⟩ := @exists_returned sampleConfig "env/m".toList .enabled sampleBucket _ hp sampleBucket_normal
    .refl rfl
  have hsafe := prefix_deletion_safe sampleConfig (show scopeObjectKey sampleConfig "m".toList = some "env/m".toList by
    decide) .enabled (fun pages => pages ≤ 10000) h
  exact ⟨s, h, hreturned, hsafe.1 hreturned, (hsafe.2 (by decide) fun version hversion hunder =>
    inside_of_isNormal hp (sampleBucket_normal version hversion hunder) hunder).2.1⟩

/-- **A prefix deletion comes to a normal return** when no request fails, the keys are in normal form and no listing has
more than 10,000 pages: it never throws, it can go on until it has returned, and no run goes on without end. -/
theorem prefix_deletion_returns (config : S3CompatibleConfig) {key scopedPrefix : Text}
    (hscoped : scopeObjectKey config key = some scopedPrefix) (hdots : ['.'] ∉ segments scopedPrefix)
    (versioning : Versioning) {bucket : Bucket}
    (hbucket : ∀ version ∈ bucket, Under scopedPrefix version.key → IsNormal version.key) :
    (∀ s, Reached config scopedPrefix (bounded versioning) bucket s → s.failed = false →
      s.phase ≠ .threw ∧ (s.phase = .returned ∨
        ∃ s', Step config scopedPrefix (bounded versioning) s s' ∧ s'.failed = false)) ∧
      ∀ run : ℕ → State, run 0 = start bucket →
        (∀ n, Step config scopedPrefix (bounded versioning) (run n) (run (n + 1))) → ∃ n, (run n).failed = true := by
  have hp : IsNormal scopedPrefix := ⟨normalize_scope hscoped, hdots⟩
  refine ⟨fun s h hok => ?_, fun run hstart hrun => ?_⟩
  · have hsound := sound_of_reached hp hbucket h hok
    exact ⟨hsound.ne_threw, (@exists_step config scopedPrefix versioning s hsound).imp_right
      fun ⟨s', hstep, hsame⟩ => ⟨s', hstep, hsame.trans hok⟩⟩
  · by_contra hnever
    have hok : ∀ n, (run n).failed = false := fun n => by
      simpa using fun hfailed => hnever ⟨n, hfailed⟩
    have hsound : ∀ n, Sound config scopedPrefix (run n) := by
      intro n
      induction n with
      | zero => exact hstart ▸ sound_start hbucket
      | succ n ih => exact sound_step hp ih (hrun n) (hok (n + 1))
    exact not_strictAnti_of_wellFoundedLT (fun n => weight (run n))
      (strictAnti_nat_of_succ_lt fun n => weight_step (hsound n) (hrun n) (hok (n + 1)))

theorem prefix_deletion_returns_sample :
    (start sampleBucket).phase ≠ .threw ∧ ((start sampleBucket).phase = .returned ∨
      ∃ s, Step sampleConfig "env/m".toList (bounded .enabled) (start sampleBucket) s ∧ s.failed = false) :=
  (prefix_deletion_returns sampleConfig (show scopeObjectKey sampleConfig "m".toList = some "env/m".toList by
    decide) (by decide) .enabled sampleBucket_normal).1 (start sampleBucket) .refl rfl

end OwnMinutes.ObjectStore.PrefixDeleted
