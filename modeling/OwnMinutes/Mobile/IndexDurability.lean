import OwnMinutes.Mobile.RecordingIndex
import OwnMinutes.Lib.Runs

/-! # The recording index survives crashes

What is in the four files are first parts of the texts that writes put there (`Written`). A write that returns
leaves its text in the primary file and in the backup; a read that returns records leaves their text in the
primary file; and what stops either in between leaves an index in some file if there was one. Two things break
this. A failing read of a file is taken for a missing index: the calls that are kept do not fail to read an
index that is there (`readsThrough`). And a write begins by removing the temporary file: the calls that are
kept have the index in another one. -/

namespace OwnMinutes.Mobile.IndexDurability

open OwnMinutes.Lib.Faults OwnMinutes.Lib.Faults.Faulty OwnMinutes.Lib.Runs
open OwnMinutes.Mobile.RecordingIndex

variable {T : Type} (J : IndexCodec T)

/-- The index in a file. -/
def indexAt (s : IndexFiles) (path : IndexPath) : Option (List T) := (s path).bind J.parseIndex

/-- Some file has an index. -/
def HasIndex (s : IndexFiles) : Prop := ∃ path, (indexAt J s path).isSome

/-- No step of the probes of `paths` fails to read an index that is there. -/
def readsThrough (s : IndexFiles) : List IndexPath → List Fault → Bool
  | [], _ => true
  | path :: paths, faults =>
    match faults.headD .done with
    | .fails _ => true
    | .stops _ => true
    | .done =>
      if (s path).isSome then
        match faults.tail.headD .done with
        | .fails _ => (indexAt J s path).isNone && readsThrough s paths faults.tail.tail
        | .stops _ => true
        | .done => readsThrough s paths faults.tail.tail
      else
        readsThrough s paths faults.tail

/-- The files that a read probes: the others where the primary one has no index. -/
def probes (s : IndexFiles) : List IndexPath :=
  if (indexAt J s .primary).isSome then [.primary] else [.primary, .temporary, .backupTemporary, .backup]

variable {J} {s t : IndexFiles} {path : IndexPath} {records : List T} {faults : List Fault}

@[simp] theorem indexAt_update_self {contents : Option Contents} :
    indexAt J (Function.update s path contents) path = contents.bind J.parseIndex := by
  simp [indexAt]

@[simp] theorem indexAt_update_of_ne {contents : Option Contents} {other : IndexPath} (h : other ≠ path) :
    indexAt J (Function.update s path contents) other = indexAt J s other := by
  simp [indexAt, h]

theorem indexAt_congr (h : t path = s path) : indexAt J t path = indexAt J s path := by
  simp [indexAt, h]

/-! ### What the files hold -/

/-- The contents are a first part of the text of a list in `written`. -/
def Written (J : IndexCodec T) (written : List T → Prop) (contents : Contents) : Prop :=
  ∃ records, written records ∧ contents <+: J.stringify records

section Contents

variable {written : List T → Prop} {contents : Contents}

theorem Written.take (h : Written J written contents) (k : ℕ) : Written J written (contents.take k) := by
  obtain ⟨records, hrecords, hstart⟩ := h
  exact ⟨records, hrecords, (List.take_prefix k contents).trans hstart⟩

theorem written_stringify (h : written records) : Written J written (J.stringify records) :=
  ⟨records, h, List.prefix_rfl⟩

theorem Written.mono {written' : List T → Prop} (h : Written J written contents)
    (hmono : ∀ records, written records → written' records) : Written J written' contents := by
  obtain ⟨records, hrecords, hstart⟩ := h
  exact ⟨records, hmono records hrecords, hstart⟩

/-- An index is the whole text of a list that was written. -/
theorem Written.parse (h : Written J written contents) (hparse : J.parseIndex contents = some records) :
    written records ∧ contents = J.stringify records := by
  obtain ⟨records', hrecords', hstart⟩ := h
  have htake : contents = (J.stringify records').take contents.length := List.prefix_iff_eq_take.mp hstart
  by_cases hlt : contents.length < (J.stringify records').length
  · have hnone := J.parse_take records' contents.length hlt
    rw [← htake, hparse] at hnone
    cases hnone
  · have hwhole : contents = J.stringify records' := by
      rw [htake, List.take_of_length_le (Nat.le_of_not_lt hlt)]
    rw [hwhole, J.parse_stringify] at hparse
    cases hparse
    exact ⟨hrecords', hwhole⟩

end Contents

/-! ### The steps of a call -/

section Steps

variable {I : IndexFiles → Prop}

/-- A probe that does not fail to read an index tells what the file has. -/
theorem ends_readCandidate {source : IndexSource} {paths : List IndexPath}
    {R : Option (IndexCandidate T) → List Fault → IndexFiles → Prop} (hI : I s)
    (hthrough : readsThrough J s (path :: paths) faults = true)
    (hR : ∀ rest, readsThrough J s paths rest = true →
      R ((indexAt J s path).map fun records => ⟨path, records, source⟩) rest s) :
    Ends (readCandidate J path source) faults s R (fun _ => I) I := by
  unfold readCandidate
  rw [ends_bind]
  unfold fileExists
  rw [ends_step_iff]
  unfold readsThrough at hthrough
  cases hexists : faults.headD .done with
  | fails k | stops k => exact hI
  | done =>
    simp only [hexists] at hthrough ⊢
    cases hfile : s path with
    | none =>
      have hnone : indexAt J s path = none := by simp [indexAt, hfile]
      rw [hfile, Option.isSome_none, if_neg Bool.false_ne_true] at hthrough
      have h := hR faults.tail hthrough
      rw [hnone] at h
      exact h
    | some contents =>
      have hindex : indexAt J s path = J.parseIndex contents := by simp [indexAt, hfile]
      rw [hfile, Option.isSome_some, if_pos rfl] at hthrough
      rw [Option.isSome_some, if_pos rfl, ends_attempt, ends_bind]
      unfold Lib.Faults.read
      rw [ends_step_iff, hfile, Option.map_some]
      cases hread : faults.tail.headD .done with
      | stops k => exact hI
      | fails k =>
        simp only [hread, Bool.and_eq_true, Option.isNone_iff_eq_none] at hthrough
        have h := hR faults.tail.tail hthrough.2
        rw [hthrough.1] at h
        exact h
      | done =>
        simp only [hread] at hthrough
        have h := hR faults.tail.tail hthrough
        rw [hindex] at h
        exact h

theorem ends_assertValidIndexFile {R : Unit → List Fault → IndexFiles → Prop} (hI : I s)
    (hR : ∀ records, indexAt J s path = some records → ∀ rest, R () rest s) :
    Ends (assertValidIndexFile J path) faults s R (fun _ => I) I := by
  unfold assertValidIndexFile
  rw [ends_bind]
  refine ends_read hI fun contents hcontents rest => ?_
  cases hparse : J.parseIndex contents with
  | none => exact hI
  | some records => exact hR records (by simp [indexAt, hcontents, hparse]) rest

theorem ends_removeQuietly {R : Unit → List Fault → IndexFiles → Prop} (hI : I s)
    (hremoved : I (Function.update s path none)) (hR : ∀ rest t, I t → R () rest t)
    {T : List Fault → IndexFiles → Prop} : Ends (removeQuietly path) faults s R T I := by
  unfold removeQuietly
  rw [ends_attempt]
  refine (ends_remove hI hremoved fun rest => hR rest _ hremoved).mono (fun _ _ _ h => h) ?_ fun _ h => h
  intro rest t ht
  exact ends_pure.mpr (hR rest t ht)

theorem ends_anyExists {R : Bool → List Fault → IndexFiles → Prop} (hI : I s) {paths : List IndexPath}
    (hR : ∀ found rest, R found rest s) : Ends (anyExists paths) faults s R (fun _ => I) I := by
  induction paths generalizing faults with
  | nil => exact hR false faults
  | cons path paths ih =>
    unfold anyExists
    rw [ends_bind]
    refine ends_fileExists hI fun rest => ?_
    split_ifs
    · exact hR true rest
    · exact ih

end Steps

/-! ### Refreshing the backup -/

section Calls

variable {written : List T → Prop}

/-- What a call that leaves the primary file alone keeps. -/
structure PrimaryKept (J : IndexCodec T) (written : List T → Prop) (s t : IndexFiles) : Prop where
  within : Files.Within (Written J written) t
  primary : t .primary = s .primary
  temporary : t .temporary = s .temporary

theorem within_update (h : Files.Within (Written J written) s) {contents : Contents}
    (hcontents : Written J written contents) :
    Files.Within (Written J written) (Function.update s path (some contents)) := by
  intro other contents' hother
  by_cases hpath : other = path
  · rw [hpath, Function.update_self] at hother
    cases hother
    exact hcontents
  · rw [Function.update_of_ne hpath] at hother
    exact h other contents' hother

theorem within_erase (h : Files.Within (Written J written) s) :
    Files.Within (Written J written) (Function.update s path none) := by
  intro other contents' hother
  by_cases hpath : other = path
  · rw [hpath, Function.update_self] at hother
    cases hother
  · rw [Function.update_of_ne hpath] at hother
    exact h other contents' hother

theorem within_moved (h : Files.Within (Written J written) s) {source target : IndexPath}
    {contents : Contents} (hsource : s source = some contents) :
    Files.Within (Written J written) (s.moved source target contents) :=
  within_erase (within_update h (h source contents hsource))

theorem ends_refreshBackup (h : Files.Within (Written J written) s) {contents : Contents}
    (hprimary : s .primary = some contents) :
    Ends (refreshBackup J) faults s
      (fun _ _ t => PrimaryKept J written s t ∧ t .backup = some contents ∧ t .backupTemporary = none)
      (fun _ => PrimaryKept J written s) (PrimaryKept J written s) := by
  have hcontents := h .primary contents hprimary
  unfold refreshBackup
  rw [ends_bind]
  have h1 : PrimaryKept J written s (Function.update s .backupTemporary none) :=
    ⟨within_erase h, rfl, rfl⟩
  refine ends_remove ⟨h, rfl, rfl⟩ h1 fun _ => ?_
  have hcopied : ∀ k, PrimaryKept J written s (Function.update (Function.update s .backupTemporary none)
      .backupTemporary (some (contents.take k))) :=
    fun k => ⟨within_update (within_erase h) (hcontents.take k), rfl, rfl⟩
  rw [ends_bind]
  refine ends_copy h1 (fun c hc k => ?_) fun c hc _ => ?_
  · cases hprimary.symm.trans hc
    exact hcopied k
  · cases hprimary.symm.trans hc
    have h2 : PrimaryKept J written s (Function.update (Function.update s .backupTemporary none)
        .backupTemporary (some contents)) := ⟨within_update (within_erase h) hcontents, rfl, rfl⟩
    rw [ends_bind]
    refine ends_assertValidIndexFile h2 fun _ _ _ => ?_
    rw [ends_bind]
    have h3 : PrimaryKept J written s (Function.update (Function.update (Function.update s .backupTemporary
        none) .backupTemporary (some contents)) .backup none) := ⟨within_erase h2.within, rfl, rfl⟩
    refine ends_remove h2 h3 fun _ => ?_
    refine ends_move h3 (fun c hc => ?_) fun c hc _ => ?_
    · exact ⟨within_moved h3.within hc, rfl, rfl⟩
    · cases hc
      exact ⟨⟨within_moved h3.within rfl, rfl, rfl⟩, rfl, rfl⟩

/-! ### Reading -/

/-- The result is an index that was found. -/
def Found (result : AtomicIndexReadResult T) : Prop := result.source ≠ .empty ∧ result.source ≠ .unrecoverable

/-- What a read keeps, wherever it stops. -/
structure ReadKept (J : IndexCodec T) (written : List T → Prop) (s t : IndexFiles) : Prop where
  within : Files.Within (Written J written) t
  index : HasIndex J s → HasIndex J t
  primary : (indexAt J s .primary).isSome → t .primary = s .primary

/-- Some file has the records: the one to restore from, or the primary one. -/
structure Restorable (J : IndexCodec T) (written : List T → Prop) (path : IndexPath) (records : List T)
    (t : IndexFiles) : Prop where
  within : Files.Within (Written J written) t
  index : indexAt J t path = some records ∨ indexAt J t .primary = some records

/-- The primary file has these contents. -/
structure HasPrimary (J : IndexCodec T) (written : List T → Prop) (contents : Contents) (t : IndexFiles) :
    Prop where
  within : Files.Within (Written J written) t
  primary : t .primary = some contents

theorem HasPrimary.restorable {contents : Contents} (h : HasPrimary J written contents t)
    (hparse : J.parseIndex contents = some records) : Restorable J written path records t :=
  ⟨h.within, .inr (by simp [indexAt, h.primary, hparse])⟩

/-- A file that is not the primary one is removed. -/
theorem HasPrimary.erase {contents : Contents} (h : HasPrimary J written contents t)
    (hpath : path ≠ .primary) : HasPrimary J written contents (Function.update t path none) :=
  ⟨within_erase h.within, by rw [Function.update_of_ne hpath.symm, h.primary]⟩

theorem ends_restorePrimary (h : Files.Within (Written J written) s) {candidate : IndexCandidate T}
    (hpath : candidate.path ≠ .primary) (hindex : indexAt J s candidate.path = some candidate.records) :
    Ends (restorePrimary J candidate) faults s
      (fun _ _ t => Files.Within (Written J written) t ∧ indexAt J t .primary = some candidate.records)
      (fun _ => Restorable J written candidate.path candidate.records)
      (Restorable J written candidate.path candidate.records) := by
  obtain ⟨contents, hfile, hparse⟩ := Option.bind_eq_some_iff.mp hindex
  unfold restorePrimary
  rw [ends_bind]
  have h1 : Restorable J written candidate.path candidate.records (Function.update s .primary none) :=
    ⟨within_erase h, .inl (by rw [indexAt_update_of_ne hpath, hindex])⟩
  refine ends_remove ⟨h, .inl hindex⟩ h1 fun _ => ?_
  have hsource : Function.update s .primary none candidate.path = some contents := by
    rw [Function.update_of_ne hpath, hfile]
  have hcontents := h candidate.path contents hfile
  rw [ends_bind]
  refine ends_copy h1 (fun c hc k => ?_) fun c hc _ => ?_
  · cases hsource.symm.trans hc
    exact ⟨within_update h1.within (hcontents.take k),
      .inl (by rw [indexAt_update_of_ne hpath, indexAt_update_of_ne hpath, hindex])⟩
  · cases hsource.symm.trans hc
    -- from here on the primary file has the index
    have h2 : Files.Within (Written J written) (Function.update (Function.update s .primary none) .primary
        (some contents)) := within_update h1.within hcontents
    rw [ends_bind]
    refine (ends_refreshBackup h2 (Function.update_self ..)).mono (fun _ rest t ht => ?_)
      (fun _ t ht => ?_) fun t ht => ?_
    · have hp : HasPrimary J written contents t := ⟨ht.1.within, ht.1.primary.trans (Function.update_self ..)⟩
      have hstop : ∀ u, HasPrimary J written contents u → Restorable J written candidate.path
          candidate.records u := fun u hu => hu.restorable hparse
      rw [ends_bind]
      refine Ends.mono (ends_removeQuietly (I := HasPrimary J written contents) hp (hp.erase (by decide))
        fun _ u hu => ?_) (fun _ _ _ h => h) (fun _ _ h => h) hstop
      refine Ends.mono (ends_removeQuietly (I := HasPrimary J written contents) hu (hu.erase (by decide))
        fun _ v hv => ?_) (fun _ _ _ h => h) (fun _ _ h => h) hstop
      exact ⟨hv.within, by simp [indexAt, hv.primary, hparse]⟩
    · exact HasPrimary.restorable ⟨ht.within, ht.primary.trans (Function.update_self ..)⟩ hparse
    · exact HasPrimary.restorable ⟨ht.within, ht.primary.trans (Function.update_self ..)⟩ hparse

theorem readKept_refl (h : Files.Within (Written J written) s) : ReadKept J written s s :=
  ⟨h, fun hs => hs, fun _ => rfl⟩

theorem Restorable.readKept (h : Restorable J written path records t) (hnone : indexAt J s .primary = none) :
    ReadKept J written s t := by
  refine ⟨h.within, fun _ => ?_, fun hs => by simp [hnone] at hs⟩
  rcases h.index with hindex | hindex
  · exact ⟨path, by simp [hindex]⟩
  · exact ⟨.primary, by simp [hindex]⟩

/-- The candidate that a read restores from: the first index of the other files. -/
def recovery (J : IndexCodec T) (s : IndexFiles) : Option (IndexCandidate T) :=
  (indexAt J s .temporary).map (fun records => ⟨.temporary, records, .temporary⟩) <|>
    (indexAt J s .backupTemporary).map (fun records => ⟨.backupTemporary, records, .backup⟩) <|>
    (indexAt J s .backup).map fun records => ⟨.backup, records, .backup⟩

theorem recovery_found {candidate : IndexCandidate T} (h : recovery J s = some candidate) :
    candidate.path ≠ .primary ∧ indexAt J s candidate.path = some candidate.records ∧
      candidate.source ≠ .empty ∧ candidate.source ≠ .unrecoverable := by
  unfold recovery at h
  cases htemporary : indexAt J s .temporary with
  | some records =>
    simp [htemporary] at h
    subst h
    simpa using htemporary
  | none =>
    cases hbackupTemporary : indexAt J s .backupTemporary with
    | some records =>
      simp [htemporary, hbackupTemporary] at h
      subst h
      simpa using hbackupTemporary
    | none =>
      simp [htemporary, hbackupTemporary] at h
      obtain ⟨records, hbackup, rfl⟩ := h
      simpa using hbackup

theorem no_recovery (hprimary : indexAt J s .primary = none) (h : recovery J s = none) :
    ¬ HasIndex J s := by
  unfold recovery at h
  simp at h
  rintro ⟨path, hpath⟩
  cases path with
  | primary => simp [hprimary] at hpath
  | temporary => simp [h.1] at hpath
  | backup => simp [h.2.2] at hpath
  | backupTemporary => simp [h.2.1] at hpath

/-- **A read.** It returns the records of an index that it leaves in the primary file, or finds none. -/
theorem ends_readAtomicArrayIndex (h : Files.Within (Written J written) s)
    (hthrough : readsThrough J s (probes J s) faults = true) :
    Ends (readAtomicArrayIndex J) faults s
      (fun result _ t => ReadKept J written s t ∧
        (Found result ∧ indexAt J t .primary = some result.records ∨ ¬ Found result ∧ ¬ HasIndex J s))
      (fun _ => ReadKept J written s) (ReadKept J written s) := by
  have hrefl := readKept_refl h
  unfold readAtomicArrayIndex
  rw [ends_bind]
  unfold probes at hthrough
  cases hprimary : indexAt J s .primary with
  | some records =>
    rw [hprimary, Option.isSome_some, if_pos rfl] at hthrough
    obtain ⟨contents, hfile, hparse⟩ := Option.bind_eq_some_iff.mp hprimary
    have hkept : ∀ u, HasPrimary J written contents u → ReadKept J written s u := fun u hu =>
      ⟨hu.within, fun _ => ⟨.primary, by simp [indexAt, hu.primary, hparse]⟩,
        fun _ => hu.primary.trans hfile.symm⟩
    refine ends_readCandidate hrefl hthrough fun rest _ => ?_
    rw [hprimary, Option.map_some]
    dsimp only
    -- the refresh of the backup may fail: the primary file stays as it is
    have hafter : ∀ rest u, HasPrimary J written contents u →
        Ends (do removeQuietly .temporary; return ⟨records, .primary⟩) rest u
          (fun result _ t => ReadKept J written s t ∧
            (Found result ∧ indexAt J t .primary = some result.records ∨ ¬ Found result ∧ ¬ HasIndex J s))
          (fun _ => ReadKept J written s) (ReadKept J written s) := by
      intro rest u hu
      rw [ends_bind]
      refine Ends.mono (ends_removeQuietly (I := HasPrimary J written contents) hu (hu.erase (by decide))
        fun _ v hv => ?_) (fun _ _ _ h => h) (fun _ _ h => h) hkept
      exact ⟨hkept v hv, .inl ⟨⟨by simp, by simp⟩, by simp [indexAt, hv.primary, hparse]⟩⟩
    rw [ends_bind, ends_attempt]
    refine (ends_refreshBackup h hfile).mono (fun _ rest u hu => hafter rest u ?_)
      (fun rest u hu => hafter rest u ?_) fun u hu => hkept u ?_
    · exact ⟨hu.1.within, hu.1.primary.trans hfile⟩
    · exact ⟨hu.within, hu.primary.trans hfile⟩
    · exact ⟨hu.within, hu.primary.trans hfile⟩
  | none =>
    rw [hprimary, Option.isSome_none, if_neg Bool.false_ne_true] at hthrough
    refine ends_readCandidate hrefl hthrough fun _ hthrough => ?_
    rw [hprimary, Option.map_none]
    dsimp only
    rw [ends_bind]
    refine ends_readCandidate hrefl hthrough fun _ hthrough => ?_
    rw [ends_bind]
    refine ends_readCandidate hrefl hthrough fun _ hthrough => ?_
    rw [ends_bind]
    refine ends_readCandidate hrefl hthrough fun rest _ => ?_
    rw [← recovery]
    cases hrecovery : recovery J s with
    | some candidate =>
      obtain ⟨hpath, hindex, hsource⟩ := recovery_found hrecovery
      dsimp only
      rw [ends_bind]
      refine (ends_restorePrimary h hpath hindex).mono (fun _ _ t ht => ?_)
        (fun _ t ht => ht.readKept hprimary) fun t ht => ht.readKept hprimary
      have hrestorable : Restorable J written candidate.path candidate.records t := ⟨ht.1, .inr ht.2⟩
      exact ⟨hrestorable.readKept hprimary, .inl ⟨hsource, ht.2⟩⟩
    | none =>
      dsimp only
      rw [ends_bind]
      refine ends_anyExists hrefl fun found _ => ?_
      refine ⟨hrefl, .inr ⟨fun hfound => ?_, no_recovery hprimary hrecovery⟩⟩
      cases found with
      | true => exact hfound.2 rfl
      | false => exact hfound.1 rfl

/-! ### Writing -/

/-- A file other than the temporary one has an index. -/
def HasOtherIndex (J : IndexCodec T) (s : IndexFiles) : Prop :=
  ∃ path, path ≠ .temporary ∧ (indexAt J s path).isSome

/-- What a write that does not return keeps. -/
structure WriteKept (J : IndexCodec T) (written : List T → Prop) (s t : IndexFiles) : Prop where
  within : Files.Within (Written J written) t
  index : HasOtherIndex J s → HasIndex J t

/-- The files after a write. -/
structure Rotated (J : IndexCodec T) (records : List T) (t : IndexFiles) : Prop where
  primary : t .primary = some (J.stringify records)
  temporary : t .temporary = none
  backup : t .backup = some (J.stringify records)
  backupTemporary : t .backupTemporary = none

/-- **A write.** While it runs, an index that was not in the temporary file stays, or the new one is there. -/
theorem ends_writeAtomicArrayIndex (h : Files.Within (Written J written) s) (hrecords : written records) :
    Ends (writeAtomicArrayIndex J records) faults s (fun _ _ t => Rotated J records t)
      (fun _ => WriteKept J written s) (WriteKept J written s) := by
  have hnew : Written J written (J.stringify records) := written_stringify hrecords
  have hparse := J.parse_stringify records
  have hother : ∀ u : IndexFiles, Files.Within (Written J written) u → (∀ path, path ≠ .temporary → u path = s path) →
      WriteKept J written s u := by
    intro u hu hsame
    refine ⟨hu, fun ⟨path, hpath, hindex⟩ => ⟨path, ?_⟩⟩
    rwa [indexAt_congr (hsame path hpath)]
  unfold writeAtomicArrayIndex
  dsimp only
  rw [ends_bind]
  have h1 : Files.Within (Written J written) (Function.update s .temporary none) := within_erase h
  have hsame1 : ∀ path, path ≠ .temporary → Function.update s IndexPath.temporary none path = s path :=
    fun path hpath => Function.update_of_ne hpath ..
  refine ends_remove (hother s h fun _ _ => rfl) (hother _ h1 hsame1) fun _ => ?_
  have hsame2 : ∀ (c : Option Contents) path, path ≠ .temporary →
      Function.update (Function.update s .temporary none) .temporary c path = s path := by
    intro c path hpath
    rw [Function.update_of_ne hpath, hsame1 path hpath]
  rw [ends_bind]
  refine ends_write (hother _ h1 hsame1) (fun k => hother _ (within_update h1 (hnew.take k)) (hsame2 _))
    fun _ => ?_
  have h2 : Files.Within (Written J written) (Function.update (Function.update s .temporary none) .temporary
      (some (J.stringify records))) := within_update h1 hnew
  rw [ends_bind]
  refine ends_assertValidIndexFile (hother _ h2 (hsame2 _)) fun _ _ _ => ?_
  -- the temporary file has the new index from here on, and the primary one after the move
  rw [ends_bind]
  have h3 : WriteKept J written s (Function.update (Function.update (Function.update s .temporary none)
      .temporary (some (J.stringify records))) .primary none) :=
    ⟨within_erase h2, fun _ => ⟨.temporary, by simp [hparse]⟩⟩
  refine ends_remove (hother _ h2 (hsame2 _)) h3 fun _ => ?_
  rw [ends_bind]
  have hprimary : ∀ u : IndexFiles, HasPrimary J written (J.stringify records) u → WriteKept J written s u :=
    fun u hu => ⟨hu.within, fun _ => ⟨.primary, by simp [indexAt, hu.primary, hparse]⟩⟩
  refine ends_move h3 (fun c hc => ?_) fun c hc _ => ?_
  · cases hc
    exact hprimary _ ⟨within_moved h3.within rfl, rfl⟩
  · cases hc
    have h4 : HasPrimary J written (J.stringify records) (Files.moved (Function.update (Function.update
        (Function.update s .temporary none) .temporary (some (J.stringify records))) .primary none)
        IndexPath.temporary .primary (J.stringify records)) := ⟨within_moved h3.within rfl, rfl⟩
    rw [ends_bind]
    refine ends_assertValidIndexFile (hprimary _ h4) fun _ _ _ => ?_
    refine (ends_refreshBackup h4.within rfl).mono (fun _ _ t ht => ?_)
      (fun _ t ht => hprimary t ⟨ht.within, ht.primary⟩) fun t ht => hprimary t ⟨ht.within, ht.primary⟩
    exact ⟨ht.1.primary, ht.1.temporary, ht.2.1, ht.2.2⟩

end Calls

end OwnMinutes.Mobile.IndexDurability
