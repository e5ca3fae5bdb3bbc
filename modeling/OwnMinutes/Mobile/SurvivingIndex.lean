import OwnMinutes.Mobile.IndexDurability

/-! # Runs of writes and reads of the recording index

Writes are known by their places in a run. What the files hold at some moment comes from `Recent` writes: none
of the later ones has returned. A read therefore returns the records of the last write that returned or of a
later one that did not, and the next read returns the same (`SurvivesCrashes`). -/

namespace OwnMinutes.Mobile.SurvivingIndex

open OwnMinutes.Lib.Faults OwnMinutes.Lib.Faults.Faulty OwnMinutes.Lib.Runs
open OwnMinutes.Mobile.RecordingIndex OwnMinutes.Mobile.IndexDurability

variable {T : Type} {J : IndexCodec T}

/-- The read at the place `i` returned `result`. -/
def ReadAt (es : List (IndexEvent T)) (i : ℕ) (result : AtomicIndexReadResult T) : Prop :=
  ∃ faults, es[i]? = some ⟨.read, faults, .returned (some result)⟩

/-- A write of `records` began at the place `i`. -/
def WriteAt (es : List (IndexEvent T)) (i : ℕ) (records : List T) : Prop :=
  ∃ faults ending, es[i]? = some ⟨.write records, faults, ending⟩

/-- The write at the place `i` returned. -/
def CompletedAt (es : List (IndexEvent T)) (i : ℕ) : Prop :=
  ∃ records faults result, es[i]? = some ⟨.write records, faults, .returned result⟩

/-- The index survives: a read returns the records of the last write that returned, or of a later one; reads
with no write between them return the same; and after a write that returned, reads find the index. -/
structure SurvivesCrashes (es : List (IndexEvent T)) : Prop where
  recent : ∀ i result, ReadAt es i result → (Found result ∨ ∃ j < i, CompletedAt es j) →
    ∃ v < i, WriteAt es v result.records ∧ ∀ j, v < j → j < i → ¬ CompletedAt es j
  kept : ∀ i i' result result', i < i' → ReadAt es i result → Found result → ReadAt es i' result' →
    (∀ j records, i < j → j < i' → ¬ WriteAt es j records) → Found result' ∧ result'.records = result.records
  answered : ∀ i result, ReadAt es i result → (∃ j < i, CompletedAt es j) → Found result

/-- The files, and what was done so far. -/
structure IndexWorld (T : Type) where
  history : List (IndexEvent T)
  files : IndexFiles

def IndexWorld.initial (T : Type) : IndexWorld T := ⟨[], noFiles⟩

/-- The next call and the state it begins in: a read does not fail to read an index that is there; and after
a write that returned, a write begins with the index in another file than the temporary one. -/
def KeepsIndex (J : IndexCodec T) (w : IndexWorld T) (e : IndexEvent T) : Prop :=
  match e.call with
  | .read => readsThrough J w.files (probes J w.files) e.faults = true
  | .write _ => (∃ i, CompletedAt w.history i) → HasOtherIndex J w.files

def WorldStep (J : IndexCodec T) (w : IndexWorld T) (e : IndexEvent T) (w' : IndexWorld T) : Prop :=
  w'.history = w.history ++ [e] ∧ IndexStep J w.files e w'.files

def KeptStep (J : IndexCodec T) (w : IndexWorld T) (e : IndexEvent T) (w' : IndexWorld T) : Prop :=
  WorldStep J w e w' ∧ KeepsIndex J w e

/-! ### The places of a longer run -/

section Places

variable {es : List (IndexEvent T)} {e : IndexEvent T} {i : ℕ} {records : List T}
  {result : AtomicIndexReadResult T}

theorem getElem?_snoc {x : IndexEvent T} :
    (es ++ [e])[i]? = some x ↔ es[i]? = some x ∨ i = es.length ∧ e = x := by
  by_cases hlt : i < es.length
  · rw [List.getElem?_append_left hlt]
    exact ⟨.inl, fun h => h.elim id fun h => absurd h.1 (Nat.ne_of_lt hlt)⟩
  · have hge : es.length ≤ i := Nat.le_of_not_lt hlt
    have hnone : es[i]? = none := List.getElem?_eq_none hge
    rw [List.getElem?_append_right hge, hnone, List.getElem?_singleton]
    constructor
    · intro h
      split_ifs at h with hzero
      exact .inr ⟨by omega, Option.some.inj h⟩
    · rintro (h | ⟨rfl, rfl⟩)
      · cases h
      · simp

theorem place_lt {x : IndexEvent T} (h : es[i]? = some x) : i < es.length :=
  (List.getElem?_eq_some_iff.mp h).1

theorem readAt_snoc : ReadAt (es ++ [e]) i result ↔ ReadAt es i result ∨
    i = es.length ∧ ∃ faults, e = ⟨.read, faults, .returned (some result)⟩ := by
  unfold ReadAt
  simp only [getElem?_snoc]
  rw [exists_or, exists_and_left]

theorem writeAt_snoc : WriteAt (es ++ [e]) i records ↔ WriteAt es i records ∨
    i = es.length ∧ ∃ faults ending, e = ⟨.write records, faults, ending⟩ := by
  unfold WriteAt
  simp only [getElem?_snoc, exists_or, exists_and_left]

theorem completedAt_snoc : CompletedAt (es ++ [e]) i ↔ CompletedAt es i ∨
    i = es.length ∧ ∃ records faults result, e = ⟨.write records, faults, .returned result⟩ := by
  unfold CompletedAt
  simp only [getElem?_snoc, exists_or, exists_and_left]

theorem ReadAt.lt (h : ReadAt es i result) : i < es.length := h.elim fun _ h => place_lt h

theorem WriteAt.lt (h : WriteAt es i records) : i < es.length := h.elim fun _ ⟨_, h⟩ => place_lt h

theorem CompletedAt.lt (h : CompletedAt es i) : i < es.length := h.elim fun _ ⟨_, _, h⟩ => place_lt h

/-- Before the end nothing has changed. -/
theorem completedAt_of_snoc (hlt : i < es.length) (h : CompletedAt (es ++ [e]) i) : CompletedAt es i :=
  (completedAt_snoc.mp h).elim id fun h => absurd h.1 (Nat.ne_of_lt hlt)

end Places

/-- A write of the records began, and no later write returned. -/
def Recent (es : List (IndexEvent T)) (records : List T) : Prop :=
  ∃ v, WriteAt es v records ∧ ∀ j, v < j → ¬ CompletedAt es j

/-- **The invariant of a run.** -/
structure IndexInv (J : IndexCodec T) (w : IndexWorld T) : Prop where
  within : Files.Within (Written J (Recent w.history)) w.files
  index : (∃ j, CompletedAt w.history j) → HasIndex J w.files
  seen : ∀ i result, ReadAt w.history i result → Found result →
    (∀ j records, i < j → ¬ WriteAt w.history j records) → indexAt J w.files .primary = some result.records
  survives : SurvivesCrashes w.history

theorem indexInv_initial : IndexInv J (IndexWorld.initial T) where
  within := fun _ _ h => by cases h
  index := fun ⟨_, h⟩ => absurd h.lt (Nat.not_lt_zero _)
  seen := fun _ _ h => absurd h.lt (Nat.not_lt_zero _)
  survives :=
    { recent := fun _ _ h => absurd h.lt (Nat.not_lt_zero _)
      kept := fun _ _ _ _ _ h => absurd h.lt (Nat.not_lt_zero _)
      answered := fun _ _ h => absurd h.lt (Nat.not_lt_zero _) }

section Steps

variable {es : List (IndexEvent T)} {e : IndexEvent T} {s t : IndexFiles} {records : List T}
  {faults : List Fault}

/-- A run goes on with an event that is not a read that returned. -/
theorem SurvivesCrashes.snoc (h : SurvivesCrashes es)
    (hread : ∀ result faults, e ≠ ⟨.read, faults, .returned (some result)⟩) : SurvivesCrashes (es ++ [e]) := by
  have hold : ∀ {i result}, ReadAt (es ++ [e]) i result → ReadAt es i result := by
    intro i result hr
    rcases readAt_snoc.mp hr with hr | ⟨-, faults, heq⟩
    · exact hr
    · exact absurd heq (hread result faults)
  refine ⟨fun i result hr hfound => ?_, fun i i' result result' hlt hr hfound hr' hno => ?_,
    fun i result hr hcompleted => ?_⟩
  · have hi := (hold hr).lt
    have hfound' : Found result ∨ ∃ j < i, CompletedAt es j :=
      hfound.imp_right fun ⟨j, hj, hc⟩ => ⟨j, hj, completedAt_of_snoc (by omega) hc⟩
    obtain ⟨v, hv, hw, hlast⟩ := h.recent i result (hold hr) hfound'
    exact ⟨v, hv, writeAt_snoc.mpr (.inl hw), fun j h1 h2 hc =>
      hlast j h1 h2 (completedAt_of_snoc (by omega) hc)⟩
  · exact h.kept i i' result result' hlt (hold hr) hfound (hold hr') fun j records h1 h2 hw =>
      hno j records h1 h2 (writeAt_snoc.mpr (.inl hw))
  · obtain ⟨j, hj, hc⟩ := hcompleted
    have hi := (hold hr).lt
    exact h.answered i result (hold hr) ⟨j, hj, completedAt_of_snoc (by omega) hc⟩

/-- How a read ends. -/
theorem ends_read_call {written : List T → Prop} (h : Files.Within (Written J written) s)
    (hthrough : readsThrough J s (probes J s) faults = true) :
    Ends (IndexCall.read.perform J) faults s
      (fun answer _ t => ∃ result, answer = some result ∧ ReadKept J written s t ∧
        (Found result ∧ indexAt J t .primary = some result.records ∨ ¬ Found result ∧ ¬ HasIndex J s))
      (fun _ => ReadKept J written s) (ReadKept J written s) := by
  unfold IndexCall.perform
  rw [ends_bind]
  exact (ends_readAtomicArrayIndex h hthrough).mono (fun result _ _ ht => ⟨result, rfl, ht⟩)
    (fun _ _ ht => ht) fun _ ht => ht

theorem ends_write_call {written : List T → Prop} (h : Files.Within (Written J written) s)
    (hrecords : written records) :
    Ends ((IndexCall.write records).perform J) faults s (fun _ _ t => Rotated J records t)
      (fun _ => WriteKept J written s) (WriteKept J written s) := by
  unfold IndexCall.perform
  rw [ends_bind]
  exact (ends_writeAtomicArrayIndex h hrecords).mono (fun _ _ _ ht => ht) (fun _ _ ht => ht) fun _ ht => ht

theorem recent_snoc_of_not_write (h : ∀ records faults ending, e ≠ ⟨.write records, faults, ending⟩)
    (hrecent : Recent es records) : Recent (es ++ [e]) records := by
  obtain ⟨v, hw, hlast⟩ := hrecent
  refine ⟨v, writeAt_snoc.mpr (.inl hw), fun j hj hc => ?_⟩
  rcases completedAt_snoc.mp hc with hc | ⟨-, records, faults, result, heq⟩
  · exact hlast j hj hc
  · exact h _ _ _ heq

/-- What a write that did not return may have left is recent. -/
theorem recent_snoc_of_interrupted {ending : Ending (Option (AtomicIndexReadResult T))}
    (he : e = ⟨.write records, faults, ending⟩) (hending : ∀ result, ending ≠ .returned result)
    {records' : List T} (h : Recent es records' ∨ records' = records) : Recent (es ++ [e]) records' := by
  have hcompleted : ∀ {j}, CompletedAt (es ++ [e]) j → CompletedAt es j := by
    intro j hc
    rcases completedAt_snoc.mp hc with hc | ⟨-, _, _, result, heq⟩
    · exact hc
    · rw [he] at heq
      cases heq
      exact absurd rfl (hending result)
  rcases h with ⟨v, hw, hlast⟩ | rfl
  · exact ⟨v, writeAt_snoc.mpr (.inl hw), fun j hj hc => hlast j hj (hcompleted hc)⟩
  · refine ⟨es.length, writeAt_snoc.mpr (.inr ⟨rfl, faults, ending, he⟩), fun j hj hc => ?_⟩
    have := (hcompleted hc).lt
    omega

theorem recent_snoc_of_completed {result : Option (AtomicIndexReadResult T)}
    (he : e = ⟨.write records, faults, .returned result⟩) : Recent (es ++ [e]) records := by
  refine ⟨es.length, writeAt_snoc.mpr (.inr ⟨rfl, faults, _, he⟩), fun j hj hc => ?_⟩
  have hlt := hc.lt
  rw [List.length_append, List.length_singleton] at hlt
  omega

end Steps

section Invariant

variable {w w' : IndexWorld T} {e : IndexEvent T}

/-- A read keeps the invariant where its own result is as it should be. -/
theorem indexInv_read (h : IndexInv J w) (he : e.call = .read) (hhistory : w'.history = w.history ++ [e])
    (hkept : ReadKept J (Recent w.history) w.files w'.files)
    (hnew : ∀ result faults, e = ⟨.read, faults, .returned (some result)⟩ → Found result →
      indexAt J w'.files .primary = some result.records)
    (hsurvives : SurvivesCrashes (w.history ++ [e])) : IndexInv J w' := by
  have hwrite : ∀ records faults ending, e ≠ ⟨.write records, faults, ending⟩ := by
    rintro _ _ _ rfl
    cases he
  constructor
  · rw [hhistory]
    exact fun path contents hc => (hkept.within path contents hc).mono fun _ => recent_snoc_of_not_write hwrite
  · rw [hhistory]
    rintro ⟨j, hc⟩
    rcases completedAt_snoc.mp hc with hc | ⟨-, _, _, _, heq⟩
    · exact hkept.index (h.index ⟨j, hc⟩)
    · exact absurd heq (hwrite _ _ _)
  · rw [hhistory]
    intro i result hr hfound hno
    rcases readAt_snoc.mp hr with hr | ⟨-, faults, heq⟩
    · have hseen := h.seen i result hr hfound fun j records hj hw =>
        hno j records hj (writeAt_snoc.mpr (.inl hw))
      rw [indexAt_congr (hkept.primary (by rw [hseen]; rfl)), hseen]
    · exact hnew result faults heq hfound
  · rw [hhistory]
    exact hsurvives

/-- **A read that returns.** What it found is recent; it is what the last read found where no write came in
between. -/
theorem survives_read (h : IndexInv J w) {faults : List Fault} {result : AtomicIndexReadResult T}
    {t : IndexFiles} (hkept : ReadKept J (Recent w.history) w.files t)
    (hresult : Found result ∧ indexAt J t .primary = some result.records ∨
      ¬ Found result ∧ ¬ HasIndex J w.files) :
    SurvivesCrashes (w.history ++ [⟨.read, faults, .returned (some result)⟩]) := by
  have hanswered : (∃ j, CompletedAt w.history j) → Found result := by
    intro hc
    rcases hresult with ⟨hfound, -⟩ | ⟨-, hnone⟩
    · exact hfound
    · exact absurd (h.index hc) hnone
  have hindex : Found result → indexAt J t .primary = some result.records := by
    intro hfound
    rcases hresult with ⟨-, hindex⟩ | ⟨hnot, -⟩
    · exact hindex
    · exact absurd hfound hnot
  refine ⟨fun i r hr hfound => ?_, fun i i' r r' hlt hr hfound hr' hno => ?_, fun i r hr hcompleted => ?_⟩
  · rcases readAt_snoc.mp hr with hr | ⟨rfl, _, heq⟩
    · have hi := hr.lt
      obtain ⟨v, hv, hw, hlast⟩ := h.survives.recent i r hr (hfound.imp_right fun ⟨j, hj, hc⟩ =>
        ⟨j, hj, completedAt_of_snoc (by omega) hc⟩)
      exact ⟨v, hv, writeAt_snoc.mpr (.inl hw), fun j h1 h2 hc =>
        hlast j h1 h2 (completedAt_of_snoc (by omega) hc)⟩
    · cases heq
      have hfound' : Found result := hfound.elim id fun ⟨j, hj, hc⟩ => hanswered ⟨j, completedAt_of_snoc hj hc⟩
      obtain ⟨contents, hfile, hparse⟩ := Option.bind_eq_some_iff.mp (hindex hfound')
      obtain ⟨⟨v, hw, hlast⟩, -⟩ := (hkept.within _ contents hfile).parse hparse
      exact ⟨v, hw.lt, writeAt_snoc.mpr (.inl hw), fun j h1 h2 hc =>
        hlast j h1 (completedAt_of_snoc h2 hc)⟩
  · have hr : ReadAt w.history i r := by
      rcases readAt_snoc.mp hr with hr | ⟨rfl, -⟩
      · exact hr
      · have := hr'.lt
        rw [List.length_append, List.length_singleton] at this
        omega
    rcases readAt_snoc.mp hr' with hr' | ⟨rfl, _, heq⟩
    · exact h.survives.kept i i' r r' hlt hr hfound hr' fun j records h1 h2 hw =>
        hno j records h1 h2 (writeAt_snoc.mpr (.inl hw))
    · cases heq
      have hseen := h.seen i r hr hfound fun j records hj hw =>
        hno j records hj hw.lt (writeAt_snoc.mpr (.inl hw))
      have hprimary := indexAt_congr (J := J) (hkept.primary (by rw [hseen]; rfl))
      rcases hresult with ⟨hfound', hindex⟩ | ⟨-, hnone⟩
      · rw [hprimary, hseen, Option.some.injEq] at hindex
        exact ⟨hfound', hindex.symm⟩
      · exact absurd ⟨.primary, by rw [hseen]; rfl⟩ hnone
  · rcases readAt_snoc.mp hr with hr | ⟨rfl, _, heq⟩
    · obtain ⟨j, hj, hc⟩ := hcompleted
      have hi := hr.lt
      exact h.survives.answered i r hr ⟨j, hj, completedAt_of_snoc (by omega) hc⟩
    · cases heq
      obtain ⟨j, hj, hc⟩ := hcompleted
      exact hanswered ⟨j, completedAt_of_snoc hj hc⟩

/-- A write that returned. -/
theorem indexInv_completed (h : IndexInv J w) {records : List T} {faults : List Fault}
    {result : Option (AtomicIndexReadResult T)} (he : e = ⟨.write records, faults, .returned result⟩)
    (hhistory : w'.history = w.history ++ [e]) (hrotated : Rotated J records w'.files) : IndexInv J w' := by
  have hcontents : Written J (Recent w'.history) (J.stringify records) := by
    rw [hhistory]
    exact written_stringify (recent_snoc_of_completed he)
  constructor
  · intro path contents hc
    cases path with
    | primary =>
      rw [hrotated.primary] at hc
      exact Option.some.inj hc ▸ hcontents
    | backup =>
      rw [hrotated.backup] at hc
      exact Option.some.inj hc ▸ hcontents
    | temporary =>
      rw [hrotated.temporary] at hc
      cases hc
    | backupTemporary =>
      rw [hrotated.backupTemporary] at hc
      cases hc
  · exact fun _ => ⟨.primary, by simp [indexAt, hrotated.primary, J.parse_stringify]⟩
  · rw [hhistory]
    intro i r hr _ hno
    rcases readAt_snoc.mp hr with hr | ⟨-, _, heq⟩
    · exact absurd (writeAt_snoc.mpr (.inr ⟨rfl, _, _, he⟩)) (hno _ records hr.lt)
    · rw [he] at heq
      cases heq
  · rw [hhistory]
    refine h.survives.snoc fun r _ heq => ?_
    rw [he] at heq
    cases heq

/-- A write that did not return, and did not begin with the temporary file alone. -/
theorem indexInv_interrupted (h : IndexInv J w) {records : List T} {faults : List Fault}
    {ending : Ending (Option (AtomicIndexReadResult T))} (he : e = ⟨.write records, faults, ending⟩)
    (hending : ∀ result, ending ≠ .returned result) (hhistory : w'.history = w.history ++ [e])
    (hother : (∃ i, CompletedAt w.history i) → HasOtherIndex J w.files)
    (hkept : WriteKept J (fun r => Recent w.history r ∨ r = records) w.files w'.files) : IndexInv J w' := by
  constructor
  · rw [hhistory]
    exact fun path contents hc => (hkept.within path contents hc).mono fun _ =>
      recent_snoc_of_interrupted he hending
  · rw [hhistory]
    rintro ⟨j, hc⟩
    rcases completedAt_snoc.mp hc with hc | ⟨-, _, _, _, heq⟩
    · exact hkept.index (hother ⟨j, hc⟩)
    · rw [he] at heq
      cases heq
      exact absurd rfl (hending _)
  · rw [hhistory]
    intro i r hr _ hno
    rcases readAt_snoc.mp hr with hr | ⟨-, _, heq⟩
    · exact absurd (writeAt_snoc.mpr (.inr ⟨rfl, _, _, he⟩)) (hno _ records hr.lt)
    · rw [he] at heq
      cases heq
  · rw [hhistory]
    refine h.survives.snoc fun r _ heq => ?_
    rw [he] at heq
    cases heq

/-- **A call that is kept keeps the invariant.** -/
theorem indexInv_step (h : IndexInv J w) (hstep : KeptStep J w e w') : IndexInv J w' := by
  obtain ⟨⟨hhistory, rest, hperform⟩, hkeeps⟩ := hstep
  obtain ⟨call, faults, ending⟩ := e
  cases call with
  | read =>
    have hends := ends_read_call h.within hkeeps
    cases ending with
    | returned answer =>
      obtain ⟨result, rfl, hkept, hresult⟩ := hends.returned hperform
      refine indexInv_read h rfl hhistory hkept (fun result' _ heq hfound => ?_) (survives_read h hkept hresult)
      cases heq
      rcases hresult with ⟨-, hindex⟩ | ⟨hnot, -⟩
      · exact hindex
      · exact absurd hfound hnot
    | failed =>
      exact indexInv_read h rfl hhistory (hends.failed hperform) (fun _ _ heq => by cases heq)
        (h.survives.snoc fun _ _ heq => by cases heq)
    | stopped =>
      exact indexInv_read h rfl hhistory (hends.stopped hperform) (fun _ _ heq => by cases heq)
        (h.survives.snoc fun _ _ heq => by cases heq)
  | write records =>
    have hwithin : Files.Within (Written J fun r => Recent w.history r ∨ r = records) w.files :=
      fun path contents hc => (h.within path contents hc).mono fun _ => .inl
    have hends : Ends ((IndexCall.write records).perform J) faults w.files (fun _ _ t => Rotated J records t)
        (fun _ => WriteKept J (fun r => Recent w.history r ∨ r = records) w.files)
        (WriteKept J (fun r => Recent w.history r ∨ r = records) w.files) := ends_write_call hwithin (.inr rfl)
    cases ending with
    | returned answer => exact indexInv_completed h rfl hhistory (hends.returned hperform)
    | failed =>
      exact indexInv_interrupted h rfl (fun _ heq => by cases heq) hhistory hkeeps (hends.failed hperform)
    | stopped =>
      exact indexInv_interrupted h rfl (fun _ heq => by cases heq) hhistory hkeeps (hends.stopped hperform)

end Invariant

theorem history_of_run {es : List (IndexEvent T)} {w w' : IndexWorld T} (h : Run (KeptStep J) w es w') :
    w'.history = w.history ++ es := by
  induction h with
  | nil => exact (List.append_nil _).symm
  | cons hstep _ ih => rw [ih, hstep.1.1, List.append_assoc, List.singleton_append]

/-- **The recording index survives.** In every run of writes and reads in which no read fails to read an
index that is there and no write begins, after one that returned, with the index in the temporary file alone,
the reads return the records of the last write that returned or of a later one. -/
theorem recording_index_survives {es : List (IndexEvent T)} {w : IndexWorld T}
    (h : Run (KeptStep J) (IndexWorld.initial T) es w) : SurvivesCrashes es := by
  have hinv := Run.invariant (I := IndexInv J) (fun _ _ _ hw hstep => indexInv_step hw hstep) h
    indexInv_initial
  have hsurvives := hinv.survives
  rw [history_of_run h] at hsurvives
  exact hsurvives

/-! ### Replaying runs -/

/-- The event of a call under a script of faults. -/
def IndexWorld.event (J : IndexCodec T) (w : IndexWorld T) (call : IndexCall T) (faults : List Fault) :
    IndexEvent T :=
  ⟨call, faults, (call.perform J faults w.files).1⟩

def IndexWorld.next (J : IndexCodec T) (w : IndexWorld T) (call : IndexCall T) (faults : List Fault) :
    IndexWorld T :=
  ⟨w.history ++ [w.event J call faults], (call.perform J faults w.files).2.2⟩

def IndexWorld.replay (J : IndexCodec T) : IndexWorld T → List (IndexCall T × List Fault) → IndexWorld T
  | w, [] => w
  | w, (call, faults) :: calls => (w.next J call faults).replay J calls

theorem worldStep_next {w : IndexWorld T} {call : IndexCall T} {faults : List Fault} :
    WorldStep J w (w.event J call faults) (w.next J call faults) := ⟨rfl, _, rfl⟩

theorem run_replay {w : IndexWorld T} {calls : List (IndexCall T × List Fault)} :
    ∃ es, Run (WorldStep J) w es (w.replay J calls) ∧ (w.replay J calls).history = w.history ++ es := by
  induction calls generalizing w with
  | nil => exact ⟨[], Run.nil w, (List.append_nil _).symm⟩
  | cons c calls ih =>
    obtain ⟨es, hrun, hhistory⟩ := @ih (w.next J c.1 c.2)
    exact ⟨w.event J c.1 c.2 :: es, Run.cons worldStep_next hrun, by
      rw [IndexWorld.replay, hhistory, IndexWorld.next, List.append_assoc, List.singleton_append]⟩

theorem run_replay_initial {calls : List (IndexCall T × List Fault)} :
    Run (WorldStep J) (IndexWorld.initial T) ((IndexWorld.initial T).replay J calls).history
      ((IndexWorld.initial T).replay J calls) := by
  obtain ⟨es, hrun, hhistory⟩ := @run_replay T J (IndexWorld.initial T) calls
  rw [IndexWorld.initial, List.nil_append] at hhistory
  rw [IndexWorld.initial, hhistory]
  exact hrun

/-! ### A codec

The JSON text of an array of the number `1`: `[]`, `[1]`, `[1,1]`, … -/

/-- The text before the closing bracket. -/
def onesBody : ℕ → Contents
  | 0 => ['[']
  | n + 1 => '[' :: '1' :: (List.replicate n [',', '1']).flatten

theorem length_onesBody (n : ℕ) : (onesBody n).length = if n = 0 then 1 else 2 * n := by
  cases n with
  | zero => rfl
  | succ n =>
    simp [onesBody]
    omega

theorem bracket_not_mem_onesBody (n : ℕ) : ']' ∉ onesBody n := by
  cases n with
  | zero => decide
  | succ n =>
    intro h
    simp only [onesBody, List.mem_cons, List.mem_flatten, List.mem_replicate] at h
    rcases h with h | h | ⟨part, ⟨-, rfl⟩, h⟩
    · exact absurd h (by decide)
    · exact absurd h (by decide)
    · exact absurd h (by decide)

def stringifyOnes (records : List Unit) : Contents := onesBody records.length ++ [']']

theorem stringifyOnes_injective : Function.Injective stringifyOnes := by
  intro records records' h
  have hlength := congrArg List.length h
  simp only [stringifyOnes, List.length_append, length_onesBody, List.length_singleton] at hlength
  refine List.ext_getElem ?_ fun _ _ _ => rfl
  split_ifs at hlength <;> omega

/-- The arrays of at most `n` numbers are tried one after the other. -/
def parseOnes (contents : Contents) : Option (List Unit) :=
  ((List.range contents.length).map fun n => List.replicate n ()).find? fun records =>
    stringifyOnes records == contents

theorem parseOnes_stringifyOnes (records : List Unit) : parseOnes (stringifyOnes records) = some records := by
  have hmem : records ∈ (List.range (stringifyOnes records).length).map fun n => List.replicate n () := by
    refine List.mem_map.mpr ⟨records.length, List.mem_range.mpr ?_, ?_⟩
    · simp only [stringifyOnes, List.length_append, length_onesBody, List.length_singleton]
      split_ifs <;> omega
    · exact List.ext_getElem (List.length_replicate ..) fun _ _ _ => rfl
  have hsome : (parseOnes (stringifyOnes records)).isSome :=
    List.find?_isSome.mpr ⟨records, hmem, beq_self_eq_true _⟩
  obtain ⟨found, hfound⟩ := Option.isSome_iff_exists.mp hsome
  have heq := List.find?_some hfound
  rw [hfound, stringifyOnes_injective (beq_iff_eq.mp heq)]

theorem parseOnes_take (records : List Unit) (k : ℕ) (hk : k < (stringifyOnes records).length) :
    parseOnes ((stringifyOnes records).take k) = none := by
  refine List.find?_eq_none.mpr fun other _ heq => ?_
  have hk' : k ≤ (onesBody records.length).length := by
    rw [stringifyOnes, List.length_append, List.length_singleton] at hk
    omega
  have htext : stringifyOnes other = (onesBody records.length).take k := by
    rw [beq_iff_eq.mp heq, stringifyOnes, List.take_append_of_le_length hk']
  have hmem : ']' ∈ stringifyOnes other := by simp [stringifyOnes]
  rw [htext] at hmem
  exact bracket_not_mem_onesBody _ (List.mem_of_mem_take hmem)

def onesCodec : IndexCodec Unit where
  stringify := stringifyOnes
  parseIndex := parseOnes
  parse_stringify := parseOnes_stringifyOnes
  parse_take := parseOnes_take

/-! ### Runs that break the index -/

/-- A write that returns; a read stopped while it moves the backup into place, and one stopped after it removed
what was left of it; a write stopped before it moves the temporary file, and one stopped after it removed that
file; and a read. -/
def lostCalls : List (IndexCall Unit × List Fault) :=
  [(.write [], []), (.read, List.replicate 6 .done ++ [.stops 0]), (.read, List.replicate 3 .done ++ [.stops 0]),
    (.write [()], List.replicate 4 .done ++ [.stops 0]), (.write [(), ()], [.done, .stops 0]), (.read, [])]

/-- A write that returns, a write stopped before it moves the temporary file, and a read. -/
theorem recording_index_survives_interrupted : ∃ es w, Run (KeptStep onesCodec) (IndexWorld.initial Unit) es w ∧
    SurvivesCrashes es ∧ ∃ result, ReadAt es 2 result ∧ result.records = [()] := by
  let w1 := (IndexWorld.initial Unit).next onesCodec (.write []) []
  let w2 := w1.next onesCodec (.write [()]) (List.replicate 4 .done ++ [.stops 0])
  have hrun : Run (KeptStep onesCodec) (IndexWorld.initial Unit) (w2.next onesCodec .read []).history
      (w2.next onesCodec .read []) := by
    refine Run.cons ⟨worldStep_next, ?_⟩ (Run.cons ⟨worldStep_next, ?_⟩ (Run.single ⟨worldStep_next, ?_⟩))
    · exact fun ⟨_, h⟩ => absurd h.lt (Nat.not_lt_zero _)
    · exact fun _ => ⟨.primary, by decide, by decide +kernel⟩
    · change readsThrough _ _ _ _ = true
      decide +kernel
  refine ⟨_, _, hrun, recording_index_survives hrun, ⟨[()], .temporary⟩, ⟨[], ?_⟩, rfl⟩
  decide +kernel

/-- **The index is lost.** After a write that returned, a write removes the temporary file, which alone has an
index; the next read answers that there is none. -/
theorem recording_index_lost : ∃ es w result, Run (WorldStep onesCodec) (IndexWorld.initial Unit) es w ∧
    CompletedAt es 0 ∧ ReadAt es 5 result ∧ result.source = .empty ∧ ¬ SurvivesCrashes es := by
  have hcompleted : CompletedAt ((IndexWorld.initial Unit).replay onesCodec lostCalls).history 0 :=
    ⟨[], [], none, by decide +kernel⟩
  have hread : ReadAt ((IndexWorld.initial Unit).replay onesCodec lostCalls).history 5 ⟨[], .empty⟩ :=
    ⟨[], by decide +kernel⟩
  refine ⟨_, _, ⟨[], .empty⟩, run_replay_initial, hcompleted, hread, rfl, fun h => ?_⟩
  exact (h.answered 5 _ hread ⟨0, by decide, hcompleted⟩).1 rfl

end OwnMinutes.Mobile.SurvivingIndex
