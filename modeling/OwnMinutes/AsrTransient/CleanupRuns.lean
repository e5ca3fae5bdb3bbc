import OwnMinutes.AsrTransient.Snapshot

/-! # What a cleanup leaves behind

A snapshot remembers one prefix and one intent. As long as it begins no attempt while it still remembers the last
one, every object lies under the remembered prefix and every row is that of the remembered intent, and a cleanup
that resolves has deleted both. -/

namespace OwnMinutes.AsrTransient.CleanupRuns

open OwnMinutes.AsrTransient.Snapshot OwnMinutes.Lib.Runs

variable {s t : State} {action : Action} {events : List Event} {caller : Caller}

/-- No new attempt while a prefix is still to be deleted, and no intent that is begun but not answered. -/
def Remembers (s : State) : Action → Prop
  | .normalized true true => s.cleanupRequested = false → s.transientPrefix = none
  | .began (.failed true) => False
  | _ => True

/-- What is outside is remembered. -/
structure Core (s : State) : Prop where
  objects : ∀ key ∈ s.objects, s.transientPrefix = some key
  intents : ∀ intent ∈ s.intents, s.transientTransferIntentId = some intent
  together : s.transientPrefix = none → s.transientTransferIntentId = none
  queued : .cleanup ∈ s.lifecycleTail → s.cleanupRequested = true
  complete : s.cleanupComplete = true →
    s.cleanupRequested = true ∧ s.transientPrefix = none ∧ s.directory = false

/-- What holds where the running operation waits. -/
def AtPoint (s : State) : Prop :=
  match s.point with
  | .idle => True
  | .normalizing | .putting | .revising | .presigning | .reading | .failing => s.cleanupComplete = false
  | .beginning =>
    s.cleanupComplete = false ∧ s.transientTransferIntentId = none ∧ s.transientPrefix ≠ none
  | .deletingPrefix caller deletingPrefix =>
    s.cleanupComplete = false ∧ s.transientPrefix = some deletingPrefix ∧
      (caller = .cleanup → s.cleanupRequested = true)
  | .completingIntent caller deletingPrefix =>
    s.cleanupComplete = false ∧ s.transientPrefix = some deletingPrefix ∧
      (caller = .cleanup → s.cleanupRequested = true) ∧ s.objects = []
  | .removingDirectory deletionFailed =>
    s.cleanupRequested = true ∧ (deletionFailed = false → s.transientPrefix = none)

structure Sound (s : State) : Prop where
  core : Core s
  point : AtPoint s

theorem Core.objects_nil (h : Core s) (hheld : s.transientPrefix = none) : s.objects = [] := by
  refine List.eq_nil_iff_forall_not_mem.mpr fun key hkey => ?_
  have := h.objects key hkey
  rw [hheld] at this
  cases this

theorem Core.intents_nil (h : Core s) (hintent : s.transientTransferIntentId = none) : s.intents = [] := by
  refine List.eq_nil_iff_forall_not_mem.mpr fun intent hmem => ?_
  have := h.intents intent hmem
  rw [hintent] at this
  cases this

theorem Core.withPoint (h : Core s) (point : Point) : Core { s with point } :=
  ⟨h.objects, h.intents, h.together, h.queued, h.complete⟩

theorem Core.filter_objects (h : Core s) (p : ℕ → Bool) : Core { s with objects := s.objects.filter p } :=
  ⟨fun key hkey => h.objects key (List.mem_filter.mp hkey).1, h.intents, h.together, h.queued, h.complete⟩

/-! ### Deletions -/

theorem sound_afterDelete (h : Core s) {ok : Bool} (hok : ok = true → s.transientPrefix = none)
    (hrunning : caller ≠ .cleanup → s.cleanupComplete = false)
    (hrequested : caller = .cleanup → s.cleanupRequested = true) : Sound (afterDelete s caller ok).1 := by
  refine ⟨?_, ?_⟩
  · cases caller <;> exact h.withPoint _
  · cases caller with
    | cancelled => exact hrunning (by decide)
    | inaccessible => cases ok <;> exact hrunning (by decide)
    | failed => trivial
    | cleanup =>
      refine ⟨hrequested rfl, fun hfailed => hok ?_⟩
      rwa [Bool.not_eq_false'] at hfailed

theorem sound_deleteTransientUnsafe (h : Core s) (hrunning : caller ≠ .cleanup → s.cleanupComplete = false)
    (hrequested : caller = .cleanup → s.cleanupRequested = true) : Sound (deleteTransientUnsafe s caller).1 := by
  unfold deleteTransientUnsafe
  split
  · rename_i hheld
    exact sound_afterDelete h (fun _ => hheld) hrunning hrequested
  · rename_i deletingPrefix hheld
    refine ⟨h.withPoint _, ?_, hheld, hrequested⟩
    refine Bool.eq_false_iff.mpr fun hcomplete => ?_
    have := (h.complete hcomplete).2.1
    rw [hheld] at this
    cases this

theorem forget_prefix {deletingPrefix : ℕ} (h : s.transientPrefix = some deletingPrefix) :
    (forget s deletingPrefix).transientPrefix = none := if_pos h

theorem core_forget {deletingPrefix : ℕ} (h : Core s) (hheld : s.transientPrefix = some deletingPrefix)
    (hobjects : s.objects = []) (hintents : s.intents = []) : Core (forget s deletingPrefix) where
  objects key hkey := by
    have hkey : key ∈ s.objects := hkey
    rw [hobjects] at hkey
    cases hkey
  intents intent hmem := by
    have hmem : intent ∈ s.intents := hmem
    rw [hintents] at hmem
    cases hmem
  together _ := rfl
  queued := h.queued
  complete hcomplete := ⟨(h.complete hcomplete).1, forget_prefix hheld, (h.complete hcomplete).2.2⟩

theorem sound_prefixDeleted {deletingPrefix : ℕ} (h : Core s) (hrunning : s.cleanupComplete = false)
    (hheld : s.transientPrefix = some deletingPrefix) (hrequested : caller = .cleanup → s.cleanupRequested = true)
    (ok : Bool) (kept : List ℕ) : Sound (prefixDeleted s caller deletingPrefix ok kept).1 := by
  unfold prefixDeleted
  split
  · -- all objects were under the prefix
    have hobjects : s.objects.filter (· ≠ deletingPrefix) = [] := by
      refine List.filter_eq_nil_iff.mpr fun key hkey => ?_
      have := h.objects key hkey
      rw [hheld] at this
      cases this
      simp
    have hcore := h.filter_objects fun key => key ≠ deletingPrefix
    dsimp only
    split
    · exact ⟨hcore.withPoint _, hrunning, hheld, hrequested, hobjects⟩
    · rename_i hintent
      refine sound_afterDelete (core_forget hcore hheld hobjects ?_) (fun _ => forget_prefix hheld)
        (fun _ => hrunning) hrequested
      exact h.intents_nil hintent
  · rename_i hnot
    exact sound_afterDelete (h.filter_objects _) (fun hok => absurd hok (by decide)) (fun _ => hrunning) hrequested

theorem sound_intentCompleted {deletingPrefix : ℕ} (h : Core s) (hrunning : s.cleanupComplete = false)
    (hheld : s.transientPrefix = some deletingPrefix) (hrequested : caller = .cleanup → s.cleanupRequested = true)
    (hobjects : s.objects = []) (ok deleted : Bool) :
    Sound (intentCompleted s caller deletingPrefix ok deleted).1 := by
  have hremaining : s.intents.filter (fun intent => !(s.transientTransferIntentId = some intent : Bool)) = [] := by
    refine List.filter_eq_nil_iff.mpr fun intent hmem => ?_
    simp [h.intents intent hmem]
  have hcore (intents : List ℕ) (hsub : ∀ intent ∈ intents, intent ∈ s.intents) : Core { s with intents } :=
    ⟨h.objects, fun intent hmem => h.intents intent (hsub intent hmem), h.together, h.queued, h.complete⟩
  simp only [intentCompleted]
  split
  · refine sound_afterDelete (core_forget (hcore _ fun intent hmem => (List.mem_filter.mp hmem).1) hheld hobjects ?_)
      (fun _ => forget_prefix hheld) (fun _ => hrunning) hrequested
    exact hremaining
  · refine sound_afterDelete (hcore _ fun intent hmem => ?_) (fun hok => absurd hok (by decide)) (fun _ => hrunning)
      hrequested
    split at hmem
    · exact (List.mem_filter.mp hmem).1
    · exact hmem

/-! ### Steps -/

theorem sound_callPrepare (h : Sound s) : Sound { s with lifecycleTail := s.lifecycleTail ++ [.prepare] } := by
  refine ⟨⟨h.core.objects, h.core.intents, h.core.together, fun hmem => h.core.queued ?_, h.core.complete⟩, h.point⟩
  rcases List.mem_append.mp hmem with hmem | hmem
  · exact hmem
  · exact absurd hmem (by decide)

/-- Requesting a cleanup keeps everything. -/
theorem sound_request (h : Sound s) (tail : List Operation) (inFlight : Bool) :
    Sound { s with cleanupRequested := true, lifecycleTail := tail, cleanupInFlight := inFlight } := by
  refine ⟨⟨h.core.objects, h.core.intents, h.core.together, fun _ => rfl,
    fun hcomplete => ⟨rfl, (h.core.complete hcomplete).2⟩⟩, ?_⟩
  have hpoint := h.point
  unfold AtPoint at hpoint ⊢
  cases hat : s.point <;> rw [hat] at hpoint
  case deletingPrefix caller deletingPrefix => exact ⟨hpoint.1, hpoint.2.1, fun _ => rfl⟩
  case completingIntent caller deletingPrefix => exact ⟨hpoint.1, hpoint.2.1, fun _ => rfl, hpoint.2.2.2⟩
  case removingDirectory deletionFailed => exact ⟨rfl, hpoint.2⟩
  all_goals exact hpoint

theorem sound_callCleanup (h : Sound s) : Sound (callCleanup s).1 := by
  simp only [callCleanup]
  split
  · exact sound_request h s.lifecycleTail s.cleanupInFlight
  · split
    · exact sound_request h s.lifecycleTail s.cleanupInFlight
    · exact sound_request h _ true

theorem sound_start (h : Sound s) (hstart : start s = some (t, events)) : Sound t := by
  unfold start at hstart
  split at hstart
  · rename_i rest hidle htail
    have hcore : Core { s with lifecycleTail := rest } := by
      refine ⟨h.core.objects, h.core.intents, h.core.together, fun hmem => h.core.queued ?_, h.core.complete⟩
      rw [htail]
      exact List.mem_cons_of_mem _ hmem
    have hpoint : AtPoint { s with lifecycleTail := rest } := by
      unfold AtPoint
      rw [hidle]
      trivial
    dsimp only at hstart
    split_ifs at hstart with hrequested hprepared
    · cases hstart
      exact ⟨hcore, hpoint⟩
    · cases hstart
      exact ⟨hcore, hpoint⟩
    · cases hstart
      exact ⟨hcore.withPoint _, Bool.eq_false_iff.mpr fun hcomplete => hrequested (h.core.complete hcomplete).1⟩
  · rename_i rest hidle htail
    have hqueued : s.cleanupRequested = true := h.core.queued (by rw [htail]; exact List.mem_cons_self)
    have hcore : Core { s with lifecycleTail := rest } :=
      ⟨h.core.objects, h.core.intents, h.core.together, fun _ => hqueued, h.core.complete⟩
    have hsound : Sound (deleteTransientUnsafe { s with lifecycleTail := rest } .cleanup).1 :=
      sound_deleteTransientUnsafe hcore (fun hne => absurd rfl hne) fun _ => hqueued
    rwa [Option.some.inj hstart] at hsound
  · cases hstart

theorem sound_normalized (h : Core s) (hrunning : s.cleanupComplete = false) {ok supportsPresignedGet : Bool}
    (hremembers : Remembers s (.normalized ok supportsPresignedGet)) :
    Sound (normalized s ok supportsPresignedGet) := by
  unfold normalized
  split_ifs with hfailed hpresigned
  · exact ⟨h.withPoint _, hrunning⟩
  · rw [Bool.or_eq_true, not_or, Bool.not_eq_true', Bool.not_eq_false, Bool.not_eq_true] at hfailed
    obtain ⟨rfl, hrequested⟩ := hfailed
    cases hpresigned
    have hheld : s.transientPrefix = none := hremembers hrequested
    have hintent := h.together hheld
    refine ⟨⟨fun key hkey => ?_, h.intents, fun _ => hintent, h.queued, fun hcomplete => ?_⟩, hrunning, hintent,
      Option.some_ne_none _⟩
    · have hkey : key ∈ s.objects := hkey
      rw [h.objects_nil hheld] at hkey
      cases hkey
    · exact absurd (hrunning.symm.trans hcomplete) (by decide)
  · exact ⟨h.withPoint _, hrunning⟩

theorem sound_began (h : Core s) (hrunning : s.cleanupComplete = false)
    (hintent : s.transientTransferIntentId = none) (hheld : s.transientPrefix ≠ none) {result : Begin}
    (hremembers : Remembers s (.began result)) : Sound (began s result).1 := by
  have hincomplete : ¬ s.cleanupComplete = true := Bool.eq_false_iff.mp hrunning
  cases result with
  | disabled =>
    refine ⟨⟨h.objects, fun intent hmem => ?_, fun _ => rfl, h.queued, h.complete⟩, hrunning⟩
    have hmem : intent ∈ s.intents := hmem
    rw [h.intents_nil hintent] at hmem
    cases hmem
  | begun =>
    refine ⟨⟨h.objects, fun intent hmem => ?_, fun hnone => absurd hnone hheld, h.queued,
      fun hcomplete => absurd hcomplete hincomplete⟩, hrunning⟩
    rcases List.mem_cons.mp hmem with rfl | hmem
    · rfl
    · rw [h.intents_nil hintent] at hmem
      cases hmem
  | failed inserted =>
    cases inserted with
    | true => exact hremembers.elim
    | false => exact ⟨h.withPoint _, hrunning⟩

theorem sound_putDone (h : Core s) (hrunning : s.cleanupComplete = false) (ok stored : Bool) :
    Sound (putDone s ok stored).1 := by
  -- what is stored lies under the remembered prefix
  have hcore : Core
      { s with objects := if ok || stored then s.transientPrefix.toList ++ s.objects else s.objects } := by
    refine ⟨fun key hkey => ?_, h.intents, h.together, h.queued, h.complete⟩
    dsimp only at hkey
    split at hkey
    · rcases List.mem_append.mp hkey with hkey | hkey
      · exact Option.mem_toList.mp hkey
      · exact h.objects key hkey
    · exact h.objects key hkey
  simp only [putDone]
  split
  · exact ⟨hcore.withPoint _, hrunning⟩
  · split
    · exact sound_deleteTransientUnsafe hcore (fun _ => hrunning) fun hcaller => by cases hcaller
    · exact ⟨hcore.withPoint _, hrunning⟩

theorem sound_presigned (h : Core s) (hrunning : s.cleanupComplete = false) (accessible : Option Bool) :
    Sound (presigned s accessible).1 := by
  unfold presigned
  split
  · exact ⟨h.withPoint _, hrunning⟩
  · exact ⟨⟨h.objects, h.intents, h.together, h.queued, h.complete⟩, trivial⟩
  · exact sound_deleteTransientUnsafe h (fun _ => hrunning) fun hcaller => by cases hcaller

theorem sound_audioRead (h : Core s) (hrunning : s.cleanupComplete = false) (ok : Bool) :
    Sound (audioRead s ok).1 := by
  unfold audioRead
  split
  · exact ⟨h.withPoint _, hrunning⟩
  · split
    · exact ⟨⟨h.objects, h.intents, h.together, h.queued, h.complete⟩, hrunning⟩
    · exact ⟨⟨h.objects, h.intents, h.together, h.queued, h.complete⟩, trivial⟩

theorem sound_reported (h : Core s) (hrunning : s.cleanupComplete = false) (ok : Bool) (kept : List ℕ) :
    Sound (reported s ok kept).1 := by
  have hcore := h.filter_objects fun key => key ∈ kept
  simp only [reported]
  split
  · exact sound_deleteTransientUnsafe hcore (fun _ => hrunning) fun hcaller => by cases hcaller
  · exact ⟨hcore.withPoint _, trivial⟩

theorem sound_directoryRemoved (h : Core s) {deletionFailed : Bool} (hrequested : s.cleanupRequested = true)
    (hheld : deletionFailed = false → s.transientPrefix = none) (ok gone : Bool) :
    Sound (directoryRemoved s deletionFailed ok gone).1 := by
  simp only [directoryRemoved]
  split
  · rename_i hresolved
    rw [Bool.and_eq_true, Bool.not_eq_true'] at hresolved
    refine ⟨⟨h.objects, h.intents, h.together, h.queued,
      fun _ => ⟨hrequested, hheld hresolved.2, ?_⟩⟩, trivial⟩
    simp [hresolved.1]
  · refine ⟨⟨h.objects, h.intents, h.together, h.queued, fun hcomplete => ?_⟩, trivial⟩
    obtain ⟨-, hnone, hdirectory⟩ := h.complete hcomplete
    exact ⟨hrequested, hnone, by simp [hdirectory]⟩

/-- Where the running operation waits for an action, and what comes of it. -/
inductive Taken (s : State) : Action → State × List Event → Prop
  | callPrepare : Taken s .callPrepare ({ s with lifecycleTail := s.lifecycleTail ++ [.prepare] }, [])
  | callCleanup : Taken s .callCleanup (callCleanup s)
  | start {t : State} {events : List Event} (h : start s = some (t, events)) : Taken s .start (t, events)
  | normalized {ok supportsPresignedGet : Bool} (hat : s.point = .normalizing) :
      Taken s (.normalized ok supportsPresignedGet) (normalized s ok supportsPresignedGet, [])
  | began {result : Begin} (hat : s.point = .beginning) : Taken s (.began result) (began s result)
  | putDone {ok stored : Bool} (hat : s.point = .putting) : Taken s (.putDone ok stored) (putDone s ok stored)
  | revised {ok : Bool} (hat : s.point = .revising) :
      Taken s (.revised ok) ({ s with point := if ok then .presigning else .failing }, [])
  | presigned {accessible : Option Bool} (hat : s.point = .presigning) :
      Taken s (.presigned accessible) (presigned s accessible)
  | audioRead {ok : Bool} (hat : s.point = .reading) : Taken s (.audioRead ok) (audioRead s ok)
  | reported {ok : Bool} {kept : List ℕ} (hat : s.point = .failing) : Taken s (.reported ok kept) (reported s ok kept)
  | prefixDeleted {ok : Bool} {kept : List ℕ} {caller : Caller} {deletingPrefix : ℕ}
      (hat : s.point = .deletingPrefix caller deletingPrefix) :
      Taken s (.prefixDeleted ok kept) (prefixDeleted s caller deletingPrefix ok kept)
  | intentCompleted {ok deleted : Bool} {caller : Caller} {deletingPrefix : ℕ}
      (hat : s.point = .completingIntent caller deletingPrefix) :
      Taken s (.intentCompleted ok deleted) (intentCompleted s caller deletingPrefix ok deleted)
  | directoryRemoved {ok gone deletionFailed : Bool} (hat : s.point = .removingDirectory deletionFailed) :
      Taken s (.directoryRemoved ok gone) (directoryRemoved s deletionFailed ok gone)

theorem taken_of_step {r : State × List Event} (h : step s action = some r) : Taken s action r := by
  unfold step at h
  split at h <;> first
    | exact .start h
    | (cases h; constructor <;> assumption)
    | cases h

/-- **Every step that remembers keeps everything remembered.** -/
theorem sound_taken {r : State × List Event} (h : Sound s) (hremembers : Remembers s action)
    (htaken : Taken s action r) : Sound r.1 := by
  have hpoint := h.point
  unfold AtPoint at hpoint
  cases htaken with
  | callPrepare => exact sound_callPrepare h
  | callCleanup => exact sound_callCleanup h
  | start hstart => exact sound_start h hstart
  | normalized hat =>
    rw [hat] at hpoint
    exact sound_normalized h.core hpoint hremembers
  | began hat =>
    rw [hat] at hpoint
    exact sound_began h.core hpoint.1 hpoint.2.1 hpoint.2.2 hremembers
  | putDone hat =>
    rw [hat] at hpoint
    exact sound_putDone h.core hpoint _ _
  | @revised ok hat =>
    rw [hat] at hpoint
    refine ⟨h.core.withPoint _, ?_⟩
    cases ok <;> exact hpoint
  | presigned hat =>
    rw [hat] at hpoint
    exact sound_presigned h.core hpoint _
  | audioRead hat =>
    rw [hat] at hpoint
    exact sound_audioRead h.core hpoint _
  | reported hat =>
    rw [hat] at hpoint
    exact sound_reported h.core hpoint _ _
  | prefixDeleted hat =>
    rw [hat] at hpoint
    exact sound_prefixDeleted h.core hpoint.1 hpoint.2.1 hpoint.2.2 _ _
  | intentCompleted hat =>
    rw [hat] at hpoint
    exact sound_intentCompleted h.core hpoint.1 hpoint.2.1 hpoint.2.2.1 hpoint.2.2.2 _ _
  | directoryRemoved hat =>
    rw [hat] at hpoint
    exact sound_directoryRemoved h.core hpoint.1 hpoint.2 _ _

/-! ### Events -/

theorem events_afterDelete (caller : Caller) (ok : Bool) :
    (afterDelete s caller ok).2 = [] ∨ (afterDelete s caller ok).2 = [.prepareFailed] := by
  cases caller
  case failed => exact .inr rfl
  all_goals exact .inl rfl

theorem events_deleteTransientUnsafe (caller : Caller) :
    (deleteTransientUnsafe s caller).2 = [] ∨ (deleteTransientUnsafe s caller).2 = [.prepareFailed] := by
  unfold deleteTransientUnsafe
  split
  · exact events_afterDelete caller true
  · exact .inl rfl

/-- No cleanup resolves here. -/
def Quiet (events : List Event) : Prop := .cleanupResolved ∉ events

theorem quiet_nil : Quiet [] := List.not_mem_nil

theorem quiet_single {e : Event} (h : e ≠ .cleanupResolved) : Quiet [e] := by
  intro hmem
  rw [List.mem_singleton] at hmem
  exact h hmem.symm

theorem quiet_of_events (h : events = [] ∨ events = [.prepareFailed]) : Quiet events := by
  rcases h with rfl | rfl
  · exact quiet_nil
  · exact quiet_single (by decide)

theorem quiet_puts (keys : List ℕ) : Quiet (keys.map .put) := by
  intro hmem
  obtain ⟨key, -, hkey⟩ := List.mem_map.mp hmem
  cases hkey

theorem quiet_start (h : start s = some (t, events)) : Quiet events := by
  unfold start at h
  split at h
  · dsimp only at h
    split_ifs at h <;> cases h
    · exact quiet_single (by decide)
    · exact quiet_single (by decide)
    · exact quiet_nil
  · rename_i rest _ _
    have := events_deleteTransientUnsafe (s := { s with lifecycleTail := rest }) .cleanup
    rw [Option.some.inj h] at this
    exact quiet_of_events this
  · cases h

theorem quiet_began (result : Begin) : Quiet (began s result).2 := by
  cases result with
  | disabled | begun => exact quiet_puts _
  | failed inserted => cases inserted <;> exact quiet_nil

theorem quiet_putDone (ok stored : Bool) : Quiet (putDone s ok stored).2 := by
  simp only [putDone]
  split
  · exact quiet_nil
  · split
    · exact quiet_of_events (events_deleteTransientUnsafe _)
    · exact quiet_nil

theorem quiet_presigned (accessible : Option Bool) : Quiet (presigned s accessible).2 := by
  unfold presigned
  split
  · exact quiet_nil
  · exact quiet_single (by decide)
  · exact quiet_of_events (events_deleteTransientUnsafe _)

theorem quiet_audioRead (ok : Bool) : Quiet (audioRead s ok).2 := by
  unfold audioRead
  split
  · exact quiet_nil
  · split
    · exact quiet_nil
    · exact quiet_single (by decide)

theorem quiet_reported (ok : Bool) (kept : List ℕ) : Quiet (reported s ok kept).2 := by
  simp only [reported]
  split
  · exact quiet_of_events (events_deleteTransientUnsafe _)
  · exact quiet_single (by decide)

theorem quiet_prefixDeleted (deletingPrefix : ℕ) (ok : Bool) (kept : List ℕ) :
    Quiet (prefixDeleted s caller deletingPrefix ok kept).2 := by
  unfold prefixDeleted
  split
  · dsimp only
    split
    · exact quiet_nil
    · exact quiet_of_events (events_afterDelete _ _)
  · exact quiet_of_events (events_afterDelete _ _)

theorem quiet_intentCompleted (deletingPrefix : ℕ) (ok deleted : Bool) :
    Quiet (intentCompleted s caller deletingPrefix ok deleted).2 := by
  simp only [intentCompleted]
  split <;> exact quiet_of_events (events_afterDelete _ _)

/-- A cleanup resolves where it is complete. -/
theorem complete_of_resolved {r : State × List Event} (htaken : Taken s action r)
    (hresolved : .cleanupResolved ∈ r.2) : r.1.cleanupComplete = true := by
  cases htaken with
  | callCleanup =>
    simp only [callCleanup] at hresolved ⊢
    split at hresolved
    · rename_i hcomplete
      rw [if_pos hcomplete]
      exact hcomplete
    · split at hresolved <;> exact absurd hresolved quiet_nil
  | directoryRemoved =>
    simp only [directoryRemoved] at hresolved ⊢
    split at hresolved
    · rename_i hremoved
      rw [if_pos hremoved]
    · exact absurd hresolved (quiet_single (by decide))
  | start hstart => exact absurd hresolved (quiet_start hstart)
  | began => exact absurd hresolved (quiet_began _)
  | putDone => exact absurd hresolved (quiet_putDone _ _)
  | presigned => exact absurd hresolved (quiet_presigned _)
  | audioRead => exact absurd hresolved (quiet_audioRead _)
  | reported => exact absurd hresolved (quiet_reported _ _)
  | prefixDeleted => exact absurd hresolved (quiet_prefixDeleted _ _ _)
  | intentCompleted => exact absurd hresolved (quiet_intentCompleted _ _ _)
  | callPrepare | normalized | revised => exact absurd hresolved quiet_nil

/-! ### Complete cleanups -/

/-- Nothing that the snapshot put outside is left. -/
def Clean (s : State) : Prop := s.objects = [] ∧ s.intents = [] ∧ s.directory = false

/-- The cleanup is complete, and stays so. -/
structure Finished (s : State) : Prop where
  complete : s.cleanupComplete = true
  requested : s.cleanupRequested = true
  forgotten : s.transientPrefix = none
  clean : Clean s
  point : s.point = .idle ∨ ∃ deletionFailed, s.point = .removingDirectory deletionFailed

theorem Sound.finished (h : Sound s) (hcomplete : s.cleanupComplete = true) : Finished s := by
  obtain ⟨hrequested, hheld, hdirectory⟩ := h.core.complete hcomplete
  have hintents := h.core.intents_nil (h.core.together hheld)
  refine ⟨hcomplete, hrequested, hheld, ⟨h.core.objects_nil hheld, hintents, hdirectory⟩, ?_⟩
  have hpoint := h.point
  unfold AtPoint at hpoint
  rw [hcomplete] at hpoint
  cases hat : s.point <;> rw [hat] at hpoint
  case idle => exact .inl rfl
  case removingDirectory deletionFailed => exact .inr ⟨deletionFailed, rfl⟩
  case beginning => exact absurd hpoint.1 (by decide)
  case deletingPrefix => exact absurd hpoint.1 (by decide)
  case completingIntent => exact absurd hpoint.1 (by decide)
  all_goals cases hpoint

/-- No operation prepares any more. -/
def Inert (events : List Event) : Prop := .prepared ∉ events ∧ ∀ key, .put key ∉ events

/-- A prepared operation fails at once. -/
theorem start_prepare (hrequested : s.cleanupRequested = true) {rest : List Operation} (hidle : s.point = .idle)
    (htail : s.lifecycleTail = .prepare :: rest) :
    step s .start = some ({ s with lifecycleTail := rest }, [.prepareFailed]) := by
  change start s = _
  unfold start
  rw [hidle, htail]
  simp [hrequested]

theorem finished_deleteTransientUnsafe (h : Finished s) :
    Finished (deleteTransientUnsafe s .cleanup).1 ∧ Inert (deleteTransientUnsafe s .cleanup).2 := by
  unfold deleteTransientUnsafe
  rw [h.forgotten]
  exact ⟨⟨h.complete, h.requested, h.forgotten, h.clean, .inr ⟨_, rfl⟩⟩, List.not_mem_nil, fun _ => List.not_mem_nil⟩

theorem finished_start (h : Finished s) (hstart : start s = some (t, events)) : Finished t ∧ Inert events := by
  unfold start at hstart
  split at hstart
  · rename_i rest hidle htail
    simp only [h.requested, if_true] at hstart
    cases hstart
    exact ⟨⟨h.complete, rfl, h.forgotten, h.clean, .inl hidle⟩, by simp, by simp⟩
  · rename_i rest hidle htail
    have := @finished_deleteTransientUnsafe { s with lifecycleTail := rest }
      ⟨h.complete, h.requested, h.forgotten, h.clean, .inl hidle⟩
    rwa [Option.some.inj hstart] at this
  · cases hstart

/-- The operation of a finished snapshot waits for nothing but the removal of its directory. -/
theorem Finished.not_at (h : Finished s) {point : Point} (hat : s.point = point) (hidle : point ≠ .idle)
    (hremoving : ∀ deletionFailed, point ≠ .removingDirectory deletionFailed) : False := by
  rcases h.point with hpoint | ⟨deletionFailed, hpoint⟩
  · exact hidle (hat.symm.trans hpoint)
  · exact hremoving _ (hat.symm.trans hpoint)

theorem finished_taken {r : State × List Event} (h : Finished s) (htaken : Taken s action r) :
    Finished r.1 ∧ Inert r.2 := by
  cases htaken with
  | callPrepare => exact ⟨⟨h.complete, h.requested, h.forgotten, h.clean, h.point⟩, by simp, by simp⟩
  | callCleanup =>
    simp only [callCleanup, h.complete, if_true]
    exact ⟨⟨rfl, rfl, h.forgotten, h.clean, h.point⟩, by simp, by simp⟩
  | start hstart => exact finished_start h hstart
  | directoryRemoved hat =>
    obtain ⟨hobjects, hintents, hdirectory⟩ := h.clean
    simp only [directoryRemoved, hdirectory, Bool.false_and]
    split
    · exact ⟨⟨rfl, h.requested, h.forgotten, ⟨hobjects, hintents, rfl⟩, .inl rfl⟩, by simp, by simp⟩
    · exact ⟨⟨h.complete, h.requested, h.forgotten, ⟨hobjects, hintents, rfl⟩, .inl rfl⟩, by simp, by simp⟩
  | normalized hat | began hat | putDone hat | revised hat | presigned hat | audioRead hat | reported hat =>
    exact (h.not_at hat (by simp) (by simp)).elim
  | prefixDeleted hat | intentCompleted hat => exact (h.not_at hat (by simp) (by simp)).elim

/-! ### Runs -/

/-- **A cleanup that resolves has cleaned up.** In every run that begins no attempt while it remembers the last one:
where a call of `cleanup` resolves, no object, no intent and no directory is left, also later, and nothing is put or
prepared any more. -/
theorem cleanup_leaves_nothing {labels : List (Action × List Event)} {label : Action × List Event} {s : State}
    (hrun : Run (fun s label t => Step s label t ∧ Remembers s label.1) {} (labels ++ [label]) s)
    (hresolved : .cleanupResolved ∈ label.2) :
    Clean s ∧ ∀ later t, Run Step s later t →
      Clean t ∧ (∀ l ∈ later, .prepared ∉ l.2 ∧ ∀ key, .put key ∉ l.2) ∧
      ∀ rest, t.point = .idle → t.lifecycleTail = .prepare :: rest →
        step t .start = some ({ t with lifecycleTail := rest }, [.prepareFailed]) := by
  have hsound : Sound s := by
    refine Run.invariant (I := Sound) (fun a l b ha hstep => sound_taken ha hstep.2 (taken_of_step hstep.1)) hrun
      ⟨⟨?_, ?_, ?_, ?_, ?_⟩, trivial⟩
    · exact fun _ hmem => absurd hmem List.not_mem_nil
    · exact fun _ hmem => absurd hmem List.not_mem_nil
    · exact fun _ => rfl
    · exact fun hmem => absurd hmem List.not_mem_nil
    · exact fun hcomplete => by cases hcomplete
  have hcomplete : s.cleanupComplete = true := by
    obtain ⟨u, -, hlast⟩ := Run.append_iff.mp hrun
    obtain ⟨v, hstep, hnil⟩ := Run.cons_iff.mp hlast
    rw [Run.nil_iff] at hnil
    exact hnil ▸ complete_of_resolved (taken_of_step hstep.1) hresolved
  have hfinished := hsound.finished hcomplete
  refine ⟨hfinished.clean, fun later t hlater => ?_⟩
  obtain ⟨ht, hinert⟩ := Run.forall_mem (I := Finished) (P := fun l : Action × List Event => Inert l.2)
    (fun _ _ _ hs hstep => finished_taken hs (taken_of_step hstep)) hlater hfinished
  exact ⟨ht.clean, hinert, fun rest hidle htail => start_prepare ht.requested hidle htail⟩

/-- An attempt that is delivered by URL, and its cleanup. -/
theorem cleanup_leaves_nothing_delivered : ∃ s : State, s.drawn = 2 ∧ Clean s := by
  have hrun : Run (fun s label t => Step s label t ∧ Remembers s label.1) {}
      ([(.callPrepare, []), (.start, []), (.normalized true true, []), (.began .begun, [.put 0]),
        (.putDone true true, []), (.revised true, []), (.presigned (some true), [.prepared]), (.callCleanup, []),
        (.start, []), (.prefixDeleted true [], []), (.intentCompleted true true, [])] ++
        [(.directoryRemoved true true, [.cleanupResolved])])
      { cleanupComplete := true, cleanupRequested := true, preparedPayload := true, directory := false, drawn := 2 } :=
    .cons ⟨rfl, trivial⟩ <| .cons ⟨rfl, trivial⟩ <| .cons ⟨rfl, fun _ => rfl⟩ <| .cons ⟨rfl, trivial⟩ <|
    .cons ⟨rfl, trivial⟩ <| .cons ⟨rfl, trivial⟩ <| .cons ⟨rfl, trivial⟩ <| .cons ⟨rfl, trivial⟩ <|
    .cons ⟨rfl, trivial⟩ <| .cons ⟨rfl, trivial⟩ <| .cons ⟨rfl, trivial⟩ <| .cons ⟨rfl, trivial⟩ <| .nil _
  exact ⟨_, rfl, (cleanup_leaves_nothing hrun (by decide)).1⟩

/-- **A retry forgets the last attempt.** Its object could not be deleted; the cleanup resolves and it is left. -/
theorem cleanup_leaves_object : ¬ ∀ (labels : List (Action × List Event)) (label : Action × List Event) (s : State),
    Run Step {} (labels ++ [label]) s → .cleanupResolved ∈ label.2 → Clean s := by
  intro h
  have hrun : Run Step {}
      ([(.callPrepare, []), (.start, []), (.normalized true true, []), (.began .begun, [.put 0]),
        (.putDone true true, []), (.revised false, []), (.reported true [0], []),
        (.prefixDeleted false [0], [.prepareFailed]), (.callPrepare, []), (.start, []), (.normalized true true, []),
        (.began .begun, [.put 2]), (.putDone true true, []), (.revised true, []),
        (.presigned (some true), [.prepared]), (.callCleanup, []), (.start, []), (.prefixDeleted true [], []),
        (.intentCompleted true true, [])] ++ [(.directoryRemoved true true, [.cleanupResolved])])
      { cleanupComplete := true, cleanupRequested := true, preparedPayload := true, objects := [0], intents := [1],
        directory := false, drawn := 4 } :=
    .cons rfl <| .cons rfl <| .cons rfl <| .cons rfl <| .cons rfl <| .cons rfl <| .cons rfl <| .cons rfl <|
    .cons rfl <| .cons rfl <| .cons rfl <| .cons rfl <| .cons rfl <| .cons rfl <| .cons rfl <| .cons rfl <|
    .cons rfl <| .cons rfl <| .cons rfl <| .cons rfl <| .nil _
  exact absurd (h _ _ _ hrun (by decide)).1 (by decide)

end OwnMinutes.AsrTransient.CleanupRuns
