import OwnMinutes.Locks.Nesting

/-! # Meeting locks: exclusive, fair, re-entrant

In every run the calls on a meeting start in the order in which they were made, a call inside a running body never
waits, and a body that ends, by a return or an exception, lets the next call run (`fair_run`). The bodies of a
meeting exclude those of other outermost calls as long as a body does not end before the bodies that run under its
lock, and no body that still has the meeting in a copied set calls after the lock is gone (`Awaited`). -/

namespace OwnMinutes.Locks.MeetingLocks

open OwnMinutes.Lib.Runs OwnMinutes.Auth.Records OwnMinutes.Deletion.Store
open OwnMinutes.Locks.MeetingQueues OwnMinutes.Locks.QueueOrder OwnMinutes.Locks.Nesting

variable {s t : Coordinator} {e : Event} {es : List Event}

abbrev Step (s : Coordinator) (e : Event) (t : Coordinator) : Prop := step s e = some t

/-- A queued call on a meeting that is to be served before another one. -/
structure Ahead (s : Coordinator) (m i : ℕ) (d c : Call) : Prop where
  first : s.calls[m]? = some d
  second : s.calls[i]? = some c
  queued : d.isQueued = true ∧ c.isQueued = true
  key : d.key = c.key
  lt : m < i

/-- The running bodies of a meeting belong to one outermost call. -/
def Exclusive (s : Coordinator) : Prop :=
  ∀ (i j : ℕ) (c d : Call), s.calls[i]? = some c → s.calls[j]? = some d → c.phase = .running → d.phase = .running → c.key = d.key →
    c.outermost i = d.outermost j

/-- Outermost calls on a meeting start in the order in which they were made. -/
def Fair (s : Coordinator) : Prop :=
  ∀ m i d c, Ahead s m i d c → c.phase ≠ .waiting → d.phase ≠ .waiting

/-- A call that is made inside the running body of an outermost call on its meeting runs at once. -/
def Reentrant (s : Coordinator) : Prop :=
  ∀ (o : ℕ) (d : Call) (p : ℕ) (meetingId : String), s.calls[o]? = some d → d.isQueued = true → d.phase = .running → Inside s o p →
    s.hasContext (some p) = true → canonicalMeetingId meetingId = .ok d.key →
    step s (.invoke (some p) meetingId) =
      some { s with calls := s.calls ++ [⟨d.key, some p, .direct o, [], .running, false⟩] }

/-- The first call that waits for a meeting can start, once the body before it, if any runs, has returned or
thrown. -/
def Released (s : Coordinator) : Prop :=
  (∀ (j : ℕ) (d : Call), s.calls[j]? = some d → d.isQueued = true → d.phase = .waiting →
    (∀ m b, Ahead s m j b d → b.phase = .finished) → ∃ t, step s (.start j) = some t) ∧
  ∀ (i : ℕ) (c : Call) (thrown : Bool), s.calls[i]? = some c → c.isQueued = true → c.phase = .running →
    ∃ t, Run Step s [.finish i thrown, .cleanup i] t ∧
      ∀ (j : ℕ) (d : Call), s.calls[j]? = some d → d.isQueued = true → d.phase = .waiting →
        (∀ m b, Ahead s m j b d → m ≠ i → b.phase = .finished) → ∃ u, step t (.start j) = some u

/-- The map has no entry for a meeting without unfinished calls. -/
def Emptied (s : Coordinator) : Prop :=
  ∀ key, (∀ (i : ℕ) (c : Call), s.calls[i]? = some c → c.key = key → c.phase = .finished) → s.queues key = none

/-- What the locks promise at every moment. -/
structure Sound (s : Coordinator) : Prop where
  exclusive : Exclusive s
  fair : Fair s
  reentrant : Reentrant s
  released : Released s
  emptied : Emptied s

/-! ### In every run -/

theorem invariants_run (h : Run Step .empty es s) : Queues s ∧ Contexts s :=
  h.invariant (I := fun s => Queues s ∧ Contexts s)
    (fun _ _ _ ⟨hqueues, hcontexts⟩ hstep => ⟨queues_step hqueues hstep, contexts_step hcontexts hstep⟩)
    ⟨queues_empty, contexts_empty⟩

theorem fair_of_queues (hs : Queues s) : Fair s := by
  intro m i d c hahead hstarted
  have hfinished := hs.ordered hahead.first hahead.second hahead.queued.1 hahead.queued.2 hahead.key hahead.lt hstarted
  simp [hfinished]

theorem reentrant_of_contexts (hs : Contexts s) : Reentrant s := by
  intro o d p meetingId hd hqueued hrunning hinside hcontext hkey
  obtain ⟨call, hcall, hcqueued, hstarted⟩ := hasContext_iff.mp hcontext
  have hheld := hs.inherited hd hqueued hrunning hinside hcall hcqueued hstarted
  simp [step, hcontext, withMeetingWriteLock, hkey, bind, Except.bind, holder_of_mem hs hcall hheld, Except.toOption]

theorem step_start {j : ℕ} {d : Call} {previous : Option ℕ} (hd : s.calls[j]? = some d)
    (hentry : d.entry = .queued previous) (hphase : d.phase = .waiting)
    (hprevious : ∀ p, previous = some p → s.inPhase p .finished = true) : ∃ t, step s (.start j) = some t := by
  have hall : previous.all (fun before => s.inPhase before .finished) = true := by
    rcases previous with _ | p
    · rfl
    · exact hprevious p rfl
  simp [step, run, hd, hentry, hphase, hall]

theorem released_of_queues (hs : Queues s) : Released s := by
  constructor
  · intro j d hd hqueued hwaiting hahead
    obtain ⟨previous, hentry⟩ := isQueued_iff.mp hqueued
    refine step_start hd hentry hwaiting ?_
    rintro p rfl
    obtain ⟨hlt, b, hb, hbqueued, hbkey⟩ := hs.previous hd hentry
    have hfinished := hahead p b ⟨hb, hd, ⟨hbqueued, hqueued⟩, hbkey, hlt⟩
    simp [Coordinator.inPhase, hb, hfinished]
  · intro i c thrown hc hcqueued hrunning
    obtain ⟨_, hcentry⟩ := isQueued_iff.mp hcqueued
    have hlt := lt_of_call hc
    let settled : Call := { c with held := c.held.filter fun entry => entry.1 ≠ c.key, phase := .settled, thrown }
    have hfinish : step s (.finish i thrown) = some { s with calls := s.calls.set i settled } := by
      simp [step, endBody, hc, hcentry, hrunning, settled]
    have hcleanup : ∃ t, step { s with calls := s.calls.set i settled } (.cleanup i) = some t ∧
        t.calls = s.calls.set i { settled with phase := .finished } := by
      simp [step, cleanUp, hlt, settled]
    obtain ⟨t, hcleanup, hcalls⟩ := hcleanup
    refine ⟨t, .cons hfinish (.single hcleanup), ?_⟩
    intro j d hd hqueued hwaiting hahead
    have hne : j ≠ i := by
      rintro rfl
      rw [hc] at hd
      cases hd
      simp [hrunning] at hwaiting
    have hd' : t.calls[j]? = some d := by
      rw [hcalls]
      exact (getElem?_set_iff hc _ _).mpr (.inr ⟨hne, hd⟩)
    obtain ⟨previous, hentry⟩ := isQueued_iff.mp hqueued
    refine step_start hd' hentry hwaiting ?_
    rintro p rfl
    obtain ⟨hp, b, hb, hbqueued, hbkey⟩ := hs.previous hd hentry
    by_cases hpi : p = i
    · subst hpi
      simp [Coordinator.inPhase, hcalls, hlt]
    · have hfinished := hahead p b ⟨hb, hd, ⟨hbqueued, hqueued⟩, hbkey, hp⟩ hpi
      have hb' : t.calls[p]? = some b := by
        rw [hcalls]
        exact (getElem?_set_iff hc _ _).mpr (.inr ⟨hpi, hb⟩)
      simp [Coordinator.inPhase, hb', hfinished]

theorem emptied_of_queues (hs : Queues s) : Emptied s := by
  intro key hfinished
  rcases hlast : s.queues key with _ | i
  · rfl
  · obtain ⟨c, hc, -, hkey, hunfinished⟩ := hs.last hlast
    exact absurd (hfinished i c hc hkey) hunfinished

/-- Whatever the bodies do: order, re-entrancy, release, and nothing left in the map. -/
theorem fair_run (h : Run Step .empty es s) : Fair s ∧ Reentrant s ∧ Released s ∧ Emptied s := by
  obtain ⟨hqueues, hcontexts⟩ := invariants_run h
  exact ⟨fair_of_queues hqueues, reentrant_of_contexts hcontexts, released_of_queues hqueues, emptied_of_queues hqueues⟩

/-! ### Exclusion -/

/-- A body that is called at once has its outermost call still running, and a body ends only after those that run
under its lock. -/
def Awaited (s : Coordinator) : Event → Prop
  | .invoke context meetingId =>
    ∀ outer ∈ (canonicalMeetingId meetingId).toOption.bind (s.holder context), s.inPhase outer .running = true
  | .finish index _ => ∀ call ∈ s.calls, call.entry = .direct index → call.phase ≠ .running
  | _ => True

instance : DecidablePred (Awaited s) := fun e => by
  unfold Awaited
  split <;> infer_instance

/-- The bodies under a lock run while its call does. -/
def Covered (s : Coordinator) : Prop :=
  ∀ (i o : ℕ) (c : Call), s.calls[i]? = some c → c.entry = .direct o → c.phase = .running →
    ∃ d, s.calls[o]? = some d ∧ d.phase = .running

theorem running_stays (h : Move s e t) {o : ℕ} {d : Call} (hd : s.calls[o]? = some d) (hphase : d.phase = .running)
    (he : ∀ thrown, e ≠ .finish o thrown) : ∃ d', t.calls[o]? = some d' ∧ d'.phase = .running := by
  obtain ⟨d', hd', hturn⟩ := kept h hd
  refine ⟨d', hd', ?_⟩
  rcases hturn with _ | ⟨-, -, -⟩ | ⟨-, -⟩ | ⟨-, -⟩ | hsettled
  · exact hphase
  · rfl
  · exact absurd rfl (he _)
  · exact absurd rfl (he _)
  · simp [hphase] at hsettled

theorem covered_step (hs : Covered s) (h : step s e = some t) (hawaited : Awaited s e) : Covered t := by
  intro i o c hc hentry hphase
  have hmove := move_of_step h
  rcases old hmove hc with ⟨c', hc', hturn⟩ | ⟨rfl, hnew⟩
  · have hrunning : c'.phase = .running := by
      rcases hturn with _ | ⟨hqueued, -, -⟩ | ⟨-, -⟩ | ⟨-, -⟩ | -
      · exact hphase
      · simp [hqueued] at hentry
      · simp at hphase
      · simp at hphase
      · simp at hphase
    rw [hturn.later.entry] at hentry
    obtain ⟨d, hd, hdphase⟩ := hs i o c' hc' hentry hrunning
    refine running_stays hmove hd hdphase ?_
    rintro thrown rfl
    exact hawaited c' (List.mem_of_getElem? hc') hentry hrunning
  · obtain ⟨meetingId, rfl, hkey⟩ := hnew.made
    rcases hnew.entry with ⟨o', hdirect, -, hholder⟩ | ⟨hqueued, -⟩
    · rw [hdirect] at hentry
      injection hentry with heq
      subst heq
      have hin := hawaited o' (by simp [hkey, Except.toOption, hholder])
      unfold Coordinator.inPhase at hin
      rcases hd : s.calls[o']? with _ | d
      · simp [hd] at hin
      · simp only [hd, decide_eq_true_eq] at hin
        exact running_stays hmove hd hin (by simp)
    · simp [hqueued] at hentry

theorem exclusive_of_covered (hqueues : Queues s) (hcontexts : Contexts s) (hcovered : Covered s) : Exclusive s := by
  -- every running body is under a queued call of its meeting that runs, and there is only one
  have houter : ∀ {i : ℕ} {c : Call}, s.calls[i]? = some c → c.phase = .running →
      ∃ d, s.calls[c.outermost i]? = some d ∧ d.isQueued = true ∧ d.phase = .running ∧ d.key = c.key := by
    intro i c hc hrunning
    rcases hentry : c.entry with o | previous
    · obtain ⟨d, hd, hdphase⟩ := hcovered i o c hc hentry hrunning
      obtain ⟨d', hd', hqueued, hkey⟩ := hcontexts.outer hc hentry
      rw [hd] at hd'
      cases hd'
      exact ⟨d, by simpa [Call.outermost, hentry] using hd, hqueued, hdphase, hkey⟩
    · exact ⟨c, by simpa [Call.outermost, hentry] using hc, isQueued_iff.mpr ⟨_, hentry⟩, hrunning, rfl⟩
  have hone : ∀ {m i : ℕ} {d c : Call}, Ahead s m i d c → d.phase = .running → c.phase ≠ .running := by
    intro m i d c hahead hdrunning hrunning
    have hfinished := hqueues.ordered hahead.first hahead.second hahead.queued.1 hahead.queued.2 hahead.key hahead.lt
      (by simp [hrunning])
    simp [hfinished] at hdrunning
  intro i j c d hc hd hcrunning hdrunning hkey
  obtain ⟨a, ha, haqueued, harunning, hakey⟩ := houter hc hcrunning
  obtain ⟨b, hb, hbqueued, hbrunning, hbkey⟩ := houter hd hdrunning
  have hab : a.key = b.key := by rw [hakey, hbkey, hkey]
  rcases Nat.lt_trichotomy (c.outermost i) (d.outermost j) with hlt | heq | hlt
  · exact absurd hbrunning (hone ⟨ha, hb, ⟨haqueued, hbqueued⟩, hab, hlt⟩ harunning)
  · exact heq
  · exact absurd harunning (hone ⟨hb, ha, ⟨hbqueued, haqueued⟩, hab.symm, hlt⟩ hbrunning)

theorem covered_run (h : Run (fun s e t => Step s e t ∧ Awaited s e) .empty es s) : Covered s := by
  have hempty : Covered .empty := by
    intro i o c hc
    simp [Coordinator.empty] at hc
  exact h.invariant (I := Covered) (fun _ _ _ hs hstep => covered_step hs hstep.1 hstep.2) hempty

/-- With bodies that wait for what runs under their locks, the locks keep their promises at every moment. -/
theorem meeting_locks_sound (h : Run (fun s e t => Step s e t ∧ Awaited s e) .empty es s) : Sound s := by
  have hrun : Run Step .empty es s := h.mono fun _ _ _ hstep => hstep.1
  obtain ⟨hqueues, hcontexts⟩ := invariants_run hrun
  obtain ⟨hfair, hreentrant, hreleased, hemptied⟩ := fair_run hrun
  exact ⟨exclusive_of_covered hqueues hcontexts (covered_run h), hfair, hreentrant, hreleased, hemptied⟩

/-- Two calls on a meeting, the first with another one inside its body that it waits for. -/
def nestedEvents : List Event :=
  [.invoke none "m", .invoke none "m", .start 0, .invoke (some 0) "m", .finish 2 true, .finish 0 true, .cleanup 0,
    .start 1]

theorem meeting_locks_sound_nested :
    ∃ s, Run (fun s e t => Step s e t ∧ Awaited s e) .empty nestedEvents s ∧ Sound s := by
  have haccepted : (nestedEvents.foldlM (fun s e => if Awaited s e then step s e else none) .empty).isSome = true := by
    decide
  obtain ⟨s, hrun⟩ := Run.exists_of_isSome haccepted
  have hawaited : Run (fun s e t => Step s e t ∧ Awaited s e) .empty nestedEvents s := by
    refine hrun.mono fun a e b hstep => ?_
    split_ifs at hstep with hawaited
    exact ⟨hstep, hawaited⟩
  exact ⟨s, hawaited, meeting_locks_sound hawaited⟩

/-- The body of the first call starts another one on its meeting, does not wait for it and returns. -/
def detachedEvents : List Event :=
  [.invoke none "m", .start 0, .invoke (some 0) "m", .finish 0 false, .cleanup 0, .invoke none "m", .start 2]

/-- A body for another meeting is left behind with the meeting in its set, and enters after the lock is gone. -/
def copiedEvents : List Event :=
  [.invoke none "m", .start 0, .invoke (some 0) "n", .start 1, .finish 0 false, .cleanup 0, .invoke (some 1) "m",
    .invoke none "m", .start 3]

theorem detached_bodies_overlap :
    (∃ s, Run Step .empty detachedEvents s ∧ ¬ Exclusive s) ∧ ∃ s, Run Step .empty copiedEvents s ∧ ¬ Exclusive s := by
  have hoverlap : ∀ events : List Event, ∀ i j : ℕ, ∀ a b : Call, (∃ s ∈ events.foldlM step .empty,
      s.calls[i]? = some a ∧ s.calls[j]? = some b) → a.phase = .running → b.phase = .running → a.key = b.key →
      a.outermost i ≠ b.outermost j → ∃ s, Run Step .empty events s ∧ ¬ Exclusive s := by
    rintro events i j a b ⟨s, hs, ha, hb⟩ harunning hbrunning hkey hne
    exact ⟨s, Run.of_foldlM hs, fun hexclusive => hne (hexclusive i j a b ha hb harunning hbrunning hkey)⟩
  constructor
  · exact hoverlap _ 1 2 ⟨"m", some 0, .direct 0, [], .running, false⟩
      ⟨"m", none, .queued none, [("m", 2)], .running, false⟩ (by decide) rfl rfl rfl (by decide)
  · exact hoverlap _ 2 3 ⟨"m", some 1, .direct 0, [], .running, false⟩
      ⟨"m", none, .queued none, [("m", 3)], .running, false⟩ (by decide) rfl rfl rfl (by decide)

end OwnMinutes.Locks.MeetingLocks
