import OwnMinutes.Locks.QueueOrder

/-! # The contexts of the bodies

A context is inside the one it was made from (`Inside`). While the body of a queued call runs, every set that was
made inside its context has the meeting (`Contexts.inherited`): a queued call copies the set when its own body is
called, and nobody but the call that added a meeting to a set takes it out of that set. -/

namespace OwnMinutes.Locks.Nesting

open OwnMinutes.Auth.Records OwnMinutes.Deletion.Store
open OwnMinutes.Locks.MeetingQueues OwnMinutes.Locks.QueueOrder

variable {s t : Coordinator} {e : Event} {i o p : ℕ} {call before after : Call}

/-- The context of a call is that of another one, or was made in a body that ran in it, and so on. -/
inductive Inside (s : Coordinator) (outer : ℕ) : ℕ → Prop
  | self : Inside s outer outer
  | nested {context index : ℕ} {call : Call} (hcall : s.calls[index]? = some call)
      (hcontext : call.context = some context) (h : Inside s outer context) : Inside s outer index

/-- A call whose body has been called in a context of its own. -/
def Opened (s : Coordinator) (index : ℕ) : Prop :=
  ∃ call, s.calls[index]? = some call ∧ call.isQueued = true ∧ call.phase ≠ .waiting

theorem hasContext_iff : s.hasContext (some p) = true ↔ Opened s p := by
  unfold Coordinator.hasContext Opened
  rcases hcall : s.calls[p]? with _ | call <;> simp [hcall]

structure Contexts (s : Coordinator) : Prop where
  made : ∀ {i p : ℕ} {c : Call}, s.calls[i]? = some c → c.context = some p → p < i ∧ Opened s p
  tags : ∀ {c o : ℕ} {key : MeetingId} {call : Call}, s.calls[c]? = some call → (key, o) ∈ call.held →
    ∃ d, s.calls[o]? = some d ∧ d.isQueued = true ∧ d.key = key
  keys : ∀ {c : ℕ} {call : Call}, s.calls[c]? = some call → (call.held.map Prod.fst).Nodup
  outer : ∀ {i o : ℕ} {c : Call}, s.calls[i]? = some c → c.entry = .direct o →
    ∃ d, s.calls[o]? = some d ∧ d.isQueued = true ∧ d.key = c.key
  inherited : ∀ {o c : ℕ} {d call : Call}, s.calls[o]? = some d → d.isQueued = true → d.phase = .running →
    Inside s o c → s.calls[c]? = some call → call.isQueued = true → call.phase ≠ .waiting → (d.key, o) ∈ call.held
  outlived : ∀ {i o p : ℕ} {c d : Call}, s.calls[i]? = some c → c.isQueued = true → c.context = some p →
    Inside s o p → s.calls[o]? = some d → d.isQueued = true → d.key = c.key → d.phase ≠ .running

theorem contexts_empty : Contexts .empty := by
  constructor <;> simp [Coordinator.empty]

/-! ### Contexts after a step -/

theorem Opened.later (h : Move s e t) (hopened : Opened s p) : Opened t p := by
  obtain ⟨call, hcall, hqueued, hphase⟩ := hopened
  obtain ⟨after, hafter, hturn⟩ := kept h hcall
  exact ⟨after, hafter, (isQueued_of_entry hturn.later.entry).trans hqueued, hturn.later.started hphase⟩

theorem Inside.opened (hs : Contexts s) (h : Inside s o i) (hi : Opened s i) : Opened s o := by
  induction h with
  | self => exact hi
  | nested hcall hcontext _ ih => exact ih (hs.made hcall hcontext).2

/-- A step does not change what a call that was made before it is inside of. -/
theorem Inside.ofStep (h : Move s e t) (hs : Contexts s) (hinside : Inside t o i) (hi : i < s.calls.length) :
    Inside s o i := by
  induction hinside with
  | self => exact .self
  | nested hcall hcontext _ ih =>
    rcases old h hcall with ⟨before, hbefore, hturn⟩ | ⟨rfl, -⟩
    · rw [hturn.later.context] at hcontext
      have hlt := (hs.made hbefore hcontext).1
      exact .nested hbefore hcontext (ih (by omega))
    · omega

theorem made_step (h : Move s e t) (hs : Contexts s) (hafter : t.calls[i]? = some after)
    (hcontext : after.context = some p) : p < i ∧ Opened t p := by
  rcases old h hafter with ⟨before, hbefore, hturn⟩ | ⟨rfl, hnew⟩
  · rw [hturn.later.context] at hcontext
    obtain ⟨hlt, hopened⟩ := hs.made hbefore hcontext
    exact ⟨hlt, hopened.later h⟩
  · have hopened := hnew.context
    rw [hcontext, hasContext_iff] at hopened
    obtain ⟨call, hcall, -⟩ := id hopened
    exact ⟨lt_of_call hcall, hopened.later h⟩

/-! ### The sets after a step -/

theorem mem_getStore {entry : MeetingId × ℕ} {context : Option ℕ} (h : entry ∈ s.getStore context) :
    ∃ p call, context = some p ∧ s.calls[p]? = some call ∧ entry ∈ call.held := by
  unfold Coordinator.getStore at h
  rcases context with _ | p
  · simp at h
  · rcases hcall : s.calls[p]? with _ | call
    · simp [hcall] at h
    · simp only [hcall] at h
      exact ⟨p, call, rfl, hcall, h⟩

theorem getStore_of_call (hcall : s.calls[p]? = some call) : s.getStore (some p) = call.held := by
  simp [Coordinator.getStore, hcall]

/-- A meeting that is in a set after a step was added by the step, or was in a set before. -/
theorem mem_held (h : Turn s i e before after) {entry : MeetingId × ℕ} (hentry : entry ∈ after.held) :
    entry ∈ before.held ∨ entry ∈ s.getStore before.context ∨ (entry = (before.key, i) ∧ before.isQueued = true) := by
  rcases h with _ | ⟨hqueued, -, -⟩ | ⟨-, -⟩ | ⟨-, -⟩ | -
  · exact .inl hentry
  · simp only [List.mem_cons, List.mem_filter] at hentry
    rcases hentry with rfl | ⟨hcopied, -⟩
    · exact .inr (.inr ⟨rfl, isQueued_iff.mpr ⟨_, hqueued⟩⟩)
    · exact .inr (.inl hcopied)
  · exact .inl (List.mem_of_mem_filter hentry)
  · exact .inl hentry
  · exact .inl hentry

theorem tags_step (h : Move s e t) (hs : Contexts s) {key : MeetingId} (hafter : t.calls[i]? = some after)
    (hentry : (key, o) ∈ after.held) : ∃ d, t.calls[o]? = some d ∧ d.isQueued = true ∧ d.key = key := by
  have hfound : ∃ d, s.calls[o]? = some d ∧ d.isQueued = true ∧ d.key = key := by
    rcases old h hafter with ⟨before, hbefore, hturn⟩ | ⟨rfl, hnew⟩
    · rcases mem_held hturn hentry with hheld | hcopied | ⟨heq, hqueued⟩
      · exact hs.tags hbefore hheld
      · obtain ⟨p, call, -, hcall, hheld⟩ := mem_getStore hcopied
        exact hs.tags hcall hheld
      · simp only [Prod.mk.injEq] at heq
        obtain ⟨rfl, rfl⟩ := heq
        exact ⟨before, hbefore, hqueued, rfl⟩
    · simp [hnew.held] at hentry
  obtain ⟨d, hd, hqueued, hkey⟩ := hfound
  obtain ⟨d', hd', hturn⟩ := kept h hd
  exact ⟨d', hd', (isQueued_of_entry hturn.later.entry).trans hqueued, hturn.later.key.trans hkey⟩

theorem keys_step (h : Move s e t) (hs : Contexts s) (hafter : t.calls[i]? = some after) :
    (after.held.map Prod.fst).Nodup := by
  have hfiltered : ∀ (held : Held) (key : MeetingId), (held.map Prod.fst).Nodup →
      ((held.filter fun entry => entry.1 ≠ key).map Prod.fst).Nodup := by
    intro held key hnodup
    exact hnodup.sublist (List.filter_sublist.map _)
  rcases old h hafter with ⟨before, hbefore, hturn⟩ | ⟨rfl, hnew⟩
  · have hnodup := hs.keys hbefore
    rcases hturn with _ | ⟨-, -, -⟩ | ⟨-, -⟩ | ⟨-, -⟩ | -
    · exact hnodup
    · have hcopied : ((s.getStore before.context).map Prod.fst).Nodup := by
        unfold Coordinator.getStore
        rcases before.context with _ | p
        · simp
        · rcases hcall : s.calls[p]? with _ | call
          · simp [hcall]
          · simp only [hcall]
            exact hs.keys hcall
      simp only [List.map_cons, List.nodup_cons]
      refine ⟨?_, hfiltered _ _ hcopied⟩
      simp
    · exact hfiltered _ _ hnodup
    · exact hnodup
    · exact hnodup
  · simp [hnew.held]

theorem holder_of_mem (hs : Contexts s) {key : MeetingId} (hcall : s.calls[p]? = some call)
    (hentry : (key, o) ∈ call.held) : s.holder (some p) key = some o := by
  unfold Coordinator.holder
  rw [getStore_of_call hcall]
  rcases hfind : call.held.find? fun entry => entry.1 = key with _ | ⟨key', o'⟩
  · rw [List.find?_eq_none] at hfind
    have habsent := hfind _ hentry
    simp at habsent
  · have hmem := List.mem_of_find?_eq_some hfind
    have hkey : key' = key := by simpa using List.find?_some hfind
    subst hkey
    have heq := List.inj_on_of_nodup_map (hs.keys hcall) hmem hentry rfl
    simp only [Prod.mk.injEq, true_and] at heq
    rw [hfind, heq]
    rfl

theorem mem_of_holder {key : MeetingId} {context : Option ℕ} (h : s.holder context key = some o) :
    (key, o) ∈ s.getStore context := by
  unfold Coordinator.holder at h
  simp only [Option.map_eq_some_iff] at h
  obtain ⟨⟨key', o'⟩, hfind, rfl⟩ := h
  have hkey : key' = key := by simpa using List.find?_some hfind
  subst hkey
  exact List.mem_of_find?_eq_some hfind

theorem outer_step (h : Move s e t) (hs : Contexts s) (hafter : t.calls[i]? = some after)
    (hentry : after.entry = .direct o) : ∃ d, t.calls[o]? = some d ∧ d.isQueued = true ∧ d.key = after.key := by
  have hfound : ∃ d, s.calls[o]? = some d ∧ d.isQueued = true ∧ d.key = after.key := by
    rcases old h hafter with ⟨before, hbefore, hturn⟩ | ⟨rfl, hnew⟩
    · rw [hturn.later.entry] at hentry
      rw [hturn.later.key]
      exact hs.outer hbefore hentry
    · rcases hnew.entry with ⟨o', hdirect, -, hholder⟩ | ⟨hqueued, -⟩
      · rw [hdirect] at hentry
        injection hentry with heq
        subst heq
        obtain ⟨p, call, -, hcall, hheld⟩ := mem_getStore (mem_of_holder hholder)
        exact hs.tags hcall hheld
      · simp [hqueued] at hentry
  obtain ⟨d, hd, hqueued, hkey⟩ := hfound
  obtain ⟨d', hd', hturn⟩ := kept h hd
  exact ⟨d', hd', (isQueued_of_entry hturn.later.entry).trans hqueued, hturn.later.key.trans hkey⟩

/-! ### The sets inside a running body -/

/-- A queued call that runs after a step ran before it, or the step calls its body. -/
theorem running_before (h : Move s e t) (hafter : t.calls[i]? = some after) (hqueued : after.isQueued = true)
    (hphase : after.phase = .running) : ∃ before, s.calls[i]? = some before ∧ before.isQueued = true ∧
      before.key = after.key ∧ (before.phase = .running ∨ (e = .start i ∧ before.phase = .waiting)) := by
  rcases old h hafter with ⟨before, hbefore, hturn⟩ | ⟨rfl, hnew⟩
  · refine ⟨before, hbefore, (isQueued_of_entry hturn.later.entry).symm.trans hqueued, hturn.later.key.symm, ?_⟩
    rcases hturn with _ | ⟨-, hwaiting, -⟩ | ⟨-, -⟩ | ⟨-, -⟩ | -
    · exact .inl hphase
    · exact .inr ⟨rfl, hwaiting⟩
    · simp at hphase
    · simp at hphase
    · simp at hphase
  · obtain ⟨previous, hprevious⟩ := isQueued_iff.mp hqueued
    rcases hnew.entry with ⟨_, hdirect, -⟩ | ⟨-, hwaiting, -⟩
    · simp [hdirect] at hprevious
    · simp [hwaiting] at hphase

theorem outlived_step (h : Move s e t) (hs : Contexts s) {c d : Call} (hc : t.calls[i]? = some c)
    (hqueued : c.isQueued = true) (hcontext : c.context = some p) (hinside : Inside t o p)
    (hd : t.calls[o]? = some d) (hdqueued : d.isQueued = true) (hkey : d.key = c.key) : d.phase ≠ .running := by
  intro hrunning
  obtain ⟨d', hd', hdqueued', hdkey, hphase⟩ := running_before h hd hdqueued hrunning
  rw [hkey] at hdkey
  have hnotStarting : ∀ {q : ℕ}, Opened s q → Inside s o q → ¬ (e = .start o ∧ d'.phase = .waiting) := by
    rintro q hq hin ⟨-, hwaiting⟩
    obtain ⟨b, hb, -, hstarted⟩ := hin.opened hs hq
    rw [hd'] at hb
    cases hb
    exact hstarted hwaiting
  rcases old h hc with ⟨c', hc', hturn⟩ | ⟨rfl, hnew⟩
  · rw [hturn.later.context] at hcontext
    rw [isQueued_of_entry hturn.later.entry] at hqueued
    rw [hturn.later.key] at hdkey
    obtain ⟨hlt, hopened⟩ := hs.made hc' hcontext
    have hin : Inside s o p := hinside.ofStep h hs (by have := lt_of_call hc'; omega)
    rcases hphase with hrunning' | hstarting
    · exact hs.outlived hc' hqueued hcontext hin hd' hdqueued' hdkey hrunning'
    · exact hnotStarting hopened hin hstarting
  · have hopened := hnew.context
    rw [hcontext, hasContext_iff] at hopened
    obtain ⟨call, hcall, hcqueued, hstarted⟩ := id hopened
    have hin : Inside s o p := hinside.ofStep h hs (lt_of_call hcall)
    rcases hphase with hrunning' | hstarting
    · -- the set of the context has the meeting, so the call would not be queued
      have hheld := hs.inherited hd' hdqueued' hrunning' hin hcall hcqueued hstarted
      rw [hdkey] at hheld
      rcases hnew.entry with ⟨_, hdirect, -⟩ | ⟨-, -, hholder⟩
      · obtain ⟨previous, hprevious⟩ := isQueued_iff.mp hqueued
        simp [hdirect] at hprevious
      · rw [hcontext, holder_of_mem hs hcall hheld] at hholder
        simp at hholder
    · exact hnotStarting hopened hin hstarting

theorem inherited_step (h : Move s e t) (hs : Contexts s) {c : ℕ} {d call : Call} (hd : t.calls[o]? = some d)
    (hqueued : d.isQueued = true) (hrunning : d.phase = .running) (hinside : Inside t o c)
    (hcall : t.calls[c]? = some call) (hcqueued : call.isQueued = true) (hstarted : call.phase ≠ .waiting) :
    (d.key, o) ∈ call.held := by
  obtain ⟨d', hd', hdqueued, hdkey, hphase⟩ := running_before h hd hqueued hrunning
  rw [← hdkey]
  rcases old h hcall with ⟨call', hcall', hturn⟩ | ⟨rfl, hnew⟩
  · have hin : Inside s o c := hinside.ofStep h hs (lt_of_call hcall')
    rw [isQueued_of_entry hturn.later.entry] at hcqueued
    have hrunning' : o ≠ c → Opened s c ∨ (∃ p, call'.context = some p) → d'.phase = .running := by
      intro hne hopened
      rcases hphase with hrunning' | ⟨rfl, hwaiting⟩
      · exact hrunning'
      · exfalso
        have hopened : Opened s o := by
          rcases hopened with hopened | ⟨p, hp⟩
          · exact hin.opened hs hopened
          · rcases hin with _ | ⟨hcall, hcontext, hin⟩
            · exact absurd rfl hne
            · exact hin.opened hs (hs.made hcall hcontext).2
        obtain ⟨b, hb, -, hstarted⟩ := hopened
        rw [hd'] at hb
        cases hb
        exact hstarted hwaiting
    -- inside another body, the call is not on the meeting of that body
    have houter : o ≠ c → ∃ p, call'.context = some p ∧ Inside s o p ∧ Opened s p ∧ d'.key ≠ call'.key := by
      intro hne
      rcases id hin with _ | ⟨hcall, hcontext, hin'⟩
      · exact absurd rfl hne
      · rw [hcall'] at hcall
        cases hcall
        have hrunning' := hrunning' hne (.inr ⟨_, hcontext⟩)
        exact ⟨_, hcontext, hin', (hs.made hcall' hcontext).2, fun hkey =>
          hs.outlived hcall' hcqueued hcontext hin' hd' hdqueued hkey hrunning'⟩
    rcases hturn with _ | ⟨hentry, hwaiting, -⟩ | ⟨-, hold⟩ | ⟨hentry, -⟩ | hold
    · have hopened : Opened s c := ⟨_, hcall', hcqueued, hstarted⟩
      by_cases hne : o = c
      · subst hne
        rw [hd'] at hcall'
        cases hcall'
        rw [hd] at hcall
        cases hcall
        exact hs.inherited hd' hdqueued hrunning .self hd' hdqueued hstarted
      · exact hs.inherited hd' hdqueued (hrunning' hne (.inl hopened)) hin hcall' hcqueued hstarted
    · by_cases hne : o = c
      · subst hne
        rw [hd'] at hcall'
        cases hcall'
        simp
      · obtain ⟨p, hcontext, hin', ⟨b, hb, hbqueued, hbstarted⟩, hkey⟩ := houter hne
        have hheld := hs.inherited hd' hdqueued (hrunning' hne (.inr ⟨p, hcontext⟩)) hin' hb hbqueued hbstarted
        simp only [hcontext, getStore_of_call hb, List.mem_cons, List.mem_filter]
        exact .inr ⟨hheld, by simpa using hkey⟩
    · by_cases hne : o = c
      · subst hne
        rw [hd] at hcall
        cases hcall
        simp at hrunning
      · obtain ⟨p, hcontext, -, -, hkey⟩ := houter hne
        have hheld := hs.inherited hd' hdqueued (hrunning' hne (.inr ⟨p, hcontext⟩)) hin hcall' hcqueued (by simp [hold])
        simp only [List.mem_filter]
        exact ⟨hheld, by simpa using hkey⟩
    · obtain ⟨previous, hprevious⟩ := isQueued_iff.mp hcqueued
      simp [hentry] at hprevious
    · by_cases hne : o = c
      · subst hne
        rw [hd] at hcall
        cases hcall
        simp at hrunning
      · have hopened : Opened s c := ⟨_, hcall', hcqueued, by simp [hold]⟩
        have hheld := hs.inherited hd' hdqueued (hrunning' hne (.inl hopened)) hin hcall' hcqueued (by simp [hold])
        exact hheld
  · obtain ⟨previous, hprevious⟩ := isQueued_iff.mp hcqueued
    rcases hnew.entry with ⟨_, hdirect, -⟩ | ⟨-, hwaiting, -⟩
    · simp [hdirect] at hprevious
    · exact absurd hwaiting hstarted

theorem contexts_step (hs : Contexts s) (h : step s e = some t) : Contexts t :=
  have hmove := move_of_step h
  { made := made_step hmove hs
    tags := tags_step hmove hs
    keys := keys_step hmove hs
    outer := outer_step hmove hs
    inherited := inherited_step hmove hs
    outlived := outlived_step hmove hs }

end OwnMinutes.Locks.Nesting
