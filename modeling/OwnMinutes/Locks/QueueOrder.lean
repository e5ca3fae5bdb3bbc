import OwnMinutes.Locks.MeetingQueues

/-! # The order of the calls on a meeting

What a step does to one call (`Turn`, `New`), and what holds of the queues in every state: the calls of a meeting
that are not under another one are served in the order in which they were made, each after the one before it has
ended. -/

namespace OwnMinutes.Locks.QueueOrder

open OwnMinutes.Auth.Records OwnMinutes.Deletion.Store OwnMinutes.Locks.MeetingQueues

variable {s t : Coordinator} {e : Event} {i : ℕ} {call before after : Call}

/-- What a step does to a call that was made before it. -/
inductive Turn (s : Coordinator) (i : ℕ) : Event → Call → Call → Prop
  | same {e : Event} {call : Call} : Turn s i e call call
  | started {call : Call} {previous : Option ℕ} (hentry : call.entry = .queued previous)
      (hphase : call.phase = .waiting)
      (hprevious : ∀ before, previous = some before → s.inPhase before .finished = true) :
      Turn s i (.start i) call { call with
        held := (call.key, i) :: (s.getStore call.context).filter fun entry => entry.1 ≠ call.key
        phase := .running }
  | settled {thrown : Bool} {call : Call} (hentry : call.isQueued = true) (hphase : call.phase = .running) :
      Turn s i (.finish i thrown) call { call with
        held := call.held.filter fun entry => entry.1 ≠ call.key
        phase := .settled
        thrown := thrown }
  | returned {outer : ℕ} {thrown : Bool} {call : Call} (hentry : call.entry = .direct outer)
      (hphase : call.phase = .running) :
      Turn s i (.finish i thrown) call { call with phase := .finished, thrown := thrown }
  | cleaned {call : Call} (hphase : call.phase = .settled) :
      Turn s i (.cleanup i) call { call with phase := .finished }

/-- A call that a step makes. -/
structure New (s : Coordinator) (e : Event) (call : Call) : Prop where
  context : s.hasContext call.context = true
  held : call.held = []
  made : ∃ meetingId, e = .invoke call.context meetingId ∧ canonicalMeetingId meetingId = .ok call.key
  entry : (∃ outer, call.entry = .direct outer ∧ call.phase = .running ∧ s.holder call.context call.key = some outer) ∨
    (call.entry = .queued (s.queues call.key) ∧ call.phase = .waiting ∧ s.holder call.context call.key = none)

theorem Turn.later (h : Turn s i e before after) : Later before after := by
  rcases h with _ | ⟨hentry, hphase, -⟩ | ⟨hentry, hphase⟩ | ⟨hentry, hphase⟩ | hphase
  · exact ⟨rfl, rfl, rfl, id, id⟩
  · exact ⟨rfl, rfl, rfl, by simp, by simp [hphase]⟩
  · exact ⟨rfl, rfl, rfl, by simp, by simp [hphase]⟩
  · exact ⟨rfl, rfl, rfl, by simp, by simp⟩
  · exact ⟨rfl, rfl, rfl, by simp, by simp⟩

/-! ### The calls after a step -/

theorem getElem?_append_iff (calls : List Call) (new : Call) (j : ℕ) (call : Call) :
    (calls ++ [new])[j]? = some call ↔ calls[j]? = some call ∨ (j = calls.length ∧ call = new) := by
  rcases Nat.lt_trichotomy j calls.length with hj | rfl | hj
  · rw [List.getElem?_append_left hj]
    exact ⟨.inl, fun h => h.resolve_right fun ⟨heq, _⟩ => by omega⟩
  · simp [eq_comm]
  · have hnone : calls[j]? = none := List.getElem?_eq_none (by omega)
    have hnone' : (calls ++ [new])[j]? = none := List.getElem?_eq_none (by simp; omega)
    simp [hnone, hnone']
    omega

theorem getElem?_set_iff {calls : List Call} {i : ℕ} (hcall : calls[i]? = some before) (j : ℕ) (call : Call) :
    (calls.set i after)[j]? = some call ↔ (j = i ∧ call = after) ∨ (j ≠ i ∧ calls[j]? = some call) := by
  have hlt : i < calls.length := (List.getElem?_eq_some_iff.mp hcall).1
  by_cases hj : i = j
  · subst hj
    simp [hlt, eq_comm]
  · simp [hj, eq_comm]

theorem kept (h : Move s e t) (hcall : s.calls[i]? = some before) :
    ∃ after, t.calls[i]? = some after ∧ Turn s i e before after := by
  have hset : ∀ {index : ℕ} {old new : Call}, s.calls[index]? = some old → Turn s index e old new →
      ∃ after, (s.calls.set index new)[i]? = some after ∧ Turn s i e before after := by
    intro index old new hold hturn
    by_cases hi : i = index
    · subst hi
      rw [hcall] at hold
      cases hold
      exact ⟨new, (getElem?_set_iff hcall _ _).mpr (.inl ⟨rfl, rfl⟩), hturn⟩
    · exact ⟨before, (getElem?_set_iff hold _ _).mpr (.inr ⟨hi, hcall⟩), .same⟩
  have hlt : i < s.calls.length := (List.getElem?_eq_some_iff.mp hcall).1
  rcases h with ⟨_, _, _⟩ | ⟨_, _, _⟩ | ⟨hc, hentry, hphase, hprevious⟩ | ⟨hc, hentry, hphase⟩ | ⟨hc, hentry, hphase⟩ |
    ⟨hc, hphase⟩
  · exact ⟨before, (getElem?_append_iff _ _ _ _).mpr (.inl hcall), .same⟩
  · exact ⟨before, (getElem?_append_iff _ _ _ _).mpr (.inl hcall), .same⟩
  · exact hset hc (.started hentry hphase hprevious)
  · exact hset hc (.settled hentry hphase)
  · exact hset hc (.returned hentry hphase)
  · exact hset hc (.cleaned hphase)

theorem old (h : Move s e t) (hcall : t.calls[i]? = some after) :
    (∃ before, s.calls[i]? = some before ∧ Turn s i e before after) ∨ (i = s.calls.length ∧ New s e after) := by
  rcases hbefore : s.calls[i]? with _ | before
  · right
    have hset : ∀ {index : ℕ} {old new : Call}, s.calls[index]? = some old →
        (s.calls.set index new)[i]? ≠ some after := by
      intro index old new hold hafter
      rcases (getElem?_set_iff hold _ _).mp hafter with ⟨rfl, -⟩ | ⟨-, hi⟩
      · rw [hbefore] at hold
        cases hold
      · rw [hbefore] at hi
        cases hi
    rcases h with ⟨hcontext, hkey, hholder⟩ | ⟨hcontext, hkey, hholder⟩ | ⟨hc, -, -, -⟩ | ⟨hc, -, -⟩ | ⟨hc, -, -⟩ | ⟨hc, -⟩
    · rcases (getElem?_append_iff _ _ _ _).mp hcall with hi | ⟨hi, rfl⟩
      · rw [hbefore] at hi
        cases hi
      · exact ⟨hi, hcontext, rfl, ⟨_, rfl, hkey⟩, .inl ⟨_, rfl, rfl, hholder⟩⟩
    · rcases (getElem?_append_iff _ _ _ _).mp hcall with hi | ⟨hi, rfl⟩
      · rw [hbefore] at hi
        cases hi
      · exact ⟨hi, hcontext, rfl, ⟨_, rfl, hkey⟩, .inr ⟨rfl, rfl, hholder⟩⟩
    · exact absurd hcall (hset hc)
    · exact absurd hcall (hset hc)
    · exact absurd hcall (hset hc)
    · exact absurd hcall (hset hc)
  · left
    obtain ⟨call, hafter, hturn⟩ := kept h hbefore
    rw [hafter] at hcall
    cases hcall
    exact ⟨before, rfl, hturn⟩

theorem isQueued_of_entry (h : after.entry = before.entry) : after.isQueued = before.isQueued := by
  unfold Call.isQueued
  rw [h]

theorem isQueued_iff : call.isQueued = true ↔ ∃ previous, call.entry = .queued previous := by
  unfold Call.isQueued
  rcases call.entry with outer | previous <;> simp

/-! ### The queues -/

/-- The queued calls of a meeting, in the order in which they were made: each waits for the one before it, unless
that one had ended when it was made, and the entry of the map is the last of them. -/
structure Queues (s : Coordinator) : Prop where
  previous : ∀ {i p : ℕ} {c : Call}, s.calls[i]? = some c → c.entry = .queued (some p) →
    p < i ∧ ∃ d, s.calls[p]? = some d ∧ d.isQueued = true ∧ d.key = c.key
  behind : ∀ {m i : ℕ} {d c : Call} {before : Option ℕ}, s.calls[m]? = some d → s.calls[i]? = some c →
    d.isQueued = true → c.entry = .queued before → d.key = c.key → m < i →
    d.phase = .finished ∨ ∃ p, before = some p ∧ m ≤ p
  ordered : ∀ {m i : ℕ} {d c : Call}, s.calls[m]? = some d → s.calls[i]? = some c →
    d.isQueued = true → c.isQueued = true → d.key = c.key → m < i → c.phase ≠ .waiting → d.phase = .finished
  last : ∀ {key : MeetingId} {i : ℕ}, s.queues key = some i →
    ∃ c, s.calls[i]? = some c ∧ c.isQueued = true ∧ c.key = key ∧ c.phase ≠ .finished
  tail : ∀ {m : ℕ} {d : Call}, s.calls[m]? = some d → d.isQueued = true →
    d.phase = .finished ∨ ∃ i, s.queues d.key = some i ∧ m ≤ i
  direct : ∀ {i o : ℕ} {c : Call}, s.calls[i]? = some c → c.entry = .direct o → c.phase ≠ .waiting ∧ c.phase ≠ .settled

theorem queues_empty : Queues .empty := by
  constructor <;> simp [Coordinator.empty]

theorem lt_of_call (hcall : s.calls[i]? = some call) : i < s.calls.length :=
  (List.getElem?_eq_some_iff.mp hcall).1

theorem previous_step (h : Move s e t) (hs : Queues s) {p : ℕ} (hafter : t.calls[i]? = some after)
    (hentry : after.entry = .queued (some p)) :
    p < i ∧ ∃ d, t.calls[p]? = some d ∧ d.isQueued = true ∧ d.key = after.key := by
  have hfound : p < i ∧ ∃ d, s.calls[p]? = some d ∧ d.isQueued = true ∧ d.key = after.key := by
    rcases old h hafter with ⟨before, hbefore, hturn⟩ | ⟨rfl, hnew⟩
    · rw [hturn.later.entry] at hentry
      rw [hturn.later.key]
      exact hs.previous hbefore hentry
    · rcases hnew.entry with ⟨_, hdirect, -⟩ | ⟨hqueued, -⟩
      · rw [hdirect] at hentry
        cases hentry
      · rw [hqueued] at hentry
        injection hentry with hlast
        obtain ⟨d, hd, hqueue, hkey, -⟩ := hs.last hlast
        exact ⟨lt_of_call hd, d, hd, hqueue, hkey⟩
  obtain ⟨hlt, d, hd, hqueue, hkey⟩ := hfound
  obtain ⟨d', hd', hturn⟩ := kept h hd
  refine ⟨hlt, d', hd', ?_, ?_⟩
  · rw [isQueued_of_entry hturn.later.entry, hqueue]
  · rw [hturn.later.key, hkey]

theorem behind_step (h : Move s e t) (hs : Queues s) {m i : ℕ} {d c : Call} {before : Option ℕ}
    (hd : t.calls[m]? = some d) (hc : t.calls[i]? = some c) (hqueued : d.isQueued = true)
    (hentry : c.entry = .queued before) (hkey : d.key = c.key) (hlt : m < i) :
    d.phase = .finished ∨ ∃ p, before = some p ∧ m ≤ p := by
  rcases old h hd with ⟨d', hd', hturn⟩ | ⟨rfl, -⟩
  · rw [isQueued_of_entry hturn.later.entry] at hqueued
    rw [hturn.later.key] at hkey
    rcases old h hc with ⟨c', hc', hturn'⟩ | ⟨rfl, hnew⟩
    · rw [hturn'.later.entry] at hentry
      rw [hturn'.later.key] at hkey
      rcases hs.behind hd' hc' hqueued hentry hkey hlt with hfinished | hp
      · exact .inl (hturn.later.finished hfinished)
      · exact .inr hp
    · rcases hnew.entry with ⟨_, hdirect, -⟩ | ⟨hlast, -⟩
      · rw [hdirect] at hentry
        cases hentry
      · rw [hlast] at hentry
        injection hentry with hlast
        rcases hs.tail hd' hqueued with hfinished | ⟨p, hp, hle⟩
        · exact .inl (hturn.later.finished hfinished)
        · rw [hkey, hlast] at hp
          exact .inr ⟨p, hp, hle⟩
  · rcases old h hc with ⟨c', hc', -⟩ | ⟨hi, -⟩
    · have := lt_of_call hc'
      omega
    · omega

theorem ordered_step (h : Move s e t) (hs : Queues s) {m i : ℕ} {d c : Call}
    (hd : t.calls[m]? = some d) (hc : t.calls[i]? = some c) (hqueued : d.isQueued = true) (hqueued' : c.isQueued = true)
    (hkey : d.key = c.key) (hlt : m < i) (hphase : c.phase ≠ .waiting) : d.phase = .finished := by
  rcases old h hc with ⟨c', hc', hturn'⟩ | ⟨rfl, hnew⟩
  · rcases old h hd with ⟨d', hd', hturn⟩ | ⟨rfl, -⟩
    · refine hturn.later.finished ?_
      have hlater := hturn'.later
      rw [isQueued_of_entry hturn.later.entry] at hqueued
      rw [isQueued_of_entry hlater.entry] at hqueued'
      rw [hturn.later.key, hlater.key] at hkey
      by_cases hstarted : c'.phase = .waiting
      · rcases hturn' with _ | ⟨hentry, -, hprevious⟩ | ⟨-, hrunning⟩ | ⟨-, hrunning⟩ | hsettled
        · exact absurd hstarted hphase
        · -- the call starts now: the one it waited for has finished, and all before that one had
          rcases hs.behind hd' hc' hqueued hentry hkey hlt with hfinished | ⟨p, rfl, hle⟩
          · exact hfinished
          · obtain ⟨-, b, hb, hbqueued, hbkey⟩ := hs.previous hc' hentry
            have hbfinished : b.phase = .finished := by
              have hin := hprevious p rfl
              simpa [Coordinator.inPhase, hb] using hin
            rcases Nat.lt_or_eq_of_le hle with hmp | rfl
            · exact hs.ordered hd' hb hqueued hbqueued (hkey.trans hbkey.symm) hmp (by simp [hbfinished])
            · rw [hd'] at hb
              cases hb
              exact hbfinished
        · simp [hstarted] at hrunning
        · simp [hstarted] at hrunning
        · simp [hstarted] at hsettled
      · exact hs.ordered hd' hc' hqueued hqueued' hkey hlt hstarted
    · have := lt_of_call hc'
      omega
  · obtain ⟨previous, hentry⟩ := isQueued_iff.mp hqueued'
    rcases hnew.entry with ⟨_, hdirect, -⟩ | ⟨-, hwaiting, -⟩
    · rw [hdirect] at hentry
      cases hentry
    · exact absurd hwaiting hphase

theorem unfinished (h : Turn s i e before after) (hqueued : before.isQueued = true) (hphase : before.phase ≠ .finished)
    (he : e ≠ .cleanup i) : after.phase ≠ .finished := by
  rcases h with _ | ⟨-, -, -⟩ | ⟨-, -⟩ | ⟨hentry, -⟩ | -
  · exact hphase
  · simp
  · simp
  · obtain ⟨previous, hprevious⟩ := isQueued_iff.mp hqueued
    rw [hprevious] at hentry
    cases hentry
  · exact absurd rfl he

/-- What a step does to the map of the queues. -/
inductive QueueMove (s t : Coordinator) : Event → Prop
  | same {e : Event} (he : ∀ index, e ≠ .cleanup index)
      (hold : ∀ d, t.calls[s.calls.length]? = some d → d.isQueued = false) (hqueues : t.queues = s.queues) :
      QueueMove s t e
  | pushed {e : Event} {call : Call} (he : ∀ index, e ≠ .cleanup index)
      (hcall : t.calls[s.calls.length]? = some call) (hqueued : call.isQueued = true) (hphase : call.phase = .waiting)
      (hqueues : t.queues = Function.update s.queues call.key (some s.calls.length)) : QueueMove s t e
  | cleaned {index : ℕ} {call : Call} (hcall : s.calls[index]? = some call) (hphase : call.phase = .settled)
      (hafter : t.calls[index]? = some { call with phase := .finished })
      (hqueues : t.queues = if s.queues call.key = some index then Function.update s.queues call.key none else s.queues) :
      QueueMove s t (.cleanup index)

theorem queues_of_move (h : Move s e t) : QueueMove s t e := by
  have hnone : ∀ {index : ℕ} {new : Call} (d : Call), (s.calls.set index new)[s.calls.length]? = some d →
      d.isQueued = false := by
    intro index new d hd
    have hlt := (List.getElem?_eq_some_iff.mp hd).1
    simp at hlt
  rcases h with ⟨_, _, _⟩ | ⟨_, _, _⟩ | ⟨_, _, _, _⟩ | ⟨_, _, _⟩ | ⟨_, _, _⟩ | ⟨hcall, hphase⟩
  · refine .same (by simp) (fun d hd => ?_) rfl
    simp only [List.getElem?_concat_length, Option.some.injEq] at hd
    subst hd
    rfl
  · exact .pushed (by simp) List.getElem?_concat_length rfl rfl rfl
  · exact .same (by simp) hnone rfl
  · exact .same (by simp) hnone rfl
  · exact .same (by simp) hnone rfl
  · exact .cleaned hcall hphase ((getElem?_set_iff hcall _ _).mpr (.inl ⟨rfl, rfl⟩)) rfl

theorem last_step (h : Move s e t) (hs : Queues s) {key : MeetingId} (hlast : t.queues key = some i) :
    ∃ c, t.calls[i]? = some c ∧ c.isQueued = true ∧ c.key = key ∧ c.phase ≠ .finished := by
  have hstays : s.queues key = some i → e ≠ .cleanup i →
      ∃ c, t.calls[i]? = some c ∧ c.isQueued = true ∧ c.key = key ∧ c.phase ≠ .finished := by
    intro hbefore he
    obtain ⟨c, hc, hqueued, hkey, hphase⟩ := hs.last hbefore
    obtain ⟨c', hc', hturn⟩ := kept h hc
    exact ⟨c', hc', (isQueued_of_entry hturn.later.entry).trans hqueued, hturn.later.key.trans hkey,
      unfinished hturn hqueued hphase he⟩
  rcases queues_of_move h with ⟨he, -, hqueues⟩ | ⟨he, hcall, hqueued, hphase, hqueues⟩ | ⟨hcall, hphase, -, hqueues⟩
  · rw [hqueues] at hlast
    exact hstays hlast (he i)
  · rw [hqueues] at hlast
    rename_i call
    by_cases hkey : key = call.key
    · rw [hkey, Function.update_self, Option.some.injEq] at hlast
      subst hlast
      exact ⟨call, hcall, hqueued, hkey.symm, by simp [hphase]⟩
    · rw [Function.update_of_ne hkey] at hlast
      exact hstays hlast (he i)
  · rename_i index call
    have hother : s.queues key = some i → (key = call.key → s.queues call.key ≠ some index) →
        Event.cleanup index ≠ .cleanup i := by
      intro hbefore hne heq
      injection heq with heq
      subst heq
      obtain ⟨c, hc, -, hkey, -⟩ := hs.last hbefore
      rw [hcall] at hc
      cases hc
      exact hne hkey.symm (by rw [hkey, hbefore])
    rw [hqueues] at hlast
    split at hlast
    · by_cases hkey : key = call.key
      · rw [hkey, Function.update_self] at hlast
        cases hlast
      · rw [Function.update_of_ne hkey] at hlast
        exact hstays hlast (hother hlast fun heq => absurd heq hkey)
    · rename_i hindex
      exact hstays hlast (hother hlast fun _ => hindex)

theorem tail_step (h : Move s e t) (hs : Queues s) {m : ℕ} {d : Call} (hd : t.calls[m]? = some d)
    (hqueued : d.isQueued = true) : d.phase = .finished ∨ ∃ i, t.queues d.key = some i ∧ m ≤ i := by
  rcases old h hd with ⟨d', hd', hturn⟩ | ⟨rfl, -⟩
  · rw [isQueued_of_entry hturn.later.entry] at hqueued
    rcases hs.tail hd' hqueued with hfinished | ⟨i, hi, hle⟩
    · exact .inl (hturn.later.finished hfinished)
    · rw [hturn.later.key]
      rcases queues_of_move h with ⟨-, -, hqueues⟩ | ⟨-, -, -, -, hqueues⟩ | ⟨hcall, hphase, hafter, hqueues⟩
      · exact .inr ⟨i, by rw [hqueues, hi], hle⟩
      · rename_i call
        by_cases hkey : d'.key = call.key
        · exact .inr ⟨s.calls.length, by rw [hqueues, hkey, Function.update_self], (lt_of_call hd').le⟩
        · exact .inr ⟨i, by rw [hqueues, Function.update_of_ne hkey, hi], hle⟩
      · rename_i index call
        by_cases hlast : s.queues call.key = some index
        · rw [if_pos hlast] at hqueues
          by_cases hkey : d'.key = call.key
          · -- the entry goes with the last call of the queue: those before it have finished
            rw [hkey, hlast, Option.some.injEq] at hi
            subst hi
            left
            obtain ⟨c, hc, hcqueued, -, -⟩ := hs.last hlast
            rw [hcall] at hc
            cases hc
            rcases Nat.lt_or_eq_of_le hle with hlt | rfl
            · exact hturn.later.finished (hs.ordered hd' hcall hqueued hcqueued hkey hlt (by simp [hphase]))
            · rw [hd] at hafter
              cases hafter
              rfl
          · exact .inr ⟨i, by rw [hqueues, Function.update_of_ne hkey, hi], hle⟩
        · rw [if_neg hlast] at hqueues
          exact .inr ⟨i, by rw [hqueues, hi], hle⟩
  · right
    rcases queues_of_move h with ⟨-, hold, -⟩ | ⟨-, hcall, -, -, hqueues⟩ | ⟨hcall, -, hafter, -⟩
    · have := hold d hd
      simp [hqueued] at this
    · rw [hd] at hcall
      cases hcall
      exact ⟨_, by rw [hqueues, Function.update_self], le_rfl⟩
    · rcases h with _ | _ | _ | _ | _ | ⟨-, -⟩
      have hlt := (List.getElem?_eq_some_iff.mp hd).1
      simp at hlt

theorem direct_step (h : Move s e t) (hs : Queues s) {o : ℕ} (hafter : t.calls[i]? = some after)
    (hentry : after.entry = .direct o) : after.phase ≠ .waiting ∧ after.phase ≠ .settled := by
  rcases old h hafter with ⟨before, hbefore, hturn⟩ | ⟨rfl, hnew⟩
  · rw [hturn.later.entry] at hentry
    have hdirect := hs.direct hbefore hentry
    rcases hturn with _ | ⟨-, -, -⟩ | ⟨hqueued, -⟩ | ⟨-, -⟩ | -
    · exact hdirect
    · simp
    · obtain ⟨previous, hprevious⟩ := isQueued_iff.mp hqueued
      rw [hentry] at hprevious
      cases hprevious
    · simp
    · simp
  · rcases hnew.entry with ⟨_, -, hrunning, -⟩ | ⟨hqueued, -⟩
    · simp [hrunning]
    · rw [hqueued] at hentry
      cases hentry

theorem queues_step (hs : Queues s) (h : step s e = some t) : Queues t :=
  have hmove := move_of_step h
  { previous := previous_step hmove hs
    behind := behind_step hmove hs
    ordered := ordered_step hmove hs
    last := last_step hmove hs
    tail := tail_step hmove hs
    direct := direct_step hmove hs }

end OwnMinutes.Locks.QueueOrder
