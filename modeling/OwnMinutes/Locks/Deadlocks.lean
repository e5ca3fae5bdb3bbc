import OwnMinutes.Locks.LockOrder

/-! # Deadlocks

A state is `Calm` when nothing that an operation with a lock waits for, an acquisition or its own queries, waits for a
connection or for the barrier in vain. The highest lock that such an operation waits for can then be granted, so a calm
state is not deadlocked (`not_deadlocked`). -/

namespace OwnMinutes.Locks.Deadlocks

open OwnMinutes.Lib.Runs OwnMinutes.Locks.AdvisoryLocks OwnMinutes.Locks.LockOrder

variable {config : Config} {s t : State} {e : Event} {op other : Operation} {lock : Lock} {ticket : ℕ} {point : Point}

/-- An operation that holds a lock waits for the acquisition: its own operation, or one that is queued behind it. -/
def needed (s : State) (op : Operation) (lock : Lock) : Bool :=
  op.held ≠ [] || s.operations.any fun other =>
    other.process = op.process && other.held ≠ [] && (other.waitsAt .turn).any fun request => request.1 = lock

theorem waitsAt_iff : op.waitsAt point = some (lock, ticket) ↔ op.stage = .waiting point lock ticket := by
  unfold Operation.waitsAt
  rcases hstage : op.stage with _ | ⟨point', lock', ticket'⟩ | _
  · simp
  · by_cases hpoint : point' = point <;> simp [hpoint]
  · simp

theorem waitsAt_none (h : ∀ lock ticket, op.stage ≠ .waiting point lock ticket) : op.waitsAt point = none := by
  rcases hrequest : op.waitsAt point with _ | ⟨lock, ticket⟩
  · rfl
  · exact absurd (waitsAt_iff.mp hrequest) (h lock ticket)

theorem needed_iff : needed s op lock = true ↔ op.held ≠ [] ∨ ∃ other ∈ s.operations,
    other.process = op.process ∧ other.held ≠ [] ∧ ∃ ticket, other.stage = .waiting .turn lock ticket := by
  unfold needed
  simp only [Bool.or_eq_true, decide_eq_true_eq, List.any_eq_true, Bool.and_eq_true]
  refine or_congr Iff.rfl ⟨?_, ?_⟩
  · rintro ⟨other, hmem, ⟨hprocess, hheld⟩, hwaits⟩
    rcases hrequest : other.waitsAt .turn with _ | ⟨lock', ticket⟩
    · simp [hrequest] at hwaits
    · have hlock : lock' = lock := by simpa [hrequest] using hwaits
      subst hlock
      exact ⟨other, hmem, hprocess, hheld, ticket, waitsAt_iff.mp hrequest⟩
  · rintro ⟨other, hmem, hprocess, hheld, ticket, hstage⟩
    exact ⟨other, hmem, ⟨hprocess, hheld⟩, by simp [waitsAt_iff.mpr hstage]⟩

theorem notBefore_iff : op.notBefore point ticket = true ↔
    ∀ lock ticket', op.stage = .waiting point lock ticket' → ticket ≤ ticket' := by
  unfold Operation.notBefore
  constructor
  · intro h lock ticket' hstage
    simpa [waitsAt_iff.mpr hstage] using h
  · intro h
    rcases hrequest : op.waitsAt point with _ | ⟨lock, ticket'⟩
    · rfl
    · simpa using h lock ticket' (waitsAt_iff.mp hrequest)

theorem connectionTicket_iff : op.connectionTicket = some ticket ↔
    (∃ lock, op.stage = .waiting .connection lock ticket) ∨
      ∃ asking busy, op.stage = .querying (asking + 1) busy ticket := by
  unfold Operation.connectionTicket
  rcases op.stage with _ | ⟨_ | _ | _ | _, lock, ticket'⟩ | ⟨_ | asking, busy, ticket'⟩ <;> simp

theorem connectionFree_iff : connectionFree config s op ticket = true ↔ s.used op.process < config.poolMax ∧
    ∀ other ∈ s.operations, other.process = op.process → ∀ ticket', other.connectionTicket = some ticket' →
      ticket ≤ ticket' := by
  simp only [connectionFree, Bool.and_eq_true, decide_eq_true_eq, List.all_eq_true, Bool.or_eq_true, Option.all_eq_true]
  refine and_congr_right fun _ => forall₂_congr fun other _ => ?_
  exact ⟨fun h hprocess => h.resolve_left (by simp [hprocess]), fun h => by
    by_cases hprocess : other.process = op.process
    · exact .inr (h hprocess)
    · exact .inl hprocess⟩

/-- The queries of an operation that have a connection. -/
def busy (op : Operation) : ℕ :=
  match op.stage with
  | .querying _ busy _ => busy
  | _ => 0

/-- What holds of the operations in every state. -/
structure Ordered (config : Config) (s : State) : Prop where
  legal : ∀ op ∈ s.operations, Legal op
  process : ∀ op ∈ s.operations, ∀ point lock ticket, op.stage = .waiting point lock ticket →
    point = .turn ∨ config.postgres = true
  querying : ∀ op ∈ s.operations, ∀ asking busy ticket, op.stage = .querying asking busy ticket → config.postgres = true
  tickets : ∀ op ∈ s.operations, ∀ point lock ticket, op.stage = .waiting point lock ticket → ticket < s.clock
  connections : ∀ op ∈ s.operations, ∀ ticket, op.connectionTicket = some ticket → ticket < s.clock
  backup : ∀ ticket, s.backup = .waiting ticket → ticket < s.clock
  pool : config.postgres = true → ∀ process, s.used process ≤ config.poolMax

/-- What an operation that holds a lock cannot go on without waits for a connection: a needed acquisition, or its own
queries. -/
inductive Pressing (s : State) (op : Operation) : ℕ → Prop
  | acquisition {lock : Lock} {ticket : ℕ} (hstage : op.stage = .waiting .connection lock ticket)
      (hneeded : needed s op lock = true) : Pressing s op ticket
  | queries {asking busy ticket : ℕ} (hstage : op.stage = .querying (asking + 1) busy ticket) (hheld : op.held ≠ []) :
      Pressing s op ticket

theorem Pressing.connectionTicket (h : Pressing s op ticket) : op.connectionTicket = some ticket := by
  cases h with
  | acquisition hstage => exact connectionTicket_iff.mpr (.inl ⟨_, hstage⟩)
  | queries hstage => exact connectionTicket_iff.mpr (.inr ⟨_, _, hstage⟩)

/-- The next connection is for the operation, now or after the answer to one of its queries. -/
def NextFor (config : Config) (s : State) (i : ℕ) (op : Operation) (ticket : ℕ) : Prop :=
  (s.used op.process < config.poolMax ∨ 0 < busy op) ∧ ∀ (j : ℕ) (other : Operation) (ticket' : ℕ), j ≠ i →
    s.operations[j]? = some other → other.process = op.process → other.connectionTicket = some ticket' →
    ticket < ticket'

/-- The next connection is for whoever presses for one, and a needed acquisition that waits for the barrier is before
every backup. -/
structure Calm (config : Config) (s : State) : Prop where
  connection : ∀ (i : ℕ) (op : Operation) (ticket : ℕ), s.operations[i]? = some op → Pressing s op ticket →
    NextFor config s i op ticket
  barrier : ∀ (op : Operation) (lock : Lock) (ticket : ℕ), op ∈ s.operations →
    op.stage = .waiting .barrier lock ticket → needed s op lock = true →
    s.backup ≠ .holding ∧ ∀ ticket', s.backup = .waiting ticket' → ticket < ticket'

/-! ### Calm states are not deadlocked -/

/-- Of the requests of a kind one has the smallest ticket. -/
theorem exists_first {p : Operation → Option ℕ} {ops : List Operation} (hmem : op ∈ ops) (hp : p op = some ticket) :
    ∃ first ∈ ops, ∃ ticket', p first = some ticket' ∧ ∀ other ∈ ops, ∀ t, p other = some t → ticket' ≤ t := by
  classical
  have hex : ∃ t, ∃ op ∈ ops, p op = some t := ⟨ticket, op, hmem, hp⟩
  obtain ⟨first, hfirst, hticket⟩ := Nat.find_spec hex
  exact ⟨first, hfirst, Nat.find hex, hticket, fun other hother t ht => Nat.find_min' hex ⟨other, hother, ht⟩⟩

/-- The ticket of a request for one thing of a lock, or for any lock. -/
def ticketAt (point : Point) (accepts : Operation → Lock → Bool) (op : Operation) : Option ℕ :=
  (op.waitsAt point).bind fun request => if accepts op request.1 then some request.2 else none

theorem ticketAt_eq {accepts : Operation → Lock → Bool} : ticketAt point accepts op = some ticket ↔
    ∃ lock, op.stage = .waiting point lock ticket ∧ accepts op lock = true := by
  unfold ticketAt
  constructor
  · intro h
    rcases hrequest : op.waitsAt point with _ | ⟨lock, ticket'⟩
    · simp [hrequest] at h
    · simp only [hrequest, Option.bind_some, Option.ite_none_right_eq_some, Option.some.injEq] at h
      obtain ⟨haccepts, rfl⟩ := h
      exact ⟨lock, waitsAt_iff.mp hrequest, haccepts⟩
  · rintro ⟨lock, hstage, haccepts⟩
    simp [waitsAt_iff.mpr hstage, haccepts]

theorem exists_first_waiting (accepts : Operation → Lock → Bool) (hmem : op ∈ s.operations)
    (hstage : op.stage = .waiting point lock ticket) (haccepts : accepts op lock = true) :
    ∃ first ∈ s.operations, ∃ lock' ticket', first.stage = .waiting point lock' ticket' ∧ accepts first lock' = true ∧
      ∀ other ∈ s.operations, ∀ lock'' t, other.stage = .waiting point lock'' t → accepts other lock'' = true →
        ticket' ≤ t := by
  obtain ⟨first, hfirst, ticket', hticket, hleast⟩ :=
    exists_first (p := ticketAt point accepts) hmem (ticketAt_eq.mpr ⟨lock, hstage, haccepts⟩)
  obtain ⟨lock', hstage', haccepts'⟩ := ticketAt_eq.mp hticket
  exact ⟨first, hfirst, lock', ticket', hstage', haccepts', fun other hother lock'' t ht ha =>
    hleast other hother t (ticketAt_eq.mpr ⟨lock'', ht, ha⟩)⟩

variable (hs : Ordered config s) (hcalm : Calm config s) (hdead : Deadlocked config s)

include hdead in
theorem not_grantable (hmem : op ∈ s.operations) (hstage : op.stage = .waiting point lock ticket) :
    grantable config s op point lock ticket = false := by
  obtain ⟨index, hindex⟩ := List.mem_iff_getElem?.mp hmem
  have hnone := (hdead.operations index).2
  simp only [step, hindex, hstage, Option.bind_eq_bind, Option.bind_some] at hnone
  simpa using hnone

include hdead in
theorem next_none (hmem : op ∈ s.operations) : op.next config s.clock = none := by
  obtain ⟨index, hindex⟩ := List.mem_iff_getElem?.mp hmem
  have hnone := (hdead.operations index).1
  simp only [step, hindex, Option.bind_eq_bind, Option.bind_some] at hnone
  rcases hnext : op.next config s.clock with _ | after
  · rfl
  · simp [hnext] at hnone

include hs hdead in
/-- An operation that holds a lock waits. -/
theorem waits_of_held (hmem : op ∈ s.operations) (hstage : op.stage = .running) : op.held = [] ∧ op.script = [] := by
  have hstuck := next_none hdead hmem
  have hnests := (hs.legal op hmem).running hstage
  rcases hscript : op.script with _ | ⟨lock | count | _, script⟩
  · rw [hscript] at hnests
    exact ⟨by simpa [Operation.locks, Nests] using hnests, rfl⟩
  · simp only [Operation.next, hstage, hscript] at hstuck
    split_ifs at hstuck
  · simp only [Operation.next, hstage, hscript] at hstuck
    split_ifs at hstuck
  · rw [hscript] at hnests
    have hheld : op.held ≠ [] := by simpa [Operation.locks] using hnests.1
    obtain ⟨frame, frames, hframes⟩ := List.exists_cons_of_ne_nil hheld
    simp [Operation.next, hstage, hscript, hframes] at hstuck

include hdead in
/-- The queries of an operation all wait for a connection. -/
theorem asks_of_querying {asking busy : ℕ} (hmem : op ∈ s.operations) (hstage : op.stage = .querying asking busy ticket) :
    busy = 0 ∧ op.connectionTicket = some ticket := by
  have hstuck := next_none hdead hmem
  rcases busy with _ | busy
  · rcases asking with _ | asking
    · simp [Operation.next, hstage] at hstuck
    · exact ⟨rfl, connectionTicket_iff.mpr (.inr ⟨asking, 0, hstage⟩)⟩
  · simp [Operation.next, hstage] at hstuck

include hdead in
theorem not_connectionFree (hmem : op ∈ s.operations) (hticket : op.connectionTicket = some ticket) :
    connectionFree config s op ticket = false := by
  rcases connectionTicket_iff.mp hticket with ⟨lock, hstage⟩ | ⟨asking, busy, hstage⟩
  · exact not_grantable hdead hmem hstage
  · obtain ⟨index, hindex⟩ := List.mem_iff_getElem?.mp hmem
    have hnone := (hdead.operations index).2
    simp only [step, hindex, hstage, Option.bind_eq_bind, Option.bind_some] at hnone
    simpa using hnone

include hcalm hdead in
theorem not_pressing (hmem : op ∈ s.operations) : ¬ Pressing s op ticket := by
  intro hpressing
  obtain ⟨i, hi⟩ := List.mem_iff_getElem?.mp hmem
  obtain ⟨hfree, hfirst⟩ := hcalm.connection i op ticket hi hpressing
  have hidle : busy op = 0 := by
    unfold busy
    split
    · rename_i hstage
      exact (asks_of_querying hdead hmem hstage).1
    · rfl
  have hgrant : connectionFree config s op ticket = true := by
    refine connectionFree_iff.mpr ⟨hfree.resolve_right (by omega), fun other hother hprocess ticket' hticket => ?_⟩
    obtain ⟨j, hj⟩ := List.mem_iff_getElem?.mp hother
    by_cases hji : j = i
    · subst hji
      rw [hi] at hj
      cases hj
      rw [hpressing.connectionTicket] at hticket
      cases hticket
      exact le_rfl
    · exact (hfirst j other ticket' hji hj hprocess hticket).le
  have hnot := not_connectionFree hdead hmem hpressing.connectionTicket
  simp [hgrant] at hnot

include hcalm hdead in
theorem not_waiting_connection (hmem : op ∈ s.operations) (hneeded : needed s op lock = true) :
    op.stage ≠ .waiting .connection lock ticket :=
  fun hstage => not_pressing hcalm hdead hmem (.acquisition hstage hneeded)

include hcalm hdead in
theorem not_querying {asking busy : ℕ} (hmem : op ∈ s.operations) (hheld : op.held ≠ []) :
    op.stage ≠ .querying asking busy ticket := by
  intro hstage
  obtain ⟨-, hticket⟩ := asks_of_querying hdead hmem hstage
  rcases connectionTicket_iff.mp hticket with ⟨lock, hwaits⟩ | ⟨asking', busy', hqueries⟩
  · simp [hstage] at hwaits
  · exact not_pressing hcalm hdead hmem (.queries hqueries hheld)

include hdead in
/-- Nobody waits for the barrier unless the backup session is before everybody. -/
theorem backup_before (hmem : op ∈ s.operations) (hstage : op.stage = .waiting .barrier lock ticket) :
    ∃ ticket', s.backup = .waiting ticket' ∧ ticket' < ticket := by
  obtain ⟨first, hfirst, lock', ticket', hstage', -, hleast⟩ :=
    exists_first_waiting (fun _ _ => true) hmem hstage rfl
  have hnot := not_grantable hdead hfirst hstage'
  have hall : (s.operations.all fun other => other.notBefore .barrier ticket') = true := by
    simp only [List.all_eq_true]
    exact fun other hother => notBefore_iff.mpr fun lock'' t hwaits => hleast other hother lock'' t hwaits rfl
  have hle := hleast op hmem lock ticket hstage rfl
  simp only [grantable, hall, Bool.and_true] at hnot
  rcases hbackup : s.backup with _ | exclusive | _
  · simp [hbackup] at hnot
  · simp only [hbackup, decide_eq_false_iff_not, not_le] at hnot
    exact ⟨exclusive, rfl, by omega⟩
  · have hrelease := hdead.backup.2
    simp [step, hbackup] at hrelease

include hcalm hdead in
theorem not_waiting_barrier (hmem : op ∈ s.operations) (hneeded : needed s op lock = true) :
    op.stage ≠ .waiting .barrier lock ticket := by
  intro hstage
  obtain ⟨ticket', hbackup, hlt⟩ := backup_before hdead hmem hstage
  have hafter := (hcalm.barrier op lock ticket hmem hstage hneeded).2 ticket' hbackup
  omega

/-- The operation holds something while it waits for the lock, its turn or its key. -/
def Climbs (op : Operation) (lock : Lock) : Prop :=
  (∃ ticket, op.stage = .waiting .key lock ticket) ∨ (op.held ≠ [] ∧ ∃ ticket, op.stage = .waiting .turn lock ticket)

include hs hcalm hdead in
theorem holder_climbs (hmem : op ∈ s.operations) (hheld : lock ∈ op.locks) :
    ∃ lock', rank lock < rank lock' ∧ Climbs op lock' := by
  have hne : op.held ≠ [] := by
    intro hnil
    simp [Operation.locks, hnil] at hheld
  rcases hstage : op.stage with _ | ⟨point, lock', ticket⟩ | ⟨asking, busy, ticket⟩
  · exact absurd (waits_of_held hs hdead hmem hstage).1 hne
  · have hrank := ((hs.legal op hmem).waiting point lock' ticket hstage).1 lock hheld
    have hneeded : needed s op lock' = true := needed_iff.mpr (.inl hne)
    rcases point with _ | _ | _ | _
    · exact ⟨lock', hrank, .inr ⟨hne, ticket, hstage⟩⟩
    · exact absurd hstage (not_waiting_connection hcalm hdead hmem hneeded)
    · exact absurd hstage (not_waiting_barrier hcalm hdead hmem hneeded)
    · exact ⟨lock', hrank, .inl ⟨ticket, hstage⟩⟩
  · exact absurd hstage (not_querying hcalm hdead hmem hne)

include hs hcalm hdead in
/-- Whoever holds something waits for a higher lock, whose holder waits for a higher one: there is nobody. -/
theorem not_climbs (n : ℕ) : ∀ (lock : Lock), 3 ≤ rank lock + n → ∀ op ∈ s.operations, ¬ Climbs op lock := by
  induction n with
  | zero =>
    intro lock hrank
    have := rank_le lock
    omega
  | succ n ih =>
    intro lock hrank op hmem hclimbs
    have hfree : ∀ holder ∈ s.operations, lock ∉ holder.locks := by
      intro holder hholder hlock
      obtain ⟨lock', hlt, hclimbs⟩ := holder_climbs hs hcalm hdead hholder hlock
      exact ih lock' (by omega) holder hholder hclimbs
    have hkey : ∀ op ∈ s.operations, ∀ ticket, op.stage ≠ .waiting .key lock ticket := by
      intro op hmem ticket hstage
      obtain ⟨first, hfirst, lock', ticket', hstage', haccepts, hleast⟩ :=
        exists_first_waiting (fun _ lock' => decide (lock' = lock)) hmem hstage (by simp)
      have hlock : lock' = lock := by simpa using haccepts
      subst hlock
      have hgrant : grantable config s first .key lock' ticket' = true := by
        simp only [grantable, List.all_eq_true, Bool.and_eq_true, decide_eq_true_eq]
        refine fun other hother => ⟨hfree other hother, ?_⟩
        rcases hrequest : other.waitsAt .key with _ | ⟨lock'', t⟩
        · rfl
        · by_cases hsame : lock'' = lock'
          · simpa [hsame] using hleast other hother lock'' t (waitsAt_iff.mp hrequest) (by simp [hsame])
          · simp [hsame]
      have hnot := not_grantable hdead hfirst hstage'
      simp [hgrant] at hnot
    rcases hclimbs with ⟨ticket, hstage⟩ | ⟨hheld, ticket, hstage⟩
    · exact hkey op hmem ticket hstage
    · obtain ⟨first, hfirst, lock', ticket', hstage', haccepts, hleast⟩ :=
        exists_first_waiting (fun other lock' => decide (other.process = op.process ∧ lock' = lock)) hmem hstage
          (by simp)
      simp only [decide_eq_true_eq] at haccepts
      obtain ⟨hprocess, rfl⟩ := haccepts
      have hgrant : grantable config s first .turn lock' ticket' = true := by
        simp only [grantable, List.all_eq_true, Bool.and_eq_true]
        intro other hother
        constructor
        · unfold Operation.hasTurn
          by_cases hsame : other.process = first.process
          · have hneeded : needed s other lock' = true :=
              needed_iff.mpr (.inr ⟨op, hmem, by rw [hsame, hprocess], hheld, ticket, hstage⟩)
            have hnone := hfree other hother
            rcases hother' : other.stage with _ | ⟨point, lock'', t⟩ | ⟨asking, busy, t⟩
            · simp [hsame, hnone]
            · rcases point with _ | _ | _ | _
              · simp [hsame, hnone]
              · have : lock'' ≠ lock' := by
                  rintro rfl
                  exact not_waiting_connection hcalm hdead hother hneeded hother'
                simp [hsame, hnone, this]
              · have : lock'' ≠ lock' := by
                  rintro rfl
                  exact not_waiting_barrier hcalm hdead hother hneeded hother'
                simp [hsame, hnone, this]
              · have : lock'' ≠ lock' := by
                  rintro rfl
                  exact hkey other hother t hother'
                simp [hsame, hnone, this]
            · simp [hsame, hnone]
          · simp [hsame]
        · rw [Bool.or_eq_true]
          by_cases hsame : other.process = first.process
          · right
            rcases hrequest : other.waitsAt .turn with _ | ⟨lock'', t⟩
            · rfl
            · by_cases hlock : lock'' = lock'
              · simpa [hlock] using hleast other hother lock'' t (waitsAt_iff.mp hrequest)
                  (by simp [hlock, hsame, hprocess])
              · simp [hlock]
          · simp [hsame]
      have hnot := not_grantable hdead hfirst hstage'
      simp [hgrant] at hnot

include hs hcalm hdead in
theorem held_nil (hmem : op ∈ s.operations) : op.held = [] := by
  by_contra hne
  have hneeded : ∀ lock, needed s op lock = true := fun _ => needed_iff.mpr (.inl hne)
  rcases hstage : op.stage with _ | ⟨point, lock, ticket⟩ | ⟨asking, busy, ticket⟩
  · exact hne (waits_of_held hs hdead hmem hstage).1
  · rcases point with _ | _ | _ | _
    · exact not_climbs hs hcalm hdead 3 lock (by omega) op hmem (.inr ⟨hne, ticket, hstage⟩)
    · exact not_waiting_connection hcalm hdead hmem (hneeded lock) hstage
    · exact not_waiting_barrier hcalm hdead hmem (hneeded lock) hstage
    · exact not_climbs hs hcalm hdead 3 lock (by omega) op hmem (.inl ⟨ticket, hstage⟩)
  · exact not_querying hcalm hdead hmem hne hstage

include hs hcalm in
/-- In a calm state something goes on: nobody holds a lock and waits, so the barrier comes free, then the
connections, then the turns. -/
theorem not_deadlocked : ¬ Deadlocked config s := by
  intro hdead
  have hheld : ∀ op ∈ s.operations, op.held = [] := fun op hmem => held_nil hs hcalm hdead hmem
  have hkey : ∀ op ∈ s.operations, ∀ lock ticket, op.stage ≠ .waiting .key lock ticket := fun op hmem lock ticket hstage =>
    not_climbs hs hcalm hdead 3 lock (by omega) op hmem (.inl ⟨ticket, hstage⟩)
  have hshares : ∀ op ∈ s.operations, op.sharesBarrier = false := by
    intro op hmem
    simp [Operation.sharesBarrier, hheld op hmem, waitsAt_none (hkey op hmem)]
  have hbarrier : ∀ op ∈ s.operations, ∀ lock ticket, op.stage ≠ .waiting .barrier lock ticket := by
    intro op hmem lock ticket hstage
    obtain ⟨ticket', hbackup, -⟩ := backup_before hdead hmem hstage
    have htake := hdead.backup.1
    have hall : (s.operations.all fun op => !(config.postgres && op.sharesBarrier) && op.notBefore .barrier ticket') = true := by
      simp only [List.all_eq_true, Bool.and_eq_true]
      intro other hother
      refine ⟨by simp [hshares other hother], notBefore_iff.mpr fun lock' t hwaits => ?_⟩
      obtain ⟨ticket'', hbackup', hlt⟩ := backup_before hdead hother hwaits
      rw [hbackup] at hbackup'
      simp only [Backup.waiting.injEq] at hbackup'
      omega
    simp only [step, hbackup, hall, if_true] at htake
    simp at htake
  have hconnections : ∀ op ∈ s.operations, op.connections = 0 := by
    intro op hmem
    unfold Operation.connections
    rw [hheld op hmem]
    rcases hstage : op.stage with _ | ⟨_ | _ | _ | _, lock, ticket⟩ | ⟨asking, busy, ticket⟩
    · rfl
    · rfl
    · rfl
    · exact absurd hstage (hbarrier op hmem lock ticket)
    · exact absurd hstage (hkey op hmem lock ticket)
    · simpa using (asks_of_querying hdead hmem hstage).1
  have hticket : ∀ op ∈ s.operations, op.connectionTicket = none := by
    intro op hmem
    by_contra hsome
    obtain ⟨ticket, hticket⟩ := Option.ne_none_iff_exists'.mp hsome
    obtain ⟨first, hfirst, ticket', hticket', hleast⟩ :=
      exists_first (p := fun other => if other.process = op.process then other.connectionTicket else none) hmem
        (by simpa using hticket)
    simp only [Option.ite_none_right_eq_some] at hticket'
    have hused : s.used first.process = 0 := by
      unfold State.used
      refine List.sum_eq_zero fun n hn => ?_
      obtain ⟨other, hother, rfl⟩ := List.mem_map.mp hn
      simp [hconnections other hother]
    have hgrant : connectionFree config s first ticket' = true := by
      refine connectionFree_iff.mpr ⟨by rw [hused]; exact config.poolMax_pos, fun other hother hprocess t ht => ?_⟩
      exact hleast other hother t (by simpa [hprocess, hticket'.1] using ht)
    have hnot := not_connectionFree hdead hfirst hticket'.2
    simp [hgrant] at hnot
  have hconnection : ∀ op ∈ s.operations, ∀ lock ticket, op.stage ≠ .waiting .connection lock ticket := by
    intro op hmem lock ticket hstage
    have hnone := hticket op hmem
    simp [connectionTicket_iff.mpr (.inl ⟨lock, hstage⟩)] at hnone
  have hquerying : ∀ op ∈ s.operations, ∀ asking busy ticket, op.stage ≠ .querying asking busy ticket := by
    intro op hmem asking busy ticket hstage
    have hnone := hticket op hmem
    simp [(asks_of_querying hdead hmem hstage).2] at hnone
  have hturn : ∀ op ∈ s.operations, ∀ lock ticket, op.stage ≠ .waiting .turn lock ticket := by
    intro op hmem lock ticket hstage
    obtain ⟨first, hfirst, lock', ticket', hstage', haccepts, hleast⟩ :=
      exists_first_waiting (fun other lock' => decide (other.process = op.process ∧ lock' = lock)) hmem hstage (by simp)
    simp only [decide_eq_true_eq] at haccepts
    obtain ⟨hprocess, rfl⟩ := haccepts
    have hgrant : grantable config s first .turn lock' ticket' = true := by
      simp only [grantable, List.all_eq_true, Bool.and_eq_true]
      intro other hother
      constructor
      · unfold Operation.hasTurn Operation.locks
        rw [hheld other hother]
        rcases hother' : other.stage with _ | ⟨_ | _ | _ | _, lock'', t⟩ | ⟨asking, busy, t⟩
        · simp
        · simp
        · exact absurd hother' (hconnection other hother lock'' t)
        · exact absurd hother' (hbarrier other hother lock'' t)
        · exact absurd hother' (hkey other hother lock'' t)
        · exact absurd hother' (hquerying other hother asking busy t)
      · rw [Bool.or_eq_true]
        by_cases hsame : other.process = first.process
        · right
          rcases hrequest : other.waitsAt .turn with _ | ⟨lock'', t⟩
          · rfl
          · by_cases hlock : lock'' = lock'
            · simpa [hlock] using hleast other hother lock'' t (waitsAt_iff.mp hrequest)
                (by simp [hlock, hsame, hprocess])
            · simp [hlock]
        · simp [hsame]
    have hnot := not_grantable hdead hfirst hstage'
    simp [hgrant] at hnot
  obtain ⟨op, hmem, hunfinished⟩ := hdead.unfinished
  rcases hstage : op.stage with _ | ⟨_ | _ | _ | _, lock, ticket⟩ | ⟨asking, busy, ticket⟩
  · have hscript := (waits_of_held hs hdead hmem hstage).2
    simp [Operation.finished, hstage, hscript] at hunfinished
  · exact hturn op hmem lock ticket hstage
  · exact hconnection op hmem lock ticket hstage
  · exact hbarrier op hmem lock ticket hstage
  · exact hkey op hmem lock ticket hstage
  · exact hquerying op hmem asking busy ticket hstage

end OwnMinutes.Locks.Deadlocks
