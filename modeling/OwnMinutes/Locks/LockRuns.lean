import OwnMinutes.Locks.Deadlocks

/-! # No deadlock among the operations of the meeting store

What a step does to the operations (`Change`), the condition on the steps (`clear`), and from both that every state
of a run is calm: `store_operations_go_on`. In process mode the condition is met by every step (`process_goes_on`). -/

namespace OwnMinutes.Locks.LockRuns

open OwnMinutes.Lib.Runs OwnMinutes.Locks.AdvisoryLocks OwnMinutes.Locks.LockOrder OwnMinutes.Locks.Deadlocks

variable {config : Config} {s t : State} {e : Event} {es : List Event} {op after other : Operation} {lock : Lock}
  {ticket index : ℕ} {point : Point}

/-- The lock whose queue an operation joins with its next command. -/
def joins (op : Operation) : Option Lock :=
  match op.stage, op.script with
  | .running, .enter lock :: _ => if op.reenters lock then none else some lock
  | _, _ => none

/-- The next command of the operation is a query of the pool. -/
def queries (config : Config) (op : Operation) : Bool :=
  match op.stage, op.script with
  | .running, .query _ :: _ => config.postgres
  | _, _ => false

/-- The pool has a free connection for the operation, and nobody waits for one. -/
def spare (config : Config) (s : State) (op : Operation) : Bool :=
  s.used op.process < config.poolMax &&
    s.operations.all fun other => other.process ≠ op.process || other.connectionTicket.isNone

/-- A needed acquisition, and an operation that holds a lock and makes queries, ask for a connection when one is free
and nobody waits for one; a needed acquisition asks for the barrier when no backup session has it or waits for it; an
operation that holds a lock does not queue behind an acquisition that waits for a connection or for the barrier. -/
def clear (config : Config) (s : State) : Event → Bool
  | .proceed index =>
    s.operations[index]?.all fun op => op.held = [] ||
      ((joins op).all fun lock => s.operations.all fun other => other.process ≠ op.process ||
        ((other.waitsAt .connection).all fun request => request.1 ≠ lock) &&
          (other.waitsAt .barrier).all fun request => request.1 ≠ lock) &&
      (!queries config op || spare config s op)
  | .grant index =>
    s.operations[index]?.all fun op =>
      match op.stage with
      | .waiting .turn lock _ => !config.postgres || !needed s op lock || spare config s op
      | .waiting .connection lock _ => !needed s op lock || s.backup = .idle
      | _ => true
  | _ => true

/-! ### What a step can do -/

/-- What a step does to the operation that it is about. -/
inductive Moved (config : Config) (s : State) (index : ℕ) (op : Operation) : Event → Operation → Prop
  | proceeded {after : Operation} (h : op.next config s.clock = some after) :
      Moved config s index op (.proceed index) after
  | consulted {count : ℕ} {after : Operation} (h : op.consulted count = some after) :
      Moved config s index op (.consult index count) after
  | abandoned {handled : Bool} {after : Operation} (h : op.abandoned handled = some after) :
      Moved config s index op (.abandon index handled) after
  | granted {point : Point} {lock : Lock} {ticket : ℕ} (hstage : op.stage = .waiting point lock ticket)
      (h : grantable config s op point lock ticket = true) :
      Moved config s index op (.grant index) (op.granted config s.clock point lock)
  | connected {asking busy ticket : ℕ} (hstage : op.stage = .querying (asking + 1) busy ticket)
      (h : connectionFree config s op ticket = true) :
      Moved config s index op (.grant index) { op with stage := .querying asking (busy + 1) ticket }

inductive Change (config : Config) (s : State) : Event → State → Prop
  | started {process : ℕ} {operation : StoreOperation} : Change config s (.start process operation)
      ⟨s.operations ++ [⟨process, [], .running, operation.script.body, operation.script.handler⟩], s.backup, s.clock + 1⟩
  | moved {e : Event} {index : ℕ} {op after : Operation} (hop : s.operations[index]? = some op)
      (h : Moved config s index op e after) : Change config s e (s.put index after)
  | requested (h : s.backup = .idle) : Change config s .requestBackup ⟨s.operations, .waiting s.clock, s.clock + 1⟩
  | taken {ticket : ℕ} (h : s.backup = .waiting ticket)
      (hfirst : ∀ op ∈ s.operations, op.notBefore .barrier ticket = true) :
      Change config s .takeBackup { s with backup := .holding }
  | released : Change config s .releaseBackup { s with backup := .idle }

theorem change_of_step (h : step config s e = some t) : Change config s e t := by
  rcases e with ⟨process, operation⟩ | index | ⟨index, count⟩ | ⟨index, handled⟩ | index | _ | _ | _
  · simp only [step, Option.some.injEq] at h
    subst h
    exact .started
  · simp only [step, Option.bind_eq_bind, Option.bind_eq_some_iff, Option.some.injEq] at h
    obtain ⟨op, hop, after, hafter, rfl⟩ := h
    exact .moved hop (.proceeded hafter)
  · simp only [step, Option.bind_eq_bind, Option.bind_eq_some_iff, Option.some.injEq] at h
    obtain ⟨op, hop, after, hafter, rfl⟩ := h
    exact .moved hop (.consulted hafter)
  · simp only [step, Option.bind_eq_bind, Option.bind_eq_some_iff, Option.some.injEq] at h
    obtain ⟨op, hop, after, hafter, rfl⟩ := h
    exact .moved hop (.abandoned hafter)
  · simp only [step, Option.bind_eq_bind, Option.bind_eq_some_iff] at h
    obtain ⟨op, hop, h⟩ := h
    rcases hstage : op.stage with _ | ⟨point, lock, ticket⟩ | ⟨_ | asking, busy, ticket⟩
    · simp [hstage] at h
    · simp only [hstage] at h
      split_ifs at h with hgrant
      simp only [Option.some.injEq] at h
      subst h
      exact .moved hop (.granted hstage hgrant)
    · simp [hstage] at h
    · simp only [hstage] at h
      split_ifs at h with hfree
      simp only [Option.some.injEq] at h
      subst h
      exact .moved hop (.connected hstage hfree)
  · rcases hbackup : s.backup with _ | ticket | _
    · simp only [step, hbackup, Option.some.injEq] at h
      subst h
      exact .requested hbackup
    · simp [step, hbackup] at h
    · simp [step, hbackup] at h
  · rcases hbackup : s.backup with _ | ticket | _
    · simp [step, hbackup] at h
    · simp only [step, hbackup] at h
      split_ifs at h with hall
      simp only [Option.some.injEq] at h
      subst h
      refine .taken hbackup fun op hop => ?_
      simp only [List.all_eq_true, Bool.and_eq_true] at hall
      exact (hall op hop).2
    · simp [step, hbackup] at h
  · rcases hbackup : s.backup with _ | ticket | _
    · simp [step, hbackup] at h
    · simp [step, hbackup] at h
    · simp only [step, hbackup, Option.some.injEq] at h
      subst h
      exact .released

/-- What an operation waits for after its move: its turn, when it has joined a queue, or the thing after the one that
it was granted. -/
inductive Asks (config : Config) (index : ℕ) (op : Operation) : Event → Point → Lock → Prop
  | turn {lock : Lock} (hjoins : joins op = some lock) : Asks config index op (.proceed index) .turn lock
  | connection {lock : Lock} {ticket : ℕ} (hstage : op.stage = .waiting .turn lock ticket)
      (hpostgres : config.postgres = true) : Asks config index op (.grant index) .connection lock
  | barrier {lock : Lock} {ticket : ℕ} (hstage : op.stage = .waiting .connection lock ticket) :
      Asks config index op (.grant index) .barrier lock
  | key {lock : Lock} {ticket : ℕ} (hstage : op.stage = .waiting .barrier lock ticket) :
      Asks config index op (.grant index) .key lock

theorem asks_of_moved (h : Moved config s index op e after) (hstage : after.stage = .waiting point lock ticket) :
    Asks config index op e point lock ∧ after.held = op.held ∧ ticket = s.clock := by
  rcases h with h | h | h | ⟨hbefore, -⟩ | ⟨hbefore, -⟩
  · cases nexts_of_next h with
    | joined hrunning hscript hreenters =>
      simp only [Stage.waiting.injEq] at hstage
      obtain ⟨rfl, rfl, rfl⟩ := hstage
      exact ⟨.turn (by simp [joins, hrunning, hscript, hreenters]), rfl, rfl⟩
    | reentered hrunning _ _ | skipped hrunning _ | left hrunning _ _ => simp [hrunning] at hstage
    | queried _ _ _ | answered _ | resumed _ => simp at hstage
  · obtain ⟨hrunning, rfl⟩ := consulted_some h
    simp [hrunning] at hstage
  · obtain ⟨hrunning, rfl⟩ := abandoned_some h
    simp [hrunning] at hstage
  · rename_i point' lock' ticket'
    rcases point' with _ | _ | _ | _
    · by_cases hpostgres : config.postgres = true
      · simp only [Operation.granted, hpostgres, if_true, Stage.waiting.injEq] at hstage
        obtain ⟨rfl, rfl, rfl⟩ := hstage
        exact ⟨.connection hbefore hpostgres, by simp [Operation.granted, hpostgres], rfl⟩
      · simp [Operation.granted, hpostgres] at hstage
    · simp only [Operation.granted, Stage.waiting.injEq] at hstage
      obtain ⟨rfl, rfl, rfl⟩ := hstage
      exact ⟨.barrier hbefore, rfl, rfl⟩
    · simp only [Operation.granted, Stage.waiting.injEq] at hstage
      obtain ⟨rfl, rfl, rfl⟩ := hstage
      exact ⟨.key hbefore, rfl, rfl⟩
    · simp [Operation.granted] at hstage
  · simp at hstage

theorem postgres_of_queries (h : queries config op = true) : config.postgres = true := by
  unfold queries at h
  split at h
  · exact h
  · simp at h

theorem spare_iff : spare config s op = true ↔ s.used op.process < config.poolMax ∧
    ∀ other ∈ s.operations, other.process = op.process → other.connectionTicket = none := by
  simp only [spare, Bool.and_eq_true, decide_eq_true_eq, List.all_eq_true, Bool.or_eq_true, Option.isNone_iff_eq_none]
  refine and_congr_right fun _ => forall₂_congr fun other _ => ?_
  exact ⟨fun h hprocess => h.resolve_left (by simp [hprocess]), fun h => by
    by_cases hprocess : other.process = op.process
    · exact .inr (h hprocess)
    · exact .inl hprocess⟩

/-- How an operation is at its queries after its move: it makes them, or one of them gets a connection, or one of them
is answered. -/
inductive Queried (config : Config) (s : State) (index : ℕ) (op after : Operation) : ℕ → ℕ → ℕ → Event → Prop
  | made {asking : ℕ} (hqueries : queries config op = true) (hconnections : after.connections = op.connections) :
      Queried config s index op after asking 0 s.clock (.proceed index)
  | connected {asking busy ticket : ℕ} (hstage : op.stage = .querying (asking + 1) busy ticket) :
      Queried config s index op after asking (busy + 1) ticket (.grant index)
  | answered {asking busy ticket : ℕ} (hstage : op.stage = .querying asking (busy + 1) ticket)
      (hconnections : after.connections + 1 = op.connections) :
      Queried config s index op after asking busy ticket (.proceed index)

theorem queried_of_moved {asking busy : ℕ} (h : Moved config s index op e after)
    (hstage : after.stage = .querying asking busy ticket) :
    Queried config s index op after asking busy ticket e ∧ after.held = op.held := by
  rcases h with h | h | h | ⟨hbefore, -⟩ | ⟨hbefore, -⟩
  · cases nexts_of_next h with
    | queried hrunning hscript hpostgres =>
      simp only [Stage.querying.injEq] at hstage
      obtain ⟨rfl, rfl, rfl⟩ := hstage
      exact ⟨.made (by simp [queries, hrunning, hscript, hpostgres]) (by simp [Operation.connections, hrunning]), rfl⟩
    | answered hbefore =>
      simp only [Stage.querying.injEq] at hstage
      obtain ⟨rfl, rfl, rfl⟩ := hstage
      exact ⟨.answered hbefore (by simp [Operation.connections, hbefore]; omega), rfl⟩
    | reentered hrunning _ _ | skipped hrunning _ | left hrunning _ _ => simp [hrunning] at hstage
    | joined _ _ _ | resumed _ => simp at hstage
  · obtain ⟨hrunning, rfl⟩ := consulted_some h
    simp [hrunning] at hstage
  · obtain ⟨hrunning, rfl⟩ := abandoned_some h
    simp [hrunning] at hstage
  · rename_i point lock ticket'
    rcases point with _ | _ | _ | _
    · unfold Operation.granted at hstage
      split_ifs at hstage
    · simp [Operation.granted] at hstage
    · simp [Operation.granted] at hstage
    · simp [Operation.granted] at hstage
  · simp only [Stage.querying.injEq] at hstage
    obtain ⟨rfl, rfl, rfl⟩ := hstage
    exact ⟨.connected hbefore, rfl⟩

/-- An operation that waits for a connection after its move has asked for it just now, or before. -/
theorem ticket_of_moved (h : Moved config s index op e after) (hticket : after.connectionTicket = some ticket) :
    ticket = s.clock ∨ op.connectionTicket = some ticket := by
  rcases connectionTicket_iff.mp hticket with ⟨lock, hstage⟩ | ⟨asking, busy, hstage⟩
  · exact .inl (asks_of_moved h hstage).2.2
  · rcases (queried_of_moved h hstage).1 with _ | hbefore | ⟨hbefore, -⟩
    · exact .inl rfl
    · exact .inr (connectionTicket_iff.mpr (.inr ⟨_, _, hbefore⟩))
    · exact .inr (connectionTicket_iff.mpr (.inr ⟨_, _, hbefore⟩))

theorem moved_process (h : Moved config s index op e after) : after.process = op.process := by
  rcases h with h | h | h | ⟨hbefore, -⟩ | ⟨hbefore, -⟩
  · cases nexts_of_next h <;> rfl
  · rw [(consulted_some h).2]
  · rw [(abandoned_some h).2]
  · rename_i point lock ticket
    rcases point with _ | _ | _ | _
    · unfold Operation.granted
      split_ifs <;> rfl
    · rfl
    · rfl
    · rfl
  · rfl

/-- Only a connection that is free is taken, and by the first that waits for one. -/
theorem moved_connections (h : Moved config s index op e after) : after.connections ≤ op.connections ∨
    (∃ ticket, op.connectionTicket = some ticket ∧ connectionFree config s op ticket = true ∧
      after.connections = op.connections + 1) ∨ config.postgres = false := by
  rcases h with h | h | h | ⟨hbefore, hgrant⟩ | ⟨hbefore, hfree⟩
  · left
    cases nexts_of_next h with
    | left hrunning _ hheld => simp [Operation.connections, hrunning, hheld, List.countP_cons]
    | reentered hstage _ _ | joined hstage _ _ | queried hstage _ _ => simp [Operation.connections, hstage]
    | skipped hstage _ | answered hstage | resumed hstage => simp [Operation.connections, hstage]
  · obtain ⟨hrunning, rfl⟩ := consulted_some h
    simp [Operation.connections, hrunning]
  · obtain ⟨hrunning, rfl⟩ := abandoned_some h
    simp [Operation.connections, hrunning]
  · rename_i point lock ticket
    rcases point with _ | _ | _ | _
    · by_cases hpostgres : config.postgres = true
      · left
        simp [Operation.granted, Operation.connections, hpostgres, hbefore]
      · exact .inr (.inr (by simpa using hpostgres))
    · refine .inr (.inl ⟨ticket, connectionTicket_iff.mpr (.inl ⟨lock, hbefore⟩), hgrant, ?_⟩)
      simp [Operation.granted, Operation.connections, hbefore]
    · left
      simp [Operation.granted, Operation.connections, hbefore]
    · left
      simp [Operation.granted, Operation.connections, hbefore]
  · rename_i asking busy ticket
    refine .inr (.inl ⟨ticket, connectionTicket_iff.mpr (.inr ⟨asking, busy, hbefore⟩), hfree, ?_⟩)
    simp [Operation.connections, hbefore, Nat.add_assoc]

/-! ### What holds of the operations in every run -/

theorem mem_put (h : other ∈ (s.put index after).operations) : other = after ∨ other ∈ s.operations :=
  (List.mem_or_eq_of_mem_set h).symm

theorem legal_moved (h : Moved config s index op e after) (hlegal : Legal op) : Legal after := by
  rcases h with h | h | h | ⟨hstage, -⟩ | ⟨hstage, -⟩
  · exact legal_next hlegal h
  · exact legal_consulted hlegal h
  · exact legal_abandoned hlegal h
  · exact legal_granted hlegal hstage
  · exact ⟨hlegal.handler, by simp, fun _ _ _ _ => hlegal.querying _ _ _ hstage, by simp⟩

theorem ordered_empty : Ordered config .empty := by
  constructor <;> simp [State.empty, State.used]

theorem sum_set {α : Type*} {f : α → ℕ} {a b : α} : ∀ {l : List α} {k : ℕ}, l[k]? = some a →
    ((l.set k b).map f).sum + f a = (l.map f).sum + f b
  | [], k, h => by simp at h
  | c :: l, 0, h => by
    simp only [List.getElem?_cons_zero, Option.some.injEq] at h
    subst h
    simp only [List.set_cons_zero, List.map_cons, List.sum_cons]
    omega
  | c :: l, k + 1, h => by
    have := sum_set (l := l) (f := f) (b := b) (by simpa using h)
    simp only [List.set_cons_succ, List.map_cons, List.sum_cons]
    omega

/-- A move changes the connections of one process by those of the operation. -/
theorem used_put (hop : s.operations[index]? = some op) (hprocess : after.process = op.process) (process : ℕ) :
    (s.put index after).used process + (if op.process = process then op.connections else 0) =
      s.used process + if op.process = process then after.connections else 0 := by
  have hsum := sum_set (f := fun op : Operation => if op.process = process then op.connections else 0) (b := after) hop
  simp only [hprocess] at hsum
  exact hsum

theorem used_put_le (hop : s.operations[index]? = some op) (hprocess : after.process = op.process) (process : ℕ)
    (h : op.process = process → after.connections ≤ op.connections) : (s.put index after).used process ≤ s.used process := by
  have hused := used_put hop hprocess process
  split_ifs at hused with heq
  · have := h heq
    omega
  · omega

theorem pool_moved (hs : Ordered config s) (hop : s.operations[index]? = some op)
    (hmoved : Moved config s index op e after) (hpostgres : config.postgres = true) (process : ℕ) :
    (s.put index after).used process ≤ config.poolMax := by
  have hbefore := hs.pool hpostgres process
  have hused := used_put hop (moved_process hmoved) process
  split_ifs at hused with heq
  · rcases moved_connections hmoved with hle | ⟨ticket, -, hfree, hone⟩ | hnot
    · omega
    · have hspare := (connectionFree_iff.mp hfree).1
      rw [heq] at hspare
      omega
    · simp [hpostgres] at hnot
  · omega

theorem ordered_step (hs : Ordered config s) (h : Change config s e t) : Ordered config t := by
  rcases h with _ | ⟨hop, hmoved⟩ | hidle | ⟨hwaiting, -⟩ | _
  · rename_i process operation
    refine ⟨?_, ?_, ?_, ?_, ?_, fun ticket hticket => ?_, fun hpostgres p => ?_⟩
    · intro op hmem
      rcases List.mem_append.mp hmem with hmem | hmem
      · exact hs.legal op hmem
      · rw [List.mem_singleton.mp hmem]
        exact legal_start process operation
    · intro op hmem point lock ticket hstage
      rcases List.mem_append.mp hmem with hmem | hmem
      · exact hs.process op hmem point lock ticket hstage
      · rw [List.mem_singleton.mp hmem] at hstage
        simp at hstage
    · intro op hmem asking busy ticket hstage
      rcases List.mem_append.mp hmem with hmem | hmem
      · exact hs.querying op hmem asking busy ticket hstage
      · rw [List.mem_singleton.mp hmem] at hstage
        simp at hstage
    · intro op hmem point lock ticket hstage
      rcases List.mem_append.mp hmem with hmem | hmem
      · exact Nat.lt_succ_of_lt (hs.tickets op hmem point lock ticket hstage)
      · rw [List.mem_singleton.mp hmem] at hstage
        simp at hstage
    · intro op hmem ticket hticket
      rcases List.mem_append.mp hmem with hmem | hmem
      · exact Nat.lt_succ_of_lt (hs.connections op hmem ticket hticket)
      · rw [List.mem_singleton.mp hmem] at hticket
        simp [Operation.connectionTicket] at hticket
    · exact Nat.lt_succ_of_lt (hs.backup ticket hticket)
    · have hpool := hs.pool hpostgres p
      simpa [State.used, Operation.connections] using hpool
  · rename_i index op after
    have hmem := List.mem_of_getElem? hop
    refine ⟨?_, ?_, ?_, ?_, ?_, fun ticket hticket => ?_, pool_moved hs hop hmoved⟩
    · intro other hother
      rcases mem_put hother with rfl | hother
      · exact legal_moved hmoved (hs.legal op hmem)
      · exact hs.legal other hother
    · intro other hother point lock ticket hstage
      rcases mem_put hother with rfl | hother
      · obtain ⟨hasks, -, -⟩ := asks_of_moved hmoved hstage
        rcases hasks with _ | ⟨-, hpostgres⟩ | hbefore | hbefore
        · exact .inl rfl
        · exact .inr hpostgres
        · exact .inr ((hs.process op hmem _ _ _ hbefore).resolve_left (by simp))
        · exact .inr ((hs.process op hmem _ _ _ hbefore).resolve_left (by simp))
      · exact hs.process other hother point lock ticket hstage
    · intro other hother asking busy ticket hstage
      rcases mem_put hother with rfl | hother
      · rcases (queried_of_moved hmoved hstage).1 with ⟨hqueries, -⟩ | hbefore | ⟨hbefore, -⟩
        · exact postgres_of_queries hqueries
        · exact hs.querying op hmem _ _ _ hbefore
        · exact hs.querying op hmem _ _ _ hbefore
      · exact hs.querying other hother asking busy ticket hstage
    · intro other hother point lock ticket hstage
      rcases mem_put hother with rfl | hother
      · obtain ⟨-, -, rfl⟩ := asks_of_moved hmoved hstage
        exact Nat.lt_succ_self _
      · exact Nat.lt_succ_of_lt (hs.tickets other hother point lock ticket hstage)
    · intro other hother ticket hticket
      rcases mem_put hother with rfl | hother
      · rcases ticket_of_moved hmoved hticket with rfl | hbefore
        · exact Nat.lt_succ_self _
        · exact Nat.lt_succ_of_lt (hs.connections op hmem ticket hbefore)
      · exact Nat.lt_succ_of_lt (hs.connections other hother ticket hticket)
    · exact Nat.lt_succ_of_lt (hs.backup ticket hticket)
  · refine ⟨hs.legal, hs.process, hs.querying, ?_, ?_, ?_, hs.pool⟩
    · intro op hmem point lock ticket hstage
      exact Nat.lt_succ_of_lt (hs.tickets op hmem point lock ticket hstage)
    · intro op hmem ticket hticket
      exact Nat.lt_succ_of_lt (hs.connections op hmem ticket hticket)
    · intro ticket hticket
      simp only [Backup.waiting.injEq] at hticket
      simp only
      omega
  · exact ⟨hs.legal, hs.process, hs.querying, hs.tickets, hs.connections, by simp, hs.pool⟩
  · exact ⟨hs.legal, hs.process, hs.querying, hs.tickets, hs.connections, by simp, hs.pool⟩

/-! ### Calm runs -/

/-- A move does not make an acquisition needed, except that of the lock whose queue it joins. -/
theorem needed_of_put (hmoved : Moved config s index op e after)
    (h : needed (s.put index after) other lock = true) :
    needed s other lock = true ∨ (joins op = some lock ∧ op.held ≠ [] ∧ op.process = other.process ∧
      e = .proceed index) := by
  rcases needed_iff.mp h with hheld | ⟨x, hx, hprocess, hheld, ticket, hstage⟩
  · exact .inl (needed_iff.mpr (.inl hheld))
  · rcases mem_put hx with rfl | hx
    · obtain ⟨hasks, hsame, -⟩ := asks_of_moved hmoved hstage
      rcases hasks with ⟨hjoins⟩
      rw [hsame] at hheld
      exact .inr ⟨hjoins, hheld, (moved_process hmoved).symm.trans hprocess, rfl⟩
    · exact .inl (needed_iff.mpr (.inr ⟨x, hx, hprocess, hheld, ticket, hstage⟩))

/-- The operation that joins a queue does not make an acquisition needed that waits for something scarce. -/
theorem needed_before (hop : s.operations[index]? = some op) (hmoved : Moved config s index op e after)
    (hclear : clear config s e = true) (hmem : other ∈ s.operations)
    (hstage : other.stage = .waiting .connection lock ticket ∨ other.stage = .waiting .barrier lock ticket)
    (h : needed (s.put index after) other lock = true) : needed s other lock = true := by
  rcases needed_of_put hmoved h with hneeded | ⟨hjoins, hheld, hprocess, rfl⟩
  · exact hneeded
  · exfalso
    simp only [clear, hop, Option.all_some, hjoins, Bool.or_eq_true, decide_eq_true_eq, List.all_eq_true,
      Bool.and_eq_true] at hclear
    rcases (hclear.resolve_left hheld).1 other hmem with hne | ⟨hconnection, hbarrier⟩
    · exact hne hprocess.symm
    · rcases hstage with hstage | hstage
      · simp [waitsAt_iff.mpr hstage] at hconnection
      · simp [waitsAt_iff.mpr hstage] at hbarrier

theorem get_put (hop : s.operations[index]? = some op) {i : ℕ} (h : (s.put index after).operations[i]? = some other) :
    (i = index ∧ other = after) ∨ (i ≠ index ∧ s.operations[i]? = some other) := by
  have hlt : index < s.operations.length := (List.getElem?_eq_some_iff.mp hop).1
  simp only [State.put] at h
  by_cases hi : index = i
  · subst hi
    simp only [List.getElem?_set_self hlt, Option.some.injEq] at h
    exact .inl ⟨rfl, h.symm⟩
  · rw [List.getElem?_set_ne hi] at h
    exact .inr ⟨fun heq => hi heq.symm, h⟩

theorem needed_self (hmoved : Moved config s index op e after) (hheld : after.held = op.held) (hjoins : joins op = none)
    (h : needed (s.put index after) after lock = true) : needed s op lock = true := by
  rcases needed_of_put hmoved h with hneeded | ⟨hjoined, -⟩
  · simpa [needed, hheld, moved_process hmoved] using hneeded
  · simp [hjoins] at hjoined

theorem joins_none (h : op.stage ≠ .running) : joins op = none := by
  unfold joins
  split
  · exact absurd (by assumption) h
  · rfl

/-- The request for a connection that is pressing after the move of its operation: it has been made just now with a
connection to spare, or the operation is at its queries as it was before. -/
theorem pressing_moved (hop : s.operations[index]? = some op) (hmoved : Moved config s index op e after)
    (hclear : clear config s e = true) (h : Pressing (s.put index after) after ticket) :
    (spare config s op = true ∧ after.connections ≤ op.connections ∧ ticket = s.clock) ∨
      (Pressing s op ticket ∧ (0 < busy after ∨ after.connections + 1 = op.connections)) := by
  cases h with
  | @acquisition lock _ hstage hneeded =>
    left
    obtain ⟨hasks, hheld, rfl⟩ := asks_of_moved hmoved hstage
    rcases hasks with _ | ⟨hbefore, hpostgres⟩ | _ | _
    have hneeded' := needed_self hmoved hheld (joins_none (by simp [hbefore])) hneeded
    simp only [clear, hop, Option.all_some, hbefore, hpostgres, hneeded', Bool.not_true, Bool.false_or] at hclear
    refine ⟨hclear, ?_, rfl⟩
    rcases moved_connections hmoved with hle | ⟨ticket', hwaits, -⟩ | hnot
    · exact hle
    · simp [Operation.connectionTicket, hbefore] at hwaits
    · simp [hpostgres] at hnot
  | @queries asking busy' _ hstage hheld =>
    obtain ⟨hqueried, hsame⟩ := queried_of_moved hmoved hstage
    rw [hsame] at hheld
    cases hqueried with
    | made hqueries hconnections =>
      left
      simp only [clear, hop, Option.all_some, hqueries, Bool.not_true, Bool.false_or, Bool.or_eq_true,
        decide_eq_true_eq, Bool.and_eq_true] at hclear
      exact ⟨(hclear.resolve_left hheld).2, hconnections.le, rfl⟩
    | connected hbefore => exact .inr ⟨.queries hbefore hheld, .inl (by simp [busy, hstage])⟩
    | answered hbefore hconnections => exact .inr ⟨.queries hbefore hheld, .inr hconnections⟩

/-- A request that is pressing after the move of another operation was so before. -/
theorem pressing_before (hop : s.operations[index]? = some op) (hmoved : Moved config s index op e after)
    (hclear : clear config s e = true) (hmem : other ∈ s.operations) (h : Pressing (s.put index after) other ticket) :
    Pressing s other ticket := by
  cases h with
  | acquisition hstage hneeded => exact .acquisition hstage (needed_before hop hmoved hclear hmem (.inl hstage) hneeded)
  | queries hstage hheld => exact .queries hstage hheld

theorem postgres_of_pressing (hs : Ordered config s) (hmem : op ∈ s.operations) (h : Pressing s op ticket) :
    config.postgres = true := by
  cases h with
  | acquisition hstage => exact (hs.process op hmem _ _ _ hstage).resolve_left (by simp)
  | queries hstage => exact hs.querying op hmem _ _ _ hstage

/-- The next connection is still for the operation that has moved. -/
theorem first_self (hordered : Ordered config s) (hs : Calm config s) (hop : s.operations[index]? = some op)
    (hmoved : Moved config s index op e after) (hclear : clear config s e = true)
    (hpressing : Pressing (s.put index after) after ticket) :
    NextFor config (s.put index after) index after ticket := by
  have hprocess := moved_process hmoved
  have hothers : ∀ (j : ℕ) (other : Operation), j ≠ index → (s.put index after).operations[j]? = some other →
      s.operations[j]? = some other := by
    intro j other hj hother
    exact ((get_put hop hother).resolve_left fun h => hj h.1).2
  unfold NextFor
  rw [hprocess]
  rcases pressing_moved hop hmoved hclear hpressing with ⟨hspare, hle, rfl⟩ | ⟨hbefore, hbusy⟩
  · obtain ⟨hfree, hnobody⟩ := spare_iff.mp hspare
    refine ⟨.inl ((used_put_le hop hprocess _ fun _ => hle).trans_lt hfree), fun j other ticket' hj hother hsame hticket => ?_⟩
    simp [hnobody other (List.mem_of_getElem? (hothers j other hj hother)) hsame] at hticket
  · obtain ⟨-, hfirst⟩ := hs.connection index op ticket hop hbefore
    refine ⟨?_, fun j other ticket' hj hother => hfirst j other ticket' hj (hothers j other hj hother)⟩
    rcases hbusy with hbusy | hanswered
    · exact .inr hbusy
    · -- the answered query has given its connection back
      left
      have hpostgres := postgres_of_pressing hordered (List.mem_of_getElem? hop) hbefore
      have hpool := hordered.pool hpostgres op.process
      have hused := used_put hop hprocess op.process
      simp only [if_true] at hused
      omega

/-- The next connection is still for an operation that waits for it while another one moves. -/
theorem first_other (hordered : Ordered config s) (hs : Calm config s) (hop : s.operations[index]? = some op)
    (hmoved : Moved config s index op e after) {i : ℕ} (hi : i ≠ index) (hother : s.operations[i]? = some other)
    (hpressing : Pressing s other ticket) :
    NextFor config (s.put index after) i other ticket := by
  have hprocess := moved_process hmoved
  have hmem := List.mem_of_getElem? hother
  obtain ⟨hfree, hfirst⟩ := hs.connection i other ticket hother hpressing
  constructor
  · refine hfree.imp_left fun hfree => (used_put_le hop hprocess other.process fun hsame => ?_).trans_lt hfree
    rcases moved_connections hmoved with hle | ⟨ticket', hwaits, hgrant, -⟩ | hnot
    · exact hle
    · -- the connection would have gone to the pressing request
      exfalso
      have hlater := hfirst index op ticket' hi.symm hop hsame hwaits
      have hearlier := (connectionFree_iff.mp hgrant).2 other hmem hsame.symm ticket hpressing.connectionTicket
      omega
    · simp [postgres_of_pressing hordered hmem hpressing] at hnot
  · intro j x ticket' hj hx hsame hticket
    rcases get_put hop hx with ⟨rfl, rfl⟩ | ⟨-, hx⟩
    · rcases ticket_of_moved hmoved hticket with rfl | hbefore
      · exact hordered.connections other hmem ticket hpressing.connectionTicket
      · exact hfirst j op ticket' hj hop (hprocess.symm.trans hsame) hbefore
    · exact hfirst j x ticket' hj hx hsame hticket

theorem calm_moved (hordered : Ordered config s) (hs : Calm config s) (hop : s.operations[index]? = some op)
    (hmoved : Moved config s index op e after) (hclear : clear config s e = true) : Calm config (s.put index after) := by
  constructor
  · intro i x ticket hx hpressing
    rcases get_put hop hx with ⟨rfl, rfl⟩ | ⟨hi, hx⟩
    · exact first_self hordered hs hop hmoved hclear hpressing
    · exact first_other hordered hs hop hmoved hi hx
        (pressing_before hop hmoved hclear (List.mem_of_getElem? hx) hpressing)
  · intro x lock ticket hx hstage hneeded
    rcases mem_put hx with rfl | hx
    · obtain ⟨hasks, hheld, rfl⟩ := asks_of_moved hmoved hstage
      rcases hasks with _ | _ | hbefore | _
      have hneeded' := needed_self hmoved hheld (joins_none (by simp [hbefore])) hneeded
      simp only [clear, hop, Option.all_some, hbefore, hneeded', Bool.not_true, Bool.false_or, decide_eq_true_eq] at hclear
      simp [State.put, hclear]
    · exact hs.barrier x lock ticket hx hstage (needed_before hop hmoved hclear hx (.inr hstage) hneeded)

theorem calm_empty : Calm config .empty := by
  constructor <;> simp [State.empty]

theorem connection_same (hs : Calm config s) (hsame : t.operations = s.operations) (i : ℕ) (op : Operation)
    (ticket : ℕ) : t.operations[i]? = some op → Pressing t op ticket → NextFor config t i op ticket := by
  intro hop hpressing
  have hbefore : Pressing s op ticket := by
    cases hpressing with
    | acquisition hstage hneeded => exact .acquisition hstage (by simpa [needed, hsame] using hneeded)
    | queries hstage hheld => exact .queries hstage hheld
  have hfirst := hs.connection i op ticket (by rwa [← hsame]) hbefore
  simpa [NextFor, State.used, hsame] using hfirst

theorem calm_step (hordered : Ordered config s) (hs : Calm config s) (h : Change config s e t)
    (hclear : clear config s e = true) : Calm config t := by
  rcases h with _ | ⟨hop, hmoved⟩ | hidle | ⟨hwaiting, hfirst⟩ | _
  · rename_i process operation
    let new : Operation := ⟨process, [], .running, operation.script.body, operation.script.handler⟩
    have hneeded : ∀ {x : Operation} {lock : Lock},
        needed ⟨s.operations ++ [new], s.backup, s.clock + 1⟩ x lock = true → needed s x lock = true := by
      intro x lock hx
      rcases needed_iff.mp hx with hheld | ⟨y, hy, hprocess, hheld, ticket, hstage⟩
      · exact needed_iff.mpr (.inl hheld)
      · rcases List.mem_append.mp hy with hy | hy
        · exact needed_iff.mpr (.inr ⟨y, hy, hprocess, hheld, ticket, hstage⟩)
        · rw [List.mem_singleton.mp hy] at hheld
          exact absurd rfl hheld
    have hget : ∀ {i : ℕ} {x : Operation}, (s.operations ++ [new])[i]? = some x → x = new ∨ s.operations[i]? = some x := by
      intro i x hx
      rcases Nat.lt_or_ge i s.operations.length with hi | hi
      · rw [List.getElem?_append_left hi] at hx
        exact .inr hx
      · rw [List.getElem?_append_right hi] at hx
        exact .inl (List.mem_singleton.mp (List.mem_of_getElem? hx))
    have hused : ∀ p, State.used ⟨s.operations ++ [new], s.backup, s.clock + 1⟩ p = s.used p := by
      intro p
      simp [State.used, new, Operation.connections]
    constructor
    · intro i x ticket hx hpressing
      rcases hget hx with rfl | hx
      · have hticket := hpressing.connectionTicket
        simp [new, Operation.connectionTicket] at hticket
      · have hpressing' : Pressing s x ticket := by
          cases hpressing with
          | acquisition hstage hx' => exact .acquisition hstage (hneeded hx')
          | queries hstage hheld => exact .queries hstage hheld
        obtain ⟨hfree, hlater⟩ := hs.connection i x ticket hx hpressing'
        refine ⟨by rw [hused]; exact hfree, fun j y ticket' hji hy hsame hticket => ?_⟩
        rcases hget hy with rfl | hy
        · simp [new, Operation.connectionTicket] at hticket
        · exact hlater j y ticket' hji hy hsame hticket
    · intro x lock ticket hx hstage hx'
      rcases List.mem_append.mp hx with hx | hx
      · exact hs.barrier x lock ticket hx hstage (hneeded hx')
      · rw [List.mem_singleton.mp hx] at hstage
        simp at hstage
  · exact calm_moved hordered hs hop hmoved hclear
  · refine ⟨connection_same hs rfl, fun x lock ticket hx hstage _ => ⟨by simp, fun ticket' hticket' => ?_⟩⟩
    have := hordered.tickets x hx _ _ _ hstage
    simp only [Backup.waiting.injEq] at hticket'
    omega
  · rename_i exclusive
    refine ⟨connection_same hs rfl, fun x lock ticket hx hstage hneeded => ?_⟩
    have hlater := (hs.barrier x lock ticket hx hstage hneeded).2 exclusive hwaiting
    have hbefore := notBefore_iff.mp (hfirst x hx) lock ticket hstage
    omega
  · exact ⟨connection_same hs rfl, fun x lock ticket hx hstage hneeded => ⟨by simp, by simp⟩⟩

/-- In process mode nothing waits for a connection or for the barrier, and no body queries the pool. -/
theorem clear_of_process (hs : Ordered config s) (hprocess : config.postgres = false) (e : Event) :
    clear config s e = true := by
  have hturn : ∀ op ∈ s.operations, ∀ point, point ≠ .turn → op.waitsAt point = none := by
    intro op hmem point hpoint
    refine waitsAt_none fun lock ticket hstage => ?_
    rcases hs.process op hmem point lock ticket hstage with hturn | hpostgres
    · exact hpoint hturn
    · simp [hprocess] at hpostgres
  rcases e with _ | index | _ | _ | index | _ | _ | _
  · rfl
  · rcases hop : s.operations[index]? with _ | op
    · simp [clear, hop]
    · have hqueries : queries config op = false := by
        rcases hqueries : queries config op
        · rfl
        · simp [postgres_of_queries hqueries] at hprocess
      rcases hjoins : joins op with _ | lock
      · simp [clear, hop, hjoins, hqueries]
      · simp only [clear, hop, hjoins, hqueries, Option.all_some, Bool.or_eq_true, Bool.and_eq_true, List.all_eq_true,
          Bool.not_false, Bool.true_or, and_true]
        refine .inr fun other hother => .inr ?_
        rw [hturn other hother _ (by simp), hturn other hother _ (by simp)]
        exact ⟨rfl, rfl⟩
  · rfl
  · rfl
  · rcases hop : s.operations[index]? with _ | op
    · simp [clear, hop]
    · have hmem := List.mem_of_getElem? hop
      rcases hstage : op.stage with _ | ⟨_ | _ | _ | _, lock, ticket⟩ | ⟨asking, busy, ticket⟩
      · simp [clear, hop, hstage]
      · simp [clear, hop, hstage, hprocess]
      · have hnone := hturn op hmem .connection (by simp)
        simp [waitsAt_iff.mpr hstage] at hnone
      · simp [clear, hop, hstage]
      · simp [clear, hop, hstage]
      · simp [clear, hop, hstage]
  · rfl
  · rfl
  · rfl

theorem calm_run (h : Run (fun s e t => Step config s e t ∧ (config.postgres = true → clear config s e = true)) .empty es s) :
    Ordered config s ∧ Calm config s := by
  refine h.invariant (I := fun s => Ordered config s ∧ Calm config s) (fun s e _ ⟨hordered, hcalm⟩ ⟨hstep, hclear⟩ => ?_)
    ⟨ordered_empty, calm_empty⟩
  have hchange := change_of_step hstep
  refine ⟨ordered_step hordered hchange, calm_step hordered hcalm hchange ?_⟩
  cases hpostgres : config.postgres with
  | true => exact hclear hpostgres
  | false => exact clear_of_process hordered hpostgres e

/-- While in PostgreSQL mode no needed acquisition and no query under a lock meets an exhausted pool, and no needed
acquisition a backup, the operations of the store never all wait; in process mode they never do. -/
theorem store_operations_go_on
    (h : Run (fun s e t => Step config s e t ∧ (config.postgres = true → clear config s e = true)) .empty es s) :
    ¬ Deadlocked config s := by
  obtain ⟨hordered, hcalm⟩ := calm_run h
  exact not_deadlocked hordered hcalm

/-! ### Runs -/

/-- The default of `OWNMINUTES_POSTGRES_POOL_MAX`, and its least value. -/
def tenConnections : Config := ⟨true, 10, by decide⟩

def oneConnection : Config := ⟨true, 1, by decide⟩

/-- The requests of an acquisition, from its turn to its key. -/
def acquire (index : ℕ) : List Event := List.replicate 4 (.grant index)

/-- A query of the pool, from its command to the one after it. -/
def answer (index : ℕ) : List Event := [.proceed index, .grant index, .proceed index, .proceed index]

/-- A chunk is saved while a backup waits for it, and another one after the backup. -/
def savedEvents : List Event :=
  .start 0 (.saveMeetingAudioChunk "u" "m") :: .proceed 0 :: (acquire 0 ++ .consult 0 1 :: (answer 0 ++
    .proceed 0 :: (acquire 0 ++ (answer 0 ++ [.requestBackup, .proceed 0, .proceed 0,
      .start 0 (.saveMeetingAudioChunk "u" "n"), .proceed 1, .grant 1, .grant 1, .takeBackup]))))

theorem store_operations_go_on_saved :
    ∃ s, Run (fun s e t => Step tenConnections s e t ∧ (tenConnections.postgres = true →
      clear tenConnections s e = true)) .empty savedEvents s ∧ ¬ Deadlocked tenConnections s := by
  have haccepted : (savedEvents.foldlM
      (fun s e => if clear tenConnections s e then step tenConnections s e else none) .empty).isSome = true := by
    decide +kernel
  obtain ⟨s, hrun⟩ := Run.exists_of_isSome haccepted
  have hclear : Run (fun s e t => Step tenConnections s e t ∧ (tenConnections.postgres = true →
      clear tenConnections s e = true)) .empty savedEvents s := by
    refine hrun.mono fun a e b hstep => ?_
    split_ifs at hstep with hclear
    exact ⟨hstep, fun _ => hclear⟩
  exact ⟨s, hclear, store_operations_go_on hclear⟩

/-- A backup asks for the barrier while a chunk is saved, between the user and the meeting. -/
def backupEvents : List Event :=
  .start 0 (.saveMeetingAudioChunk "u" "m") :: .proceed 0 :: (acquire 0 ++ [.requestBackup, .proceed 0, .grant 0, .grant 0])

/-- A chunk is saved with one connection for two locks. -/
def exhaustedEvents : List Event :=
  .start 0 (.saveMeetingAudioChunk "u" "m") :: .proceed 0 :: (acquire 0 ++ [.proceed 0, .grant 0])

/-- A meeting is edited with one connection, which its lock has, and the fence asks for one. -/
def fencedEvents : List Event := .start 0 (.enqueueMeetingWrite "m") :: .proceed 0 :: (acquire 0 ++ [.proceed 0])

def stuck (config : Config) (s : State) : Bool :=
  (s.operations.any fun op => !op.finished) &&
    ((List.range s.operations.length).all fun index =>
      (step config s (.proceed index)).isNone && (step config s (.grant index)).isNone) &&
    (step config s .takeBackup).isNone && (step config s .releaseBackup).isNone

theorem deadlocked_of_stuck (h : stuck config s = true) : Deadlocked config s := by
  simp only [stuck, Bool.and_eq_true, List.any_eq_true, Bool.not_eq_true', List.all_eq_true, List.mem_range,
    Option.isNone_iff_eq_none] at h
  obtain ⟨⟨⟨hunfinished, hoperations⟩, htake⟩, hrelease⟩ := h
  refine ⟨hunfinished, fun index => ?_, htake, hrelease⟩
  by_cases hindex : index < s.operations.length
  · exact hoperations index hindex
  · have hnone : s.operations[index]? = none := List.getElem?_eq_none (by omega)
    simp [step, hnone]

theorem store_operations_deadlock :
    (∃ s, Run (Step tenConnections) .empty backupEvents s ∧ Deadlocked tenConnections s) ∧
      (∃ s, Run (Step oneConnection) .empty exhaustedEvents s ∧ Deadlocked oneConnection s) ∧
      ∃ s, Run (Step oneConnection) .empty fencedEvents s ∧ Deadlocked oneConnection s := by
  have hstuck : ∀ (config : Config) (events : List Event), (∃ s ∈ events.foldlM (step config) .empty, stuck config s = true) →
      ∃ s, Run (Step config) .empty events s ∧ Deadlocked config s := by
    rintro config events ⟨s, hs, hstuck⟩
    exact ⟨s, Run.of_foldlM hs, deadlocked_of_stuck hstuck⟩
  exact ⟨hstuck _ _ (by decide +kernel), hstuck _ _ (by decide +kernel), hstuck _ _ (by decide +kernel)⟩

end OwnMinutes.Locks.LockRuns
