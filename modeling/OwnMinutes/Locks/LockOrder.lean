import OwnMinutes.Locks.AdvisoryLocks

/-! # The order of the locks

Every operation of the meeting store takes a user before a meeting and holds nothing else with an upload
(`nests_script`), so the lock that an operation waits for is above what it holds (`Legal`). -/

namespace OwnMinutes.Locks.LockOrder

open OwnMinutes.Auth.Records OwnMinutes.Locks.AdvisoryLocks

variable {config : Config} {op after : Operation} {lock : Lock} {held : List Lock} {body rest : List Command}

def rank : Lock → ℕ
  | .user _ => 0
  | .meeting _ => 1
  | .upload _ _ => 2

theorem rank_le (lock : Lock) : rank lock ≤ 2 := by
  rcases lock with _ | _ | _ <;> simp [rank]

/-- A script that begins with some locks held takes locks of a higher rank only, or a meeting again, and leaves
each. -/
def Nests : List Lock → List Command → Prop
  | held, [] => held = []
  | held, .enter lock :: script =>
    ((∃ meetingId, lock = .meeting meetingId ∧ lock ∈ held) ∨ ∀ other ∈ held, rank other < rank lock) ∧
      Nests (lock :: held) script
  | held, .query _ :: script => Nests held script
  | held, .leave :: script => held ≠ [] ∧ Nests held.tail script

/-- Commands that leave the locks as they are. -/
def Closed (held : List Lock) (body : List Command) : Prop :=
  ∀ rest, Nests held rest → Nests held (body ++ rest)

theorem closed_nil : Closed held [] := fun _ h => h

theorem closed_append {others : List Command} (h : Closed held body) (hothers : Closed held others) :
    Closed held (body ++ others) := by
  intro rest hrest
  rw [List.append_assoc]
  exact h _ (hothers _ hrest)

theorem closed_inside (hrank : ∀ other ∈ held, rank other < rank lock) (h : Closed (lock :: held) body) :
    Closed held (inside lock body) := by
  intro rest hrest
  simp only [inside, List.cons_append, List.append_assoc, Nests]
  exact ⟨.inr hrank, h _ ⟨by simp, hrest⟩⟩

theorem closed_query {count : ℕ} : Closed held [.query count] := fun _ h => h

theorem closed_flatMap {ids : List MeetingId} {f : MeetingId → List Command} (h : ∀ meetingId, Closed held (f meetingId)) :
    Closed held (ids.flatMap f) := by
  induction ids with
  | nil => exact closed_nil
  | cons meetingId ids ih =>
    rw [List.flatMap_cons]
    exact closed_append (h meetingId) ih

theorem closed_fenced (hrank : ∀ other ∈ held, rank other < 1) (meetingId : MeetingId) : Closed held (fenced meetingId) :=
  closed_inside hrank closed_query

theorem closed_fenced_user {userId : UserId} (meetingId : MeetingId) : Closed [.user userId] (fenced meetingId) :=
  closed_fenced (by simp [rank]) meetingId

theorem closed_alone : Closed [] (inside lock []) := closed_inside (by simp) closed_nil

theorem closed_userPhase {userId : UserId} {meetingId : MeetingId} : Closed [] (userPhase userId meetingId) :=
  closed_inside (by simp) (closed_fenced_user meetingId)

theorem nests_of_closed (h : Closed [] body) : Nests [] body := by
  have hnests := h [] rfl
  rwa [List.append_nil] at hnests

/-- The operations of the store nest their locks in one order. -/
theorem nests_script (operation : StoreOperation) :
    Nests [] operation.script.body ∧ Nests [] operation.script.handler := by
  have hfenced : ∀ meetingId, Closed [] (fenced meetingId) := closed_fenced (by simp)
  rcases operation with _ | _ | _ | ⟨userId, meetingId, uploadId, stale⟩ | ⟨userId, meetingId, uploadId⟩ | _ | _ | _ | _ |
    ⟨userId, meetingIds⟩
  · exact ⟨nests_of_closed closed_userPhase, rfl⟩
  · exact ⟨nests_of_closed closed_userPhase, rfl⟩
  · exact ⟨nests_of_closed closed_userPhase, rfl⟩
  · have hswept : Closed [.user userId] (stale.flatMap fenced ++ fenced meetingId) :=
      closed_append (closed_flatMap closed_fenced_user) (closed_fenced_user meetingId)
    have hfirst : Closed [] (inside (.user userId) _) := closed_inside (by simp) hswept
    exact ⟨nests_of_closed (closed_append (closed_append hfirst closed_alone) closed_userPhase),
      nests_of_closed (hfenced meetingId)⟩
  · have hphase : Closed [] (userPhase userId meetingId) := closed_userPhase
    exact ⟨nests_of_closed (closed_append (closed_append (closed_append (closed_append hphase closed_alone) hphase)
      hphase) hphase), nests_of_closed (hfenced meetingId)⟩
  · exact ⟨nests_of_closed (hfenced _), rfl⟩
  · exact ⟨nests_of_closed closed_alone, rfl⟩
  · exact ⟨nests_of_closed (hfenced _), rfl⟩
  · exact ⟨nests_of_closed (hfenced _), rfl⟩
  · exact ⟨nests_of_closed (closed_inside (by simp) (closed_flatMap closed_fenced_user)), rfl⟩

theorem nests_leaves (h : Nests [] rest) : ∀ held : List Lock, Nests held (List.replicate held.length .leave ++ rest)
  | [] => h
  | _ :: held => ⟨by simp, nests_leaves h held⟩

/-- An operation under way keeps to the order. -/
structure Legal (op : Operation) : Prop where
  handler : Nests [] op.handler
  running : op.stage = .running → Nests op.locks op.script
  querying : ∀ asking busy ticket, op.stage = .querying asking busy ticket → Nests op.locks op.script
  waiting : ∀ point lock ticket, op.stage = .waiting point lock ticket →
    (∀ other ∈ op.locks, rank other < rank lock) ∧ Nests (lock :: op.locks) op.script

theorem legal_start (process : ℕ) (operation : StoreOperation) :
    Legal ⟨process, [], .running, operation.script.body, operation.script.handler⟩ where
  handler := (nests_script operation).2
  running := fun _ => (nests_script operation).1
  querying := by simp
  waiting := by simp

/-- What the next command of an operation does, or the answer to one of its queries. -/
inductive Nexts (config : Config) (clock : ℕ) (op : Operation) : Operation → Prop
  | reentered {lock : Lock} {script : List Command} (hstage : op.stage = .running)
      (hscript : op.script = .enter lock :: script) (hreenters : op.reenters lock = true) :
      Nexts config clock op { op with held := ⟨lock, true⟩ :: op.held, script := script }
  | joined {lock : Lock} {script : List Command} (hstage : op.stage = .running)
      (hscript : op.script = .enter lock :: script) (hreenters : ¬ op.reenters lock = true) :
      Nexts config clock op { op with stage := .waiting .turn lock clock, script := script }
  | queried {count : ℕ} {script : List Command} (hstage : op.stage = .running)
      (hscript : op.script = .query count :: script) (hpostgres : config.postgres = true) :
      Nexts config clock op { op with stage := .querying count 0 clock, script := script }
  | skipped {count : ℕ} {script : List Command} (hstage : op.stage = .running)
      (hscript : op.script = .query count :: script) : Nexts config clock op { op with script := script }
  | left {frame : Frame} {frames : List Frame} {script : List Command} (hstage : op.stage = .running)
      (hscript : op.script = .leave :: script) (hheld : op.held = frame :: frames) :
      Nexts config clock op { op with held := frames, script := script }
  | answered {asking busy ticket : ℕ} (hstage : op.stage = .querying asking (busy + 1) ticket) :
      Nexts config clock op { op with stage := .querying asking busy ticket }
  | resumed {ticket : ℕ} (hstage : op.stage = .querying 0 0 ticket) : Nexts config clock op { op with stage := .running }

theorem nexts_of_next {clock : ℕ} (h : op.next config clock = some after) : Nexts config clock op after := by
  unfold Operation.next at h
  split at h
  · rename_i hstage hscript
    split_ifs at h with hreenters <;> cases h
    · exact .reentered hstage hscript hreenters
    · exact .joined hstage hscript hreenters
  · rename_i hstage hscript
    split_ifs at h with hpostgres <;> cases h
    · exact .queried hstage hscript hpostgres
    · exact .skipped hstage hscript
  · rename_i hstage hscript
    split at h
    · rename_i hheld
      cases h
      exact .left hstage hscript hheld
    · cases h
  · rename_i hstage
    cases h
    exact .answered hstage
  · rename_i hstage
    cases h
    exact .resumed hstage
  · cases h

theorem consulted_some {count : ℕ} (h : op.consulted count = some after) :
    op.stage = .running ∧ after = { op with script := .query count :: op.script } := by
  unfold Operation.consulted at h
  split at h
  · rename_i hstage _
    exact ⟨hstage, (Option.some.inj h).symm⟩
  · cases h

theorem abandoned_some {handled : Bool} (h : op.abandoned handled = some after) :
    op.stage = .running ∧ after = { op with
      script := List.replicate op.held.length .leave ++ (if handled then op.handler else [])
      handler := [] } := by
  unfold Operation.abandoned at h
  split at h
  · rename_i hstage _
    exact ⟨hstage, (Option.some.inj h).symm⟩
  · cases h

theorem legal_next {clock : ℕ} (h : Legal op) (hnext : op.next config clock = some after) : Legal after := by
  cases nexts_of_next hnext with
  | reentered hstage hscript _ =>
    have hnests := hscript ▸ h.running hstage
    exact ⟨h.handler, fun _ => hnests.2, by simp [hstage], by simp [hstage]⟩
  | joined hstage hscript hreenters =>
    obtain ⟨hlock, hrest⟩ := hscript ▸ h.running hstage
    refine ⟨h.handler, by simp, by simp, ?_⟩
    intro point lock' ticket hwaiting
    simp only [Stage.waiting.injEq] at hwaiting
    obtain ⟨-, rfl, -⟩ := hwaiting
    refine ⟨?_, hrest⟩
    rcases hlock with ⟨meetingId, rfl, hmem⟩ | hrank
    · simp [Operation.reenters, hmem] at hreenters
    · exact hrank
  | queried hstage hscript _ =>
    have hnests := hscript ▸ h.running hstage
    exact ⟨h.handler, by simp, fun _ _ _ _ => hnests, by simp⟩
  | skipped hstage hscript =>
    have hnests := hscript ▸ h.running hstage
    exact ⟨h.handler, fun _ => hnests, by simp [hstage], by simp [hstage]⟩
  | left hstage hscript hheld =>
    have hnests := hscript ▸ h.running hstage
    exact ⟨h.handler, fun _ => by simpa [Operation.locks, hheld] using hnests.2, by simp [hstage], by simp [hstage]⟩
  | answered hstage => exact ⟨h.handler, by simp, fun _ _ _ _ => h.querying _ _ _ hstage, by simp⟩
  | resumed hstage => exact ⟨h.handler, fun _ => h.querying _ _ _ hstage, by simp, by simp⟩

theorem legal_consulted {count : ℕ} (h : Legal op) (hconsulted : op.consulted count = some after) : Legal after := by
  obtain ⟨hstage, rfl⟩ := consulted_some hconsulted
  exact ⟨h.handler, fun _ => h.running hstage, by simp [hstage], by simp [hstage]⟩

theorem legal_abandoned {handled : Bool} (h : Legal op) (habandoned : op.abandoned handled = some after) : Legal after := by
  obtain ⟨hstage, rfl⟩ := abandoned_some habandoned
  refine ⟨rfl, fun _ => ?_, by simp [hstage], by simp [hstage]⟩
  have hrest : Nests [] (if handled then op.handler else []) := by
    split_ifs
    · exact h.handler
    · rfl
  have hleaves := nests_leaves hrest op.locks
  simpa [Operation.locks] using hleaves

theorem legal_granted {point : Point} {clock ticket : ℕ} (h : Legal op) (hstage : op.stage = .waiting point lock ticket) :
    Legal (op.granted config clock point lock) := by
  obtain ⟨hrank, hscript⟩ := h.waiting point lock ticket hstage
  have hasks : ∀ point', Legal { op with stage := .waiting point' lock clock } := by
    intro point'
    refine ⟨h.handler, by simp, by simp, ?_⟩
    intro _ _ _ heq
    simp only [Stage.waiting.injEq] at heq
    obtain ⟨-, rfl, -⟩ := heq
    exact ⟨hrank, hscript⟩
  have henters : Legal { op with held := ⟨lock, false⟩ :: op.held, stage := .running } :=
    ⟨h.handler, fun _ => hscript, by simp, by simp⟩
  rcases point with _ | _ | _ | _
  · unfold Operation.granted
    split_ifs
    · exact hasks _
    · exact henters
  · exact hasks _
  · exact hasks _
  · exact henters

end OwnMinutes.Locks.LockOrder
