import OwnMinutes.Lib.Once
import OwnMinutes.Lib.Runs

/-! # Purchase transactions of the mobile app

The coordinator of `iap-transaction-coordinator.ts`: every call of `run` verifies, applies and finishes its
transaction, and each of the three is one cell of the transaction's entry. A call runs up to its next `await`; the
callbacks and the handlers of their promises take their steps in any order between. -/

namespace OwnMinutes.Mobile.IapTransactions

open OwnMinutes.Lib OwnMinutes.Lib.Once

variable {Result : Type}

/-! ### The coordinator -/

/-- `hasVerifiedResult`, `verifiedResult` and `verifyPromise` are the cell `verified`; the callers are the calls of
`run` in order. -/
structure TransactionEntry (Result : Type) where
  verified : Cell ℕ Result := {}
  applied : Cell ℕ Unit := {}
  finished : Cell ℕ Unit := {}

inductive Position (Result : Type)
  | verifying (awaited : Awaited Result)
  | applying (result : Result) (awaited : Awaited Unit)
  | finishing (result : Result) (awaited : Awaited Unit)
  | returned (result : Result)
  | threw

/-- A call of `run`; `finishes` says whether its work has a `finish`. -/
structure Call (Result : Type) where
  transactionId : String
  finishes : Bool
  position : Position Result

structure Coordinator (Result : Type) where
  entries : String → Option (TransactionEntry Result)
  calls : List (Call Result)

def createIapTransactionCoordinator : Coordinator Result := ⟨fun _ => none, []⟩

def getOrCreateEntry (s : Coordinator Result) (transactionId : String) : TransactionEntry Result :=
  (s.entries transactionId).getD {}

def verifyOnce (entry : TransactionEntry Result) (caller : ℕ) : TransactionEntry Result × Awaited Result :=
  let entered := entry.verified.enter caller
  (⟨entered.1, entry.applied, entry.finished⟩, entered.2)

def applyOnce (entry : TransactionEntry Result) (caller : ℕ) : TransactionEntry Result × Awaited Unit :=
  let entered := entry.applied.enter caller
  (⟨entry.verified, entered.1, entry.finished⟩, entered.2)

def finishOnce (entry : TransactionEntry Result) (caller : ℕ) : TransactionEntry Result × Awaited Unit :=
  let entered := entry.finished.enter caller
  (⟨entry.verified, entry.applied, entered.1⟩, entered.2)

/-- A call of `run`, up to its first `await`. -/
def run (s : Coordinator Result) (transactionId : String) (finishes : Bool) : Coordinator Result :=
  let verified := verifyOnce (getOrCreateEntry s transactionId) s.calls.length
  ⟨Function.update s.entries transactionId (some verified.1),
    s.calls ++ [⟨transactionId, finishes, .verifying verified.2⟩]⟩

/-- A call from one `await` to the next. -/
def continued (entry : TransactionEntry Result) (caller : ℕ) (call : Call Result) :
    Option (TransactionEntry Result × Position Result) :=
  match call.position with
  | .verifying awaited =>
    (entry.verified.outcome awaited).map fun
      | none => (entry, .threw)
      | some result => ((applyOnce entry caller).1, .applying result (applyOnce entry caller).2)
  | .applying result awaited =>
    (entry.applied.outcome awaited).map fun
      | none => (entry, .threw)
      | some _ =>
        if call.finishes then ((finishOnce entry caller).1, .finishing result (finishOnce entry caller).2)
        else (entry, .returned result)
  | .finishing result awaited =>
    (entry.finished.outcome awaited).map fun
      | none => (entry, .threw)
      | some _ => (entry, .returned result)
  | .returned _ => none
  | .threw => none

def resume (s : Coordinator Result) (caller : ℕ) : Option (Coordinator Result) :=
  match s.calls[caller]? with
  | none => none
  | some call =>
    (continued (getOrCreateEntry s call.transactionId) caller call).map fun next =>
      ⟨Function.update s.entries call.transactionId (some next.1),
        s.calls.set caller ⟨call.transactionId, call.finishes, next.2⟩⟩

/-- A step of a callback or of a handler on its promise. -/
inductive Callback (Result : Type)
  | verify (index : ℕ) (event : Event Result)
  | apply (index : ℕ) (event : Event Unit)
  | finish (index : ℕ) (event : Event Unit)

def settled (entry : TransactionEntry Result) : Callback Result → Option (TransactionEntry Result)
  | .verify index event => (entry.verified.advance index event).map fun cell => ⟨cell, entry.applied, entry.finished⟩
  | .apply index event => (entry.applied.advance index event).map fun cell => ⟨entry.verified, cell, entry.finished⟩
  | .finish index event => (entry.finished.advance index event).map fun cell => ⟨entry.verified, entry.applied, cell⟩

def settle (s : Coordinator Result) (transactionId : String) (callback : Callback Result) :
    Option (Coordinator Result) :=
  (settled (getOrCreateEntry s transactionId) callback).map fun entry =>
    ⟨Function.update s.entries transactionId (some entry), s.calls⟩

inductive Action (Result : Type)
  | run (transactionId : String) (finishes : Bool)
  | resume (caller : ℕ)
  | settle (transactionId : String) (callback : Callback Result)

def step (s : Coordinator Result) : Action Result → Option (Coordinator Result)
  | .run transactionId finishes => some (run s transactionId finishes)
  | .resume caller => resume s caller
  | .settle transactionId callback => settle s transactionId callback

def Step (s : Coordinator Result) (action : Action Result) (t : Coordinator Result) : Prop :=
  step s action = some t

/-! ### One entry -/

/-- Each stage is tried only after a success of the stage before it. -/
structure Ordered (entry : TransactionEntry Result) : Prop where
  verified : Cell.Shape entry.verified
  applied : Cell.Shape entry.applied
  finished : Cell.Shape entry.finished
  apply_after : entry.applied.attempts ≠ [] → ∃ result, entry.verified.Succeeded result
  finish_after : entry.finished.attempts ≠ [] → entry.applied.Succeeded ()

/-- What an entry never loses. -/
structure Keeps (entry next : TransactionEntry Result) : Prop where
  verified_value : ∀ result, entry.verified.value = some result → next.verified.value = some result
  applied_value : ∀ u, entry.applied.value = some u → next.applied.value = some u
  finished_value : ∀ u, entry.finished.value = some u → next.finished.value = some u
  verified : ∀ result, entry.verified.Succeeded result → next.verified.Succeeded result
  applied : entry.applied.Succeeded () → next.applied.Succeeded ()
  finished : entry.finished.Succeeded () → next.finished.Succeeded ()

theorem Keeps.refl (entry : TransactionEntry Result) : Keeps entry entry :=
  ⟨fun _ h => h, fun _ h => h, fun _ h => h, fun _ h => h, id, id⟩

theorem ordered_new : Ordered ({} : TransactionEntry Result) where
  verified := Cell.shape_empty
  applied := Cell.shape_empty
  finished := Cell.shape_empty
  apply_after h := absurd rfl h
  finish_after h := absurd rfl h

variable {entry next : TransactionEntry Result}

theorem ordered_verifyOnce (h : Ordered entry) (caller : ℕ) :
    Ordered (verifyOnce entry caller).1 ∧ Keeps entry (verifyOnce entry caller).1 := by
  constructor
  · refine ⟨Cell.shape_enter h.verified caller, h.applied, h.finished, fun happlied => ?_, h.finish_after⟩
    obtain ⟨result, hresult⟩ := h.apply_after happlied
    exact ⟨result, hresult.enter caller⟩
  · refine ⟨fun result hvalue => ?_, fun _ h => h, fun _ h => h, fun _ hresult => hresult.enter caller, id, id⟩
    exact (Cell.enter_value entry.verified caller).trans hvalue

theorem ordered_applyOnce (h : Ordered entry) (caller : ℕ) {result : Result}
    (hverified : entry.verified.Succeeded result) :
    Ordered (applyOnce entry caller).1 ∧ Keeps entry (applyOnce entry caller).1 := by
  constructor
  · exact ⟨h.verified, Cell.shape_enter h.applied caller, h.finished, fun _ => ⟨result, hverified⟩,
      fun hfinished => (h.finish_after hfinished).enter caller⟩
  · refine ⟨fun _ h => h, fun u hvalue => ?_, fun _ h => h, fun _ h => h, fun hu => hu.enter caller, id⟩
    exact (Cell.enter_value entry.applied caller).trans hvalue

theorem ordered_finishOnce (h : Ordered entry) (caller : ℕ) (happlied : entry.applied.Succeeded ()) :
    Ordered (finishOnce entry caller).1 ∧ Keeps entry (finishOnce entry caller).1 := by
  constructor
  · exact ⟨h.verified, h.applied, Cell.shape_enter h.finished caller, h.apply_after, fun _ => happlied⟩
  · refine ⟨fun _ h => h, fun _ h => h, fun u hvalue => ?_, fun _ h => h, id, fun hu => hu.enter caller⟩
    exact (Cell.enter_value entry.finished caller).trans hvalue

theorem ne_nil_of_advance {α : Type} {cell after : Cell ℕ α} {index : ℕ} {event : Event α}
    (h : cell.advance index event = some after) (hafter : after.attempts ≠ []) : cell.attempts ≠ [] := by
  have hlength := Cell.advance_attempts h
  rw [← List.length_pos_iff] at hafter ⊢
  omega

theorem ordered_settled (h : Ordered entry) {callback : Callback Result} (hnext : settled entry callback = some next) :
    Ordered next ∧ Keeps entry next := by
  rcases callback with ⟨index, event⟩ | ⟨index, event⟩ | ⟨index, event⟩
  · obtain ⟨cell, hcell, rfl⟩ := Option.map_eq_some_iff.mp hnext
    constructor
    · refine ⟨Cell.shape_advance h.verified hcell, h.applied, h.finished, fun happlied => ?_, h.finish_after⟩
      obtain ⟨result, hresult⟩ := h.apply_after happlied
      exact ⟨result, hresult.advance h.verified hcell⟩
    · exact ⟨fun _ hvalue => Cell.advance_value hvalue h.verified hcell, fun _ h => h, fun _ h => h,
        fun _ hresult => hresult.advance h.verified hcell, id, id⟩
  · obtain ⟨cell, hcell, rfl⟩ := Option.map_eq_some_iff.mp hnext
    constructor
    · exact ⟨h.verified, Cell.shape_advance h.applied hcell, h.finished,
        fun happlied => h.apply_after (ne_nil_of_advance hcell happlied),
        fun hfinished => (h.finish_after hfinished).advance h.applied hcell⟩
    · exact ⟨fun _ h => h, fun _ hvalue => Cell.advance_value hvalue h.applied hcell, fun _ h => h, fun _ h => h,
        fun hu => hu.advance h.applied hcell, id⟩
  · obtain ⟨cell, hcell, rfl⟩ := Option.map_eq_some_iff.mp hnext
    constructor
    · exact ⟨h.verified, h.applied, Cell.shape_advance h.finished hcell, h.apply_after,
        fun hfinished => h.finish_after (ne_nil_of_advance hcell hfinished)⟩
    · exact ⟨fun _ h => h, fun _ h => h, fun _ hvalue => Cell.advance_value hvalue h.finished hcell, fun _ h => h,
        id, fun hu => hu.advance h.finished hcell⟩

/-! ### The calls of an entry -/

/-- The value that a call was given by a flag is the one in the flag. -/
def Given {α : Type} (cell : Cell ℕ α) (awaited : Awaited α) : Prop :=
  ∀ value, awaited = .value value → cell.value = some value

/-- Where a call is, what it has awaited has succeeded. -/
def Justified (entry : TransactionEntry Result) (call : Call Result) : Prop :=
  match call.position with
  | .verifying awaited => Given entry.verified awaited
  | .applying result awaited => entry.verified.Succeeded result ∧ Given entry.applied awaited
  | .finishing result awaited =>
    entry.verified.Succeeded result ∧ entry.applied.Succeeded () ∧ Given entry.finished awaited
  | .returned result =>
    entry.verified.Succeeded result ∧ entry.applied.Succeeded () ∧
      (call.finishes = true → entry.finished.Succeeded ())
  | .threw => True

theorem Justified.keeps {call : Call Result} (h : Justified entry call) (hkeeps : Keeps entry next) :
    Justified next call := by
  unfold Justified at h ⊢
  rcases call with ⟨transactionId, finishes, awaited | ⟨result, awaited⟩ | ⟨result, awaited⟩ | result | _⟩
  · exact fun value hvalue => hkeeps.verified_value value (h value hvalue)
  · exact ⟨hkeeps.verified _ h.1, fun value hvalue => hkeeps.applied_value value (h.2 value hvalue)⟩
  · exact ⟨hkeeps.verified _ h.1, hkeeps.applied h.2.1,
      fun value hvalue => hkeeps.finished_value value (h.2.2 value hvalue)⟩
  · exact ⟨hkeeps.verified _ h.1, hkeeps.applied h.2.1, fun hfinishes => hkeeps.finished (h.2.2 hfinishes)⟩
  · trivial

theorem given_enter {α : Type} (cell : Cell ℕ α) (caller : ℕ) :
    Given (cell.enter caller).1 (cell.enter caller).2 := by
  intro value hvalue
  rw [Cell.enter_value]
  exact Cell.enter_awaited hvalue

/-- What a call does from one `await` to the next. -/
theorem ordered_continued (h : Ordered entry) {call : Call Result} (hcall : Justified entry call) {caller : ℕ}
    {position : Position Result} (hnext : continued entry caller call = some (next, position)) :
    Ordered next ∧ Keeps entry next ∧ Justified next ⟨call.transactionId, call.finishes, position⟩ := by
  unfold continued at hnext
  unfold Justified at hcall
  rcases call with ⟨transactionId, finishes, awaited | ⟨result, awaited⟩ | ⟨result, awaited⟩ | result | _⟩
  · obtain ⟨_ | result, houtcome, hafter⟩ := Option.map_eq_some_iff.mp hnext
    · cases hafter
      exact ⟨h, Keeps.refl entry, trivial⟩
    · cases hafter
      have hverified := Cell.outcome_succeeded h.verified hcall houtcome
      obtain ⟨hordered, hkeeps⟩ := ordered_applyOnce h caller hverified
      exact ⟨hordered, hkeeps, hverified, given_enter entry.applied caller⟩
  · obtain ⟨_ | u, houtcome, hafter⟩ := Option.map_eq_some_iff.mp hnext
    · cases hafter
      exact ⟨h, Keeps.refl entry, trivial⟩
    · have happlied : entry.applied.Succeeded () := Cell.outcome_succeeded h.applied hcall.2 houtcome
      dsimp only at hafter
      split_ifs at hafter with hfinishes
      · cases hafter
        obtain ⟨hordered, hkeeps⟩ := ordered_finishOnce h caller happlied
        exact ⟨hordered, hkeeps, hcall.1, happlied, given_enter entry.finished caller⟩
      · cases hafter
        exact ⟨h, Keeps.refl entry, hcall.1, happlied, fun htrue => absurd htrue hfinishes⟩
  · obtain ⟨_ | u, houtcome, hafter⟩ := Option.map_eq_some_iff.mp hnext
    · cases hafter
      exact ⟨h, Keeps.refl entry, trivial⟩
    · cases hafter
      exact ⟨h, Keeps.refl entry, hcall.1, hcall.2.1,
        fun _ => Cell.outcome_succeeded h.finished hcall.2.2 houtcome⟩
  · cases hnext
  · cases hnext

/-! ### Every state that is reached -/

structure Sound (s : Coordinator Result) : Prop where
  entries : ∀ transactionId, Ordered (getOrCreateEntry s transactionId)
  calls : ∀ call ∈ s.calls, Justified (getOrCreateEntry s call.transactionId) call

theorem sound_create : Sound (createIapTransactionCoordinator : Coordinator Result) :=
  ⟨fun _ => ordered_new, fun _ hcall => nomatch hcall⟩

variable {s t : Coordinator Result}

theorem getOrCreateEntry_update (s : Coordinator Result) (transactionId : String) (calls : List (Call Result))
    (other : String) :
    getOrCreateEntry ⟨Function.update s.entries transactionId (some next), calls⟩ other =
      if other = transactionId then next else getOrCreateEntry s other := by
  unfold getOrCreateEntry
  dsimp only
  rw [Function.update_apply]
  split_ifs <;> rfl

/-- One entry changes and the calls change with it. -/
theorem Sound.update (h : Sound s) {transactionId : String} {calls : List (Call Result)} (hordered : Ordered next)
    (hkeeps : Keeps (getOrCreateEntry s transactionId) next)
    (hcalls : ∀ call ∈ calls, call ∈ s.calls ∨ call.transactionId = transactionId ∧ Justified next call) :
    Sound ⟨Function.update s.entries transactionId (some next), calls⟩ := by
  constructor
  · intro other
    rw [getOrCreateEntry_update]
    split_ifs
    · exact hordered
    · exact h.entries other
  · intro call hcall
    rw [getOrCreateEntry_update]
    rcases hcalls call hcall with hold | ⟨hid, hnew⟩
    · split_ifs with hid
      · exact (h.calls call hold).keeps (hid ▸ hkeeps)
      · exact h.calls call hold
    · rw [if_pos hid]
      exact hnew

theorem sound_step {action : Action Result} (h : Sound s) (hstep : Step s action t) : Sound t := by
  rcases action with ⟨transactionId, finishes⟩ | caller | ⟨transactionId, callback⟩
  · injection hstep with hstep
    subst hstep
    obtain ⟨hordered, hkeeps⟩ := ordered_verifyOnce (h.entries transactionId) s.calls.length
    refine h.update hordered hkeeps fun call hcall => ?_
    rcases List.mem_append.mp hcall with hcall | hcall
    · exact .inl hcall
    · rw [List.mem_singleton.mp hcall]
      exact .inr ⟨rfl, given_enter _ _⟩
  · change resume s caller = some t at hstep
    unfold resume at hstep
    split at hstep
    · cases hstep
    · rename_i call hcall
      obtain ⟨⟨entry, position⟩, hcontinued, rfl⟩ := Option.map_eq_some_iff.mp hstep
      have hmem := List.mem_of_getElem? hcall
      obtain ⟨hordered, hkeeps, hjustified⟩ := ordered_continued (h.entries _) (h.calls call hmem) hcontinued
      refine h.update hordered hkeeps fun other hother => ?_
      rcases List.mem_or_eq_of_mem_set hother with hother | rfl
      · exact .inl hother
      · exact .inr ⟨rfl, hjustified⟩
  · obtain ⟨entry, hsettled, rfl⟩ := Option.map_eq_some_iff.mp hstep
    obtain ⟨hordered, hkeeps⟩ := ordered_settled (h.entries transactionId) hsettled
    exact h.update hordered hkeeps fun call hcall => .inl hcall

theorem sound_run {actions : List (Action Result)} (h : Runs.Run Step s actions t) (hs : Sound s) : Sound t :=
  h.invariant (fun _ _ _ hsound hstep => sound_step hsound hstep) hs

/-! ### Once only -/

/-- Each stage of a transaction succeeds at most once, runs alone and waits for the stage before it. -/
structure OnceOnly (entry : TransactionEntry Result) : Prop where
  verify_once : entry.verified.attempts.countP (fun attempt => attempt.progress.result.isSome) ≤ 1
  apply_once : entry.applied.attempts.countP (fun attempt => attempt.progress.result.isSome) ≤ 1
  finish_once : entry.finished.attempts.countP (fun attempt => attempt.progress.result.isSome) ≤ 1
  verify_alone : entry.verified.attempts.countP (fun attempt => attempt.progress.isRunning) ≤ 1
  apply_alone : entry.applied.attempts.countP (fun attempt => attempt.progress.isRunning) ≤ 1
  finish_alone : entry.finished.attempts.countP (fun attempt => attempt.progress.isRunning) ≤ 1
  apply_after : entry.applied.attempts ≠ [] → ∃ result, entry.verified.Succeeded result
  finish_after : entry.finished.attempts ≠ [] → entry.applied.Succeeded ()

theorem Ordered.onceOnly (h : Ordered entry) : OnceOnly entry where
  verify_once := h.verified.countP_le_one (fun progress => progress.result.isSome) rfl
  apply_once := h.applied.countP_le_one (fun progress => progress.result.isSome) rfl
  finish_once := h.finished.countP_le_one (fun progress => progress.result.isSome) rfl
  verify_alone := h.verified.countP_le_one Progress.isRunning rfl
  apply_alone := h.applied.countP_le_one Progress.isRunning rfl
  finish_alone := h.finished.countP_le_one Progress.isRunning rfl
  apply_after := h.apply_after
  finish_after := h.finish_after

/-- A stage that has succeeded is not tried again. -/
def NotRepeated {α : Type} (before after : Cell ℕ α) : Prop :=
  (∃ value, before.Succeeded value) → after.attempts.length = before.attempts.length

/-- Where every attempt has failed, the callback of the caller is the next one. -/
def Retried {α : Type} (before after : Cell ℕ α) (caller : ℕ) : Prop :=
  before.AllFailed → after.attempts = before.attempts ++ [⟨caller, .queued⟩]

/-- The stage that a call has come to is tried again. -/
def Retries (entry next : TransactionEntry Result) (caller : ℕ) : Position Result → Prop
  | .verifying _ => Retried entry.verified next.verified caller
  | .applying _ _ => Retried entry.applied next.applied caller
  | .finishing _ _ => Retried entry.finished next.finished caller
  | .returned _ => True
  | .threw => True

theorem notRepeated_refl {α : Type} (cell : Cell ℕ α) : NotRepeated cell cell := fun _ => rfl

theorem notRepeated_enter {α : Type} {cell : Cell ℕ α} (h : cell.Shape) (caller : ℕ) :
    NotRepeated cell (cell.enter caller).1 := by
  rintro ⟨value, hvalue⟩
  rw [h.enter_of_succeeded hvalue caller]

theorem retried_enter {α : Type} {cell : Cell ℕ α} (h : cell.Shape) (caller : ℕ) :
    Retried cell (cell.enter caller).1 caller := by
  intro hfailed
  rw [h.enter_of_allFailed hfailed caller]

/-- No stage of the entry is repeated. -/
def NoneRepeated (entry next : TransactionEntry Result) : Prop :=
  NotRepeated entry.verified next.verified ∧ NotRepeated entry.applied next.applied ∧
    NotRepeated entry.finished next.finished

theorem noneRepeated_refl (entry : TransactionEntry Result) : NoneRepeated entry entry :=
  ⟨notRepeated_refl _, notRepeated_refl _, notRepeated_refl _⟩

theorem noneRepeated_settled {callback : Callback Result} (hnext : settled entry callback = some next) :
    NoneRepeated entry next := by
  rcases callback with ⟨index, event⟩ | ⟨index, event⟩ | ⟨index, event⟩
  · obtain ⟨cell, hcell, rfl⟩ := Option.map_eq_some_iff.mp hnext
    exact ⟨fun _ => Cell.advance_attempts hcell, notRepeated_refl _, notRepeated_refl _⟩
  · obtain ⟨cell, hcell, rfl⟩ := Option.map_eq_some_iff.mp hnext
    exact ⟨notRepeated_refl _, fun _ => Cell.advance_attempts hcell, notRepeated_refl _⟩
  · obtain ⟨cell, hcell, rfl⟩ := Option.map_eq_some_iff.mp hnext
    exact ⟨notRepeated_refl _, notRepeated_refl _, fun _ => Cell.advance_attempts hcell⟩

theorem retries_continued (h : Ordered entry) {call : Call Result} {caller : ℕ} {position : Position Result}
    (hnext : continued entry caller call = some (next, position)) :
    NoneRepeated entry next ∧ Retries entry next caller position := by
  unfold continued at hnext
  rcases call with ⟨transactionId, finishes, awaited | ⟨result, awaited⟩ | ⟨result, awaited⟩ | result | _⟩
  · obtain ⟨_ | result, -, hafter⟩ := Option.map_eq_some_iff.mp hnext
    · cases hafter
      exact ⟨noneRepeated_refl entry, trivial⟩
    · cases hafter
      exact ⟨⟨notRepeated_refl _, notRepeated_enter h.applied caller, notRepeated_refl _⟩,
        retried_enter h.applied caller⟩
  · obtain ⟨_ | u, -, hafter⟩ := Option.map_eq_some_iff.mp hnext
    · cases hafter
      exact ⟨noneRepeated_refl entry, trivial⟩
    · dsimp only at hafter
      split_ifs at hafter with hfinishes
      · cases hafter
        exact ⟨⟨notRepeated_refl _, notRepeated_refl _, notRepeated_enter h.finished caller⟩,
          retried_enter h.finished caller⟩
      · cases hafter
        exact ⟨noneRepeated_refl entry, trivial⟩
  · obtain ⟨_ | u, -, hafter⟩ := Option.map_eq_some_iff.mp hnext
    · cases hafter
      exact ⟨noneRepeated_refl entry, trivial⟩
    · cases hafter
      exact ⟨noneRepeated_refl entry, trivial⟩
  · cases hnext
  · cases hnext

theorem noneRepeated_update {transactionId : String} (calls : List (Call Result))
    (h : NoneRepeated (getOrCreateEntry s transactionId) next) (other : String) :
    NoneRepeated (getOrCreateEntry s other)
      (getOrCreateEntry ⟨Function.update s.entries transactionId (some next), calls⟩ other) := by
  rw [getOrCreateEntry_update]
  split_ifs with hother
  · rw [hother]
    exact h
  · exact noneRepeated_refl _

/-- A step repeats no stage that has succeeded, and a call that comes to a stage that has failed tries it again. -/
theorem retries_step {action : Action Result} (h : Sound s) (hstep : Step s action t) :
    (∀ transactionId, NoneRepeated (getOrCreateEntry s transactionId) (getOrCreateEntry t transactionId)) ∧
      ∀ caller call, t.calls[caller]? = some call → s.calls[caller]? ≠ some call →
        Retries (getOrCreateEntry s call.transactionId) (getOrCreateEntry t call.transactionId) caller
          call.position := by
  rcases action with ⟨transactionId, finishes⟩ | resumed | ⟨transactionId, callback⟩
  · injection hstep with hstep
    subst hstep
    have hshape := (h.entries transactionId).verified
    constructor
    · exact noneRepeated_update _ ⟨notRepeated_enter hshape _, notRepeated_refl _, notRepeated_refl _⟩
    · intro caller call hcall hnew
      have hcaller : caller = s.calls.length := by
        have hlt : caller < (s.calls ++ [_]).length := (List.getElem?_eq_some_iff.mp hcall).1
        rw [List.length_append, List.length_singleton] at hlt
        by_contra hne
        refine hnew ?_
        rw [← hcall]
        exact (List.getElem?_append_left (by omega)).symm
      subst hcaller
      have hlast : (run s transactionId finishes).calls[s.calls.length]? = some
          ⟨transactionId, finishes, .verifying (verifyOnce (getOrCreateEntry s transactionId) s.calls.length).2⟩ :=
        List.getElem?_concat_length
      rw [hlast] at hcall
      cases hcall
      change Retried _ (getOrCreateEntry ⟨_, _⟩ transactionId).verified _
      rw [getOrCreateEntry_update, if_pos rfl]
      exact retried_enter hshape _
  · change resume s resumed = some t at hstep
    unfold resume at hstep
    split at hstep
    · cases hstep
    · rename_i before hbefore
      obtain ⟨⟨entry, position⟩, hcontinued, rfl⟩ := Option.map_eq_some_iff.mp hstep
      obtain ⟨hnone, hretries⟩ := retries_continued (h.entries _) hcontinued
      constructor
      · exact noneRepeated_update _ hnone
      · intro caller call hcall hnew
        dsimp only at hcall
        rw [List.getElem?_set] at hcall
        split_ifs at hcall with hcaller hlt
        · cases hcall
          subst hcaller
          rw [getOrCreateEntry_update, if_pos rfl]
          exact hretries
        · exact absurd hcall hnew
  · obtain ⟨entry, hsettled, rfl⟩ := Option.map_eq_some_iff.mp hstep
    constructor
    · exact noneRepeated_update _ (noneRepeated_settled hsettled)
    · intro caller call hcall hnew
      exact absurd hcall hnew

/-- What holds of a state and of each step from it: each stage succeeds at most once and in its turn, every call that
returns has the one verified result, and a failed stage alone is tried again. -/
structure ExactlyOnce (s : Coordinator Result) : Prop where
  once : ∀ transactionId, OnceOnly (getOrCreateEntry s transactionId)
  returned : ∀ call ∈ s.calls, ∀ result, call.position = .returned result →
    (getOrCreateEntry s call.transactionId).verified.Succeeded result ∧
      ∀ other, (getOrCreateEntry s call.transactionId).verified.Succeeded other → other = result
  unrepeated : ∀ action t, Step s action t → ∀ transactionId,
    NoneRepeated (getOrCreateEntry s transactionId) (getOrCreateEntry t transactionId)
  retried : ∀ action t, Step s action t → ∀ caller call, t.calls[caller]? = some call →
    s.calls[caller]? ≠ some call →
      Retries (getOrCreateEntry s call.transactionId) (getOrCreateEntry t call.transactionId) caller call.position

theorem transactions_once {actions : List (Action Result)}
    (h : Runs.Run Step createIapTransactionCoordinator actions s) : ExactlyOnce s := by
  have hsound : Sound s := sound_run h sound_create
  refine ⟨fun transactionId => (hsound.entries transactionId).onceOnly, ?_,
    fun _ _ hstep => (retries_step hsound hstep).1, fun _ _ hstep => (retries_step hsound hstep).2⟩
  intro call hcall result hreturned
  have hjustified := hsound.calls call hcall
  unfold Justified at hjustified
  rw [hreturned] at hjustified
  exact ⟨hjustified.1, fun other hother =>
    (hsound.entries call.transactionId).verified.succeeded_unique hother hjustified.1⟩

/-- Two calls of one transaction; the first attempt to finish it fails and a third call tries it again. -/
def retriedActions : List (Action ℕ) :=
  [.run "1000" true, .settle "1000" (.verify 0 .call), .run "1000" true, .settle "1000" (.verify 0 (.fulfil 7)),
    .settle "1000" (.verify 0 .mark), .settle "1000" (.verify 0 .clear), .resume 0, .resume 1,
    .settle "1000" (.apply 0 .call), .settle "1000" (.apply 0 (.fulfil ())), .settle "1000" (.apply 0 .mark),
    .settle "1000" (.apply 0 .clear), .resume 1, .resume 0, .settle "1000" (.finish 0 .call),
    .settle "1000" (.finish 0 .reject), .settle "1000" (.finish 0 .clear), .resume 0, .resume 1, .run "1000" true,
    .resume 2, .resume 2, .settle "1000" (.finish 1 .call)]

theorem transactions_once_retried :
    ∃ s, Runs.Run Step createIapTransactionCoordinator retriedActions s ∧ ExactlyOnce s := by
  have haccepted : (retriedActions.foldlM step createIapTransactionCoordinator).isSome = true := by decide
  obtain ⟨s, hrun⟩ := Runs.Run.exists_of_isSome haccepted
  exact ⟨s, hrun, transactions_once hrun⟩

end OwnMinutes.Mobile.IapTransactions
