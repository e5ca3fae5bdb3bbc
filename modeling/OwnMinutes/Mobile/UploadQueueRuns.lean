import OwnMinutes.Mobile.UploadQueue
import Mathlib.Algebra.Order.Group.Nat

/-! # Runs of the realtime upload queue

The tail that an operation waits for is that of the last operation before it in its generation, so the
operations of a generation run one after the other; the counter of a generation counts its operations up to
the callback of `finally`. -/

namespace OwnMinutes.Mobile.UploadQueueRuns

open OwnMinutes.Mobile.UploadQueue OwnMinutes.Lib.Runs

variable {q t : Queue} {operations : List Operation} {operation other : Operation} {phase : Phase} {g n i j : ℕ}

/-- `last` is the last of the first `n` operations that belongs to the generation `g`. -/
def LastOf (operations : List Operation) (g n : ℕ) : Option ℕ → Prop
  | none => ∀ (m : ℕ) (x : Operation), m < n → operations[m]? = some x → x.generation ≠ g
  | some j => j < n ∧ (∃ x, operations[j]? = some x ∧ x.generation = g) ∧
      ∀ (m : ℕ) (x : Operation), j < m → m < n → operations[m]? = some x → x.generation ≠ g

/-- The operations of a generation that its counter counts. -/
def counted (g : ℕ) (operation : Operation) : Bool := operation.generation = g && operation.phase.isUncounted

/-- **The invariant.** -/
structure Sound (q : Queue) : Prop where
  tail : LastOf q.operations q.generation q.operations.length q.tail
  chained : ∀ (i : ℕ) (x : Operation), q.operations[i]? = some x → LastOf q.operations x.generation i x.previous
  bounded : ∀ (i : ℕ) (x : Operation), q.operations[i]? = some x → x.generation ≤ q.generation
  order : ∀ (i : ℕ) (x : Operation), q.operations[i]? = some x → x.phase ≠ .waiting →
    ∀ (j : ℕ) (y : Operation), j < i → q.operations[j]? = some y → y.generation = x.generation → y.phase.isReleased = true
  counts : ∀ g, (q.pendingByGeneration g).getD 0 = q.operations.countP (counted g)
  started : ∀ i, i ∈ q.started ↔
    ∃ x : Operation, q.operations[i]? = some x ∧ x.phase ≠ .waiting ∧ x.phase.outcome? ≠ some .cancelled
  cancelled : ∀ (i : ℕ) (x : Operation), q.operations[i]? = some x → x.phase.outcome? = some .cancelled →
    x.generation < q.generation
  sorted : q.started.Pairwise fun i j =>
    ∀ x y : Operation, q.operations[i]? = some x → q.operations[j]? = some y → x.generation = y.generation → i < j
  drains : ∀ call ∈ q.drains, call.enqueued ≤ q.operations.length ∧
    LastOf q.operations call.generation call.enqueued call.pending ∧
    (call.answer = some true → ∀ (i : ℕ) (x : Operation), i < call.enqueued → q.operations[i]? = some x →
      x.generation = call.generation → x.phase.isReleased = true)

theorem isFulfilled_some : q.isFulfilled (some j) = true ↔
    ∃ x : Operation, q.operations[j]? = some x ∧ x.phase.isReleased = true := by
  change (q.operations[j]?).any (fun x => x.phase.isReleased) = true ↔ _
  cases q.operations[j]? with
  | none | some x => simp

/-- Once the tail is fulfilled all operations before it in its generation are released. -/
theorem Sound.released (h : Sound q) {last : Option ℕ} (hlast : LastOf q.operations g n last)
    (hfulfilled : q.isFulfilled last = true) (hi : i < n) (hget : q.operations[i]? = some operation)
    (hgeneration : operation.generation = g) : operation.phase.isReleased = true := by
  cases last with
  | none => exact absurd hgeneration (hlast i operation hi hget)
  | some j =>
    obtain ⟨hj, ⟨x, hx, hxg⟩, hafter⟩ := hlast
    obtain ⟨y, hy, hreleased⟩ := isFulfilled_some.mp hfulfilled
    have hxy : x = y := Option.some.inj (hx.symm.trans hy)
    subst hxy
    rcases Nat.lt_trichotomy i j with hij | hij | hij
    · have hwaiting : x.phase ≠ .waiting := by
        intro hw
        rw [hw] at hreleased
        cases hreleased
      exact h.order j x hx hwaiting i operation hij hget (hgeneration.trans hxg.symm)
    · subst hij
      have := Option.some.inj (hget.symm.trans hx)
      rw [this]
      exact hreleased
    · exact absurd hgeneration (hafter i operation hij hi hget)

/-! ### Calls of the queue -/

theorem getElem?_append_one {x : Operation} :
    (operations ++ [operation])[i]? = some x ↔
      operations[i]? = some x ∨ i = operations.length ∧ x = operation := by
  rcases Nat.lt_trichotomy i operations.length with hi | hi | hi
  · rw [List.getElem?_append_left hi]
    constructor
    · exact Or.inl
    · rintro (h | ⟨rfl, -⟩)
      · exact h
      · omega
  · subst hi
    rw [List.getElem?_append_right le_rfl]
    simp [eq_comm]
  · rw [List.getElem?_append_right hi.le, List.getElem?_eq_none (show operations.length ≤ i by omega),
      List.getElem?_eq_none (by simp; omega)]
    constructor
    · intro h
      cases h
    · rintro (h | ⟨rfl, -⟩)
      · cases h
      · omega

/-- Of the operations so far the last of a generation stays the last. -/
theorem LastOf.append {last : Option ℕ} (h : LastOf operations g n last) (hn : n ≤ operations.length) :
    LastOf (operations ++ [operation]) g n last := by
  cases last with
  | none =>
    intro m x hm hx
    rcases getElem?_append_one.mp hx with hx | ⟨rfl, -⟩
    · exact h m x hm hx
    · omega
  | some j =>
    obtain ⟨hj, ⟨x, hx, hxg⟩, hafter⟩ := h
    refine ⟨hj, ⟨x, getElem?_append_one.mpr (Or.inl hx), hxg⟩, fun m y hjm hm hy => ?_⟩
    rcases getElem?_append_one.mp hy with hy | ⟨rfl, -⟩
    · exact hafter m y hjm hm hy
    · omega

theorem Sound.enqueue (h : Sound q) : Sound q.enqueue := by
  have hold : ∀ {i x}, q.operations[i]? = some x → i < q.operations.length := fun hx =>
    (List.getElem?_eq_some_iff.mp hx).1
  refine ⟨?_, ?_, ?_, ?_, ?_, ?_, ?_, ?_, ?_⟩
  · change LastOf (q.operations ++ [_]) q.generation (q.operations ++ [_]).length (some q.operations.length)
    rw [List.length_append, List.length_singleton]
    refine ⟨Nat.lt_succ_self _, ⟨_, getElem?_append_one.mpr (Or.inr ⟨rfl, rfl⟩), rfl⟩, ?_⟩
    intro m x hm hm'
    omega
  · intro i x hx
    rcases getElem?_append_one.mp hx with hx | ⟨rfl, rfl⟩
    · exact (h.chained i x hx).append (hold hx).le
    · exact h.tail.append le_rfl
  · intro i x hx
    rcases getElem?_append_one.mp hx with hx | ⟨rfl, rfl⟩
    · exact h.bounded i x hx
    · exact le_rfl
  · intro i x hx hwaiting j y hj hy hg
    rcases getElem?_append_one.mp hx with hx | ⟨rfl, rfl⟩
    · rcases getElem?_append_one.mp hy with hy | ⟨rfl, rfl⟩
      · exact h.order i x hx hwaiting j y hj hy hg
      · have := hold hx
        omega
    · exact absurd rfl hwaiting
  · intro g
    change (Function.update q.pendingByGeneration q.generation _ g).getD 0 = (q.operations ++ [_]).countP (counted g)
    rw [List.countP_append, List.countP_singleton]
    by_cases hg : g = q.generation
    · subst hg
      simp [counted, Phase.isUncounted, h.counts]
    · rw [Function.update_of_ne hg, h.counts g]
      simp [counted, Ne.symm hg]
  · intro i
    rw [show q.enqueue.started = q.started from rfl, h.started i]
    constructor
    · rintro ⟨x, hx, hp⟩
      exact ⟨x, getElem?_append_one.mpr (Or.inl hx), hp⟩
    · rintro ⟨x, hx, hp⟩
      rcases getElem?_append_one.mp hx with hx | ⟨rfl, rfl⟩
      · exact ⟨x, hx, hp⟩
      · exact absurd rfl hp.1
  · intro i x hx hcancelled
    rcases getElem?_append_one.mp hx with hx | ⟨rfl, rfl⟩
    · exact h.cancelled i x hx hcancelled
    · cases hcancelled
  · refine h.sorted.imp_of_mem fun {a b} ha hb hab x y hx hy hg => ?_
    obtain ⟨x', hx', -⟩ := (h.started a).mp ha
    obtain ⟨y', hy', -⟩ := (h.started b).mp hb
    rcases getElem?_append_one.mp hx with hx | ⟨rfl, -⟩
    · rcases getElem?_append_one.mp hy with hy | ⟨rfl, -⟩
      · exact hab x y hx hy hg
      · exact absurd (hold hy') (lt_irrefl _)
    · exact absurd (hold hx') (lt_irrefl _)
  · intro call hcall
    obtain ⟨hn, hlast, hanswer⟩ := h.drains call hcall
    refine ⟨?_, hlast.append hn, fun htrue i x hi hx hg => ?_⟩
    · change call.enqueued ≤ (q.operations ++ [_]).length
      rw [List.length_append]
      omega
    · rcases getElem?_append_one.mp hx with hx | ⟨rfl, rfl⟩
      · exact hanswer htrue i x hi hx hg
      · omega

theorem Sound.cancelPending (h : Sound q) : Sound q.cancelPending where
  tail := fun m x _ hx => by
    have := h.bounded m x hx
    change x.generation ≠ q.generation + 1
    omega
  chained := h.chained
  bounded := fun i x hx => (h.bounded i x hx).trans (Nat.le_succ _)
  order := h.order
  counts := h.counts
  started := h.started
  cancelled := fun i x hx hcancelled => Nat.lt_succ_of_lt (h.cancelled i x hx hcancelled)
  sorted := h.sorted
  drains := h.drains

theorem Sound.drain (h : Sound q) : Sound q.drain where
  tail := h.tail
  chained := h.chained
  bounded := h.bounded
  order := h.order
  counts := h.counts
  started := h.started
  cancelled := h.cancelled
  sorted := h.sorted
  drains := fun call hcall => by
    rcases List.mem_append.mp hcall with hcall | hcall
    · exact h.drains call hcall
    · cases List.mem_singleton.mp hcall
      exact ⟨le_rfl, h.tail, fun htrue => by cases htrue⟩

theorem Sound.answer (h : Sound q) {call : Drain} {value : Bool} (hcall : q.drains[i]? = some call)
    (hvalue : value = true → q.isFulfilled call.pending = true) :
    Sound { q with drains := q.drains.set i { call with answer := some value } } where
  tail := h.tail
  chained := h.chained
  bounded := h.bounded
  order := h.order
  counts := h.counts
  started := h.started
  cancelled := h.cancelled
  sorted := h.sorted
  drains := fun d hd => by
    rcases List.mem_or_eq_of_mem_set hd with hd | rfl
    · exact h.drains d hd
    · obtain ⟨hn, hlast, -⟩ := h.drains call (List.mem_of_getElem? hcall)
      refine ⟨hn, hlast, fun htrue i x hi hx hg => ?_⟩
      exact h.released hlast (hvalue (Option.some.inj htrue)) hi hx hg

/-! ### Operations that move on -/

section Moved

theorem getElem?_set_some (hget : operations[i]? = some operation) {x y : Operation} :
    (operations.set i x)[j]? = some y ↔ j = i ∧ y = x ∨ j ≠ i ∧ operations[j]? = some y := by
  have hi : i < operations.length := (List.getElem?_eq_some_iff.mp hget).1
  rw [List.getElem?_set]
  by_cases hij : i = j
  · subst hij
    simp [hi, eq_comm]
  · have hji : j ≠ i := fun he => hij he.symm
    simp [hij, hji]

/-- Only the phase of an operation changes. -/
theorem LastOf.set {last : Option ℕ} (h : LastOf operations g n last) (hget : operations[i]? = some operation) :
    LastOf (operations.set i { operation with phase }) g n last := by
  have hback : ∀ (m : ℕ) (x : Operation), (operations.set i { operation with phase })[m]? = some x →
      ∃ y : Operation, operations[m]? = some y ∧ y.generation = x.generation := by
    intro m x hx
    rcases (getElem?_set_some hget).mp hx with ⟨rfl, rfl⟩ | ⟨-, hx⟩
    · exact ⟨operation, hget, rfl⟩
    · exact ⟨x, hx, rfl⟩
  cases last with
  | none =>
    intro m x hm hx
    obtain ⟨y, hy, hyx⟩ := hback m x hx
    rw [← hyx]
    exact h m y hm hy
  | some j =>
    obtain ⟨hj, ⟨x, hx, hxg⟩, hafter⟩ := h
    refine ⟨hj, ?_, fun m y hjm hm hy => ?_⟩
    · by_cases hji : j = i
      · subst hji
        have := Option.some.inj (hget.symm.trans hx)
        exact ⟨_, (getElem?_set_some hget).mpr (Or.inl ⟨rfl, rfl⟩), this ▸ hxg⟩
      · exact ⟨x, (getElem?_set_some hget).mpr (Or.inr ⟨hji, hx⟩), hxg⟩
    · obtain ⟨z, hz, hzy⟩ := hback m y hy
      rw [← hzy]
      exact hafter m z hjm hm hz

/-- An operation that is released does not move on. -/
theorem Moves.not_released (h : Moves q operation phase) : operation.phase.isReleased ≠ true := by
  rcases h with ⟨h, -, -⟩ | ⟨h, -, -⟩ | ⟨h, -⟩ | h | h | h
  all_goals
    rw [h]
    simp [Phase.isReleased]

theorem Moves.not_waiting (h : Moves q operation phase) : phase ≠ .waiting := by
  rcases h with h | h | h | h | h | h
  all_goals simp

/-- Apart from the callback, what is behind an operation and what it was started for does not change. -/
theorem Moves.started_iff (h : Moves q operation phase) (hphase : phase ≠ .running) :
    (phase.outcome? ≠ some .cancelled) ↔
      (operation.phase ≠ .waiting ∧ operation.phase.outcome? ≠ some .cancelled) := by
  rcases h with ⟨h, -, -⟩ | ⟨h, -, -⟩ | ⟨h, hne⟩ | h | h | h
  · exact absurd rfl hphase
  · simp [h, Phase.outcome?]
  · simp [h, Phase.outcome?, hne]
  · simp [h, Phase.outcome?]
  · simp [h, Phase.outcome?]
  · simp [h, Phase.outcome?]

/-- An operation that is cancelled belongs to an earlier generation. -/
theorem Moves.cancelled (h : Moves q operation phase) (hphase : phase.outcome? = some .cancelled) :
    operation.generation ≠ q.generation ∨ operation.phase.outcome? = some .cancelled := by
  rcases h with ⟨-, -, -⟩ | ⟨-, -, hother⟩ | ⟨-, hne⟩ | h | h | h
  · cases hphase
  · exact Or.inl hother
  · exact absurd (Option.some.inj hphase) hne
  all_goals
    rw [h]
    exact Or.inr hphase

/-- The counters after an operation moved on. -/
theorem Sound.counts_moved (h : Sound q) (hget : q.operations[i]? = some operation) (hmoves : Moves q operation phase)
    (g : ℕ) : ((moved q i operation phase).pendingByGeneration g).getD 0 =
      (moved q i operation phase).operations.countP (counted g) := by
  obtain ⟨hi, hgetElem⟩ := List.getElem?_eq_some_iff.mp hget
  have hpos : counted g operation = true → 0 < q.operations.countP (counted g) := fun hc =>
    List.countP_pos_iff.mpr ⟨operation, List.mem_of_getElem? hget, hc⟩
  have hcounts := h.counts g
  have hset : (moved q i operation phase).operations.countP (counted g) =
      q.operations.countP (counted g) - (if counted g operation = true then 1 else 0) +
        if counted g { operation with phase } = true then 1 else 0 := by
    change (q.operations.set i { operation with phase }).countP (counted g) = _
    rw [List.countP_set hi, hgetElem]
  rw [hset]
  have hsame : phase.isUncounted = operation.phase.isUncounted →
      (moved q i operation phase).pendingByGeneration = q.pendingByGeneration →
      ((moved q i operation phase).pendingByGeneration g).getD 0 =
        q.operations.countP (counted g) - (if counted g operation = true then 1 else 0) +
          if counted g { operation with phase } = true then 1 else 0 := by
    intro huncounted hpending
    have hcounted : counted g { operation with phase } = counted g operation := by
      simp [counted, huncounted]
    rw [hpending, hcounts, hcounted]
    split_ifs with hc
    · have := hpos hc
      omega
    · omega
  rcases hmoves with ⟨hp, -, -⟩ | ⟨hp, -, -⟩ | ⟨hp, -⟩ | hp | hp | hp
  · exact hsame (by rw [hp]; rfl) rfl
  · exact hsame (by rw [hp]; rfl) rfl
  · exact hsame (by rw [hp]; rfl) rfl
  · -- the callback of `finally`: one operation less
    rename_i outcome
    change (Function.update q.pendingByGeneration operation.generation _ g).getD 0 = _
    by_cases hg : g = operation.generation
    · subst hg
      have hc : counted operation.generation operation = true := by
        simp [counted, hp, Phase.isUncounted]
      have hlt := hpos hc
      have hsome : q.pendingByGeneration operation.generation =
          some (q.operations.countP (counted operation.generation)) := by
        cases hpending : q.pendingByGeneration operation.generation with
        | none =>
          rw [hpending, Option.getD_none] at hcounts
          omega
        | some pending =>
          rw [hpending, Option.getD_some] at hcounts
          rw [hcounts]
      rw [Function.update_self, hsome, Option.getD_some, if_pos hc]
      have hnot : ¬ counted operation.generation { operation with phase := .counted outcome } = true := by
        simp [counted, Phase.isUncounted]
      rw [if_neg hnot]
      split_ifs with hzero
      · rw [Option.getD_none]
        omega
      · rfl
    · have hc : ¬ counted g operation = true := by
        simp [counted, Ne.symm hg]
      have hnot : ¬ counted g { operation with phase := .counted outcome } = true := by
        simp [counted, Phase.isUncounted]
      rw [Function.update_of_ne hg, hcounts, if_neg hc, if_neg hnot]
      omega
  · exact hsame (by rw [hp]; rfl) rfl
  · exact hsame (by rw [hp]; rfl) rfl

theorem Sound.moved (h : Sound q) (hget : q.operations[i]? = some operation) (hmoves : Moves q operation phase) :
    Sound (moved q i operation phase) := by
  have hlength : (q.operations.set i { operation with phase }).length = q.operations.length := List.length_set
  -- an earlier released operation is not the one that moves on
  have hreleased : ∀ (j : ℕ) (x y : Operation), q.operations[j]? = some x → x.phase.isReleased = true →
      (q.operations.set i { operation with phase })[j]? = some y → y.phase.isReleased = true := by
    intro j x y hx hxr hy
    rcases (getElem?_set_some hget).mp hy with ⟨rfl, rfl⟩ | ⟨-, hy⟩
    · have := Option.some.inj (hget.symm.trans hx)
      exact absurd (this ▸ hxr) (Moves.not_released hmoves)
    · have := Option.some.inj (hx.symm.trans hy)
      exact this ▸ hxr
  have hold : ∀ (j : ℕ) (y : Operation), (q.operations.set i { operation with phase })[j]? = some y →
      ∃ x : Operation, q.operations[j]? = some x ∧ x.generation = y.generation := by
    intro j y hy
    rcases (getElem?_set_some hget).mp hy with ⟨rfl, rfl⟩ | ⟨-, hy⟩
    · exact ⟨operation, hget, rfl⟩
    · exact ⟨y, hy, rfl⟩
  refine ⟨?_, ?_, ?_, ?_, h.counts_moved hget hmoves, ?_, ?_, ?_, ?_⟩
  · change LastOf (q.operations.set i { operation with phase }) q.generation
      (q.operations.set i { operation with phase }).length q.tail
    rw [hlength]
    exact h.tail.set hget
  · intro k x hx
    rcases (getElem?_set_some hget).mp hx with ⟨rfl, rfl⟩ | ⟨-, hx⟩
    · exact (h.chained k operation hget).set hget
    · exact (h.chained k x hx).set hget
  · intro k x hx
    obtain ⟨y, hy, hyx⟩ := hold k x hx
    exact hyx ▸ h.bounded k y hy
  · intro k x hx hwaiting j y hj hy hg
    obtain ⟨z, hz, hzy⟩ := hold j y hy
    refine hreleased j z y hz ?_ hy
    rcases (getElem?_set_some hget).mp hx with ⟨rfl, rfl⟩ | ⟨-, hx⟩
    · by_cases hp : operation.phase = .waiting
      · -- the callback ran: the tail before it was fulfilled
        have hready : q.isFulfilled operation.previous = true := by
          rcases hmoves with ⟨-, hr, -⟩ | ⟨-, hr, -⟩ | ⟨hp', -⟩ | hp' | hp' | hp'
          · exact hr
          · exact hr
          all_goals
            rw [hp] at hp'
            cases hp'
        exact h.released (h.chained k operation hget) hready hj hz (hzy.trans hg)
      · exact h.order k operation hget hp j z hj hz (hzy.trans hg)
    · exact h.order k x hx hwaiting j z hj hz (hzy.trans hg)
  · intro k
    by_cases hphase : phase = .running
    · subst hphase
      change k ∈ (if Phase.running = .running then q.started ++ [i] else q.started) ↔ _
      rw [if_pos rfl, List.mem_append, List.mem_singleton, h.started k]
      constructor
      · rintro (⟨x, hx, hp⟩ | rfl)
        · by_cases hk : k = i
          · subst hk
            exact ⟨_, (getElem?_set_some hget).mpr (Or.inl ⟨rfl, rfl⟩), by simp, by simp [Phase.outcome?]⟩
          · exact ⟨x, (getElem?_set_some hget).mpr (Or.inr ⟨hk, hx⟩), hp⟩
        · exact ⟨_, (getElem?_set_some hget).mpr (Or.inl ⟨rfl, rfl⟩), by simp, by simp [Phase.outcome?]⟩
      · rintro ⟨x, hx, hp⟩
        rcases (getElem?_set_some hget).mp hx with ⟨rfl, -⟩ | ⟨-, hx⟩
        · exact Or.inr rfl
        · exact Or.inl ⟨x, hx, hp⟩
    · change k ∈ (if phase = .running then q.started ++ [i] else q.started) ↔ _
      rw [if_neg hphase, h.started k]
      constructor
      · rintro ⟨x, hx, hp⟩
        by_cases hk : k = i
        · subst hk
          have := Option.some.inj (hget.symm.trans hx)
          subst this
          exact ⟨_, (getElem?_set_some hget).mpr (Or.inl ⟨rfl, rfl⟩), Moves.not_waiting hmoves,
            (Moves.started_iff hmoves hphase).mpr hp⟩
        · exact ⟨x, (getElem?_set_some hget).mpr (Or.inr ⟨hk, hx⟩), hp⟩
      · rintro ⟨x, hx, hp⟩
        rcases (getElem?_set_some hget).mp hx with ⟨rfl, rfl⟩ | ⟨-, hx⟩
        · exact ⟨operation, hget, (Moves.started_iff hmoves hphase).mp hp.2⟩
        · exact ⟨x, hx, hp⟩
  · intro k x hx hcancelled
    rcases (getElem?_set_some hget).mp hx with ⟨rfl, rfl⟩ | ⟨-, hx⟩
    · rcases Moves.cancelled hmoves hcancelled with hother | hcancelled
      · exact lt_of_le_of_ne (h.bounded k operation hget) hother
      · exact h.cancelled k operation hget hcancelled
    · exact h.cancelled k x hx hcancelled
  · have hkept : q.started.Pairwise fun a b => ∀ x y : Operation,
        (q.operations.set i { operation with phase })[a]? = some x →
        (q.operations.set i { operation with phase })[b]? = some y → x.generation = y.generation → a < b := by
      refine h.sorted.imp fun {a b} hab x y hx hy hg => ?_
      obtain ⟨x', hx', hxx⟩ := hold a x hx
      obtain ⟨y', hy', hyy⟩ := hold b y hy
      exact hab x' y' hx' hy' (by omega)
    by_cases hphase : phase = .running
    · subst hphase
      change (if Phase.running = .running then q.started ++ [i] else q.started).Pairwise _
      rw [if_pos rfl, List.pairwise_append]
      refine ⟨hkept, List.pairwise_singleton _ _, fun a ha b hb x y hx hy hg => ?_⟩
      rw [List.mem_singleton] at hb
      subst hb
      have hwaiting : operation.phase = .waiting := by
        rcases hmoves with ⟨hp, -, -⟩
        exact hp
      obtain ⟨z, hz, hzw, -⟩ := (h.started a).mp ha
      obtain ⟨x', hx', hxx⟩ := hold a x hx
      obtain ⟨y', hy', hyy⟩ := hold b y hy
      have hzx := Option.some.inj (hz.symm.trans hx')
      have hyo := Option.some.inj (hget.symm.trans hy')
      subst hzx
      subst hyo
      rcases Nat.lt_trichotomy a b with hab | rfl | hab
      · exact hab
      · have := Option.some.inj (hget.symm.trans hz)
        exact absurd (this ▸ hwaiting) hzw
      · have := h.order a z hz hzw b operation hab hget (by omega)
        rw [hwaiting] at this
        cases this
    · change (if phase = .running then q.started ++ [i] else q.started).Pairwise _
      rw [if_neg hphase]
      exact hkept
  · intro call hcall
    obtain ⟨hn, hlast, hanswer⟩ := h.drains call hcall
    refine ⟨?_, hlast.set hget, fun htrue k x hk hx hg => ?_⟩
    · change call.enqueued ≤ (q.operations.set i { operation with phase }).length
      rw [hlength]
      exact hn
    · obtain ⟨y, hy, hyx⟩ := hold k x hx
      exact hreleased k y x hy (hanswer htrue k y hk hy (hyx.trans hg)) hx

end Moved

/-! ### Every run -/

theorem sound_initial : Sound Queue.initial where
  tail := fun _ _ hm _ => absurd hm (Nat.not_lt_zero _)
  chained := fun _ _ hx => by cases hx
  bounded := fun _ _ hx => by cases hx
  order := fun _ _ hx => by cases hx
  counts := fun _ => rfl
  started := fun i => by
    constructor
    · intro hi
      cases hi
    · rintro ⟨x, hx, -⟩
      cases hx
  cancelled := fun _ _ hx => by cases hx
  sorted := List.Pairwise.nil
  drains := fun _ hcall => by cases hcall

theorem sound_step (h : Sound q) {e : Event} (hstep : step q e = some t) : Sound t := by
  rcases step_cases hstep with ⟨-, rfl⟩ | ⟨-, rfl⟩ | ⟨-, rfl⟩ | ⟨i, operation, phase, hget, hmoves, rfl⟩ |
    ⟨i, call, value, hcall, -, hvalue, rfl⟩
  · exact h.enqueue
  · exact h.cancelPending
  · exact h.drain
  · exact h.moved hget hmoves
  · exact h.answer hcall hvalue

theorem sound_of_runs {events : List Event} (h : Runs events q) : Sound q :=
  (Run.of_foldlM h).invariant (fun _ _ _ hs hstep => sound_step hs hstep) sound_initial

/-! ### Where no job is waiting -/

/-- In a quiet queue an operation waits, runs or is released. -/
theorem Quiet.cases (h : Quiet q) (hget : q.operations[i]? = some operation) :
    operation.phase = .waiting ∨ operation.phase = .running ∨ operation.phase.isReleased = true := by
  cases hp : operation.phase with
  | waiting => exact Or.inl rfl
  | running => exact Or.inr (Or.inl rfl)
  | finished outcome =>
    have := h (.onFinally i) rfl
    simp [step, Queue.onFinally, hget, hp] at this
  | counted outcome =>
    have := h (.settle i) rfl
    simp [step, Queue.settle, hget, hp] at this
  | settled outcome =>
    have := h (.release i) rfl
    simp [step, Queue.release, hget, hp] at this
  | released outcome => exact Or.inr (Or.inr rfl)

/-- A waiting operation whose predecessors are released has a job. -/
theorem callback_isSome (hget : q.operations[i]? = some operation) (hwaiting : operation.phase = .waiting)
    (hready : q.isFulfilled operation.previous = true) : step q (.callback i) ≠ none := by
  change q.callback i ≠ none
  unfold Queue.callback
  rw [hget]
  simp only [Option.bind_eq_bind, Option.bind_some, hwaiting, hready, and_self, if_true]
  split_ifs
  · simp
  · simp

/-- In a quiet queue a generation without a running operation has only released ones: neither a failure nor a
cancellation holds up the operations after it. -/
theorem Quiet.released (hq : Quiet q) (h : Sound q)
    (hidle : ∀ (j : ℕ) (x : Operation), q.operations[j]? = some x → x.generation = g → x.phase ≠ .running)
    (hget : q.operations[i]? = some operation) (hg : operation.generation = g) :
    operation.phase.isReleased = true := by
  induction i using Nat.strong_induction_on generalizing operation with
  | _ i ih =>
    rcases Quiet.cases hq hget with hp | hp | hp
    · have hready : q.isFulfilled operation.previous = true := by
        have hlast := h.chained i operation hget
        cases hprevious : operation.previous with
        | none => rfl
        | some j =>
          rw [hprevious] at hlast
          obtain ⟨hj, ⟨x, hx, hxg⟩, -⟩ := hlast
          exact isFulfilled_some.mpr ⟨x, hx, ih j hj hx (hxg.trans hg)⟩
      exact absurd (hq (.callback i) rfl) (callback_isSome hget hp hready)
    · exact absurd hp (hidle i operation hget hg)
    · exact hp

/-- The operations of a generation whose promise is not settled. -/
def unsettled (g : ℕ) (operation : Operation) : Bool := operation.generation = g && operation.phase.isUnsettled

theorem Quiet.unsettled_eq (hq : Quiet q) (g : ℕ) :
    q.operations.countP (unsettled g) = q.operations.countP (counted g) := by
  refine List.countP_congr fun x hx => ?_
  obtain ⟨i, hi⟩ := List.mem_iff_getElem?.mp hx
  rcases Quiet.cases hq hi with hp | hp | hp
  · simp [unsettled, counted, hp, Phase.isUnsettled, Phase.isUncounted]
  · simp [unsettled, counted, hp, Phase.isUnsettled, Phase.isUncounted]
  · cases hphase : x.phase with
    | released outcome => simp [unsettled, counted, hphase, Phase.isUnsettled, Phase.isUncounted]
    | _ => simp [hphase, Phase.isReleased] at hp

/-! ### Cancelled generations -/

/-- An operation of an earlier generation that was not started. -/
def Dropped (i : ℕ) (q : Queue) : Prop :=
  (∃ x : Operation, q.operations[i]? = some x ∧ x.generation < q.generation) ∧ i ∉ q.started

theorem Dropped.step (h : Dropped i q) {e : Event} (hstep : step q e = some t) : Dropped i t := by
  obtain ⟨⟨x, hx, hg⟩, hstarted⟩ := h
  rcases step_cases hstep with ⟨-, rfl⟩ | ⟨-, rfl⟩ | ⟨-, rfl⟩ | ⟨j, operation, phase, hget, hmoves, rfl⟩ |
    ⟨j, call, value, hcall, -, hvalue, rfl⟩
  · exact ⟨⟨x, getElem?_append_one.mpr (Or.inl hx), hg⟩, hstarted⟩
  · exact ⟨⟨x, hx, Nat.lt_succ_of_lt hg⟩, hstarted⟩
  · exact ⟨⟨x, hx, hg⟩, hstarted⟩
  · refine ⟨?_, ?_⟩
    · by_cases hij : i = j
      · subst hij
        have := Option.some.inj (hget.symm.trans hx)
        subst this
        exact ⟨_, (getElem?_set_some hget).mpr (Or.inl ⟨rfl, rfl⟩), hg⟩
      · exact ⟨x, (getElem?_set_some hget).mpr (Or.inr ⟨hij, hx⟩), hg⟩
    · change i ∉ (if phase = .running then q.started ++ [j] else q.started)
      split_ifs with hphase
      · subst hphase
        rcases hmoves with ⟨-, -, hcurrent⟩
        rw [List.mem_append, List.mem_singleton, not_or]
        refine ⟨hstarted, ?_⟩
        rintro rfl
        have := Option.some.inj (hget.symm.trans hx)
        subst this
        omega
      · exact hstarted
  · exact ⟨⟨x, hx, hg⟩, hstarted⟩

/-! ### What the queue promises -/

/-- The operations of a generation run one at a time, in the order in which they were enqueued and each once,
and no failure or cancellation holds up those after it: whatever settles was started, but for the cancelled
operations of earlier generations, and where nothing runs everything has settled. -/
structure OneAtATime (q : Queue) : Prop where
  alone : ∀ (i j : ℕ) (x y : Operation), q.operations[i]? = some x → q.operations[j]? = some y →
    x.generation = y.generation → x.phase = .running → y.phase = .running → i = j
  ordered : q.started.Pairwise fun i j =>
    ∀ x y : Operation, q.operations[i]? = some x → q.operations[j]? = some y → x.generation = y.generation → i < j
  once : q.started.Nodup
  started : ∀ (i : ℕ) (x : Operation) (outcome : Outcome), q.operations[i]? = some x →
    x.phase.outcome? = some outcome → outcome ≠ .cancelled → i ∈ q.started
  cancelled : ∀ (i : ℕ) (x : Operation), q.operations[i]? = some x → x.phase.outcome? = some .cancelled →
    x.generation < q.generation
  goesOn : Quiet q → ∀ g, (∀ (i : ℕ) (x : Operation), q.operations[i]? = some x → x.generation = g →
    x.phase ≠ .running) → ∀ (i : ℕ) (x : Operation), q.operations[i]? = some x → x.generation = g →
      x.phase.isUnsettled = false

theorem unsettled_of_released {phase : Phase} (h : phase.isReleased = true) : phase.isUnsettled = false := by
  cases phase with
  | released outcome => rfl
  | _ => cases h

theorem Sound.oneAtATime (h : Sound q) : OneAtATime q := by
  refine ⟨fun i j x y hx hy hg hxp hyp => ?_, h.sorted, ?_, fun i x outcome hx houtcome hne => ?_,
    h.cancelled, fun hq g hidle i x hx hg => ?_⟩
  · have habsurd : ∀ (a b : ℕ) (u v : Operation), q.operations[a]? = some u → q.operations[b]? = some v →
        u.generation = v.generation → u.phase = .running → v.phase = .running → ¬ a < b := by
      intro a b u v hu hv huv hup hvp hab
      have hreleased := h.order b v hv (by rw [hvp]; simp) a u hab hu huv
      rw [hup] at hreleased
      cases hreleased
    have hij := habsurd i j x y hx hy hg hxp hyp
    have hji := habsurd j i y x hy hx hg.symm hyp hxp
    omega
  · refine h.sorted.imp_of_mem fun {a b} ha _ hab heq => ?_
    subst heq
    obtain ⟨x, hx, -⟩ := (h.started a).mp ha
    exact lt_irrefl a (hab x x hx hx rfl)
  · refine (h.started i).mpr ⟨x, hx, fun hwaiting => ?_, fun hcancelled => ?_⟩
    · rw [hwaiting] at houtcome
      cases houtcome
    · exact hne (Option.some.inj (houtcome.symm.trans hcancelled))
  · exact unsettled_of_released (Quiet.released hq h hidle hx hg)

/-- **The upload queue in every run.** An operation that its generation's end found not started never runs, and
its promise settles as cancelled; `pendingCount` counts the operations of the current generation up to the
callback of `finally`, which are the unsettled ones whenever no promise job is waiting; a `drain` that answers
`true` found all earlier operations of its generation settled. -/
theorem upload_queue_generations {events : List Event} (h : Runs events q) :
    OneAtATime q ∧
      (∀ (i : ℕ) (x : Operation), q.operations[i]? = some x → x.generation ≠ q.generation → i ∉ q.started →
        ∀ later t, List.foldlM step q later = some t → i ∉ t.started ∧
          ∀ (y : Operation) (outcome : Outcome), t.operations[i]? = some y → y.phase.outcome? = some outcome →
            outcome = .cancelled) ∧
      q.pendingCount = q.operations.countP (counted q.generation) ∧
      (Quiet q → q.pendingCount = q.operations.countP (unsettled q.generation)) ∧
      ∀ call ∈ q.drains, call.answer = some true → ∀ (i : ℕ) (x : Operation), i < call.enqueued →
        q.operations[i]? = some x → x.generation = call.generation → x.phase.isUnsettled = false := by
  have hsound := sound_of_runs h
  refine ⟨hsound.oneAtATime, ?_, hsound.counts _, fun hq => ?_, fun call hcall htrue i x hi hx hg => ?_⟩
  · intro i x hx hg hstarted later t hlater
    have hrun := Run.of_foldlM hlater
    have hlt := hsound.bounded i x hx
    have hdropped : Dropped i q := ⟨⟨x, hx, by omega⟩, hstarted⟩
    have hdropped' : Dropped i t := hrun.invariant (fun _ _ _ hs hstep => Dropped.step hs hstep) hdropped
    have hsound' : Sound t := hrun.invariant (fun _ _ _ hs hstep => sound_step hs hstep) hsound
    refine ⟨hdropped'.2, fun y outcome hy houtcome => ?_⟩
    by_contra hne
    refine hdropped'.2 ((hsound'.started i).mpr ⟨y, hy, ?_, ?_⟩)
    · intro hwaiting
      rw [hwaiting] at houtcome
      cases houtcome
    · intro hcancelled
      rw [houtcome] at hcancelled
      exact hne (Option.some.inj hcancelled)
  · exact (hsound.counts _).trans (Quiet.unsettled_eq hq _).symm
  · obtain ⟨-, -, hanswer⟩ := hsound.drains call hcall
    exact unsettled_of_released (hanswer htrue i x hi hx hg)

/-- Two operations, the first of which fails, a `drain` and a cancellation. -/
theorem upload_queue_generations_failure :
    ∃ q, Runs [.enqueue, .enqueue, .drain, .callback 0, .complete 0 false, .onFinally 0, .settle 0, .release 0,
        .callback 1, .cancelPending] q ∧ OneAtATime q ∧ q.started = [0, 1] := by
  refine ⟨_, rfl, ?_, rfl⟩
  have hruns : Runs [.enqueue, .enqueue, .drain, .callback 0, .complete 0 false, .onFinally 0, .settle 0, .release 0,
    .callback 1, .cancelPending] _ := rfl
  exact (upload_queue_generations hruns).1

/-- The callback of `finally` has run and the promise of `enqueue` is not settled yet. -/
theorem pendingCount_early :
    ∃ q, Runs [.enqueue, .callback 0, .complete 0 true, .onFinally 0] q ∧ q.pendingCount = 0 ∧
      q.operations.countP (unsettled q.generation) = 1 :=
  ⟨_, rfl, rfl, rfl⟩

end OwnMinutes.Mobile.UploadQueueRuns
