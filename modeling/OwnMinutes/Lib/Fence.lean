import OwnMinutes.Lib.Runs

/-! # Fenced work

A piece of work is claimed with a token, started, and completed or given up; who does not hold the
token of the current claim can do none of these. `State` keeps the phase of the work and the token
it was last claimed with.

Work that was started is started again only after its holder gave it up (`started_until_reject`);
completed work stays completed (`completed_forever`); a token that is not the current one stays so
until it is used for a claim again (`stale_forever`). -/

namespace OwnMinutes.Lib.Fence

open OwnMinutes.Lib.Runs

inductive Phase
  | claimed | started | completed | released
  deriving DecidableEq

/-- The phase and the token of the last claim; `none` before the first. -/
abbrev State (τ : Type*) := Option (Phase × τ)

/-- What happens to the work. A completion or a release may come from the holder, who presents the
token, or from elsewhere. -/
inductive Action (τ : Type*)
  | skip
  | claim (t : τ)
  | start (t : τ)
  | complete (presented : Option τ)
  | release (presented : Option τ)
  | reject (t : τ)

variable {τ : Type*}

inductive Step : State τ → Action τ → State τ → Prop
  | skip (s : State τ) : Step s .skip s
  | claimFirst (t : τ) : Step none (.claim t) (some (.claimed, t))
  | claimAgain {p : Phase} {u : τ} (t : τ) (h : p = .released ∨ p = .claimed) :
      Step (some (p, u)) (.claim t) (some (.claimed, t))
  | start (t : τ) : Step (some (.claimed, t)) (.start t) (some (.started, t))
  | complete {t : τ} {presented : Option τ} (h : ∀ u ∈ presented, u = t) :
      Step (some (.started, t)) (.complete presented) (some (.completed, t))
  | release {t : τ} {presented : Option τ} (h : ∀ u ∈ presented, u = t) :
      Step (some (.claimed, t)) (.release presented) (some (.released, t))
  | reject {p : Phase} {t : τ} (h : p = .started ∨ p = .claimed) :
      Step (some (p, t)) (.reject t) (some (.released, t))

/-- Taking or starting the work. -/
def Action.Opens : Action τ → Prop
  | .claim _ | .start _ => True
  | _ => False

/-- Completed work is neither claimed nor started again. -/
theorem completed_forever {t : τ} {s s' : State τ} {as : List (Action τ)} (h : Run Step s as s')
    (hs : s = some (.completed, t)) : s' = some (.completed, t) ∧ ∀ a ∈ as, ¬ a.Opens := by
  induction h with
  | nil => exact ⟨hs, by simp⟩
  | cons hstep _ ih =>
    subst hs
    cases hstep with
    | skip =>
      obtain ⟨h1, h2⟩ := ih rfl
      exact ⟨h1, List.forall_mem_cons.mpr ⟨id, h2⟩⟩
    | claimAgain _ h | reject h => rcases h with h | h <;> cases h

/-- Started work that its holder does not reject is neither claimed nor started again. -/
theorem started_until_reject {t : τ} {s s' : State τ} {as : List (Action τ)}
    (h : Run Step s as s') (hs : s = some (.started, t)) (hr : .reject t ∉ as) :
    (s' = some (.started, t) ∨ s' = some (.completed, t)) ∧ ∀ a ∈ as, ¬ a.Opens := by
  induction h with
  | nil => exact ⟨.inl hs, by simp⟩
  | cons hstep hrest ih =>
    subst hs
    cases hstep with
    | skip =>
      obtain ⟨h1, h2⟩ := ih rfl fun hm => hr (List.mem_cons_of_mem _ hm)
      exact ⟨h1, List.forall_mem_cons.mpr ⟨id, h2⟩⟩
    | claimAgain _ h => rcases h with h | h <;> cases h
    | complete =>
      obtain ⟨h1, h2⟩ := completed_forever hrest rfl
      exact ⟨.inr h1, List.forall_mem_cons.mpr ⟨id, h2⟩⟩
    | reject => exact absurd List.mem_cons_self hr

/-- The token of the last claim. -/
def token (s : State τ) : Option τ := s.map Prod.snd

theorem token_step {s s' : State τ} {a : Action τ} (h : Step s a s') :
    token s' = token s ∨ ∃ t, a = .claim t ∧ token s' = some t := by
  cases h <;> simp [token]

/-- A token that is not the current one stays so until it is used for a claim. -/
theorem stale_forever {t : τ} {s s' : State τ} {as : List (Action τ)} (h : Run Step s as s')
    (hs : token s ≠ some t) (hc : .claim t ∉ as) : token s' ≠ some t := by
  induction h with
  | nil => exact hs
  | cons hstep _ ih =>
    refine ih ?_ fun hm => hc (List.mem_cons_of_mem _ hm)
    rcases token_step hstep with h | ⟨u, rfl, h⟩
    · rw [h]; exact hs
    · rw [h]
      rintro ⟨⟩
      exact hc List.mem_cons_self

end OwnMinutes.Lib.Fence
