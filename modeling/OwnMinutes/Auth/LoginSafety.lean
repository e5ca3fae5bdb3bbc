import OwnMinutes.Auth.LoginRuns

/-! # Limited login attempts are safe

`LoginInv` holds of every state that runs of a lawful backend reach (`loginInv_run`): no identifier is over
its limit, and a call that verifies has its reservation in the backend until it expires. With it a settlement
does what it should (`settled_call`), and the time a refusal tells is the time to wait (`refused_retry`). -/

namespace OwnMinutes.Auth.LoginSafety

open OwnMinutes.Auth.ProcessingRoute OwnMinutes.Lib.Runs
open OwnMinutes.Auth.LoginLimits OwnMinutes.Auth.LoginRuns

variable {B : LoginBackend} {keyForIdentifier : String → IdentifierHash} {limit : IdentifierHash → ℕ}
  {w w' : LoginWorld B} {now t : ℕ} {scopes : List AuthRateLimitScope} {hashes : List IdentifierHash}
  {s s' : B.State} {token : TokenHash}

/-! ### What a step does to the load -/

variable {hash : IdentifierHash}

theorem load_of_sameFrom (h : B.SameFrom now s s') (ht : now ≤ t) : B.load s' hash t = B.load s hash t := by
  obtain ⟨hfailures, hreserved⟩ := h hash t ht
  unfold LoginBackend.load
  rw [hfailures, hreserved]

theorem load_of_reserved {expiresAt : ℕ} (h : B.Reserved now hashes expiresAt s s') :
    B.load s' hash now ≤ B.load s hash now + if hash ∈ hashes then 1 else 0 := by
  obtain ⟨hfailures, hreserved⟩ := h hash now le_rfl
  unfold LoginBackend.load
  rw [hfailures, hreserved]
  by_cases hmem : hash ∈ hashes
  · rw [if_pos hmem]
    split_ifs <;> omega
  · rw [if_neg hmem, if_neg fun h => hmem h.1]
    omega

/-- A failure takes the place of the reservation. -/
theorem load_of_settled {expiresAt : ℕ} {outcome : SettleOutcome} (h : B.Settled now outcome hashes expiresAt s s')
    (hexpires : now < expiresAt) : B.load s' hash now ≤ B.load s hash now := by
  unfold LoginBackend.load
  cases outcome with
  | release =>
    obtain ⟨hfailures, hreserved⟩ := h hash now le_rfl
    omega
  | failure =>
    obtain ⟨hreserved, hin, hout⟩ := h
    have hless := hreserved hash now le_rfl
    by_cases hmem : hash ∈ hashes
    · have hmore := hin hash hmem
      rw [if_pos ⟨hmem, hexpires⟩] at hless
      omega
    · have hsame := hout hash hmem now le_rfl
      omega

/-- Where an attempt is admitted the identifiers of its scopes have capacity left. -/
theorem load_lt_of_admitted (hvalid : validateAndHashLoginScopes keyForIdentifier scopes = some hashes)
    (hlimits : SameLimits keyForIdentifier limit scopes)
    (hblocked : (B.admission now scopes hashes s).blocked = false) (hmem : hash ∈ hashes) :
    B.load s hash now < limit hash := by
  rw [(hashes_of_validate hvalid).1, List.mem_map] at hmem
  obtain ⟨scope, hscope, rfl⟩ := hmem
  rw [Bool.eq_false_iff, ne_eq, admission_blocked_iff hvalid] at hblocked
  by_contra hfull
  exact hblocked ⟨scope, hscope, by rw [hlimits scope hscope]; exact not_lt.mp hfull⟩

/-! ### The invariant -/

/-- A verifying call whose reservation has not expired has it in the backend. -/
def HeldCall (w : LoginWorld B) (verifying : Verifying) : Prop :=
  w.now < verifying.admittedAt + loginReservationLeaseMs →
    B.Held w.state verifying.reservation.tokenHash verifying.reservation.identifierHashes
      (verifying.admittedAt + loginReservationLeaseMs)

/-- What holds in every state of a run. -/
structure LoginInv (keyForIdentifier : String → IdentifierHash) (limit : IdentifierHash → ℕ)
    (w : LoginWorld B) : Prop where
  within : ∀ hash, B.load w.state hash w.now ≤ limit hash
  held : ∀ call verifying, w.calls call = some verifying → HeldCall w verifying
  valid : ∀ call verifying, w.calls call = some verifying →
    validateAndHashLoginScopes keyForIdentifier verifying.reservation.scopes =
      some verifying.reservation.identifierHashes
  tokens : ∀ call other verifying verifying', w.calls call = some verifying → w.calls other = some verifying' →
    verifying.reservation.tokenHash = verifying'.reservation.tokenHash → call = other

theorem loginInv_initial (hB : Lawful keyForIdentifier B) :
    LoginInv keyForIdentifier limit (LoginWorld.initial B) where
  within hash := by
    obtain ⟨hfailures, hreserved⟩ := hB.empty hash 0
    unfold LoginBackend.load LoginWorld.initial
    rw [hfailures, hreserved]
    exact Nat.zero_le _
  held _ _ h := by cases h
  valid _ _ h := by cases h
  tokens _ _ _ _ h := by cases h

/-- The calls stay, and the backend keeps what counts and the reservations. -/
theorem LoginInv.keep {state : B.State} (hinv : LoginInv keyForIdentifier limit w)
    (hload : ∀ hash, B.load state hash w.now ≤ B.load w.state hash w.now)
    (hkeeps : B.KeepsTokens w.now none w.state state) :
    LoginInv keyForIdentifier limit { w with state := state } where
  within hash := (hload hash).trans (hinv.within hash)
  held call verifying hcall hlive :=
    hkeeps _ _ _ (by simp) hlive (hinv.held call verifying hcall hlive)
  valid := hinv.valid
  tokens := hinv.tokens

theorem loginInv_tick (hinv : LoginInv keyForIdentifier limit w) (h : w.now ≤ now) :
    LoginInv keyForIdentifier limit { w with now := now } where
  within hash := (load_antitone h).trans (hinv.within hash)
  held call verifying hcall hlive := hinv.held call verifying hcall (lt_of_le_of_lt h hlive)
  valid := hinv.valid
  tokens := hinv.tokens

theorem loginInv_admitted {call : CallId} {state : B.State} (hinv : LoginInv keyForIdentifier limit w)
    (hvalid : validateAndHashLoginScopes keyForIdentifier scopes = some hashes)
    (hlimits : SameLimits keyForIdentifier limit scopes)
    (hblocked : (B.admission w.now scopes hashes w.state).blocked = false)
    (hnew : ∀ other verifying, w.calls other = some verifying → verifying.reservation.tokenHash ≠ token)
    (hreserved : B.Reserved w.now hashes (w.now + loginReservationLeaseMs) w.state state)
    (hheld : B.Held state token hashes (w.now + loginReservationLeaseMs))
    (hkeeps : B.KeepsTokens w.now none w.state state) :
    LoginInv keyForIdentifier limit
      { w with
        state := state
        calls := Function.update w.calls call (some ⟨⟨hashes, scopes, token⟩, w.now⟩) } where
  within hash := by
    have hload : B.load state hash w.now ≤ B.load w.state hash w.now + if hash ∈ hashes then 1 else 0 :=
      load_of_reserved hreserved
    have hwithin := hinv.within hash
    show B.load state hash w.now ≤ limit hash
    by_cases hmem : hash ∈ hashes
    · have hlt := load_lt_of_admitted hvalid hlimits hblocked hmem
      rw [if_pos hmem] at hload
      omega
    · rw [if_neg hmem] at hload
      omega
  held other verifying hcall hlive := by
    dsimp only at hcall hlive ⊢
    by_cases he : other = call
    · subst he
      rw [Function.update_self] at hcall
      cases hcall
      exact hheld
    · rw [Function.update_of_ne he] at hcall
      exact hkeeps _ _ _ (by simp) hlive (hinv.held other verifying hcall hlive)
  valid other verifying hcall := by
    dsimp only at hcall
    by_cases he : other = call
    · subst he
      rw [Function.update_self] at hcall
      cases hcall
      exact hvalid
    · rw [Function.update_of_ne he] at hcall
      exact hinv.valid other verifying hcall
  tokens one other verifying verifying' hone hother heq := by
    dsimp only at hone hother
    by_cases h1 : one = call
    · by_cases h2 : other = call
      · exact h1.trans h2.symm
      · rw [h1, Function.update_self] at hone
        rw [Function.update_of_ne h2] at hother
        cases hone
        exact absurd heq.symm (hnew other verifying' hother)
    · rw [Function.update_of_ne h1] at hone
      by_cases h2 : other = call
      · rw [h2, Function.update_self] at hother
        cases hother
        exact absurd heq (hnew one verifying hone)
      · rw [Function.update_of_ne h2] at hother
        exact hinv.tokens one other verifying verifying' hone hother heq

theorem loginInv_settled {call : CallId} {verifying : Verifying} {outcome : SettleOutcome}
    {state : B.State} (hinv : LoginInv keyForIdentifier limit w)
    (hcall : w.calls call = some verifying) (hlive : w.now < verifying.admittedAt + loginReservationLeaseMs)
    (hsettled : B.Settled w.now outcome verifying.reservation.identifierHashes
      (verifying.admittedAt + loginReservationLeaseMs) w.state state)
    (hkeeps : B.KeepsTokens w.now (some verifying.reservation.tokenHash) w.state state) :
    LoginInv keyForIdentifier limit
      { w with state := state, calls := Function.update w.calls call none } where
  within hash := (load_of_settled hsettled hlive).trans (hinv.within hash)
  held other verifying' hother hlive' := by
    dsimp only at hother hlive' ⊢
    by_cases he : other = call
    · subst he
      rw [Function.update_self] at hother
      cases hother
    · rw [Function.update_of_ne he] at hother
      refine hkeeps _ _ _ (fun heq => he ?_) hlive' (hinv.held other verifying' hother hlive')
      exact hinv.tokens other call verifying' verifying hother hcall (Option.some.inj heq)
  valid other verifying' hother := by
    dsimp only at hother
    by_cases he : other = call
    · subst he
      rw [Function.update_self] at hother
      cases hother
    · rw [Function.update_of_ne he] at hother
      exact hinv.valid other verifying' hother
  tokens one other verifying1 verifying2 hone hother heq := by
    dsimp only at hone hother
    by_cases h1 : one = call
    · rw [h1, Function.update_self] at hone
      cases hone
    · by_cases h2 : other = call
      · rw [h2, Function.update_self] at hother
        cases hother
      · rw [Function.update_of_ne h1] at hone
        rw [Function.update_of_ne h2] at hother
        exact hinv.tokens one other verifying1 verifying2 hone hother heq

/-- Settling a call that verifies succeeds, and changes what it should. -/
theorem settled_call (hB : Lawful keyForIdentifier B) (hinv : LoginInv keyForIdentifier limit w) {call : CallId}
    {verifying : Verifying} (hcall : w.calls call = some verifying)
    (hlive : w.now < verifying.admittedAt + loginReservationLeaseMs) (outcome : SettleOutcome) :
    ∃ result state, B.settle w.now verifying.reservation outcome w.state = some (result, state) ∧
      B.Settled w.now outcome verifying.reservation.identifierHashes
        (verifying.admittedAt + loginReservationLeaseMs) w.state state ∧
      B.KeepsTokens w.now (some verifying.reservation.tokenHash) w.state state :=
  hB.settled w.now _ _ _ _ outcome w.state (hinv.valid call verifying hcall)
    (hinv.held call verifying hcall hlive) hlive

theorem loginInv_step (hB : Lawful keyForIdentifier B) {e : LoginEvent}
    (hinv : LoginInv keyForIdentifier limit w) (h : LoginStep B keyForIdentifier limit w e w') :
    LoginInv keyForIdentifier limit w' := by
  cases e with
  | tick now =>
    obtain ⟨hle, rfl⟩ := h
    exact loginInv_tick hinv hle
  | reserve call scopes token =>
    obtain ⟨hlimits, hfresh, hnew, -, rfl⟩ := h
    cases hvalid : validateAndHashLoginScopes keyForIdentifier scopes with
    | none =>
      rw [hB.invalid w.now scopes token w.state hvalid]
      exact hinv
    | some hashes =>
      cases hblocked : (B.admission w.now scopes hashes w.state).blocked with
      | true =>
        rw [hB.refused w.now scopes hashes token w.state hvalid hblocked]
        exact hinv
      | false =>
        obtain ⟨state, heq, hreserved, hheld, hkeeps⟩ :=
          hB.admitted w.now scopes hashes token w.state hvalid hblocked hfresh
        rw [heq]
        exact loginInv_admitted hinv hvalid hlimits hblocked hnew hreserved hheld hkeeps
  | finish call verifierEnd =>
    obtain ⟨verifying, hcall, hlive, rfl⟩ := h
    obtain ⟨result, state, heq, hsettled, hkeeps⟩ := settled_call hB hinv hcall hlive verifierEnd.outcome
    rw [heq]
    exact loginInv_settled hinv hcall hlive hsettled hkeeps
  | prune =>
    obtain ⟨state, hprunes, rfl⟩ := h
    obtain ⟨hsame, hkeeps⟩ := hB.pruned w.now w.state state hprunes
    exact hinv.keep (fun hash => (load_of_sameFrom hsame le_rfl).le) hkeeps

theorem loginInv_run (hB : Lawful keyForIdentifier B) {events : List LoginEvent}
    (h : Run (LoginStep B keyForIdentifier limit) (LoginWorld.initial B) events w) :
    LoginInv keyForIdentifier limit w :=
  h.invariant (fun _ _ _ hinv hstep => loginInv_step hB hinv hstep) (loginInv_initial hB)

/-! ### Capacity -/

/-- What an attempt takes of the capacity. -/
def CapacityTaken (B : LoginBackend) (now : Timestamp) (scopes : List AuthRateLimitScope) (s s' : B.State) :
    LoginRateLimitAdmission → Prop
  | .refused _ => s' = s
  | .admitted reservation => reservation.scopes = scopes ∧
      B.Reserved now reservation.identifierHashes (now + loginReservationLeaseMs) s s'

/-- An attempt takes one reservation of each of its identifiers, or none where it is not admitted. -/
theorem capacity_taken (hB : Lawful keyForIdentifier B) (hfresh : B.Fresh s token)
    {admission : LoginRateLimitAdmission} (h : B.reserve now scopes token s = some (admission, s')) :
    CapacityTaken B now scopes s s' admission := by
  cases hvalid : validateAndHashLoginScopes keyForIdentifier scopes with
  | none =>
    rw [hB.invalid now scopes token s hvalid] at h
    cases h
  | some hashes =>
    cases hblocked : (B.admission now scopes hashes s).blocked with
    | true =>
      rw [hB.refused now scopes hashes token s hvalid hblocked] at h
      cases h
      exact rfl
    | false =>
      obtain ⟨state, heq, hreserved, -, -⟩ := hB.admitted now scopes hashes token s hvalid hblocked hfresh
      rw [heq] at h
      cases h
      exact ⟨rfl, hreserved⟩

/-! ### The time to wait -/

/-- Nothing but the clock and the clean-up moves. -/
def QuietStep (B : LoginBackend) (w w' : LoginWorld B) : Prop :=
  (∃ now, w.now ≤ now ∧ w' = { w with now := now }) ∨
    ∃ state, B.Prunes w.now w.state state ∧ w' = { w with state := state }

theorem quiet_load (hB : Lawful keyForIdentifier B) (h : Relation.ReflTransGen (QuietStep B) w w') :
    w.now ≤ w'.now ∧ ∀ hash t, w'.now ≤ t → B.load w'.state hash t = B.load w.state hash t := by
  induction h with
  | refl => exact ⟨le_rfl, fun _ _ _ => rfl⟩
  | tail _ hstep ih =>
    obtain ⟨hnow, hload⟩ := ih
    rcases hstep with ⟨now, hle, rfl⟩ | ⟨state, hprunes, rfl⟩
    · exact ⟨hnow.trans hle, fun hash t ht => hload hash t (hle.trans ht)⟩
    · obtain ⟨hsame, -⟩ := hB.pruned _ _ _ hprunes
      exact ⟨hnow, fun hash t ht => (load_of_sameFrom hsame ht).trans (hload hash t ht)⟩

/-- Whether an attempt is refused depends on the load of its identifiers. -/
theorem admission_congr (hvalid : validateAndHashLoginScopes keyForIdentifier scopes = some hashes)
    (h : ∀ hash, B.load s' hash t = B.load s hash t) :
    (B.admission t scopes hashes s').blocked = (B.admission t scopes hashes s).blocked := by
  rw [Bool.eq_iff_iff, admission_blocked_iff hvalid, admission_blocked_iff hvalid]
  simp only [h]

/-- An answer of a refusal is that of scopes that are valid. -/
theorem refused_iff (hB : Lawful keyForIdentifier B) (hfresh : B.Fresh s token)
    {rateLimit : LoginRateLimitState} :
    B.reserve now scopes token s = some (.refused rateLimit, s') ↔
      ∃ hashes, validateAndHashLoginScopes keyForIdentifier scopes = some hashes ∧
        (B.admission now scopes hashes s).blocked = true ∧ rateLimit = B.admission now scopes hashes s ∧
        s' = s := by
  constructor
  · intro h
    cases hvalid : validateAndHashLoginScopes keyForIdentifier scopes with
    | none =>
      rw [hB.invalid now scopes token s hvalid] at h
      cases h
    | some hashes =>
      cases hblocked : (B.admission now scopes hashes s).blocked with
      | true =>
        rw [hB.refused now scopes hashes token s hvalid hblocked] at h
        cases h
        exact ⟨hashes, rfl, hblocked, rfl, rfl⟩
      | false =>
        obtain ⟨state, heq, -, -, -⟩ := hB.admitted now scopes hashes token s hvalid hblocked hfresh
        rw [heq] at h
        cases h
  · rintro ⟨hashes, hvalid, hblocked, rfl, rfl⟩
    exact hB.refused now scopes hashes token s' hvalid hblocked

/-- **The time a refusal tells**: an attempt after it is admitted, one a second before it is refused. -/
theorem refused_retry (hB : Lawful keyForIdentifier B) (hfresh : B.Fresh w.state token)
    {rateLimit : LoginRateLimitState}
    (h : B.reserve w.now scopes token w.state = some (.refused rateLimit, s'))
    (hquiet : Relation.ReflTransGen (QuietStep B) { w with state := s' } w') {token' : TokenHash}
    (hfresh' : B.Fresh w'.state token') :
    (w.now + 1000 * rateLimit.retryAfterSeconds ≤ w'.now → ∃ reservation state,
      B.reserve w'.now scopes token' w'.state = some (.admitted reservation, state)) ∧
    (1 < rateLimit.retryAfterSeconds → w'.now + 1000 ≤ w.now + 1000 * rateLimit.retryAfterSeconds →
      ∃ rateLimit' state, B.reserve w'.now scopes token' w'.state = some (.refused rateLimit', state)) := by
  obtain ⟨hashes, hvalid, hblocked, rfl, rfl⟩ := (refused_iff hB hfresh).mp h
  obtain ⟨hnow, hload⟩ := quiet_load hB hquiet
  have hsame := admission_congr hvalid fun hash => hload hash w'.now le_rfl
  constructor
  · intro hwait
    have hfree : (B.admission w'.now scopes hashes w'.state).blocked = false :=
      hsame.trans (unblocked_after_retry hvalid hblocked hwait)
    obtain ⟨state, heq, -, -, -⟩ :=
      hB.admitted w'.now scopes hashes token' w'.state hvalid hfree hfresh'
    exact ⟨_, state, heq⟩
  · intro hone hearly
    have hfull : (B.admission w'.now scopes hashes w'.state).blocked = true :=
      hsame.trans (blocked_before_retry hvalid hblocked hone hnow hearly)
    exact ⟨_, _, (refused_iff hB hfresh').mpr ⟨hashes, hvalid, hfull, rfl, rfl⟩⟩

end OwnMinutes.Auth.LoginSafety
