import OwnMinutes.Auth.LoginLimits
import OwnMinutes.Lib.Runs

/-! # Runs of limited login attempts

Where failures and reservations are kept is a `LoginBackend`: it reserves and settles, and tells the entry and
the reservations of an identifier. `Lawful` are the laws of a backend, in terms of what counts from a moment
on: an admitted attempt adds one reservation to each of its identifiers, settling takes it away, and a failure
adds one to the entry. In runs of any number of `runLoginRateLimitedVerifier` calls no identifier is ever over
its limit (`loginInv_step`). -/

namespace OwnMinutes.Auth.LoginRuns

open OwnMinutes.Auth.ProcessingRoute OwnMinutes.Lib.Expiring OwnMinutes.Lib.Runs
open OwnMinutes.Auth.LoginLimits

/-- The entry, if it has not expired at `t`. -/
def liveEntry (t : ℕ) : Option (ℕ × ℕ) → Option (ℕ × ℕ)
  | some entry => if t < entry.2 then some entry else none
  | none => none

@[simp] theorem liveEntry_none (t : ℕ) : liveEntry t none = none := rfl

@[simp] theorem liveEntry_some (t : ℕ) (entry : ℕ × ℕ) :
    liveEntry t (some entry) = if t < entry.2 then some entry else none := rfl

/-- A store of failures and reservations. `none` of `reserve` and `settle` is an error of the backend. -/
structure LoginBackend where
  State : Type
  empty : State
  reserve : Timestamp → List AuthRateLimitScope → TokenHash → State → Option (LoginRateLimitAdmission × State)
  settle : Timestamp → LoginRateLimitReservation → SettleOutcome → State →
    Option (LoginRateLimitState × State)
  /-- What a clean-up at a time may leave. -/
  Prunes : Timestamp → State → State → Prop
  /-- The failures of an identifier and the time they expire at. -/
  failures : State → IdentifierHash → Option (ℕ × ℕ)
  /-- The times at which the reservations of an identifier expire. -/
  expirations : State → IdentifierHash → List ℕ
  /-- The token is that of a reservation of these identifiers. -/
  Held : State → TokenHash → List IdentifierHash → Timestamp → Prop
  Fresh : State → TokenHash → Prop

namespace LoginBackend

variable (B : LoginBackend)

/-- The failures of the unexpired entry of an identifier. -/
def failureCount (s : B.State) (hash : IdentifierHash) (t : ℕ) : ℕ :=
  (liveEntry t (B.failures s hash)).elim 0 (·.1)

/-- The unexpired reservations of an identifier. -/
def reservedCount (s : B.State) (hash : IdentifierHash) (t : ℕ) : ℕ :=
  (B.expirations s hash).countP (t < ·)

def load (s : B.State) (hash : IdentifierHash) (t : ℕ) : ℕ :=
  B.failureCount s hash t + B.reservedCount s hash t

/-- The admission state of the scopes. -/
def admission (now : Timestamp) (scopes : List AuthRateLimitScope) (identifierHashes : List IdentifierHash)
    (s : B.State) : LoginRateLimitState :=
  aggregateRateLimitStates (List.zipWith (fun scope hash =>
    let entry := liveEntry now (B.failures s hash)
    admissionRateLimitState (entry.elim 0 (·.1)) (entry.map (·.2)) scope.maxAttempts now
      ((B.expirations s hash).filter (now < ·))) scopes identifierHashes)

/-- From `t` on the same counts. -/
def SameFrom (t : Timestamp) (s s' : B.State) : Prop :=
  ∀ hash u, t ≤ u → B.failureCount s' hash u = B.failureCount s hash u ∧
    B.reservedCount s' hash u = B.reservedCount s hash u

/-- The reservations of tokens that have not expired are kept, but for those of `token`. -/
def KeepsTokens (now : Timestamp) (token : Option TokenHash) (s s' : B.State) : Prop :=
  ∀ other hashes expiresAt, some other ≠ token → now < expiresAt → B.Held s other hashes expiresAt →
    B.Held s' other hashes expiresAt

/-- A reservation more for each identifier, which expires at `expiresAt`. -/
def Reserved (now : Timestamp) (identifierHashes : List IdentifierHash) (expiresAt : Timestamp)
    (s s' : B.State) : Prop :=
  ∀ hash u, now ≤ u → B.failureCount s' hash u = B.failureCount s hash u ∧
    B.reservedCount s' hash u =
      B.reservedCount s hash u + if hash ∈ identifierHashes ∧ u < expiresAt then 1 else 0

/-- A reservation less for each identifier, and nothing else. -/
def Released (now : Timestamp) (identifierHashes : List IdentifierHash) (expiresAt : Timestamp)
    (s s' : B.State) : Prop :=
  ∀ hash u, now ≤ u → B.failureCount s' hash u = B.failureCount s hash u ∧
    B.reservedCount s' hash u + (if hash ∈ identifierHashes ∧ u < expiresAt then 1 else 0) =
      B.reservedCount s hash u

/-- A reservation less and now a failure more for each identifier. -/
def Failed (now : Timestamp) (identifierHashes : List IdentifierHash) (expiresAt : Timestamp)
    (s s' : B.State) : Prop :=
  (∀ hash u, now ≤ u → B.reservedCount s' hash u +
    (if hash ∈ identifierHashes ∧ u < expiresAt then 1 else 0) = B.reservedCount s hash u) ∧
  (∀ hash ∈ identifierHashes, B.failureCount s' hash now = B.failureCount s hash now + 1) ∧
  ∀ hash, hash ∉ identifierHashes → ∀ u, now ≤ u → B.failureCount s' hash u = B.failureCount s hash u

/-- What settling a reservation changes. -/
def Settled (now : Timestamp) (outcome : SettleOutcome) (identifierHashes : List IdentifierHash)
    (expiresAt : Timestamp) (s s' : B.State) : Prop :=
  match outcome with
  | .release => B.Released now identifierHashes expiresAt s s'
  | .failure => B.Failed now identifierHashes expiresAt s s'

end LoginBackend

/-- **The laws of a backend.** -/
structure Lawful (keyForIdentifier : String → IdentifierHash) (B : LoginBackend) : Prop where
  empty : ∀ hash t, B.failureCount B.empty hash t = 0 ∧ B.reservedCount B.empty hash t = 0
  invalid : ∀ now scopes token s, validateAndHashLoginScopes keyForIdentifier scopes = none →
    B.reserve now scopes token s = none
  refused : ∀ now scopes hashes token s, validateAndHashLoginScopes keyForIdentifier scopes = some hashes →
    (B.admission now scopes hashes s).blocked = true →
    B.reserve now scopes token s = some (.refused (B.admission now scopes hashes s), s)
  admitted : ∀ now scopes hashes token s, validateAndHashLoginScopes keyForIdentifier scopes = some hashes →
    (B.admission now scopes hashes s).blocked = false → B.Fresh s token →
    ∃ s', B.reserve now scopes token s = some (.admitted ⟨hashes, scopes, token⟩, s') ∧
      B.Reserved now hashes (now + loginReservationLeaseMs) s s' ∧
      B.Held s' token hashes (now + loginReservationLeaseMs) ∧ B.KeepsTokens now none s s'
  settled : ∀ now scopes hashes token expiresAt outcome s,
    validateAndHashLoginScopes keyForIdentifier scopes = some hashes → B.Held s token hashes expiresAt →
    now < expiresAt →
    ∃ result s', B.settle now ⟨hashes, scopes, token⟩ outcome s = some (result, s') ∧
      B.Settled now outcome hashes expiresAt s s' ∧ B.KeepsTokens now (some token) s s'
  pruned : ∀ now s s', B.Prunes now s s' → B.SameFrom now s s' ∧ B.KeepsTokens now none s s'

/-! ### Runs -/

abbrev CallId := ℕ

/-- A call that verifies, with the time it was admitted at. -/
structure Verifying where
  reservation : LoginRateLimitReservation
  admittedAt : Timestamp
  deriving DecidableEq, Repr

structure LoginWorld (B : LoginBackend) where
  state : B.State
  now : Timestamp
  calls : CallId → Option Verifying

def LoginWorld.initial (B : LoginBackend) : LoginWorld B := ⟨B.empty, 0, fun _ => none⟩

/-- How the verifier ends: only a credential failure counts. -/
inductive VerifierEnd
  | value
  | credentialFailure
  | otherError
  deriving DecidableEq, Repr

def VerifierEnd.outcome : VerifierEnd → SettleOutcome
  | .value => .release
  | .credentialFailure => .failure
  | .otherError => .release

/-- The steps of `runLoginRateLimitedVerifier` calls, the clock and the clean-up. -/
inductive LoginEvent
  | tick (now : Timestamp)
  | reserve (call : CallId) (scopes : List AuthRateLimitScope) (token : TokenHash)
  | finish (call : CallId) (verifierEnd : VerifierEnd)
  | prune
  deriving DecidableEq, Repr

section Steps

variable (B : LoginBackend) (keyForIdentifier : String → IdentifierHash) (limit : IdentifierHash → ℕ)

/-- All callers have the same limit for an identifier. -/
def SameLimits (scopes : List AuthRateLimitScope) : Prop :=
  ∀ scope ∈ scopes, scope.maxAttempts = limit (keyForIdentifier scope.identifier)

/-- What `reserveLoginRateLimitCapacity` leaves of a call. -/
def LoginWorld.reserved {B : LoginBackend} (w : LoginWorld B) (call : CallId)
    (answer : Option (LoginRateLimitAdmission × B.State)) : LoginWorld B :=
  match answer with
  | none => w
  | some (.refused _, state) => { w with state := state }
  | some (.admitted reservation, state) =>
    { w with state := state, calls := Function.update w.calls call (some ⟨reservation, w.now⟩) }

def LoginWorld.settled {B : LoginBackend} (w : LoginWorld B) (call : CallId)
    (answer : Option (LoginRateLimitState × B.State)) : LoginWorld B :=
  match answer with
  | none => { w with calls := Function.update w.calls call none }
  | some (_, state) => { w with state := state, calls := Function.update w.calls call none }

/-- A step of a run: the clock does not go back, tokens are new, and a verification ends before its
reservation expires. -/
def LoginStep (w : LoginWorld B) (e : LoginEvent) (w' : LoginWorld B) : Prop :=
  match e with
  | .tick now => w.now ≤ now ∧ w' = { w with now := now }
  | .reserve call scopes token =>
    SameLimits keyForIdentifier limit scopes ∧ B.Fresh w.state token ∧
      (∀ other verifying, w.calls other = some verifying → verifying.reservation.tokenHash ≠ token) ∧
      w.calls call = none ∧ w' = w.reserved call (B.reserve w.now scopes token w.state)
  | .finish call verifierEnd => ∃ verifying, w.calls call = some verifying ∧
      w.now < verifying.admittedAt + loginReservationLeaseMs ∧
      w' = w.settled call (B.settle w.now verifying.reservation verifierEnd.outcome w.state)
  | .prune => ∃ state, B.Prunes w.now w.state state ∧ w' = { w with state := state }

end Steps

/-! ### What an admission says -/

section Admission

variable {B : LoginBackend} {keyForIdentifier : String → IdentifierHash} {limit : IdentifierHash → ℕ}
  {now t u : ℕ} {scopes : List AuthRateLimitScope} {hashes : List IdentifierHash} {s s' : B.State}
  {hash : IdentifierHash}

/-- The admission state of one scope. -/
def scopeState (B : LoginBackend) (now : Timestamp) (s : B.State) (hash : IdentifierHash) (maxAttempts : ℕ) :
    LoginRateLimitState :=
  let entry := liveEntry now (B.failures s hash)
  admissionRateLimitState (entry.elim 0 (·.1)) (entry.map (·.2)) maxAttempts now
    ((B.expirations s hash).filter (now < ·))

theorem hashes_of_validate (h : validateAndHashLoginScopes keyForIdentifier scopes = some hashes) :
    hashes = scopes.map (fun scope => keyForIdentifier scope.identifier) ∧ hashes.Nodup ∧ hashes ≠ [] ∧
      ∀ scope ∈ scopes, 0 < scope.maxAttempts := by
  unfold validateAndHashLoginScopes at h
  dsimp only at h
  split_ifs at h with hinvalid hnodup
  cases h
  simp only [Bool.or_eq_true, not_or, List.any_eq_true, not_exists, decide_eq_true_eq] at hinvalid
  refine ⟨rfl, hnodup, fun hnil => ?_, fun scope hmem => ?_⟩
  · rw [List.map_eq_nil_iff] at hnil
    exact hinvalid.1 (by rw [hnil]; rfl)
  · have := hinvalid.2 scope
    by_contra hzero
    exact this ⟨hmem, .inr (by omega)⟩

theorem admission_eq (h : validateAndHashLoginScopes keyForIdentifier scopes = some hashes) :
    B.admission now scopes hashes s = aggregateRateLimitStates (scopes.map fun scope =>
      scopeState B now s (keyForIdentifier scope.identifier) scope.maxAttempts) := by
  rw [(hashes_of_validate h).1]
  unfold LoginBackend.admission
  rw [List.zipWith_map_right, List.zipWith_self]
  rfl

theorem liveEntry_antitone {entry : Option (ℕ × ℕ)} (h : t ≤ u) :
    (liveEntry u entry).elim 0 (·.1) ≤ (liveEntry t entry).elim 0 (·.1) := by
  cases entry with
  | none => exact le_rfl
  | some entry =>
    rw [liveEntry_some, liveEntry_some]
    by_cases hu : u < entry.2
    · have ht : t < entry.2 := by omega
      rw [if_pos hu, if_pos ht]
    · rw [if_neg hu]
      exact Nat.zero_le _

theorem failureCount_antitone (h : t ≤ u) : B.failureCount s hash u ≤ B.failureCount s hash t :=
  liveEntry_antitone h

theorem reservedCount_antitone (h : t ≤ u) : B.reservedCount s hash u ≤ B.reservedCount s hash t := by
  unfold LoginBackend.reservedCount
  refine List.countP_mono_left fun e _ he => ?_
  simp only [decide_eq_true_eq] at he ⊢
  omega

theorem load_antitone (h : t ≤ u) : B.load s hash u ≤ B.load s hash t :=
  Nat.add_le_add (failureCount_antitone h) (reservedCount_antitone h)

/-- What the admission of a scope counts is the load of its identifier. -/
theorem alive_scope (h : now ≤ t) :
    alive (weights ((liveEntry now (B.failures s hash)).elim 0 (·.1))
      ((liveEntry now (B.failures s hash)).map (·.2))
      ((B.expirations s hash).filter (now < ·))) t = B.load s hash t := by
  unfold weights LoginBackend.load LoginBackend.failureCount LoginBackend.reservedCount
  rw [alive_append, alive_ones, List.countP_filter]
  have hcount : (B.expirations s hash).countP (fun e => decide (t < e) && decide (now < e)) =
      (B.expirations s hash).countP (t < ·) := by
    refine List.countP_congr fun e _ => ?_
    simp only [Bool.and_eq_true, decide_eq_true_eq]
    omega
  rw [hcount]
  cases B.failures s hash with
  | none => rfl
  | some entry =>
    by_cases hnow : now < entry.2
    · by_cases ht : t < entry.2
      · simp [hnow, ht]
      · simp [hnow, ht]
    · have ht : ¬ t < entry.2 := by omega
      simp [hnow, ht]

theorem failuresAlive_scope : FailuresAlive ((liveEntry now (B.failures s hash)).elim 0 (·.1))
    ((liveEntry now (B.failures s hash)).map (·.2)) now := by
  cases B.failures s hash with
  | none => rfl
  | some entry =>
    rw [liveEntry_some]
    by_cases hnow : now < entry.2
    · rw [if_pos hnow]
      exact hnow
    · rw [if_neg hnow]
      rfl

theorem scope_blocked_iff {maxAttempts : ℕ} :
    (scopeState B now s hash maxAttempts).blocked = true ↔ maxAttempts ≤ B.load s hash now := by
  unfold scopeState
  rw [blocked_iff failuresAlive_scope, alive_scope le_rfl]

theorem admission_blocked_iff (h : validateAndHashLoginScopes keyForIdentifier scopes = some hashes) :
    (B.admission now scopes hashes s).blocked = true ↔
      ∃ scope ∈ scopes, scope.maxAttempts ≤ B.load s (keyForIdentifier scope.identifier) now := by
  rw [admission_eq h]
  unfold aggregateRateLimitStates
  simp only [List.any_map, List.any_eq_true, Function.comp_apply, scope_blocked_iff]

/-- The time to wait is that of a scope that blocks, and at least that of each of them. -/
theorem retry_of_admission (h : validateAndHashLoginScopes keyForIdentifier scopes = some hashes)
    (hblocked : (B.admission now scopes hashes s).blocked = true) :
    (∃ scope ∈ scopes, (scopeState B now s (keyForIdentifier scope.identifier) scope.maxAttempts).blocked = true ∧
      (B.admission now scopes hashes s).retryAfterSeconds =
        (scopeState B now s (keyForIdentifier scope.identifier) scope.maxAttempts).retryAfterSeconds) ∧
    ∀ scope ∈ scopes, (scopeState B now s (keyForIdentifier scope.identifier) scope.maxAttempts).blocked = true →
      (scopeState B now s (keyForIdentifier scope.identifier) scope.maxAttempts).retryAfterSeconds ≤
        (B.admission now scopes hashes s).retryAfterSeconds := by
  rw [admission_eq h] at hblocked ⊢
  generalize hstates : (scopes.map fun scope =>
    scopeState B now s (keyForIdentifier scope.identifier) scope.maxAttempts) = states at hblocked ⊢
  unfold aggregateRateLimitStates at hblocked ⊢
  dsimp only at hblocked ⊢
  obtain ⟨state, hmem, hstate⟩ := List.any_eq_true.mp hblocked
  have hsome : ((states.filter (·.blocked)).map (·.retryAfterSeconds)).max?.isSome := by
    rw [Option.isSome_iff_ne_none, ne_eq, List.max?_eq_none_iff, List.map_eq_nil_iff, List.filter_eq_nil_iff]
    exact fun hnone => hnone state hmem hstate
  obtain ⟨retry, hretry⟩ := Option.isSome_iff_exists.mp hsome
  rw [hretry, Option.getD_some]
  obtain ⟨hin, hmax⟩ := List.max?_eq_some_iff.mp hretry
  constructor
  · obtain ⟨blocked, hblocked, rfl⟩ := List.mem_map.mp hin
    obtain ⟨hmem, hb⟩ := List.mem_filter.mp hblocked
    rw [← hstates] at hmem
    obtain ⟨scope, hscope, rfl⟩ := List.mem_map.mp hmem
    exact ⟨scope, hscope, hb, rfl⟩
  · intro scope hscope hb
    refine hmax _ (List.mem_map.mpr ⟨_, List.mem_filter.mpr ⟨?_, hb⟩, rfl⟩)
    rw [← hstates]
    exact List.mem_map.mpr ⟨scope, hscope, rfl⟩

/-- **After the time to wait** the scopes admit an attempt. -/
theorem unblocked_after_retry (h : validateAndHashLoginScopes keyForIdentifier scopes = some hashes)
    (hblocked : (B.admission now scopes hashes s).blocked = true)
    (ht : now + 1000 * (B.admission now scopes hashes s).retryAfterSeconds ≤ t) :
    (B.admission t scopes hashes s).blocked = false := by
  obtain ⟨-, hmax⟩ := retry_of_admission h hblocked
  rw [Bool.eq_false_iff, ne_eq, admission_blocked_iff h]
  rintro ⟨scope, hscope, hload⟩
  have hpos := (hashes_of_validate h).2.2.2 scope hscope
  by_cases hb : (scopeState B now s (keyForIdentifier scope.identifier) scope.maxAttempts).blocked = true
  · have hle := hmax scope hscope hb
    have hwait : now + 1000 * (scopeState B now s (keyForIdentifier scope.identifier)
        scope.maxAttempts).retryAfterSeconds ≤ t := by omega
    have hadmits := retry_admits failuresAlive_scope hpos ((blocked_iff failuresAlive_scope).mp hb) hwait
    rw [alive_scope (by omega)] at hadmits
    omega
  · rw [scope_blocked_iff] at hb
    have hfalls : B.load s (keyForIdentifier scope.identifier) t ≤
        B.load s (keyForIdentifier scope.identifier) now := load_antitone (by omega)
    omega

/-- **A second before that** they do not. -/
theorem blocked_before_retry (h : validateAndHashLoginScopes keyForIdentifier scopes = some hashes)
    (hblocked : (B.admission now scopes hashes s).blocked = true)
    (hone : 1 < (B.admission now scopes hashes s).retryAfterSeconds) (hnow : now ≤ t)
    (ht : t + 1000 ≤ now + 1000 * (B.admission now scopes hashes s).retryAfterSeconds) :
    (B.admission t scopes hashes s).blocked = true := by
  obtain ⟨⟨scope, hscope, hb, hretry⟩, -⟩ := retry_of_admission h hblocked
  have hpos := (hashes_of_validate h).2.2.2 scope hscope
  rw [hretry] at hone ht
  have hblocks := retry_blocks failuresAlive_scope hpos ((blocked_iff failuresAlive_scope).mp hb) hone hnow ht
  rw [alive_scope hnow] at hblocks
  exact (admission_blocked_iff h).mpr ⟨scope, hscope, hblocks⟩

end Admission

end OwnMinutes.Auth.LoginRuns
