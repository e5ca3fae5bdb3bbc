import OwnMinutes.Lib.Expiring
import OwnMinutes.Auth.ProcessingRoute

/-! # Admission of login attempts

`auth-rate-limit.ts`: an attempt is admitted where, in each of its scopes, the failures of the window and the
reservations of attempts that are being verified are fewer than the attempts of the scope. `weights` are the
failures and the reservations of an identifier with the times they expire at, and `alive` is what counts:
`blocked_iff`, `retry_admits` and `retry_blocks` say what an admission state means in these terms. -/

namespace OwnMinutes.Auth.LoginLimits

open OwnMinutes.Auth.ProcessingRoute OwnMinutes.Lib.Expiring

abbrev IdentifierHash := String
abbrev TokenHash := String

/-- `LOGIN_WINDOW_MS` -/
def loginWindowMs : ℕ := 15 * 60 * 1000

/-- `LOGIN_RESERVATION_LEASE_MS` -/
def loginReservationLeaseMs : ℕ := loginWindowMs

/-- `LOGIN_RESERVATION_RETENTION_MS` -/
def loginReservationRetentionMs : ℕ := loginWindowMs

inductive ScopeKind
  | pair
  | email
  | ip
  deriving DecidableEq, Repr

structure AuthRateLimitScope where
  identifier : String
  maxAttempts : ℕ
  scope : ScopeKind
  deriving DecidableEq, Repr

structure LoginRateLimitState where
  blocked : Bool
  remainingAttempts : ℕ
  retryAfterSeconds : ℕ
  deriving DecidableEq, Repr

structure LoginRateLimitReservation where
  identifierHashes : List IdentifierHash
  scopes : List AuthRateLimitScope
  tokenHash : TokenHash
  deriving DecidableEq, Repr

inductive LoginRateLimitAdmission
  | refused (rateLimit : LoginRateLimitState)
  | admitted (reservation : LoginRateLimitReservation)
  deriving DecidableEq, Repr

/-- How a reservation is settled. -/
inductive SettleOutcome
  | failure
  | release
  deriving DecidableEq, Repr

def allowedState (count maxAttempts : ℕ) : LoginRateLimitState where
  blocked := false
  remainingAttempts := maxAttempts - count
  retryAfterSeconds := 0

def aggregateRateLimitStates (states : List LoginRateLimitState) : LoginRateLimitState where
  blocked := states.any (·.blocked)
  remainingAttempts := (states.map (·.remainingAttempts)).min?.getD 0
  retryAfterSeconds := ((states.filter (·.blocked)).map (·.retryAfterSeconds)).max?.getD 0

/-- `Number.MAX_SAFE_INTEGER` -/
def maxSafeInteger : ℕ := 9007199254740991

/-- The hashes of the identifiers; `none` stands for an `AuthRateLimitBackendError`. -/
def validateAndHashLoginScopes (keyForIdentifier : String → IdentifierHash)
    (scopes : List AuthRateLimitScope) : Option (List IdentifierHash) :=
  if scopes.isEmpty || scopes.any fun scope =>
      scope.identifier == "" || maxSafeInteger < scope.maxAttempts || scope.maxAttempts < 1 then
    none
  else
    let identifierHashes := scopes.map fun scope => keyForIdentifier scope.identifier
    if identifierHashes.Nodup then some identifierHashes else none

/-- `sameStringSet` -/
def sameStringSet (left right : List String) : Bool :=
  left.length == right.length && decide left.Nodup && left.all fun value => right.contains value

/-- The changes of the count: each reservation and the failures at the times they expire at. -/
def admissionEvents (failureCount : ℕ) (failureExpiresAt : Option Timestamp) (now : Timestamp)
    (active : List Timestamp) : List (Timestamp × ℤ) :=
  let events := active.foldl (fun events expiresAt => addAt events expiresAt (-1)) []
  match failureExpiresAt with
  | some expiresAt =>
    if 0 < failureCount ∧ expiresAt ≠ 0 ∧ now < expiresAt then
      addAt events expiresAt (-failureCount)
    else
      events
  | none => events

/-- `[...events.entries()].sort(([left], [right]) => left - right)` -/
def sortedEvents (failureCount : ℕ) (failureExpiresAt : Option Timestamp) (now : Timestamp)
    (active : List Timestamp) : List (Timestamp × ℤ) :=
  (admissionEvents failureCount failureExpiresAt now active).mergeSort (·.1 ≤ ·.1)

def admissionRateLimitState (failureCount : ℕ) (failureExpiresAt : Option Timestamp) (maxAttempts : ℕ)
    (now : Timestamp) (reservationExpiresAt : List Timestamp) : LoginRateLimitState :=
  let active := (reservationExpiresAt.filter fun expiresAt => now < expiresAt).mergeSort (· ≤ ·)
  let effectiveCount := failureCount + active.length
  if effectiveCount < maxAttempts then
    allowedState effectiveCount maxAttempts
  else
    let events := sortedEvents failureCount failureExpiresAt now active
    { blocked := true
      remainingAttempts := 0
      retryAfterSeconds :=
        match firstBelow maxAttempts effectiveCount events with
        | some expiresAt => max 1 ((expiresAt - now + 999) / 1000)
        | none => 1 }

/-! ### What an admission state means -/

section Admission

variable {failureCount maxAttempts now t : ℕ} {failureExpiresAt : Option ℕ}
  {active reservationExpiresAt : List ℕ}

/-- The failures, if there are any, and the reservations, with the times they expire at. -/
def weights (failureCount : ℕ) (failureExpiresAt : Option Timestamp)
    (reservationExpiresAt : List Timestamp) : List (ℕ × ℕ) :=
  failureExpiresAt.toList.map (·, failureCount) ++ reservationExpiresAt.map (·, 1)

/-- Failures are those of an entry that has not expired. -/
def FailuresAlive (failureCount : ℕ) (failureExpiresAt : Option Timestamp) (now : Timestamp) : Prop :=
  match failureExpiresAt with
  | some expiresAt => now < expiresAt
  | none => failureCount = 0

theorem upto_foldl_addAt (events : List (Timestamp × ℤ)) :
    upto (active.foldl (fun events expiresAt => addAt events expiresAt (-1)) events) t =
      upto events t - active.countP (· ≤ t) := by
  induction active generalizing events with
  | nil => simp
  | cons expiresAt active ih =>
    rw [List.foldl_cons, ih, upto_addAt, List.countP_cons]
    by_cases h : expiresAt ≤ t
    · simp [h]
      ring
    · simp [h]

theorem falling_foldl_addAt {events : List (Timestamp × ℤ)} (h : Falling events) :
    Falling (active.foldl (fun events expiresAt => addAt events expiresAt (-1)) events) := by
  induction active generalizing events with
  | nil => exact h
  | cons expiresAt active ih =>
    rw [List.foldl_cons]
    exact ih (falling_addAt h (by decide))

theorem falling_admissionEvents : Falling (admissionEvents failureCount failureExpiresAt now active) := by
  have hnil : Falling [] := fun _ h => absurd h List.not_mem_nil
  unfold admissionEvents
  cases failureExpiresAt with
  | none => exact falling_foldl_addAt hnil
  | some expiresAt =>
    dsimp only
    split_ifs
    · exact falling_addAt (falling_foldl_addAt hnil) (by omega)
    · exact falling_foldl_addAt hnil

/-- The reservations that have not expired at `now` in the order in which they do. -/
abbrev activeOf (reservationExpiresAt : List ℕ) (now : ℕ) : List ℕ :=
  (reservationExpiresAt.filter fun expiresAt => now < expiresAt).mergeSort (· ≤ ·)

/-- They are alive at a later time or have expired up to then. -/
theorem length_activeOf (h : now ≤ t) : (activeOf reservationExpiresAt now).length =
    reservationExpiresAt.countP (t < ·) + (activeOf reservationExpiresAt now).countP (· ≤ t) := by
  rw [List.length_mergeSort, (List.mergeSort_perm _ _).countP_eq, List.countP_filter]
  induction reservationExpiresAt with
  | nil => rfl
  | cons expiresAt rest ih =>
    rw [List.filter_cons, List.countP_cons, List.countP_cons]
    by_cases hnow : now < expiresAt
    · rw [if_pos (decide_eq_true hnow), List.length_cons, ih]
      by_cases ht : t < expiresAt
      · rw [if_pos (decide_eq_true ht), if_neg (by simp [not_le.mpr ht])]
        omega
      · rw [if_neg (by simpa using ht), if_pos (by simp [not_lt.mp ht, hnow])]
        omega
    · have ht : ¬ t < expiresAt := by omega
      rw [if_neg (by simpa using hnow), ih]
      simp [hnow, ht]

theorem length_activeOf_now :
    (activeOf reservationExpiresAt now).length = reservationExpiresAt.countP (now < ·) := by
  rw [List.length_mergeSort, List.countP_eq_length_filter]

/-- **The count and its events**: they tell what is alive at a later time. -/
theorem alive_eq (hfailures : FailuresAlive failureCount failureExpiresAt now) (h : now ≤ t) :
    (alive (weights failureCount failureExpiresAt reservationExpiresAt) t : ℤ) =
      (failureCount + (activeOf reservationExpiresAt now).length : ℕ) +
        upto (sortedEvents failureCount failureExpiresAt now (activeOf reservationExpiresAt now)) t := by
  unfold sortedEvents
  rw [upto_perm (List.mergeSort_perm _ _), length_activeOf h]
  unfold weights admissionEvents
  rw [alive_append, alive_ones]
  cases failureExpiresAt with
  | none =>
    have hzero : failureCount = 0 := hfailures
    subst hzero
    simp only [Option.toList_none, List.map_nil, alive_nil, upto_foldl_addAt, upto_nil]
    omega
  | some expiresAt =>
    have hnow : now < expiresAt := hfailures
    simp only [Option.toList_some, List.map_cons, List.map_nil, alive_cons, alive_nil]
    by_cases hpos : 0 < failureCount
    · have hevent : 0 < failureCount ∧ expiresAt ≠ 0 ∧ now < expiresAt := ⟨hpos, by omega, hnow⟩
      rw [if_pos hevent, upto_addAt, upto_foldl_addAt, upto_nil]
      by_cases ht : t < expiresAt
      · rw [if_pos ht, if_neg (not_le.mpr ht)]
        omega
      · rw [if_neg ht, if_pos (not_lt.mp ht)]
        omega
    · have hzero : failureCount = 0 := by omega
      have hevent : ¬ (0 < failureCount ∧ expiresAt ≠ 0 ∧ now < expiresAt) := fun h => hpos h.1
      rw [if_neg hevent, upto_foldl_addAt, upto_nil, hzero, ite_self]
      omega

/-- What counts now. -/
theorem alive_now (hfailures : FailuresAlive failureCount failureExpiresAt now) :
    alive (weights failureCount failureExpiresAt reservationExpiresAt) now =
      failureCount + (activeOf reservationExpiresAt now).length := by
  unfold weights
  rw [alive_append, alive_ones, length_activeOf_now]
  cases failureExpiresAt with
  | none =>
    have hzero : failureCount = 0 := hfailures
    simp [hzero]
  | some expiresAt =>
    have hnow : now < expiresAt := hfailures
    simp [hnow]

theorem blocked_iff (hfailures : FailuresAlive failureCount failureExpiresAt now) :
    (admissionRateLimitState failureCount failureExpiresAt maxAttempts now reservationExpiresAt).blocked = true ↔
      maxAttempts ≤ alive (weights failureCount failureExpiresAt reservationExpiresAt) now := by
  rw [alive_now hfailures]
  unfold admissionRateLimitState
  dsimp only
  split_ifs with hbelow
  · exact ⟨fun h => (by cases h), fun h => absurd hbelow (not_lt.mpr h)⟩
  · exact ⟨fun _ => not_lt.mp hbelow, fun _ => rfl⟩

theorem pairwise_sortedEvents :
    (sortedEvents failureCount failureExpiresAt now active).Pairwise fun a b => a.1 ≤ b.1 := by
  have h : (sortedEvents failureCount failureExpiresAt now active).Pairwise fun a b =>
      decide (a.1 ≤ b.1) = true := by
    refine List.pairwise_mergeSort (fun a b c hab hbc => ?_) (fun a b => ?_) _
    · rw [decide_eq_true_iff] at hab hbc ⊢
      exact hab.trans hbc
    · rw [Bool.or_eq_true, decide_eq_true_iff, decide_eq_true_iff]
      exact le_total _ _
  exact h.imp of_decide_eq_true

theorem falling_sortedEvents : Falling (sortedEvents failureCount failureExpiresAt now active) :=
  fun event hmem => falling_admissionEvents event ((List.mergeSort_perm _ _).mem_iff.mp hmem)

theorem admission_of_full (h : maxAttempts ≤ failureCount + (activeOf reservationExpiresAt now).length) :
    admissionRateLimitState failureCount failureExpiresAt maxAttempts now reservationExpiresAt =
      { blocked := true
        remainingAttempts := 0
        retryAfterSeconds :=
          match firstBelow maxAttempts (failureCount + (activeOf reservationExpiresAt now).length : ℕ)
            (sortedEvents failureCount failureExpiresAt now (activeOf reservationExpiresAt now)) with
          | some expiresAt => max 1 ((expiresAt - now + 999) / 1000)
          | none => 1 } :=
  if_neg (not_lt.mpr h)

/-- The time from which on a refused attempt is admitted again. -/
theorem exists_retry (hfailures : FailuresAlive failureCount failureExpiresAt now) (hpos : 0 < maxAttempts)
    (hblocked : maxAttempts ≤ alive (weights failureCount failureExpiresAt reservationExpiresAt) now) :
    ∃ e, now < e ∧ (admissionRateLimitState failureCount failureExpiresAt maxAttempts now
        reservationExpiresAt).retryAfterSeconds = max 1 ((e - now + 999) / 1000) ∧
      (∀ t, e ≤ t → alive (weights failureCount failureExpiresAt reservationExpiresAt) t < maxAttempts) ∧
      ∀ t, now ≤ t → t < e →
        maxAttempts ≤ alive (weights failureCount failureExpiresAt reservationExpiresAt) t := by
  have hcount := hblocked
  rw [alive_now hfailures] at hcount
  -- all weights have expired in the end
  obtain ⟨last, hnow, hlast⟩ : ∃ last, now ≤ last ∧
      alive (weights failureCount failureExpiresAt reservationExpiresAt) last = 0 := exists_alive_eq_zero _ _
  have hend := @alive_eq _ _ _ _ reservationExpiresAt hfailures hnow
  rw [hlast] at hend
  obtain ⟨e, he⟩ := Option.isSome_iff_exists.mp (firstBelow_isSome pairwise_sortedEvents
    (show _ + upto _ last < (maxAttempts : ℤ) by rw [← hend]; omega) (by omega))
  obtain ⟨hafter, hbefore⟩ := firstBelow_some pairwise_sortedEvents falling_sortedEvents (by omega) he
  have halive : ∀ t, now ≤ t → e ≤ t →
      alive (weights failureCount failureExpiresAt reservationExpiresAt) t < maxAttempts := by
    intro t ht het
    have := @alive_eq _ _ _ _ reservationExpiresAt hfailures ht
    have := hafter t het
    omega
  have hlt : now < e := by
    by_contra hle
    have := halive now le_rfl (not_lt.mp hle)
    omega
  refine ⟨e, hlt, ?_, fun t ht => halive t (by omega) ht, fun t ht hte => ?_⟩
  · rw [admission_of_full hcount, he]
  · have := @alive_eq _ _ _ _ reservationExpiresAt hfailures ht
    have := hbefore t hte
    omega

/-- An attempt after the time to wait is admitted. -/
theorem retry_admits (hfailures : FailuresAlive failureCount failureExpiresAt now) (hpos : 0 < maxAttempts)
    (hblocked : maxAttempts ≤ alive (weights failureCount failureExpiresAt reservationExpiresAt) now)
    (ht : now + 1000 * (admissionRateLimitState failureCount failureExpiresAt maxAttempts now
      reservationExpiresAt).retryAfterSeconds ≤ t) :
    alive (weights failureCount failureExpiresAt reservationExpiresAt) t < maxAttempts := by
  obtain ⟨e, -, hretry, hafter, -⟩ := exists_retry hfailures hpos hblocked
  refine hafter t ?_
  rw [hretry] at ht
  omega

/-- An attempt a second earlier is not, unless that is now. -/
theorem retry_blocks (hfailures : FailuresAlive failureCount failureExpiresAt now) (hpos : 0 < maxAttempts)
    (hblocked : maxAttempts ≤ alive (weights failureCount failureExpiresAt reservationExpiresAt) now)
    (hone : 1 < (admissionRateLimitState failureCount failureExpiresAt maxAttempts now
      reservationExpiresAt).retryAfterSeconds) (hnow : now ≤ t)
    (ht : t + 1000 ≤ now + 1000 * (admissionRateLimitState failureCount failureExpiresAt maxAttempts now
      reservationExpiresAt).retryAfterSeconds) :
    maxAttempts ≤ alive (weights failureCount failureExpiresAt reservationExpiresAt) t := by
  obtain ⟨e, -, hretry, -, hbefore⟩ := exists_retry hfailures hpos hblocked
  refine hbefore t hnow ?_
  rw [hretry] at ht hone
  omega

end Admission

end OwnMinutes.Auth.LoginLimits
