import OwnMinutes.Auth.LoginSafety
import OwnMinutes.Local.LoginLimits
import OwnMinutes.Postgres.LoginLimits

/-! # Login attempts are admitted within the limit

Both backends are lawful, so in runs of either no identifier is over its limit, capacity is taken and given
back exactly, and the time a refusal tells is the time to wait. -/

namespace OwnMinutes.Backends.LoginLimits

open OwnMinutes.Auth.ProcessingRoute OwnMinutes.Lib.Runs
open OwnMinutes.Auth.LoginLimits OwnMinutes.Auth.LoginRuns OwnMinutes.Auth.LoginSafety

/-- What `shouldUsePostgresRateLimits` chooses. -/
def loginBackend (keyForIdentifier : String → IdentifierHash) (usePostgres : Bool) : LoginBackend :=
  if usePostgres then Postgres.LoginLimits.postgresBackend keyForIdentifier
  else Local.LoginLimits.localBackend keyForIdentifier

theorem login_lawful (keyForIdentifier : String → IdentifierHash) (usePostgres : Bool) :
    Lawful keyForIdentifier (loginBackend keyForIdentifier usePostgres) := by
  cases usePostgres with
  | false => exact Local.LoginLimits.local_lawful
  | true => exact Postgres.LoginLimits.postgres_lawful

/-- **Login attempts are admitted within the limit**, in every state that a run of either backend reaches. -/
theorem login_attempts_within_limit (usePostgres : Bool) (keyForIdentifier : String → IdentifierHash)
    (limit : IdentifierHash → ℕ) {events : List LoginEvent}
    {w : LoginWorld (loginBackend keyForIdentifier usePostgres)}
    (h : Run (LoginStep (loginBackend keyForIdentifier usePostgres) keyForIdentifier limit)
      (LoginWorld.initial _) events w) :
    -- no identifier is over its limit
    (∀ hash, LoginBackend.failureCount _ w.state hash w.now + LoginBackend.reservedCount _ w.state hash w.now ≤
      limit hash) ∧
    -- an attempt takes one reservation of each identifier, a refused one none
    (∀ scopes token admission state, LoginBackend.Fresh _ w.state token →
      LoginBackend.reserve _ w.now scopes token w.state = some (admission, state) →
      CapacityTaken _ w.now scopes w.state state admission) ∧
    -- settling gives the reservations back, and a failure counts one more in each scope
    (∀ call verifying outcome, w.calls call = some verifying →
      w.now < verifying.admittedAt + loginReservationLeaseMs →
      verifying.reservation.identifierHashes =
          verifying.reservation.scopes.map (fun scope => keyForIdentifier scope.identifier) ∧
        ∃ result state, LoginBackend.settle _ w.now verifying.reservation outcome w.state = some (result, state) ∧
          LoginBackend.Settled _ w.now outcome verifying.reservation.identifierHashes
            (verifying.admittedAt + loginReservationLeaseMs) w.state state) ∧
    -- a refusal tells the time to wait
    ∀ scopes token rateLimit state, LoginBackend.Fresh _ w.state token →
      LoginBackend.reserve _ w.now scopes token w.state = some (.refused rateLimit, state) →
      ∀ w' token', Relation.ReflTransGen (QuietStep _) { w with state := state } w' →
        LoginBackend.Fresh _ w'.state token' →
        (w.now + 1000 * rateLimit.retryAfterSeconds ≤ w'.now → ∃ reservation state',
          LoginBackend.reserve _ w'.now scopes token' w'.state = some (.admitted reservation, state')) ∧
        (1 < rateLimit.retryAfterSeconds → w'.now + 1000 ≤ w.now + 1000 * rateLimit.retryAfterSeconds →
          ∃ rateLimit' state',
            LoginBackend.reserve _ w'.now scopes token' w'.state = some (.refused rateLimit', state')) := by
  have hB := login_lawful keyForIdentifier usePostgres
  have hinv := loginInv_run hB h
  refine ⟨hinv.within, fun scopes token admission state hfresh hreserve => ?_,
    fun call verifying outcome hcall hlive => ⟨?_, ?_⟩,
    fun scopes token rateLimit state hfresh hreserve w' token' hquiet hfresh' => ?_⟩
  · exact capacity_taken hB hfresh hreserve
  · exact (hashes_of_validate (hinv.valid call verifying hcall)).1
  · obtain ⟨result, state, hsettle, hsettled, -⟩ := settled_call hB hinv hcall hlive outcome
    exact ⟨result, state, hsettle, hsettled⟩
  · exact refused_retry hB hfresh hreserve hquiet hfresh'

/-! ### An attempt after another one -/

def mailScopes : List AuthRateLimitScope := [⟨"mail", 1, .email⟩]

/-- The world after the first attempt has been admitted. -/
def admittedWorld : LoginWorld (loginBackend id false) where
  state := Local.LoginLimits.admittedStore 0 ["mail"] "first" (Local.LoginLimits.localBackend id).empty
  now := 0
  calls := Function.update (fun _ => none) 0 (some ⟨⟨["mail"], mailScopes, "first"⟩, 0⟩)

/-- The second attempt is refused, and admitted when the time it was told is over. -/
theorem login_attempts_within_limit_again : ∃ rateLimit state,
    (loginBackend id false).reserve 0 mailScopes "second" admittedWorld.state =
      some (.refused rateLimit, state) ∧
    ∃ reservation state', (loginBackend id false).reserve (1000 * rateLimit.retryAfterSeconds) mailScopes "third"
      state = some (.admitted reservation, state') := by
  have hvalid : validateAndHashLoginScopes id mailScopes = some ["mail"] := by decide
  have hfirst : ((Local.LoginLimits.localBackend id).admission 0 mailScopes ["mail"]
      (Local.LoginLimits.localBackend id).empty).blocked = false := by
    rw [Bool.eq_false_iff, ne_eq, admission_blocked_iff hvalid]
    rintro ⟨scope, hmem, hload⟩
    rw [List.mem_singleton.mp hmem] at hload
    exact absurd hload (by decide)
  have hrun : Run (LoginStep (loginBackend id false) id fun _ => 1) (LoginWorld.initial _)
      [.reserve 0 mailScopes "first"] admittedWorld := by
    refine Run.single ⟨fun scope hmem => ?_, fun row hmem => ?_, fun other verifying hcall => ?_, rfl, ?_⟩
    · rw [List.mem_singleton.mp hmem]
    · cases hmem
    · cases hcall
    · have hreserve : (loginBackend id false).reserve 0 mailScopes "first" (loginBackend id false).empty = _ :=
        Local.LoginLimits.local_admitted_eq hvalid hfirst
      show admittedWorld = LoginWorld.reserved _ 0
        ((loginBackend id false).reserve 0 mailScopes "first" (loginBackend id false).empty)
      rw [hreserve]
      rfl
  have hfresh : ∀ token, token ≠ "first" → (loginBackend id false).Fresh admittedWorld.state token := by
    intro token hne row hmem he
    have hrow : row = ⟨"first", loginReservationLeaseMs, ["mail"]⟩ := List.mem_singleton.mp hmem
    rw [hrow] at he
    exact hne he.symm
  have hfull : ((Local.LoginLimits.localBackend id).admission 0 mailScopes ["mail"] admittedWorld.state).blocked =
      true := (admission_blocked_iff hvalid).mpr ⟨_, List.mem_singleton.mpr rfl, by decide⟩
  have hrefused : (loginBackend id false).reserve 0 mailScopes "second" admittedWorld.state =
      some (.refused ((Local.LoginLimits.localBackend id).admission 0 mailScopes ["mail"] admittedWorld.state),
        admittedWorld.state) := Local.LoginLimits.local_refused hvalid hfull
  obtain ⟨-, -, -, hretry⟩ := login_attempts_within_limit false id (fun _ => 1) hrun
  generalize (Local.LoginLimits.localBackend id).admission 0 mailScopes ["mail"] admittedWorld.state =
    rateLimit at hrefused
  have hquiet : Relation.ReflTransGen (QuietStep _) admittedWorld
      { admittedWorld with now := 1000 * rateLimit.retryAfterSeconds } :=
    Relation.ReflTransGen.single (.inl ⟨_, Nat.zero_le _, rfl⟩)
  exact ⟨_, _, hrefused, (hretry mailScopes "second" _ _ (hfresh _ (by decide)) hrefused _ "third" hquiet
    (hfresh _ (by decide))).1 (Nat.zero_add _).le⟩

end OwnMinutes.Backends.LoginLimits
