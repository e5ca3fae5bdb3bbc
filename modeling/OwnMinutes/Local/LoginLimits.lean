import OwnMinutes.Auth.LoginRuns
import OwnMinutes.Lib.Keyed

/-! # Login limits in the local store

`auth-rate-limit.json`: the failures of an identifier under its hash, and the reservations under their tokens.
Each function reads the store, prunes what has expired and writes it. -/

namespace OwnMinutes.Local.LoginLimits

open OwnMinutes.Lib.Keyed OwnMinutes.Auth.ProcessingRoute
open OwnMinutes.Auth.LoginLimits OwnMinutes.Auth.LoginRuns

structure LoginRateLimitEntry where
  count : ℕ
  firstFailedAt : Timestamp
  lastFailedAt : Timestamp
  deriving DecidableEq, Repr

/-- An entry of `loginReservations`, with the token it stands under. -/
structure LoginRateLimitReservationEntry where
  tokenHash : TokenHash
  expiresAt : Timestamp
  identifierHashes : List IdentifierHash
  deriving DecidableEq, Repr

instance : HasKey LoginRateLimitReservationEntry TokenHash := ⟨(·.tokenHash)⟩

structure LoginRateLimitStore where
  loginEntries : IdentifierHash → Option LoginRateLimitEntry
  loginReservations : Table LoginRateLimitReservationEntry

def isExpired (entry : LoginRateLimitEntry) (now : Timestamp) : Bool :=
  entry.firstFailedAt + loginWindowMs ≤ now

def pruneExpired (now : Timestamp) (store : LoginRateLimitStore) : LoginRateLimitStore where
  loginEntries hash := (store.loginEntries hash).filter fun entry => !isExpired entry now
  loginReservations := store.loginReservations.removeWhere fun reservation =>
    reservation.expiresAt + loginReservationRetentionMs ≤ now

def localRateLimitState (entry : LoginRateLimitEntry) (maxAttempts : ℕ) (now : Timestamp) :
    LoginRateLimitState where
  blocked := maxAttempts ≤ entry.count
  remainingAttempts := maxAttempts - entry.count
  retryAfterSeconds := (entry.firstFailedAt + loginWindowMs - now + 999) / 1000

/-- `activeReservationExpirations.get(identifierHash) ?? []` -/
def activeReservationExpirations (store : LoginRateLimitStore) (now : Timestamp) (hash : IdentifierHash) :
    List Timestamp :=
  (store.loginReservations.rows.filter fun reservation => now < reservation.expiresAt).flatMap fun reservation =>
    (reservation.identifierHashes.filter (· = hash)).map fun _ => reservation.expiresAt

def getLocalLoginAdmissionState (store : LoginRateLimitStore) (scopes : List AuthRateLimitScope)
    (identifierHashes : List IdentifierHash) (now : Timestamp) : LoginRateLimitState :=
  aggregateRateLimitStates (List.zipWith (fun scope hash =>
    let entry := store.loginEntries hash
    admissionRateLimitState (entry.elim 0 (·.count)) (entry.map (·.firstFailedAt + loginWindowMs))
      scope.maxAttempts now (activeReservationExpirations store now hash)) scopes identifierHashes)

def reserveLocalLoginRateLimitCapacity (now : Timestamp) (scopes : List AuthRateLimitScope)
    (identifierHashes : List IdentifierHash) (tokenHash : TokenHash) (stored : LoginRateLimitStore) :
    LoginRateLimitAdmission × LoginRateLimitStore :=
  let store := pruneExpired now stored
  let rateLimit := getLocalLoginAdmissionState store scopes identifierHashes now
  if rateLimit.blocked then
    -- nothing is written
    (.refused rateLimit, stored)
  else
    (.admitted ⟨identifierHashes, scopes, tokenHash⟩,
      { store with
        loginReservations := (store.loginReservations.removeWhere (·.tokenHash = tokenHash)).insert
          ⟨tokenHash, now + loginReservationLeaseMs, identifierHashes⟩ })

/-- The entry after one more failure. -/
def recordFailure (now : Timestamp) : Option LoginRateLimitEntry → LoginRateLimitEntry
  | some current =>
    if !isExpired current now then ⟨current.count + 1, current.firstFailedAt, now⟩ else ⟨1, now, now⟩
  | none => ⟨1, now, now⟩

/-- `for (const identifierHash of reservation.identifierHashes)` -/
def recordFailures (now : Timestamp) (identifierHashes : List IdentifierHash)
    (entries : IdentifierHash → Option LoginRateLimitEntry) : IdentifierHash → Option LoginRateLimitEntry :=
  identifierHashes.foldl
    (fun entries hash => Function.update entries hash (some (recordFailure now (entries hash)))) entries

def settleLocalLoginRateLimitReservation (now : Timestamp) (reservation : LoginRateLimitReservation)
    (outcome : SettleOutcome) (store : LoginRateLimitStore) :
    Option (LoginRateLimitState × LoginRateLimitStore) :=
  match store.loginReservations.get? reservation.tokenHash with
  | none => none
  | some stored =>
    if sameStringSet stored.identifierHashes reservation.identifierHashes then
      let loginReservations := store.loginReservations.removeWhere (·.tokenHash = reservation.tokenHash)
      match outcome with
      | .release =>
        some (allowedState 0 0, pruneExpired now { store with loginReservations := loginReservations })
      | .failure =>
        let store := pruneExpired now
          { loginEntries := recordFailures now reservation.identifierHashes store.loginEntries
            loginReservations := loginReservations }
        some (aggregateRateLimitStates (List.zipWith (fun scope hash =>
          match store.loginEntries hash with
          | some entry => localRateLimitState entry scope.maxAttempts now
          | none => allowedState 0 scope.maxAttempts) reservation.scopes reservation.identifierHashes), store)
    else
      none

section Backend

variable (keyForIdentifier : String → IdentifierHash)

/-- `reserveLoginRateLimitCapacity` without a database. -/
def reserve (now : Timestamp) (scopes : List AuthRateLimitScope) (tokenHash : TokenHash)
    (store : LoginRateLimitStore) : Option (LoginRateLimitAdmission × LoginRateLimitStore) :=
  (validateAndHashLoginScopes keyForIdentifier scopes).map fun identifierHashes =>
    reserveLocalLoginRateLimitCapacity now scopes identifierHashes tokenHash store

def localBackend : LoginBackend where
  State := LoginRateLimitStore
  empty := ⟨fun _ => none, Table.empty⟩
  reserve := reserve keyForIdentifier
  settle := settleLocalLoginRateLimitReservation
  Prunes now store store' := store' = pruneExpired now store
  failures store hash := (store.loginEntries hash).map fun entry =>
    (entry.count, entry.firstFailedAt + loginWindowMs)
  expirations store hash := store.loginReservations.rows.flatMap fun reservation =>
    (reservation.identifierHashes.filter (· = hash)).map fun _ => reservation.expiresAt
  Held store token identifierHashes expiresAt := ⟨token, expiresAt, identifierHashes⟩ ∈ store.loginReservations
  Fresh store token := store.loginReservations.Fresh token

end Backend

/-! ### What counts in the store -/

section Counts

variable {keyForIdentifier : String → IdentifierHash} {now u : ℕ} {store : LoginRateLimitStore}
  {hash : IdentifierHash} {reservations : Table LoginRateLimitReservationEntry}
  {entries : IdentifierHash → Option LoginRateLimitEntry}

/-- How often a reservation counts for an identifier. -/
def weight (hash : IdentifierHash) (u : ℕ) (reservation : LoginRateLimitReservationEntry) : ℤ :=
  if u < reservation.expiresAt then (reservation.identifierHashes.count hash : ℤ) else 0

theorem reservedCount_eq :
    ((localBackend keyForIdentifier).reservedCount store hash u : ℤ) =
      store.loginReservations.sum (weight hash u) := by
  have h : ∀ rows : List LoginRateLimitReservationEntry,
      (((rows.flatMap fun reservation => (reservation.identifierHashes.filter (· = hash)).map fun _ =>
        reservation.expiresAt).countP (u < ·) : ℕ) : ℤ) = (rows.map (weight hash u)).sum := by
    intro rows
    induction rows with
    | nil => rfl
    | cons reservation rows ih =>
      rw [List.flatMap_cons, List.countP_append, List.map_cons, List.sum_cons, ← ih, List.countP_map]
      unfold weight
      by_cases hu : u < reservation.expiresAt
      · simp [Function.comp_def, hu, List.count, List.countP_eq_length_filter]
        rfl
      · simp [Function.comp_def, hu]
  exact h _

theorem reservedCount_congr {store' : LoginRateLimitStore}
    (h : store'.loginReservations.sum (weight hash u) = store.loginReservations.sum (weight hash u)) :
    (localBackend keyForIdentifier).reservedCount store' hash u =
      (localBackend keyForIdentifier).reservedCount store hash u := by
  have := @reservedCount_eq keyForIdentifier u store hash
  have := @reservedCount_eq keyForIdentifier u store' hash
  omega

/-- The reservations that a clean-up drops have expired. -/
theorem sum_pruneExpired (h : now ≤ u) :
    (pruneExpired now store).loginReservations.sum (weight hash u) =
      store.loginReservations.sum (weight hash u) := by
  unfold pruneExpired
  rw [Table.sum_removeWhere]
  refine Table.sum_congr fun reservation _ => ?_
  by_cases hold : reservation.expiresAt + loginReservationRetentionMs ≤ now
  · have hle : reservation.expiresAt ≤ now := le_trans (Nat.le_add_right _ _) hold
    have hu : ¬ u < reservation.expiresAt := not_lt.mpr (hle.trans h)
    rw [if_pos (decide_eq_true hold)]
    unfold weight
    rw [if_neg hu]
  · rw [if_neg (by simpa using hold)]

/-- The unexpired entry of the pruned store. -/
theorem liveEntry_pruneExpired :
    ((pruneExpired now store).loginEntries hash).map (fun entry => (entry.count, entry.firstFailedAt + loginWindowMs)) =
      liveEntry now ((localBackend keyForIdentifier).failures store hash) := by
  unfold pruneExpired localBackend
  dsimp only
  cases store.loginEntries hash with
  | none => rfl
  | some entry =>
    unfold isExpired
    by_cases hold : entry.firstFailedAt + loginWindowMs ≤ now
    · have hnew : ¬ now < entry.firstFailedAt + loginWindowMs := not_lt.mpr hold
      simp [hold, hnew]
    · have hnew : now < entry.firstFailedAt + loginWindowMs := not_le.mp hold
      simp [hnew]

theorem failureCount_pruneExpired (h : now ≤ u) :
    (localBackend keyForIdentifier).failureCount (pruneExpired now store) hash u =
      (localBackend keyForIdentifier).failureCount store hash u := by
  unfold LoginBackend.failureCount
  rw [show (localBackend keyForIdentifier).failures (pruneExpired now store) hash = _ from liveEntry_pruneExpired]
  cases (localBackend keyForIdentifier).failures store hash with
  | none => rfl
  | some entry =>
    by_cases hu : u < entry.2
    · have hnow : now < entry.2 := by omega
      simp [hnow, hu]
    · by_cases hnow : now < entry.2
      · simp [hnow, hu]
      · simp [hnow, hu]

/-- The reservations that are counted are those that have not expired. -/
theorem activeReservationExpirations_pruneExpired :
    activeReservationExpirations (pruneExpired now store) now hash =
      ((localBackend keyForIdentifier).expirations store hash).filter (now < ·) := by
  have h : ∀ rows : List LoginRateLimitReservationEntry,
      (((rows.filter fun reservation => !decide (reservation.expiresAt + loginReservationRetentionMs ≤ now)).filter
        fun reservation => now < reservation.expiresAt).flatMap fun reservation =>
          (reservation.identifierHashes.filter (· = hash)).map fun _ => reservation.expiresAt) =
      (rows.flatMap fun reservation => (reservation.identifierHashes.filter (· = hash)).map fun _ =>
        reservation.expiresAt).filter (now < ·) := by
    intro rows
    induction rows with
    | nil => rfl
    | cons reservation rows ih =>
      rw [List.flatMap_cons, List.filter_append, ← ih, List.filter_map]
      by_cases hnow : now < reservation.expiresAt
      · have hkept : ¬ reservation.expiresAt + loginReservationRetentionMs ≤ now := fun hold =>
          absurd (le_trans (Nat.le_add_right _ _) hold) (not_le.mpr hnow)
        simp [Function.comp_def, hnow, hkept]
      · by_cases hkept : reservation.expiresAt + loginReservationRetentionMs ≤ now
        · simp [Function.comp_def, hnow, hkept]
        · simp [Function.comp_def, hnow, hkept]
  exact h _

/-- The admission state of the pruned store. -/
theorem getLocalLoginAdmissionState_pruneExpired {scopes : List AuthRateLimitScope}
    {identifierHashes : List IdentifierHash} :
    getLocalLoginAdmissionState (pruneExpired now store) scopes identifierHashes now =
      (localBackend keyForIdentifier).admission now scopes identifierHashes store := by
  unfold getLocalLoginAdmissionState LoginBackend.admission
  have h : ∀ (scope : AuthRateLimitScope) (hash : IdentifierHash),
      admissionRateLimitState (((pruneExpired now store).loginEntries hash).elim 0 (·.count))
        (((pruneExpired now store).loginEntries hash).map (·.firstFailedAt + loginWindowMs))
        scope.maxAttempts now (activeReservationExpirations (pruneExpired now store) now hash) =
      admissionRateLimitState
        ((liveEntry now ((localBackend keyForIdentifier).failures store hash)).elim 0 (·.1))
        ((liveEntry now ((localBackend keyForIdentifier).failures store hash)).map (·.2))
        scope.maxAttempts now (((localBackend keyForIdentifier).expirations store hash).filter (now < ·)) := by
    intro scope hash
    rw [← liveEntry_pruneExpired, @activeReservationExpirations_pruneExpired keyForIdentifier]
    cases (pruneExpired now store).loginEntries hash with
    | none | some entry => rfl
  simp only [h]

/-- A reservation counts once for each of its identifiers. -/
theorem weight_of_nodup {reservation : LoginRateLimitReservationEntry}
    (h : reservation.identifierHashes.Nodup) :
    weight hash u reservation =
      ((if hash ∈ reservation.identifierHashes ∧ u < reservation.expiresAt then 1 else 0 : ℕ) : ℤ) := by
  unfold weight
  rw [h.count]
  by_cases hu : u < reservation.expiresAt
  · simp [hu]
  · simp [hu]

/-- Without the reservation of a token. -/
theorem sum_remove {reservation : LoginRateLimitReservationEntry} (h : reservation ∈ reservations) :
    (reservations.removeWhere (·.tokenHash = reservation.tokenHash)).sum (weight hash u) +
      weight hash u reservation = reservations.sum (weight hash u) := by
  rw [← Table.sum_removeWhere_add (t := reservations) (p := (·.tokenHash = reservation.tokenHash)),
    ← Table.sum_single (weight hash u) h]
  refine congrArg _ (Table.sum_congr fun other _ => ?_)
  simp only [decide_eq_true_eq]
  rfl

theorem recordFailures_apply {identifierHashes : List IdentifierHash} (h : identifierHashes.Nodup) :
    recordFailures now identifierHashes entries hash =
      if hash ∈ identifierHashes then some (recordFailure now (entries hash)) else entries hash := by
  unfold recordFailures
  induction identifierHashes generalizing entries with
  | nil => rfl
  | cons first rest ih =>
    obtain ⟨hfirst, hrest⟩ := List.nodup_cons.mp h
    rw [List.foldl_cons, ih hrest]
    by_cases he : hash = first
    · subst he
      rw [if_neg hfirst, if_pos List.mem_cons_self, Function.update_self]
    · rw [Function.update_of_ne he]
      simp only [List.mem_cons, he, false_or]

/-- A failure more counts now. -/
theorem failureCount_recordFailure {store' : LoginRateLimitStore}
    (h : store'.loginEntries hash = some (recordFailure now (store.loginEntries hash))) :
    (localBackend keyForIdentifier).failureCount store' hash now =
      (localBackend keyForIdentifier).failureCount store hash now + 1 := by
  have hwindow : now < now + loginWindowMs := Nat.lt_add_of_pos_right (by decide)
  unfold LoginBackend.failureCount localBackend
  dsimp only
  rw [h]
  cases store.loginEntries hash with
  | none => simp [recordFailure, hwindow]
  | some current =>
    unfold recordFailure isExpired
    by_cases hold : current.firstFailedAt + loginWindowMs ≤ now
    · simp [hold, hwindow, not_lt.mpr hold]
    · simp [hold, not_le.mp hold]

theorem mem_pruneExpired {reservation : LoginRateLimitReservationEntry} (h : reservation ∈ store.loginReservations)
    (hlive : now < reservation.expiresAt) : reservation ∈ (pruneExpired now store).loginReservations := by
  refine Table.mem_removeWhere.mpr ⟨h, decide_eq_false fun hold => ?_⟩
  exact absurd (le_trans (Nat.le_add_right _ _) hold) (not_le.mpr hlive)

end Counts

/-! ### The laws -/

section Laws

variable {keyForIdentifier : String → IdentifierHash} {now : ℕ} {scopes : List AuthRateLimitScope}
  {hashes : List IdentifierHash} {token : TokenHash} {store : LoginRateLimitStore}

theorem local_pruned :
    (localBackend keyForIdentifier).SameFrom now store (pruneExpired now store) ∧
      (localBackend keyForIdentifier).KeepsTokens now none store (pruneExpired now store) :=
  ⟨fun _ _ h => ⟨failureCount_pruneExpired h, reservedCount_congr (sum_pruneExpired h)⟩,
    fun _ _ _ _ hlive hheld => mem_pruneExpired hheld hlive⟩

theorem local_refused (hvalid : validateAndHashLoginScopes keyForIdentifier scopes = some hashes)
    (hblocked : ((localBackend keyForIdentifier).admission now scopes hashes store).blocked = true) :
    reserve keyForIdentifier now scopes token store =
      some (.refused ((localBackend keyForIdentifier).admission now scopes hashes store), store) := by
  unfold reserve reserveLocalLoginRateLimitCapacity
  rw [hvalid, Option.map_some]
  dsimp only
  rw [@getLocalLoginAdmissionState_pruneExpired keyForIdentifier, if_pos hblocked]

/-- The store after an admission. -/
def admittedStore (now : Timestamp) (hashes : List IdentifierHash) (token : TokenHash)
    (store : LoginRateLimitStore) : LoginRateLimitStore :=
  { pruneExpired now store with
    loginReservations := ((pruneExpired now store).loginReservations.removeWhere (·.tokenHash = token)).insert
      ⟨token, now + loginReservationLeaseMs, hashes⟩ }

theorem local_admitted_eq (hvalid : validateAndHashLoginScopes keyForIdentifier scopes = some hashes)
    (hblocked : ((localBackend keyForIdentifier).admission now scopes hashes store).blocked = false) :
    reserve keyForIdentifier now scopes token store =
      some (.admitted ⟨hashes, scopes, token⟩, admittedStore now hashes token store) := by
  unfold reserve reserveLocalLoginRateLimitCapacity
  rw [hvalid, Option.map_some]
  dsimp only
  rw [@getLocalLoginAdmissionState_pruneExpired keyForIdentifier, if_neg (by rw [hblocked]; decide)]
  rfl

theorem fresh_removeWhere {reservations : Table LoginRateLimitReservationEntry} :
    (reservations.removeWhere (·.tokenHash = token)).Fresh token := by
  intro reservation hmem he
  exact absurd he (of_decide_eq_false (Table.mem_removeWhere.mp hmem).2)

theorem local_admitted (hvalid : validateAndHashLoginScopes keyForIdentifier scopes = some hashes)
    (hfresh : store.loginReservations.Fresh token) :
    (localBackend keyForIdentifier).Reserved now hashes (now + loginReservationLeaseMs) store
        (admittedStore now hashes token store) ∧
      (localBackend keyForIdentifier).Held (admittedStore now hashes token store) token hashes
        (now + loginReservationLeaseMs) ∧
      (localBackend keyForIdentifier).KeepsTokens now none store (admittedStore now hashes token store) := by
  have hnodup := (hashes_of_validate hvalid).2.1
  -- the token is new, so nothing stands in the place of the reservation
  have hmem : ∀ reservation ∈ store.loginReservations, reservation.tokenHash ≠ token := hfresh
  refine ⟨fun hash u hu => ⟨?_, ?_⟩, ?_, ?_⟩
  · exact failureCount_pruneExpired hu
  · have hsame : ((pruneExpired now store).loginReservations.removeWhere (·.tokenHash = token)).sum
        (weight hash u) = (pruneExpired now store).loginReservations.sum (weight hash u) := by
      rw [Table.sum_removeWhere]
      refine Table.sum_congr fun reservation hin => if_neg ?_
      simpa using hmem reservation (Table.mem_removeWhere.mp hin).1
    have hsum : (admittedStore now hashes token store).loginReservations.sum (weight hash u) =
        store.loginReservations.sum (weight hash u) +
          ((if hash ∈ hashes ∧ u < now + loginReservationLeaseMs then 1 else 0 : ℕ) : ℤ) := by
      unfold admittedStore
      dsimp only
      have hnew : ((pruneExpired now store).loginReservations.removeWhere (·.tokenHash = token)).Fresh
          (HasKey.key (⟨token, now + loginReservationLeaseMs, hashes⟩ : LoginRateLimitReservationEntry)) :=
        fresh_removeWhere
      rw [Table.sum_insert _ hnew, hsame, sum_pruneExpired hu, weight_of_nodup hnodup]
    have hbefore := @reservedCount_eq keyForIdentifier u store hash
    have hafter := @reservedCount_eq keyForIdentifier u (admittedStore now hashes token store) hash
    omega
  · exact (Table.mem_insert fresh_removeWhere).mpr (.inr rfl)
  · intro other hashes' expiresAt _ hlive hheld
    refine Table.mem_insert_of_mem (Table.mem_removeWhere.mpr ⟨mem_pruneExpired hheld hlive, ?_⟩)
    exact decide_eq_false (hmem _ hheld)

/-- The store after a settlement, before it is pruned. -/
def settledStore (now : Timestamp) (outcome : SettleOutcome) (hashes : List IdentifierHash) (token : TokenHash)
    (store : LoginRateLimitStore) : LoginRateLimitStore where
  loginEntries :=
    match outcome with
    | .release => store.loginEntries
    | .failure => recordFailures now hashes store.loginEntries
  loginReservations := store.loginReservations.removeWhere (·.tokenHash = token)

theorem local_settled_eq {expiresAt : ℕ} (hnodup : hashes.Nodup)
    (hheld : ⟨token, expiresAt, hashes⟩ ∈ store.loginReservations) (outcome : SettleOutcome) :
    ∃ result, settleLocalLoginRateLimitReservation now ⟨hashes, scopes, token⟩ outcome store =
      some (result, pruneExpired now (settledStore now outcome hashes token store)) := by
  have hget : store.loginReservations.get? token = some ⟨token, expiresAt, hashes⟩ :=
    Table.get?_eq_some.mpr ⟨hheld, rfl⟩
  have hsame : sameStringSet hashes hashes = true := by
    unfold sameStringSet
    simp [hnodup]
  unfold settleLocalLoginRateLimitReservation
  rw [hget]
  dsimp only
  rw [if_pos hsame]
  cases outcome with
  | release | failure => exact ⟨_, rfl⟩

theorem local_settled {expiresAt : ℕ} (hnodup : hashes.Nodup)
    (hheld : ⟨token, expiresAt, hashes⟩ ∈ store.loginReservations) (outcome : SettleOutcome) :
    (localBackend keyForIdentifier).Settled now outcome hashes expiresAt store
        (pruneExpired now (settledStore now outcome hashes token store)) ∧
      (localBackend keyForIdentifier).KeepsTokens now (some token) store
        (pruneExpired now (settledStore now outcome hashes token store)) := by
  have hreserved : ∀ hash u, now ≤ u →
      (localBackend keyForIdentifier).reservedCount
        (pruneExpired now (settledStore now outcome hashes token store)) hash u +
        (if hash ∈ hashes ∧ u < expiresAt then 1 else 0) =
      (localBackend keyForIdentifier).reservedCount store hash u := by
    intro hash u hu
    have hsum := @sum_remove u hash _ _ hheld
    rw [weight_of_nodup hnodup] at hsum
    have hbefore := @reservedCount_eq keyForIdentifier u store hash
    have hafter := @reservedCount_eq keyForIdentifier u
      (pruneExpired now (settledStore now outcome hashes token store)) hash
    rw [sum_pruneExpired hu] at hafter
    have hrest : (settledStore now outcome hashes token store).loginReservations =
        store.loginReservations.removeWhere (·.tokenHash = token) := rfl
    rw [hrest] at hafter
    dsimp only at hsum
    omega
  have hkept : ∀ hash u, now ≤ u → (settledStore now outcome hashes token store).loginEntries hash =
      store.loginEntries hash → (localBackend keyForIdentifier).failureCount
        (pruneExpired now (settledStore now outcome hashes token store)) hash u =
      (localBackend keyForIdentifier).failureCount store hash u := by
    intro hash u hu hentry
    rw [failureCount_pruneExpired hu]
    unfold LoginBackend.failureCount localBackend
    dsimp only
    rw [hentry]
  constructor
  · cases outcome with
    | release => exact fun hash u hu => ⟨hkept hash u hu rfl, hreserved hash u hu⟩
    | failure =>
      refine ⟨hreserved, fun hash hin => ?_, fun hash hout u hu => hkept hash u hu ?_⟩
      · rw [failureCount_pruneExpired le_rfl]
        refine failureCount_recordFailure ?_
        exact (recordFailures_apply hnodup).trans (if_pos hin)
      · exact (recordFailures_apply hnodup).trans (if_neg hout)
  · intro other hashes' expiresAt' hne hlive hother
    refine mem_pruneExpired (Table.mem_removeWhere.mpr ⟨hother, decide_eq_false fun he => ?_⟩) hlive
    exact hne (congrArg some he)

/-- **The local store is a lawful backend.** -/
theorem local_lawful : Lawful keyForIdentifier (localBackend keyForIdentifier) where
  empty _ _ := ⟨rfl, rfl⟩
  invalid now scopes token store h := by
    show (validateAndHashLoginScopes keyForIdentifier scopes).map _ = none
    rw [h]
    rfl
  refused _ _ _ _ _ hvalid hblocked := local_refused hvalid hblocked
  admitted _ _ _ _ _ hvalid hblocked hfresh :=
    ⟨_, local_admitted_eq hvalid hblocked, local_admitted hvalid hfresh⟩
  settled _ _ _ _ _ outcome _ hvalid hheld _ := by
    have hnodup := (hashes_of_validate hvalid).2.1
    obtain ⟨result, heq⟩ := local_settled_eq hnodup hheld outcome
    exact ⟨result, _, heq, local_settled hnodup hheld outcome⟩
  pruned _ _ _ h := by
    rw [h]
    exact local_pruned

end Laws

end OwnMinutes.Local.LoginLimits
