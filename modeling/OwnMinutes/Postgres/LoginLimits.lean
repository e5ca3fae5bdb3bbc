import OwnMinutes.Auth.LoginRuns
import OwnMinutes.Lib.Keyed

/-! # Login limits in the database

The rows of `auth_rate_limit_entries` of the bucket `login` by their identifier, and the rows of
`auth_login_rate_limit_reservations`, one for each identifier of a reservation. A transaction holds the
advisory locks of its identifiers and is one step. -/

namespace OwnMinutes.Postgres.LoginLimits

open OwnMinutes.Lib.Keyed OwnMinutes.Auth.ProcessingRoute
open OwnMinutes.Auth.LoginLimits OwnMinutes.Auth.LoginRuns

structure AuthRateLimitEntry where
  attemptCount : ℕ
  firstAttemptAt : Timestamp
  lastAttemptAt : Timestamp
  expiresAt : Timestamp
  deriving DecidableEq, Repr

structure LoginRateLimitReservationRow where
  reservationTokenHash : TokenHash
  identifierHash : IdentifierHash
  createdAt : Timestamp
  expiresAt : Timestamp
  deriving DecidableEq, Repr

/-- `primary key (reservation_token_hash, identifier_hash)` -/
instance : HasKey LoginRateLimitReservationRow (TokenHash × IdentifierHash) :=
  ⟨fun row => (row.reservationTokenHash, row.identifierHash)⟩

structure LoginTables where
  entries : IdentifierHash → Option AuthRateLimitEntry
  reservations : Table LoginRateLimitReservationRow

def persistentRateLimitState (row : AuthRateLimitEntry) (maxAttempts : ℕ) (now : Timestamp) :
    LoginRateLimitState where
  blocked := maxAttempts ≤ row.attemptCount
  remainingAttempts := maxAttempts - row.attemptCount
  retryAfterSeconds := (row.expiresAt - now + 999) / 1000

/-- `expires_at > now()` of an entry. -/
def unexpiredEntry (now : Timestamp) (entries : IdentifierHash → Option AuthRateLimitEntry)
    (hash : IdentifierHash) : Option AuthRateLimitEntry :=
  (entries hash).filter fun row => now < row.expiresAt

/-- `reservationExpirationsByHash.get(identifierHash) ?? []` -/
def reservationExpirations (now : Timestamp) (reservations : Table LoginRateLimitReservationRow)
    (hash : IdentifierHash) : List Timestamp :=
  (reservations.rows.filter fun row => row.identifierHash = hash ∧ now < row.expiresAt).map (·.expiresAt)

def getPersistentLoginAdmissionState (scopes : List AuthRateLimitScope)
    (identifierHashes : List IdentifierHash) (now : Timestamp) (tables : LoginTables) : LoginRateLimitState :=
  aggregateRateLimitStates (List.zipWith (fun scope hash =>
    let row := unexpiredEntry now tables.entries hash
    admissionRateLimitState (row.elim 0 (·.attemptCount)) (row.map (·.expiresAt)) scope.maxAttempts now
      (reservationExpirations now tables.reservations hash)) scopes identifierHashes)

/-- The rows of a reservation. -/
def reservationRows (now : Timestamp) (tokenHash : TokenHash) (identifierHashes : List IdentifierHash) :
    List LoginRateLimitReservationRow :=
  identifierHashes.map fun hash => ⟨tokenHash, hash, now, now + loginReservationLeaseMs⟩

/-- A repeated key is an error of the database. -/
def reservePersistentLoginRateLimitCapacity (now : Timestamp) (scopes : List AuthRateLimitScope)
    (identifierHashes : List IdentifierHash) (tokenHash : TokenHash) (tables : LoginTables) :
    Option (LoginRateLimitAdmission × LoginTables) :=
  let rateLimit := getPersistentLoginAdmissionState scopes identifierHashes now tables
  if rateLimit.blocked then
    some (.refused rateLimit, tables)
  else if identifierHashes.Nodup ∧ ∀ hash ∈ identifierHashes, tables.reservations.Fresh (tokenHash, hash) then
    some (.admitted ⟨identifierHashes, scopes, tokenHash⟩,
      { tables with
        reservations := tables.reservations.insertAll (reservationRows now tokenHash identifierHashes) })
  else
    none

/-- `on conflict (bucket, identifier_hash) do update` -/
def upsertedEntry (now : Timestamp) : Option AuthRateLimitEntry → AuthRateLimitEntry
  | none => ⟨1, now, now, now + loginWindowMs⟩
  | some row =>
    { attemptCount := if row.expiresAt ≤ now then 1 else row.attemptCount + 1
      firstAttemptAt := if row.expiresAt ≤ now then now else row.firstAttemptAt
      lastAttemptAt := now
      expiresAt := if row.expiresAt ≤ now then now + loginWindowMs else row.expiresAt }

def upsertPersistentLoginFailures (now : Timestamp) (identifierHashes : List IdentifierHash)
    (entries : IdentifierHash → Option AuthRateLimitEntry) : IdentifierHash → Option AuthRateLimitEntry :=
  fun hash => if hash ∈ identifierHashes then some (upsertedEntry now (entries hash)) else entries hash

/-- The rows that a settlement deletes. -/
def ofReservation (reservation : LoginRateLimitReservation) (row : LoginRateLimitReservationRow) : Bool :=
  row.reservationTokenHash = reservation.tokenHash ∧ row.identifierHash ∈ reservation.identifierHashes

def settlePersistentLoginRateLimitReservation (now : Timestamp) (reservation : LoginRateLimitReservation)
    (outcome : SettleOutcome) (tables : LoginTables) : Option (LoginRateLimitState × LoginTables) :=
  let deleted := (tables.reservations.rows.filter (ofReservation reservation)).map (·.identifierHash)
  let reservations := tables.reservations.removeWhere (ofReservation reservation)
  if sameStringSet deleted reservation.identifierHashes then
    match outcome with
    | .release => some (allowedState 0 0, { tables with reservations := reservations })
    | .failure =>
      let entries := upsertPersistentLoginFailures now reservation.identifierHashes tables.entries
      some (aggregateRateLimitStates (List.zipWith (fun scope hash =>
        persistentRateLimitState (upsertedEntry now (tables.entries hash)) scope.maxAttempts now)
          reservation.scopes reservation.identifierHashes), ⟨entries, reservations⟩)
  else
    none

/-- `maybePrunePersistentRateLimitEntries` deletes some of the entries that have expired and of the
reservations that expired long enough ago: batches skip rows that are locked. -/
structure PrunePersistent (now : Timestamp) (tables tables' : LoginTables) : Prop where
  entries : ∀ hash, tables'.entries hash = tables.entries hash ∨ (tables'.entries hash = none ∧
    ∃ row, tables.entries hash = some row ∧ row.expiresAt ≤ now)
  reservations : ∃ expired : LoginRateLimitReservationRow → Bool,
    tables'.reservations = tables.reservations.removeWhere expired ∧
      ∀ row ∈ tables.reservations, expired row = true → row.expiresAt + loginReservationRetentionMs ≤ now

section Backend

variable (keyForIdentifier : String → IdentifierHash)

/-- `reserveLoginRateLimitCapacity` with a database. -/
def reserve (now : Timestamp) (scopes : List AuthRateLimitScope) (tokenHash : TokenHash) (tables : LoginTables) :
    Option (LoginRateLimitAdmission × LoginTables) :=
  (validateAndHashLoginScopes keyForIdentifier scopes).bind fun identifierHashes =>
    reservePersistentLoginRateLimitCapacity now scopes identifierHashes tokenHash tables

def postgresBackend : LoginBackend where
  State := LoginTables
  empty := ⟨fun _ => none, Table.empty⟩
  reserve := reserve keyForIdentifier
  settle := settlePersistentLoginRateLimitReservation
  Prunes := PrunePersistent
  failures tables hash := (tables.entries hash).map fun row => (row.attemptCount, row.expiresAt)
  expirations tables hash :=
    (tables.reservations.rows.filter fun row => row.identifierHash = hash).map (·.expiresAt)
  Held tables token identifierHashes expiresAt := ∀ hash ∈ identifierHashes, ∃ row ∈ tables.reservations,
    row.reservationTokenHash = token ∧ row.identifierHash = hash ∧ row.expiresAt = expiresAt
  Fresh tables token := ∀ row ∈ tables.reservations, row.reservationTokenHash ≠ token

end Backend

/-! ### What counts in the tables -/

section Counts

variable {keyForIdentifier : String → IdentifierHash} {now u : ℕ} {tables tables' : LoginTables}
  {hash : IdentifierHash} {hashes : List IdentifierHash} {token : TokenHash}
  {reservations : Table LoginRateLimitReservationRow}

/-- Whether a row counts for an identifier. -/
def weight (hash : IdentifierHash) (u : ℕ) (row : LoginRateLimitReservationRow) : ℤ :=
  if row.identifierHash = hash ∧ u < row.expiresAt then 1 else 0

theorem reservedCount_eq :
    ((postgresBackend keyForIdentifier).reservedCount tables hash u : ℤ) =
      tables.reservations.sum (weight hash u) := by
  have h : ∀ rows : List LoginRateLimitReservationRow,
      ((((rows.filter fun row => row.identifierHash = hash).map (·.expiresAt)).countP (u < ·) : ℕ) : ℤ) =
        (rows.map (weight hash u)).sum := by
    intro rows
    induction rows with
    | nil => rfl
    | cons row rows ih =>
      rw [List.map_cons, List.sum_cons, ← ih, List.filter_cons]
      unfold weight
      by_cases hhash : row.identifierHash = hash
      · by_cases hu : u < row.expiresAt
        · simp [hhash, hu]
          ring
        · simp [hhash, hu]
      · simp [hhash]
  exact h _

theorem admission_eq {scopes : List AuthRateLimitScope} :
    getPersistentLoginAdmissionState scopes hashes now tables =
      (postgresBackend keyForIdentifier).admission now scopes hashes tables := by
  unfold getPersistentLoginAdmissionState LoginBackend.admission
  have hentry : ∀ hash, (unexpiredEntry now tables.entries hash).map (fun row => (row.attemptCount, row.expiresAt)) =
      liveEntry now ((postgresBackend keyForIdentifier).failures tables hash) := by
    intro hash
    unfold unexpiredEntry postgresBackend
    dsimp only
    cases tables.entries hash with
    | none => rfl
    | some row =>
      by_cases hlive : now < row.expiresAt
      · simp [hlive]
      · simp [hlive, not_lt.mp hlive]
  have hexpirations : ∀ hash, reservationExpirations now tables.reservations hash =
      ((postgresBackend keyForIdentifier).expirations tables hash).filter (now < ·) := by
    intro hash
    unfold reservationExpirations postgresBackend
    dsimp only
    rw [List.filter_map, List.filter_filter]
    refine congrArg _ (List.filter_congr fun row _ => ?_)
    simp only [Function.comp_apply, Bool.decide_and, Bool.and_comm]
  have h : ∀ (scope : AuthRateLimitScope) (hash : IdentifierHash),
      admissionRateLimitState ((unexpiredEntry now tables.entries hash).elim 0 (·.attemptCount))
        ((unexpiredEntry now tables.entries hash).map (·.expiresAt)) scope.maxAttempts now
        (reservationExpirations now tables.reservations hash) =
      admissionRateLimitState
        ((liveEntry now ((postgresBackend keyForIdentifier).failures tables hash)).elim 0 (·.1))
        ((liveEntry now ((postgresBackend keyForIdentifier).failures tables hash)).map (·.2))
        scope.maxAttempts now (((postgresBackend keyForIdentifier).expirations tables hash).filter (now < ·)) := by
    intro scope hash
    rw [← hentry, hexpirations]
    cases unexpiredEntry now tables.entries hash with
    | none | some row => rfl
  simp only [h]

theorem failureCount_of_entry (h : tables'.entries hash = tables.entries hash) :
    (postgresBackend keyForIdentifier).failureCount tables' hash u =
      (postgresBackend keyForIdentifier).failureCount tables hash u := by
  unfold LoginBackend.failureCount postgresBackend
  dsimp only
  rw [h]

/-- A failure more counts now. -/
theorem failureCount_upserted (h : tables'.entries hash = some (upsertedEntry now (tables.entries hash))) :
    (postgresBackend keyForIdentifier).failureCount tables' hash now =
      (postgresBackend keyForIdentifier).failureCount tables hash now + 1 := by
  have hwindow : now < now + loginWindowMs := Nat.lt_add_of_pos_right (by decide)
  unfold LoginBackend.failureCount postgresBackend
  dsimp only
  rw [h]
  cases tables.entries hash with
  | none => simp [upsertedEntry, hwindow]
  | some row =>
    by_cases hold : row.expiresAt ≤ now
    · simp [upsertedEntry, hold, hwindow, not_lt.mpr hold]
    · simp [upsertedEntry, hold, not_le.mp hold]

/-- The rows of a new reservation count once for each of its identifiers. -/
theorem sum_reservationRows (hnodup : hashes.Nodup) :
    ((reservationRows now token hashes).map (weight hash u)).sum =
      ((if hash ∈ hashes ∧ u < now + loginReservationLeaseMs then 1 else 0 : ℕ) : ℤ) := by
  unfold reservationRows
  rw [List.map_map]
  induction hashes with
  | nil => rfl
  | cons first rest ih =>
    obtain ⟨hfirst, hrest⟩ := List.nodup_cons.mp hnodup
    rw [List.map_cons, List.sum_cons, ih hrest]
    unfold weight
    dsimp only [Function.comp_apply]
    by_cases he : first = hash
    · subst he
      simp [hfirst]
    · simp [he, Ne.symm he]

end Counts

/-! ### The laws -/

section Laws

variable {keyForIdentifier : String → IdentifierHash} {now : ℕ} {scopes : List AuthRateLimitScope}
  {hashes : List IdentifierHash} {token : TokenHash} {tables tables' : LoginTables}

theorem postgres_refused (hvalid : validateAndHashLoginScopes keyForIdentifier scopes = some hashes)
    (hblocked : ((postgresBackend keyForIdentifier).admission now scopes hashes tables).blocked = true) :
    reserve keyForIdentifier now scopes token tables =
      some (.refused ((postgresBackend keyForIdentifier).admission now scopes hashes tables), tables) := by
  unfold reserve reservePersistentLoginRateLimitCapacity
  rw [hvalid, Option.bind_some]
  dsimp only
  rw [@admission_eq keyForIdentifier, if_pos hblocked]

/-- The tables after an admission. -/
def admittedTables (now : Timestamp) (hashes : List IdentifierHash) (token : TokenHash) (tables : LoginTables) :
    LoginTables :=
  { tables with reservations := tables.reservations.insertAll (reservationRows now token hashes) }

theorem fresh_row {hash : IdentifierHash}
    (hfresh : ∀ row ∈ tables.reservations, row.reservationTokenHash ≠ token) :
    tables.reservations.Fresh (token, hash) :=
  fun row hmem he => hfresh row hmem (congrArg Prod.fst he)

theorem postgres_admitted_eq (hvalid : validateAndHashLoginScopes keyForIdentifier scopes = some hashes)
    (hblocked : ((postgresBackend keyForIdentifier).admission now scopes hashes tables).blocked = false)
    (hfresh : ∀ row ∈ tables.reservations, row.reservationTokenHash ≠ token) :
    reserve keyForIdentifier now scopes token tables =
      some (.admitted ⟨hashes, scopes, token⟩, admittedTables now hashes token tables) := by
  have hkeys : hashes.Nodup ∧ ∀ hash ∈ hashes, tables.reservations.Fresh (token, hash) :=
    ⟨(hashes_of_validate hvalid).2.1, fun _ _ => fresh_row hfresh⟩
  unfold reserve reservePersistentLoginRateLimitCapacity
  rw [hvalid, Option.bind_some]
  dsimp only
  rw [@admission_eq keyForIdentifier, if_neg (by rw [hblocked]; decide), if_pos hkeys]
  rfl

/-- The rows of the reservation are appended. -/
theorem rows_admittedTables (hnodup : hashes.Nodup)
    (hfresh : ∀ row ∈ tables.reservations, row.reservationTokenHash ≠ token) :
    (admittedTables now hashes token tables).reservations.rows =
      tables.reservations.rows ++ reservationRows now token hashes := by
  refine Table.rows_insertAll (fun row hmem => ?_) ?_
  · obtain ⟨hash, -, rfl⟩ := List.mem_map.mp hmem
    exact fresh_row hfresh
  · unfold reservationRows
    rw [List.map_map]
    exact hnodup.map fun _ _ he => congrArg Prod.snd he

theorem postgres_admitted (hvalid : validateAndHashLoginScopes keyForIdentifier scopes = some hashes)
    (hfresh : ∀ row ∈ tables.reservations, row.reservationTokenHash ≠ token) :
    (postgresBackend keyForIdentifier).Reserved now hashes (now + loginReservationLeaseMs) tables
        (admittedTables now hashes token tables) ∧
      (postgresBackend keyForIdentifier).Held (admittedTables now hashes token tables) token hashes
        (now + loginReservationLeaseMs) ∧
      (postgresBackend keyForIdentifier).KeepsTokens now none tables
        (admittedTables now hashes token tables) := by
  have hnodup := (hashes_of_validate hvalid).2.1
  have hrows := @rows_admittedTables now hashes token tables hnodup hfresh
  refine ⟨fun hash u hu => ⟨failureCount_of_entry rfl, ?_⟩, fun hash hin => ?_, ?_⟩
  · have hsum : (admittedTables now hashes token tables).reservations.sum (weight hash u) =
        tables.reservations.sum (weight hash u) +
          ((if hash ∈ hashes ∧ u < now + loginReservationLeaseMs then 1 else 0 : ℕ) : ℤ) := by
      unfold Table.sum
      rw [hrows, List.map_append, List.sum_append, sum_reservationRows hnodup]
    have hbefore := @reservedCount_eq keyForIdentifier u tables hash
    have hafter := @reservedCount_eq keyForIdentifier u (admittedTables now hashes token tables) hash
    omega
  · refine ⟨⟨token, hash, now, now + loginReservationLeaseMs⟩, ?_, rfl, rfl, rfl⟩
    rw [Table.mem_def, hrows]
    exact List.mem_append_right _ (List.mem_map.mpr ⟨hash, hin, rfl⟩)
  · intro other hashes' expiresAt _ _ hheld hash hin
    obtain ⟨row, hmem, hrow⟩ := hheld hash hin
    refine ⟨row, ?_, hrow⟩
    rw [Table.mem_def, hrows]
    exact List.mem_append_left _ hmem

/-- The tables after a settlement. -/
def settledTables (now : Timestamp) (outcome : SettleOutcome) (reservation : LoginRateLimitReservation)
    (tables : LoginTables) : LoginTables where
  entries :=
    match outcome with
    | .release => tables.entries
    | .failure => upsertPersistentLoginFailures now reservation.identifierHashes tables.entries
  reservations := tables.reservations.removeWhere (ofReservation reservation)

/-- Each identifier of the reservation has its row, so all of them are deleted. -/
theorem sameStringSet_deleted {expiresAt : ℕ} (hnodup : hashes.Nodup)
    (hheld : (postgresBackend keyForIdentifier).Held tables token hashes expiresAt) :
    sameStringSet ((tables.reservations.rows.filter (ofReservation ⟨hashes, scopes, token⟩)).map
      (·.identifierHash)) hashes = true := by
  generalize hdeleted : (tables.reservations.rows.filter (ofReservation ⟨hashes, scopes, token⟩)).map
    (·.identifierHash) = deleted
  have hmem : ∀ hash, hash ∈ deleted ↔ hash ∈ hashes := by
    intro hash
    rw [← hdeleted, List.mem_map]
    constructor
    · rintro ⟨row, hrow, rfl⟩
      have hof := (List.mem_filter.mp hrow).2
      unfold ofReservation at hof
      exact (of_decide_eq_true hof).2
    · intro hin
      obtain ⟨row, hrow, htoken, rfl, -⟩ := hheld hash hin
      exact ⟨row, List.mem_filter.mpr ⟨hrow, decide_eq_true ⟨htoken, hin⟩⟩, rfl⟩
  have hunique : deleted.Nodup := by
    rw [← hdeleted]
    refine List.Nodup.map_on (fun row hrow row' hrow' he => ?_)
      (List.Nodup.filter _ (List.Nodup.of_map _ tables.reservations.nodup))
    obtain ⟨hin, hof⟩ := List.mem_filter.mp hrow
    obtain ⟨hin', hof'⟩ := List.mem_filter.mp hrow'
    have htoken := (of_decide_eq_true hof).1
    have htoken' := (of_decide_eq_true hof').1
    exact Table.eq_of_key hin hin' (Prod.ext (htoken.trans htoken'.symm) he)
  have hperm : deleted.Perm hashes := (List.perm_ext_iff_of_nodup hunique hnodup).mpr hmem
  unfold sameStringSet
  simp only [Bool.and_eq_true, beq_iff_eq, decide_eq_true_eq, List.all_eq_true, List.contains_iff_mem]
  exact ⟨⟨hperm.length_eq, hunique⟩, fun hash hin => (hmem hash).mp hin⟩

theorem postgres_settled_eq {expiresAt : ℕ} (hnodup : hashes.Nodup)
    (hheld : (postgresBackend keyForIdentifier).Held tables token hashes expiresAt) (outcome : SettleOutcome) :
    ∃ result, settlePersistentLoginRateLimitReservation now ⟨hashes, scopes, token⟩ outcome tables =
      some (result, settledTables now outcome ⟨hashes, scopes, token⟩ tables) := by
  unfold settlePersistentLoginRateLimitReservation
  dsimp only
  rw [if_pos (sameStringSet_deleted hnodup hheld)]
  cases outcome with
  | release | failure => exact ⟨_, rfl⟩

/-- The rows that a settlement deletes count once for each identifier. -/
theorem sum_deleted {hash : IdentifierHash} {u expiresAt : ℕ}
    (hheld : (postgresBackend keyForIdentifier).Held tables token hashes expiresAt) :
    (tables.reservations.sum fun row => if ofReservation ⟨hashes, scopes, token⟩ row then weight hash u row else 0) =
      ((if hash ∈ hashes ∧ u < expiresAt then 1 else 0 : ℕ) : ℤ) := by
  by_cases hin : hash ∈ hashes
  · obtain ⟨row, hrow, htoken, rfl, rfl⟩ := hheld hash hin
    have hone : weight row.identifierHash u row =
        ((if row.identifierHash ∈ hashes ∧ u < row.expiresAt then 1 else 0 : ℕ) : ℤ) := by
      unfold weight
      simp [hin]
    rw [← hone, ← Table.sum_single (weight row.identifierHash u) hrow]
    refine Table.sum_congr fun other _ => ?_
    unfold ofReservation weight
    by_cases hkey : HasKey.key other = HasKey.key row
    · have hother : other.reservationTokenHash = token := (congrArg Prod.fst hkey).trans htoken
      have hhash : other.identifierHash = row.identifierHash := congrArg Prod.snd hkey
      simp [hkey, hother, hhash, hin]
    · have hne : ¬ (other.reservationTokenHash = token ∧ other.identifierHash = row.identifierHash) :=
        fun h => hkey (Prod.ext (h.1.trans htoken.symm) h.2)
      rw [if_neg hkey]
      by_cases hother : other.reservationTokenHash = token
      · have hhash : other.identifierHash ≠ row.identifierHash := fun h => hne ⟨hother, h⟩
        simp [hhash]
      · simp [hother]
  · rw [if_neg fun h => hin h.1]
    refine Table.sum_eq_zero _ fun row _ => ?_
    unfold ofReservation weight
    by_cases hrow : row.identifierHash = hash
    · simp [hrow, hin]
    · simp [hrow]

theorem postgres_settled {expiresAt : ℕ}
    (hheld : (postgresBackend keyForIdentifier).Held tables token hashes expiresAt) (outcome : SettleOutcome) :
    (postgresBackend keyForIdentifier).Settled now outcome hashes expiresAt tables
        (settledTables now outcome ⟨hashes, scopes, token⟩ tables) ∧
      (postgresBackend keyForIdentifier).KeepsTokens now (some token) tables
        (settledTables now outcome ⟨hashes, scopes, token⟩ tables) := by
  have hreserved : ∀ hash u, (postgresBackend keyForIdentifier).reservedCount
        (settledTables now outcome ⟨hashes, scopes, token⟩ tables) hash u +
        (if hash ∈ hashes ∧ u < expiresAt then 1 else 0) =
      (postgresBackend keyForIdentifier).reservedCount tables hash u := by
    intro hash u
    have hsum := @Table.sum_removeWhere_add _ _ _ (ofReservation ⟨hashes, scopes, token⟩) _ _
      (weight hash u) tables.reservations
    rw [sum_deleted hheld] at hsum
    have hbefore := @reservedCount_eq keyForIdentifier u tables hash
    have hafter := @reservedCount_eq keyForIdentifier u
      (settledTables now outcome ⟨hashes, scopes, token⟩ tables) hash
    have hrest : (settledTables now outcome ⟨hashes, scopes, token⟩ tables).reservations =
        tables.reservations.removeWhere (ofReservation ⟨hashes, scopes, token⟩) := rfl
    rw [hrest] at hafter
    omega
  constructor
  · cases outcome with
    | release => exact fun hash u _ => ⟨failureCount_of_entry rfl, hreserved hash u⟩
    | failure =>
      refine ⟨fun hash u _ => hreserved hash u, fun hash hin => ?_, fun hash hout u _ => ?_⟩
      · exact failureCount_upserted (if_pos hin)
      · exact failureCount_of_entry (if_neg hout)
  · intro other hashes' expiresAt' hne _ hother hash hin
    obtain ⟨row, hrow, htoken, hrest⟩ := hother hash hin
    refine ⟨row, Table.mem_removeWhere.mpr ⟨hrow, decide_eq_false fun h => hne ?_⟩, htoken, hrest⟩
    exact congrArg some (htoken.symm.trans h.1)

theorem postgres_pruned (h : PrunePersistent now tables tables') :
    (postgresBackend keyForIdentifier).SameFrom now tables tables' ∧
      (postgresBackend keyForIdentifier).KeepsTokens now none tables tables' := by
  obtain ⟨expired, hrest, hold⟩ := h.reservations
  have hlapsed : ∀ row ∈ tables.reservations, expired row = true → row.expiresAt ≤ now :=
    fun row hmem he => le_trans (Nat.le_add_right _ _) (hold row hmem he)
  constructor
  · intro hash u hu
    constructor
    · rcases h.entries hash with hsame | ⟨hnone, row, hrow, hle⟩
      · exact failureCount_of_entry hsame
      · have hlate : ¬ u < row.expiresAt := not_lt.mpr (hle.trans hu)
        unfold LoginBackend.failureCount postgresBackend
        dsimp only
        rw [hnone, hrow]
        simp [hlate]
    · have hsum : tables'.reservations.sum (weight hash u) = tables.reservations.sum (weight hash u) := by
        rw [hrest, Table.sum_removeWhere]
        refine Table.sum_congr fun row hmem => ?_
        by_cases he : expired row = true
        · have hlate : ¬ u < row.expiresAt := not_lt.mpr ((hlapsed row hmem he).trans hu)
          rw [if_pos he]
          unfold weight
          rw [if_neg fun h => hlate h.2]
        · rw [if_neg he]
      have hbefore := @reservedCount_eq keyForIdentifier u tables hash
      have hafter := @reservedCount_eq keyForIdentifier u tables' hash
      omega
  · intro other hashes' expiresAt _ hlive hheld hash hin
    obtain ⟨row, hrow, htoken, hhash, hexpires⟩ := hheld hash hin
    refine ⟨row, ?_, htoken, hhash, hexpires⟩
    rw [hrest]
    refine Table.mem_removeWhere.mpr ⟨hrow, Bool.eq_false_iff.mpr fun he => ?_⟩
    have hle := hlapsed row hrow he
    rw [hexpires] at hle
    exact absurd hle (not_le.mpr hlive)

/-- **The database is a lawful backend.** -/
theorem postgres_lawful : Lawful keyForIdentifier (postgresBackend keyForIdentifier) where
  empty _ _ := ⟨rfl, rfl⟩
  invalid now scopes token tables h := by
    show (validateAndHashLoginScopes keyForIdentifier scopes).bind _ = none
    rw [h]
    rfl
  refused _ _ _ _ _ hvalid hblocked := postgres_refused hvalid hblocked
  admitted _ _ _ _ _ hvalid hblocked hfresh :=
    ⟨_, postgres_admitted_eq hvalid hblocked hfresh, postgres_admitted hvalid hfresh⟩
  settled _ _ _ _ _ outcome _ hvalid hheld _ := by
    obtain ⟨result, heq⟩ := postgres_settled_eq (hashes_of_validate hvalid).2.1 hheld outcome
    exact ⟨result, _, heq, postgres_settled hheld outcome⟩
  pruned _ _ _ h := postgres_pruned h

end Laws

end OwnMinutes.Postgres.LoginLimits
