import OwnMinutes.Postgres.ProviderCost

/-! # Provider cost is archived once

`CostInv` holds where the transactions of a user do not overlap and a source is archived once (`Uncontested`):
what a transaction has selected is what its delete statement finds, and what has been archived is what has been
deleted. The row of the user that most transactions lock gives the first part, but for the clean-up of a legacy
meeting, which does not lock it; nothing gives the second. -/

namespace OwnMinutes.Deletion.ProviderCost

open OwnMinutes.Lib.Keyed OwnMinutes.Lib.Keyed.Table OwnMinutes.Lib.Runs
open OwnMinutes.Auth.ProcessingRoute OwnMinutes.Auth.Records OwnMinutes.Auth.QuotaTypes
open OwnMinutes.Quota.Calls OwnMinutes.Postgres.Store OwnMinutes.Postgres.Calls
open OwnMinutes.Postgres.LedgerOwners OwnMinutes.Postgres.ProviderCost

/-! ### What a transaction counts -/

/-- The cost of the steps of the reservations that a job deletes. -/
def coveredCost (job : LedgerJob) (t : Tables) : CostTotals :=
  t.meetingProcessingProviderSteps.sum fun step => if job.joins t step then costOf step else 0

/-- The reservations are there, and are the user's. -/
def Present (ids : List ReservationId) (userId : UserId) (t : Tables) : Prop :=
  ∀ id ∈ ids, ∃ r ∈ t.meetingProcessingReservations, r.id = id ∧ r.userId = userId

section Counts

variable {t t' : Tables} {job : LedgerJob} {userId other : UserId} {ids : List ReservationId}
  {step : MeetingProviderStepRecord} {r : MeetingProcessingReservationRecord}

theorem userId_of_covers (h : job.covers r = true) : r.userId = job.userId := by
  cases job with
  | deleteAccount userId | reconcileAccount userId => exact of_decide_eq_true h
  | purgeMeeting userId meetingId | purgeLegacyMeeting userId meetingId => exact (of_decide_eq_true h).1

theorem get?_of_linked (h : Linked t) (hstep : step ∈ t.meetingProcessingProviderSteps) :
    ∃ r, t.meetingProcessingReservations.get? step.reservationId = some r ∧ r.userId = step.userId := by
  obtain ⟨r, hr, hid, hu⟩ := h step hstep
  exact ⟨r, get?_eq_some.mpr ⟨hr, hid⟩, hu⟩

/-- A step that a job joins is one of its user. -/
theorem userId_of_joins (h : Linked t) (hstep : step ∈ t.meetingProcessingProviderSteps)
    (hjoins : job.joins t step = true) : step.userId = job.userId := by
  obtain ⟨r, hget, hu⟩ := get?_of_linked h hstep
  unfold LedgerJob.joins at hjoins
  rw [hget, Option.any_some] at hjoins
  exact hu.symm.trans (userId_of_covers hjoins)

/-- The totals of an account are those of its reservations. -/
theorem selectTotals_eq (h : Linked t) : job.selectTotals t = coveredCost job t := by
  have haccount : ∀ userId, job.userId = userId → (∀ r, job.covers r = decide (r.userId = userId)) →
      ∀ step ∈ t.meetingProcessingProviderSteps,
        (if step.userId = userId then costOf step else 0) = if job.joins t step then costOf step else 0 := by
    intro userId _ hcovers step hstep
    obtain ⟨r, hget, hu⟩ := get?_of_linked h hstep
    have hjoins : job.joins t step = decide (step.userId = userId) := by
      unfold LedgerJob.joins
      rw [hget, Option.any_some, hcovers, hu]
    simp only [hjoins, decide_eq_true_eq]
  cases job with
  | deleteAccount userId | reconcileAccount userId => exact sum_congr (haccount userId rfl fun _ => rfl)
  | purgeMeeting userId meetingId | purgeLegacyMeeting userId meetingId => rfl

theorem mem_found : step.reservationId ∈ job.found t ↔ job.joins t step = true := by
  unfold LedgerJob.found LedgerJob.joins
  rw [List.mem_map]
  constructor
  · rintro ⟨r, hr, hid⟩
    obtain ⟨hin, hcovers⟩ := List.mem_filter.mp hr
    have hget : t.meetingProcessingReservations.get? step.reservationId = some r :=
      get?_eq_some.mpr ⟨hin, hid⟩
    rw [hget, Option.any_some]
    exact hcovers
  · intro h
    cases hget : t.meetingProcessingReservations.get? step.reservationId with
    | none =>
      rw [hget] at h
      cases h
    | some r =>
      rw [hget, Option.any_some] at h
      exact ⟨r, List.mem_filter.mpr ⟨mem_of_get? hget, h⟩, key_of_get? hget⟩

theorem erasedCost_found : erasedCost (job.found t) t = coveredCost job t :=
  sum_congr fun step _ => by simp only [mem_found]

theorem present_found : Present (job.found t) job.userId t := by
  intro id hid
  obtain ⟨r, hr, rfl⟩ := List.mem_map.mp hid
  obtain ⟨hin, hcovers⟩ := List.mem_filter.mp hr
  exact ⟨r, hin, rfl, userId_of_covers hcovers⟩

/-- A step of these reservations is one of the user. -/
theorem userId_of_present (hl : Linked t) (h : Present ids userId t)
    (hstep : step ∈ t.meetingProcessingProviderSteps) (hid : step.reservationId ∈ ids) :
    step.userId = userId := by
  obtain ⟨r, hr, hrid, hu⟩ := h _ hid
  exact (userId_of_linked hl hr hstep hrid.symm).trans hu

/-- Without a step nothing is settled. -/
theorem coveredCost_eq_zero (h : ¬ 0 < (coveredCost job t).1) : coveredCost job t = 0 := by
  have hlist : ∀ rows : List MeetingProviderStepRecord,
      let total : CostTotals := (rows.map fun step => if job.joins t step then costOf step else 0).sum
      0 ≤ total.1 ∧ (total.1 = 0 → total = 0) := by
    intro rows
    induction rows with
    | nil => exact ⟨le_rfl, fun _ => rfl⟩
    | cons step rows ih =>
      obtain ⟨hnonneg, hzero⟩ := ih
      dsimp only at hnonneg hzero ⊢
      rw [List.map_cons, List.sum_cons, Prod.fst_add]
      by_cases hj : job.joins t step = true
      · have hone : (if job.joins t step = true then costOf step else 0).1 = 1 := by rw [if_pos hj]; rfl
        rw [hone]
        exact ⟨by omega, fun hc => by omega⟩
      · rw [if_neg hj, zero_add]
        exact ⟨by simpa using hnonneg, fun hc => hzero (by simpa using hc)⟩
  obtain ⟨hnonneg, hzero⟩ := hlist t.meetingProcessingProviderSteps.rows
  exact hzero (le_antisymm (not_lt.mp h) hnonneg)

/-! ### Changes of another user -/

theorem present_of_others (h : OthersKept other t t') (hne : userId ≠ other) (hp : Present ids userId t) :
    Present ids userId t' := by
  intro id hid
  obtain ⟨r, hr, hrid, hu⟩ := hp id hid
  exact ⟨r, (h.reservations r (hu ▸ hne)).mpr hr, hrid, hu⟩

theorem erasedCost_of_others (hl : Linked t) (hl' : Linked t') (h : OthersKept other t t') (hne : userId ≠ other)
    (hp : Present ids userId t) : erasedCost ids t' = erasedCost ids t := by
  have hp' := present_of_others h hne hp
  refine sum_eq_of_mem (·.userId = userId) (fun step hu => h.steps step (hu ▸ hne)) (fun _ _ _ => rfl)
    (fun step hstep hu => if_neg fun hid => hu ?_) (fun step hstep hu => if_neg fun hid => hu ?_)
  · exact userId_of_present hl hp hstep hid
  · exact userId_of_present hl' hp' hstep hid

theorem coveredCost_of_others (hl : Linked t) (hl' : Linked t') (h : OthersKept other t t')
    (hne : job.userId ≠ other) : coveredCost job t' = coveredCost job t := by
  refine sum_eq_of_mem (·.userId = job.userId) (fun step hu => h.steps step (hu ▸ hne)) (fun step hstep hu => ?_)
    (fun step hstep hu => if_neg fun hj => hu ?_) (fun step hstep hu => if_neg fun hj => hu ?_)
  · -- the reservation of the step is the same
    obtain ⟨r, hget, hru⟩ := get?_of_linked hl hstep
    obtain ⟨hr, hid⟩ := get?_eq_some.mp hget
    have hr' := (h.reservations r (by rw [hru, hu]; exact hne)).mpr hr
    have hget' : t'.meetingProcessingReservations.get? step.reservationId = some r :=
      get?_eq_some.mpr ⟨hr', hid⟩
    unfold LedgerJob.joins
    rw [hget, hget']
  · exact userId_of_joins hl hstep hj
  · exact userId_of_joins hl' hstep hj

/-! ### What a commit leaves -/

/-- The steps that an account deletion releases are its own. -/
theorem mem_releasedSteps_of_ne {now : Timestamp} {steps : Table MeetingProviderStepRecord}
    (hu : step.userId ≠ job.userId) : step ∈ job.releasedSteps now steps ↔ step ∈ steps := by
  have haccount : ∀ userId, userId = job.userId → (step ∈ steps.updateWhere
      (fun step => step.userId == userId && step.status == .claimed)
      (fun step => { step with status := .released, releasedAt := step.releasedAt <|> some now })
      (releasedOfUser_key now) ↔ step ∈ steps) := by
    intro userId huser
    rw [mem_updateWhere]
    constructor
    · rintro ⟨old, hold, heq⟩
      split_ifs at heq with hp
      · rw [← heq] at hu
        simp only [Bool.and_eq_true, beq_iff_eq] at hp
        exact absurd (hp.1.trans huser) hu
      · rw [← heq]
        exact hold
    · intro hstep
      refine ⟨step, hstep, if_neg fun hp => hu ?_⟩
      simp only [Bool.and_eq_true, beq_iff_eq] at hp
      exact hp.1.trans huser
  cases job with
  | deleteAccount userId | reconcileAccount userId => exact haccount userId rfl
  | purgeMeeting userId meetingId | purgeLegacyMeeting userId meetingId => exact Iff.rfl

theorem exists_of_mem_releasedSteps {now : Timestamp} {steps : Table MeetingProviderStepRecord}
    (h : step ∈ job.releasedSteps now steps) :
    ∃ old ∈ steps, old.reservationId = step.reservationId ∧ old.userId = step.userId := by
  have haccount : ∀ userId, (step ∈ steps.updateWhere
      (fun step => step.userId == userId && step.status == .claimed)
      (fun step => { step with status := .released, releasedAt := step.releasedAt <|> some now })
      (releasedOfUser_key now)) →
      ∃ old ∈ steps, old.reservationId = step.reservationId ∧ old.userId = step.userId := by
    intro userId hmem
    obtain ⟨old, hold, heq⟩ := (mem_updateWhere _).mp hmem
    refine ⟨old, hold, ?_⟩
    rw [← heq]
    split_ifs <;> exact ⟨rfl, rfl⟩
  cases job with
  | deleteAccount userId | reconcileAccount userId => exact haccount userId h
  | purgeMeeting userId meetingId | purgeLegacyMeeting userId meetingId => exact ⟨step, h, rfl, rfl⟩

theorem linked_committed {now : Timestamp} (hl : Linked t) : Linked (job.committed now ids t) := by
  intro step hstep
  obtain ⟨hin, hkept⟩ := mem_removeWhere.mp hstep
  obtain ⟨old, hold, hres, hu⟩ := exists_of_mem_releasedSteps hin
  obtain ⟨r, hr, hid, hru⟩ := hl old hold
  refine ⟨r, mem_removeWhere.mpr ⟨hr, ?_⟩, hid.trans hres, hru.trans hu⟩
  rw [hid, hres]
  exact hkept

theorem othersKept_committed {now : Timestamp} (hl : Linked t) (hp : Present ids job.userId t) :
    OthersKept job.userId t (job.committed now ids t) := by
  constructor
  · intro r hu
    refine ⟨fun hin => (mem_removeWhere.mp hin).1, fun hin => mem_removeWhere.mpr ⟨hin, ?_⟩⟩
    refine decide_eq_false fun hid => hu ?_
    obtain ⟨r', hr', hrid', hu'⟩ := hp _ hid
    rw [eq_of_key hin hr' hrid'.symm]
    exact hu'
  · intro step hu
    constructor
    · intro hin
      exact (mem_releasedSteps_of_ne hu).mp (mem_removeWhere.mp hin).1
    · intro hin
      refine mem_removeWhere.mpr ⟨(mem_releasedSteps_of_ne hu).mpr hin, decide_eq_false fun hid => hu ?_⟩
      exact userId_of_present hl hp hin hid

end Counts

/-! ### The invariant -/

/-- No transaction of the user has begun. -/
def NoneOf (w : CostWorld) (userId : UserId) : Prop :=
  ∀ worker tx, w.transactions worker = some tx → tx.job.userId ≠ userId

/-- What a transaction will commit: it has counted what it deletes. -/
structure TxInv (t : Tables) (tx : LedgerTransaction) : Prop where
  selected : tx.erased = none → tx.totals = coveredCost tx.job t
  erased : ∀ ids, tx.erased = some ids → Present ids tx.job.userId t ∧ tx.totals = erasedCost ids t
  row : ∀ userId, archivedTotals tx.row.toList userId = if userId = tx.job.userId then tx.totals else 0

structure CostInv (w : CostWorld) : Prop where
  linked : Linked w.quota.store.toTables
  exact : ∀ userId, archivedTotals w.aggregates userId = w.deleted userId
  transactions : ∀ worker tx, w.transactions worker = some tx → TxInv w.quota.store.toTables tx
  serial : ∀ worker other tx tx', w.transactions worker = some tx → w.transactions other = some tx' →
    tx.job.userId = tx'.job.userId → worker = other

section Invariant

variable {sha256 : String → String} {hashPostgresClaimToken : ClaimToken → TokenHash} {w w' : CostWorld}
  {tx : LedgerTransaction} {t t' : Tables} {job : LedgerJob} {userId : UserId}

theorem archivedTotals_append {rows rows' : List CostAggregate} :
    archivedTotals (rows ++ rows') userId = archivedTotals rows userId + archivedTotals rows' userId := by
  unfold archivedTotals
  rw [List.filter_append, List.map_append, List.sum_append]

/-- A change of another user leaves what a transaction has counted. -/
theorem TxInv.of_others (h : TxInv t tx) (hl : Linked t) (hl' : Linked t') (ho : OthersKept userId t t')
    (hne : tx.job.userId ≠ userId) : TxInv t' tx where
  selected hnone := (h.selected hnone).trans (coveredCost_of_others hl hl' ho hne).symm
  erased ids hids := by
    obtain ⟨hp, htotals⟩ := h.erased ids hids
    exact ⟨present_of_others ho hne hp, htotals.trans (erasedCost_of_others hl hl' ho hne hp).symm⟩
  row := h.row

/-- A row is inserted where a step is counted and its source is new. -/
theorem txInv_archiving (hl : Linked t) {aggregates : List CostAggregate}
    (hnew : 0 < (job.selectTotals t).1 →
      ∀ row ∈ aggregates, row.sourceRef = none ∨ row.sourceRef ≠ job.sourceRef sha256) :
    TxInv t (archiving sha256 job t aggregates) where
  selected _ := selectTotals_eq hl
  erased _ h := by cases h
  row userId := by
    unfold archiving insertedAggregate
    dsimp only
    by_cases hpos : 0 < (job.selectTotals t).1
    · rw [if_pos ⟨hpos, hnew hpos⟩]
      unfold archivedTotals
      by_cases hu : userId = job.userId
      · simp [hu]
      · simp [hu, Ne.symm hu]
    · have hzero : job.selectTotals t = 0 := by
        rw [selectTotals_eq hl] at hpos ⊢
        exact coveredCost_eq_zero hpos
      rw [if_neg fun h => hpos h.1, hzero, ite_self]
      rfl

/-- **The condition**: a transaction of a user overlaps no other one and no quota call of the user, and what it
counts is not archived under its source yet. -/
def Uncontested (sha256 : String → String) (w : CostWorld) (e : CostEvent) : Prop :=
  match e with
  | .quota event => NoneOf w event.call.userId
  | .select _ job => NoneOf w job.userId ∧ (0 < (job.selectTotals w.quota.store.toTables).1 →
      ∀ row ∈ w.aggregates, row.sourceRef = none ∨ row.sourceRef ≠ job.sourceRef sha256)
  | _ => True

theorem txInv_beginJob (hl : Linked t) {aggregates : List CostAggregate}
    (hnew : 0 < (job.selectTotals t).1 →
      ∀ row ∈ aggregates, row.sourceRef = none ∨ row.sourceRef ≠ job.sourceRef sha256)
    (h : beginJob sha256 job t aggregates = some tx) : TxInv t tx ∧ tx.job = job := by
  have harchiving := txInv_archiving hl hnew
  unfold beginJob at h
  cases job with
  | deleteAccount userId =>
    dsimp only at h
    split at h
    · cases h
    · split_ifs at h
      · cases h
        refine ⟨⟨fun hc => (by cases hc), fun ids hids => ?_, fun userId => ?_⟩, rfl⟩
        · cases hids
          refine ⟨fun id hid => absurd hid List.not_mem_nil, ?_⟩
          exact (sum_eq_zero _ fun step _ => if_neg List.not_mem_nil).symm
        · rw [ite_self]
          rfl
      · cases h
        exact ⟨harchiving, rfl⟩
  | reconcileAccount userId =>
    dsimp only at h
    split at h
    · cases h
    · cases h
      exact ⟨harchiving, rfl⟩
  | purgeMeeting userId meetingId =>
    cases h
    exact ⟨harchiving, rfl⟩
  | purgeLegacyMeeting userId meetingId =>
    cases h
    exact ⟨harchiving, rfl⟩

theorem transactions_update {worker other : WorkerId} {entry : Option LedgerTransaction} {tx' : LedgerTransaction}
    (h : Function.update w.transactions worker entry other = some tx') :
    (other = worker ∧ entry = some tx') ∨ (other ≠ worker ∧ w.transactions other = some tx') := by
  by_cases he : other = worker
  · rw [he, Function.update_self] at h
    exact .inl ⟨he, h⟩
  · rw [Function.update_of_ne he] at h
    exact .inr ⟨he, h⟩

/-- A transaction that ends leaves the others. -/
theorem CostInv.ended (h : CostInv w) (worker : WorkerId) :
    CostInv { w with transactions := Function.update w.transactions worker none } where
  linked := h.linked
  exact := h.exact
  transactions other tx' htx := by
    rcases transactions_update htx with ⟨-, hc⟩ | ⟨-, htx⟩
    · cases hc
    · exact h.transactions other tx' htx
  serial one other tx1 tx2 h1 h2 := by
    rcases transactions_update h1 with ⟨-, hc⟩ | ⟨-, h1⟩
    · cases hc
    · rcases transactions_update h2 with ⟨-, hc⟩ | ⟨-, h2⟩
      · cases hc
      · exact h.serial one other tx1 tx2 h1 h2

theorem CostInv.quota (h : CostInv w) {event : QuotaEvent} {quota : Clocked Database}
    (hstep : QuotaStep hashPostgresClaimToken w.quota event quota) (hnone : NoneOf w event.call.userId) :
    CostInv { w with quota := quota } := by
  obtain ⟨-, -, hexec, -⟩ := hstep
  cases hres : event.result with
  | error err =>
    rw [hres] at hexec
    have hsame := execute_error hashPostgresClaimToken hexec
    refine ⟨?_, h.exact, fun worker tx htx => ?_, h.serial⟩
    · rw [hsame]
      exact h.linked
    · rw [hsame]
      exact h.transactions worker tx htx
  | ok res =>
    rw [hres] at hexec
    have hown := ownChange_of_execute h.linked hexec
    exact ⟨hown.linked, h.exact, fun worker tx htx =>
      (h.transactions worker tx htx).of_others h.linked hown.linked hown.others (hnone worker tx htx), h.serial⟩

theorem CostInv.begun (h : CostInv w) {worker : WorkerId} (htx : TxInv w.quota.store.toTables tx)
    (hnone : NoneOf w tx.job.userId) :
    CostInv { w with transactions := Function.update w.transactions worker (some tx) } where
  linked := h.linked
  exact := h.exact
  transactions other tx' htx' := by
    rcases transactions_update htx' with ⟨-, heq⟩ | ⟨-, htx'⟩
    · cases heq
      exact htx
    · exact h.transactions other tx' htx'
  serial one other tx1 tx2 h1 h2 heq := by
    rcases transactions_update h1 with ⟨hone, he1⟩ | ⟨hone, h1⟩
    · rcases transactions_update h2 with ⟨hother, -⟩ | ⟨-, h2⟩
      · exact hone.trans hother.symm
      · cases he1
        exact absurd heq.symm (hnone other tx2 h2)
    · rcases transactions_update h2 with ⟨-, he2⟩ | ⟨-, h2⟩
      · cases he2
        exact absurd heq (hnone one tx1 h1)
      · exact h.serial one other tx1 tx2 h1 h2 heq

theorem CostInv.deleting (h : CostInv w) {worker : WorkerId} (hbegun : w.transactions worker = some tx)
    (hnone : tx.erased = none) :
    CostInv { w with
      transactions := Function.update w.transactions worker
        (some { tx with erased := some (tx.job.found w.quota.store.toTables) }) } where
  linked := h.linked
  exact := h.exact
  transactions other tx' htx' := by
    rcases transactions_update htx' with ⟨-, heq⟩ | ⟨-, htx'⟩
    · cases heq
      have htx := h.transactions worker tx hbegun
      refine ⟨fun hc => (by cases hc), fun ids hids => ?_, htx.row⟩
      cases hids
      exact ⟨present_found, (htx.selected hnone).trans erasedCost_found.symm⟩
    · exact h.transactions other tx' htx'
  serial one other tx1 tx2 h1 h2 heq := by
    rcases transactions_update h1 with ⟨hone, he1⟩ | ⟨hone, h1⟩
    · rcases transactions_update h2 with ⟨hother, -⟩ | ⟨-, h2⟩
      · exact hone.trans hother.symm
      · cases he1
        exact hone.trans (h.serial worker other tx tx2 hbegun h2 heq)
    · rcases transactions_update h2 with ⟨hother, he2⟩ | ⟨-, h2⟩
      · cases he2
        exact (h.serial one worker tx1 tx h1 hbegun heq).trans hother.symm
      · exact h.serial one other tx1 tx2 h1 h2 heq

theorem CostInv.committed (h : CostInv w) {worker : WorkerId} {erased : List ReservationId} {now : Timestamp}
    (hbegun : w.transactions worker = some tx) (herased : tx.erased = some erased) :
    CostInv (w.committed worker tx erased now) := by
  have htx := h.transactions worker tx hbegun
  obtain ⟨hpresent, htotals⟩ := htx.erased erased herased
  unfold CostWorld.committed
  split
  · exact h.ended worker
  · rename_i db hcommit
    have ht : db.toTables = tx.job.committed now erased w.quota.store.toTables := (commitTables_ok hcommit).2
    have hlinked : Linked db.toTables := by
      rw [ht]
      exact linked_committed h.linked
    have hothers : OthersKept tx.job.userId w.quota.store.toTables db.toTables := by
      rw [ht]
      exact othersKept_committed h.linked hpresent
    have hended := h.ended worker
    refine ⟨hlinked, fun userId => ?_, fun other tx' htx' => ?_, hended.serial⟩
    · show archivedTotals (w.aggregates ++ tx.row.toList) userId = _
      rw [archivedTotals_append, h.exact, htx.row, htotals]
    · refine (hended.transactions other tx' htx').of_others h.linked hlinked hothers fun heq => ?_
      rcases transactions_update htx' with ⟨-, hc⟩ | ⟨hne, htx'⟩
      · cases hc
      · exact hne (h.serial other worker tx' tx htx' hbegun heq)

theorem costInv_step {e : CostEvent} (h : CostInv w) (hstep : CostStep sha256 hashPostgresClaimToken w e w')
    (hcond : Uncontested sha256 w e) : CostInv w' := by
  cases e with
  | quota event =>
    obtain ⟨quota, hquota, -, -, rfl⟩ := hstep
    exact h.quota hquota hcond
  | select worker job =>
    obtain ⟨tx, hbegin, -, -, rfl⟩ := hstep
    obtain ⟨htx, hjob⟩ := txInv_beginJob h.linked hcond.2 hbegin
    exact h.begun htx (hjob ▸ hcond.1)
  | delete worker =>
    obtain ⟨tx, hbegun, hnone, -, rfl⟩ := hstep
    exact h.deleting hbegun hnone
  | commit worker now =>
    obtain ⟨tx, erased, hbegun, herased, -, rfl⟩ := hstep
    exact h.committed hbegun herased
  | abort worker =>
    obtain rfl := hstep
    exact h.ended worker

end Invariant

/-- Nothing has been archived or deleted yet, and no transaction has begun. -/
structure Unarchived (w : CostWorld) : Prop where
  linked : Linked w.quota.store.toTables
  aggregates : w.aggregates = []
  transactions : ∀ worker, w.transactions worker = none
  deleted : ∀ userId, w.deleted userId = 0

theorem costInv_unarchived {w : CostWorld} (h : Unarchived w) : CostInv w where
  linked := h.linked
  exact userId := by
    rw [h.aggregates, h.deleted]
    rfl
  transactions worker tx htx := by
    rw [h.transactions] at htx
    cases htx
  serial worker other tx tx' htx := by
    rw [h.transactions] at htx
    cases htx

/-- **Provider cost is archived exactly once** in runs whose steps are uncontested. -/
theorem provider_cost_archived (sha256 : String → String) (hashPostgresClaimToken : ClaimToken → TokenHash)
    {w w' : CostWorld} (hstart : Unarchived w) {events : List CostEvent}
    (h : Run (fun a e b => CostStep sha256 hashPostgresClaimToken a e b ∧ Uncontested sha256 a e) w events w') :
    ∀ userId, archivedTotals w'.aggregates userId = w'.deleted userId := by
  have hinv : CostInv w' := h.invariant (I := CostInv)
    (fun _ _ _ hinv hstep => costInv_step hinv hstep.1 hstep.2) (costInv_unarchived hstart)
  exact hinv.exact

/-! ### A meeting that is reserved again after its archive -/

section Replay

variable {sha256 : String → String} {hashPostgresClaimToken : ClaimToken → TokenHash} {w : CostWorld}
  {P : CostWorld → CostEvent → Prop}

/-- Quota calls while no transaction has begun. -/
theorem run_calls (hidle : ∀ worker, w.transactions worker = none) {events : List QuotaEvent}
    {quota : Clocked Database} (h : Run (QuotaStep hashPostgresClaimToken) w.quota events quota)
    (hP : ∀ w' event, w'.transactions = w.transactions → P w' (.quota event)) :
    Run (fun a e b => CostStep sha256 hashPostgresClaimToken a e b ∧ P a e) w (events.map .quota)
      { w with quota := quota } := by
  have hgeneral : ∀ {q : Clocked Database}, Run (QuotaStep hashPostgresClaimToken) q events quota →
      Run (fun a e b => CostStep sha256 hashPostgresClaimToken a e b ∧ P a e) { w with quota := q }
        (events.map .quota) { w with quota := quota } := by
    clear h
    intro q hrun
    induction hrun with
    | nil => exact Run.nil _
    | cons hstep _ ih =>
      refine Run.cons ⟨⟨_, hstep, ?_, ?_, rfl⟩, hP _ _ rfl⟩ ih
      · intro worker tx htx
        rw [hidle] at htx
        cases htx
      · intro worker tx erased htx
        rw [hidle] at htx
        cases htx
  exact hgeneral h

/-- The transaction that purges a meeting. -/
def purge (sha256 : String → String) (w : CostWorld) (userId : UserId) (meetingId : MeetingId) :
    LedgerTransaction :=
  archiving sha256 (.purgeMeeting userId meetingId) w.quota.store.toTables w.aggregates

def purgedIds (w : CostWorld) (userId : UserId) (meetingId : MeetingId) : List ReservationId :=
  (LedgerJob.purgeMeeting userId meetingId).found w.quota.store.toTables

def purgeSelected (sha256 : String → String) (w : CostWorld) (userId : UserId) (meetingId : MeetingId) :
    CostWorld :=
  { w with transactions := Function.update w.transactions 0 (some (purge sha256 w userId meetingId)) }

def purgeDeleted (sha256 : String → String) (w : CostWorld) (userId : UserId) (meetingId : MeetingId) :
    CostWorld :=
  { w with
    transactions := Function.update (purgeSelected sha256 w userId meetingId).transactions 0
      (some { purge sha256 w userId meetingId with erased := some (purgedIds w userId meetingId) }) }

/-- What is left after it. -/
def purged (sha256 : String → String) (w : CostWorld) (userId : UserId) (meetingId : MeetingId)
    (now : Timestamp) : CostWorld :=
  (purgeDeleted sha256 w userId meetingId).committed 0
    { purge sha256 w userId meetingId with erased := some (purgedIds w userId meetingId) }
    (purgedIds w userId meetingId) now

theorem run_purged {userId : UserId} {meetingId : MeetingId} {now : Timestamp} (hfree : w.transactions 0 = none)
    (huser : UserUnlocked w userId) (hrows : RowsUnlocked w (purgedIds w userId meetingId))
    (hclock : w.quota.clock ≤ now) (hselect : P w (.select 0 (.purgeMeeting userId meetingId)))
    (hP : ∀ w', P w' (.delete 0) ∧ P w' (.commit 0 now)) :
    Run (fun a e b => CostStep sha256 hashPostgresClaimToken a e b ∧ P a e) w
      [.select 0 (.purgeMeeting userId meetingId), .delete 0, .commit 0 now]
      (purged sha256 w userId meetingId now) := by
  have hself : ∀ (transactions : WorkerId → Option LedgerTransaction) entry,
      Function.update transactions 0 entry 0 = entry := fun _ _ => Function.update_self ..
  have hselected : CostStep sha256 hashPostgresClaimToken w (.select 0 (.purgeMeeting userId meetingId))
      (purgeSelected sha256 w userId meetingId) := ⟨_, rfl, hfree, fun _ => huser, rfl⟩
  have hdeleted : CostStep sha256 hashPostgresClaimToken (purgeSelected sha256 w userId meetingId) (.delete 0)
      (purgeDeleted sha256 w userId meetingId) := by
    refine ⟨purge sha256 w userId meetingId, hself w.transactions _, rfl, fun worker tx erased htx herased => ?_,
      rfl⟩
    rcases transactions_update htx with ⟨-, heq⟩ | ⟨-, htx⟩
    · cases heq
      cases herased
    · exact hrows worker tx erased htx herased
  have hcommitted : CostStep sha256 hashPostgresClaimToken (purgeDeleted sha256 w userId meetingId)
      (.commit 0 now) (purged sha256 w userId meetingId now) :=
    ⟨_, _, hself (purgeSelected sha256 w userId meetingId).transactions _, rfl, hclock, rfl⟩
  exact Run.cons ⟨hselected, hselect⟩ (Run.cons ⟨hdeleted, (hP _).1⟩ (Run.single ⟨hcommitted, (hP _).2⟩))

/-- Nothing is locked while no transaction has begun. -/
theorem unlocked_of_idle (hidle : ∀ worker, w.transactions worker = none) :
    (∀ userId, UserUnlocked w userId) ∧ ∀ ids, RowsUnlocked w ids := by
  constructor
  · intro userId worker tx htx
    rw [hidle] at htx
    cases htx
  · intro ids worker tx erased htx
    rw [hidle] at htx
    cases htx

/-- The transaction has ended. -/
theorem purged_transactions (hfree : w.transactions 0 = none) (userId : UserId) (meetingId : MeetingId)
    (now : Timestamp) : (purged sha256 w userId meetingId now).transactions = w.transactions := by
  have hended : (purged sha256 w userId meetingId now).transactions =
      Function.update (purgeDeleted sha256 w userId meetingId).transactions 0 none := by
    unfold purged CostWorld.committed
    split <;> rfl
  rw [hended]
  show Function.update (Function.update (Function.update w.transactions 0 _) 0 _) 0 none = w.transactions
  rw [Function.update_idem, Function.update_idem, ← hfree, Function.update_eq_self]

end Replay

/-- An account with its free minutes. -/
def accountTables : Tables := { users := Table.empty.insert { id := "u" } }

def accountWorld : CostWorld where
  quota := ⟨⟨accountTables, by decide⟩, 0⟩
  aggregates := []
  transactions := fun _ => none
  deleted := fun _ => 0

theorem unarchived_accountWorld : Unarchived accountWorld where
  linked _ h := by cases h
  aggregates := rfl
  transactions _ := rfl
  deleted _ := rfl

/-- A finalization of the meeting, up to the call of its provider. -/
def finalization (now : Timestamp) (reservationId : ReservationId) (stepId : ProviderStepId) :
    List (Timestamp × QuotaCall) :=
  [(now, .reserveFinalization "u"
      { durationMs := 600000, meetingId := "m", operationKey := "k", processingRoute := .officialQuota }
      reservationId),
   (now + 1, .claim "u" { reservationId := reservationId, stage := .finalizationAsr } stepId "token"),
   (now + 2, .start "u" { claimToken := "token", stepId := stepId })]

/-- The quota after the calls. -/
def finalized (w : CostWorld) (calls : List (Timestamp × QuotaCall)) : CostWorld :=
  { w with quota := replay (execute id) w.quota calls }

def onceFinalized : CostWorld := finalized accountWorld (finalization 100 "r" "s")

def oncePurged : CostWorld := purged id onceFinalized "u" "m" 200

def twiceFinalized : CostWorld := finalized oncePurged (finalization 300 "r2" "s2")

def twicePurged : CostWorld := purged id twiceFinalized "u" "m" 400

theorem run_finalized {P : CostWorld → CostEvent → Prop} {w : CostWorld} {calls : List (Timestamp × QuotaCall)}
    (hidle : ∀ worker, w.transactions worker = none)
    (hscheduled : Scheduled (execute id) freshIn (fun _ _ _ => True) w.quota calls)
    (hP : ∀ w' event, w'.transactions = w.transactions → P w' (.quota event)) :
    Run (fun a e b => CostStep id id a e b ∧ P a e) w ((events (execute id) w.quota calls).map .quota)
      (finalized w calls) :=
  run_calls hidle (run_replay (execute id) freshIn (fun _ _ _ => True) (fun _ _ _ h _ => h) hscheduled) hP

/-- A finalization that is purged is archived. -/
theorem provider_cost_archived_once :
    archivedTotals oncePurged.aggregates "u" = oncePurged.deleted "u" ∧ oncePurged.deleted "u" = (1, 10, 10) := by
  have hidle : ∀ worker, onceFinalized.transactions worker = none := fun _ => rfl
  obtain ⟨huser, hrows⟩ := unlocked_of_idle hidle
  have hfirst := @run_finalized (Uncontested id) accountWorld (finalization 100 "r" "s")
    unarchived_accountWorld.transactions (by decide +kernel) fun w' event hsame worker tx htx => by
      rw [hsame] at htx
      cases htx
  have hsecond := @run_purged id id onceFinalized (Uncontested id) "u" "m" 200 rfl (huser _) (hrows _)
    (by decide) ⟨fun worker tx htx => (by cases htx), fun _ row hrow => (by cases hrow)⟩
    fun _ => ⟨trivial, trivial⟩
  have hrun := Run.append_iff.mpr ⟨_, hfirst, hsecond⟩
  exact ⟨provider_cost_archived id id unarchived_accountWorld hrun "u", by decide +kernel⟩

/-- A run without a condition. -/
abbrev AnyRun (w : CostWorld) (events : List CostEvent) (w' : CostWorld) : Prop :=
  Run (fun a e b => CostStep id id a e b ∧ True) w events w'

theorem onceFinalized_run : ∃ events, AnyRun accountWorld events onceFinalized :=
  ⟨_, @run_finalized (fun _ _ => True) accountWorld (finalization 100 "r" "s")
    unarchived_accountWorld.transactions (by decide +kernel) fun _ _ _ => trivial⟩

/-- What is reserved and called again after the archive of a meeting is deleted with the next purge, but the row
of the first one stands under the same source. -/
theorem provider_cost_lost : Unarchived accountWorld ∧
    ∃ events, Run (CostStep id id) accountWorld events twicePurged ∧
      archivedTotals twicePurged.aggregates "u" = (1, 10, 10) ∧ twicePurged.deleted "u" = (2, 20, 20) := by
  have hidle : ∀ worker, onceFinalized.transactions worker = none := fun _ => rfl
  have hidle' : ∀ worker, oncePurged.transactions worker = none := by
    intro worker
    rw [oncePurged, purged_transactions rfl]
    exact hidle worker
  obtain ⟨huser, hrows⟩ := unlocked_of_idle hidle
  obtain ⟨huser', hrows'⟩ := @unlocked_of_idle twiceFinalized hidle'
  obtain ⟨events, hfirst⟩ := onceFinalized_run
  have hsecond : AnyRun onceFinalized _ oncePurged :=
    run_purged rfl (huser _) (hrows _) (by decide) trivial fun _ => ⟨trivial, trivial⟩
  have hthird : AnyRun oncePurged _ twiceFinalized :=
    @run_finalized (fun _ _ => True) oncePurged (finalization 300 "r2" "s2") hidle' (by decide +kernel)
      fun _ _ _ => trivial
  have hfourth : AnyRun twiceFinalized _ twicePurged :=
    run_purged (hidle' 0) (huser' _) (hrows' _) (by decide) trivial fun _ => ⟨trivial, trivial⟩
  have hrun : AnyRun accountWorld _ twicePurged := Run.append_iff.mpr ⟨_, hfirst, Run.append_iff.mpr ⟨_, hsecond,
    Run.append_iff.mpr ⟨_, hthird, hfourth⟩⟩⟩
  exact ⟨unarchived_accountWorld, _, hrun.mono fun _ _ _ h => h.1, by decide +kernel, by decide +kernel⟩

end OwnMinutes.Deletion.ProviderCost
