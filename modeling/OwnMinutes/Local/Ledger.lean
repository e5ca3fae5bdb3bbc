import OwnMinutes.Local.Calls

/-! # The quota ledger of one account

Minutes are held in three places: on the account (used), on its reservations (reserved and settled)
and on the provider steps of these (settled). `LedgerInv` says how the three agree; `Advances`
says what a write keeps of them, and every write of a quota call advances the ledger. -/

namespace OwnMinutes.Local.Ledger

open OwnMinutes.Lib.Keyed OwnMinutes.Lib.Outcome OwnMinutes.Auth.ProcessingRoute
open OwnMinutes.Auth.Records OwnMinutes.Auth.QuotaTypes
open OwnMinutes.Local.Store OwnMinutes.Local.Quota OwnMinutes.Quota.Calls OwnMinutes.Local.Calls

/-! ### The sums -/

/-- The minutes settled on the provider steps of a reservation. -/
def settledOn (steps : Table MeetingProviderStepRecord) (reservationId : ReservationId) : ℤ :=
  steps.sum fun step => if step.reservationId = reservationId then step.officialMinutesSettled else 0

/-- The minutes settled on the reservations of an account. -/
def settledTotal (s : AuthStore) (userId : UserId) : ℤ :=
  s.meetingProcessingReservations.sum fun r => if r.userId = userId then r.officialMinutesSettled else 0

/-- The minutes that finalized meetings without a reservation were charged. -/
def chargedTotal (s : AuthStore) (userId : UserId) : ℤ :=
  (s.usageEvents.map fun event =>
    if event.userId = userId ∧ event.type = .meetingFinalize ∧ event.processingReservationId = none
    then event.minutes else 0).sum

/-- The minutes the open reservations of an account hold. -/
def pendingTotal (s : AuthStore) (userId : UserId) (now : Timestamp) : ℤ :=
  localPendingCapacity s userId now

/-- The minutes a reservation holds for an account. -/
def pendingFor (userId : UserId) (now : Timestamp) (r : MeetingProcessingReservationRecord) : ℤ :=
  if r.userId = userId then pendingMinutes now r else 0

theorem pendingTotal_eq (s : AuthStore) (userId : UserId) (now : Timestamp) :
    pendingTotal s userId now = s.meetingProcessingReservations.sum (pendingFor userId now) := by
  unfold pendingTotal localPendingCapacity
  refine Table.sum_congr fun r _ => ?_
  by_cases h : r.userId = userId <;> simp [pendingFor, h]

theorem pendingMinutes_nonneg (now : Timestamp) (r : MeetingProcessingReservationRecord) :
    0 ≤ pendingMinutes now r := by
  unfold pendingMinutes
  split_ifs
  · exact le_max_left _ _
  · exact le_rfl

variable {s : AuthStore} {now : Timestamp} {r : MeetingProcessingReservationRecord}

/-- What a reservation's own lease holds is left out of the pending minutes it competes with. -/
theorem pending_exclude {userId : UserId} (hr : r ∈ s.meetingProcessingReservations) :
    localPendingCapacity s userId now (some r.id) + pendingFor userId now r =
      pendingTotal s userId now := by
  rw [pendingTotal_eq, ← Table.sum_single (pendingFor userId now) hr]
  unfold localPendingCapacity
  rw [← Table.sum_add]
  refine Table.sum_congr fun x _ => ?_
  have hkey : HasKey.key x = HasKey.key r ↔ x.id = r.id := Iff.rfl
  simp only [hkey, Option.some.injEq]
  by_cases hx : x.id = r.id
  · simp [hx]
  · by_cases hu : x.userId = userId <;> simp [hx, hu, pendingFor]

theorem pending_exclude_fresh {userId : UserId} {id : ReservationId} (h : s.meetingProcessingReservations.Fresh id) :
    localPendingCapacity s userId now (some id) = pendingTotal s userId now := by
  unfold pendingTotal localPendingCapacity
  refine Table.sum_congr fun r hr => ?_
  have hne : r.id ≠ id := h r hr
  simp [hne]

theorem capacityActive_iff :
    isLocalReservationCapacityActive r now = true ↔
      r.status = .reserved ∧ r.releasedAt = none ∧ now < r.reservationExpiresAt := by
  simp [isLocalReservationCapacityActive, and_assoc]

/-- A lease only runs out as time passes. -/
theorem pendingMinutes_anti {later : Timestamp} (h : now ≤ later) (r : MeetingProcessingReservationRecord) :
    pendingMinutes later r ≤ pendingMinutes now r := by
  unfold pendingMinutes
  split_ifs with h1 h2 h2
  · exact le_rfl
  · obtain ⟨hs, hr, hl⟩ := capacityActive_iff.mp h1
    exact absurd (capacityActive_iff.mpr ⟨hs, hr, lt_of_le_of_lt h hl⟩) h2
  · exact le_max_left _ _
  · exact le_rfl

theorem pendingTotal_anti {userId : UserId} {later : Timestamp} (h : now ≤ later) :
    pendingTotal s userId later ≤ pendingTotal s userId now := by
  rw [pendingTotal_eq, pendingTotal_eq]
  refine Table.sum_le_sum fun r _ => ?_
  unfold pendingFor
  split_ifs
  · exact pendingMinutes_anti h r
  · exact le_rfl

/-! ### The invariant -/

/-- A provider step in the ledger of its account. -/
structure StepInv (user : UserRecord) (step : MeetingProviderStepRecord) : Prop where
  owner : step.userId = user.id
  nonneg : 0 ≤ step.officialMinutesSettled
  idle : step.status = .claimed ∨ step.status = .released → step.officialMinutesSettled = 0
  period : step.status = .started →
    step.settlementPeriodIdentity = some (localSettlementPeriodIdentity user)

/-- A reservation in the ledger of its account. -/
structure RowInv (user : UserRecord) (steps : Table MeetingProviderStepRecord)
    (r : MeetingProcessingReservationRecord) : Prop where
  settled_eq : r.officialMinutesSettled = settledOn steps r.id
  settled_le : r.officialMinutesSettled ≤ r.officialMinutesReserved
  steps : ∀ step ∈ steps, step.reservationId = r.id → StepInv user step

/-- The ledger of an account that is not deleted: `user` is its record. -/
structure LedgerInv (userId : UserId) (s : AuthStore) (user : UserRecord) : Prop where
  found : s.users.get? userId = some user
  active : user.deletedAt = none
  rows : ∀ r ∈ s.meetingProcessingReservations, r.userId = userId →
    RowInv user s.meetingProviderSteps r

/-- The parts of an account the ledger depends on besides the minutes used. -/
structure SamePeriod (user user' : UserRecord) : Prop where
  id : user'.id = user.id
  deletedAt : user'.deletedAt = user.deletedAt
  plan : user'.plan = user.plan
  total : user'.officialMinutesTotal = user.officialMinutesTotal
  period : localSettlementPeriodIdentity user' = localSettlementPeriodIdentity user

/-- The account does not exceed its minutes, counting those its reservations hold. -/
def Safe (userId : UserId) (now : Timestamp) (s : AuthStore) (user : UserRecord) : Prop :=
  0 ≤ user.officialMinutesUsed ∧
    user.officialMinutesUsed + pendingTotal s userId now ≤ user.officialMinutesTotal

/-- The minutes used that neither a reservation nor a usage event accounts for. -/
def opening (userId : UserId) (s : AuthStore) (user : UserRecord) : ℤ :=
  user.officialMinutesUsed - settledTotal s userId - chargedTotal s userId

/-- What a write keeps of the ledger of an account. -/
structure Advances (userId : UserId) (now : Timestamp) (s : AuthStore) (user : UserRecord)
    (s' : AuthStore) (user' : UserRecord) : Prop where
  inv : LedgerInv userId s' user'
  period : SamePeriod user user'
  opening : opening userId s' user' = opening userId s user
  safe : Safe userId now s user → Safe userId now s' user'

theorem SamePeriod.refl (user : UserRecord) : SamePeriod user user := ⟨rfl, rfl, rfl, rfl, rfl⟩

theorem SamePeriod.trans {a b c : UserRecord} (h : SamePeriod a b) (h' : SamePeriod b c) :
    SamePeriod a c :=
  ⟨h'.id.trans h.id, h'.deletedAt.trans h.deletedAt, h'.plan.trans h.plan, h'.total.trans h.total,
    h'.period.trans h.period⟩

theorem Advances.trans {userId : UserId} {t v : AuthStore} {a b c : UserRecord} (h : Advances userId now s a t b)
    (h' : Advances userId now t b v c) : Advances userId now s a v c :=
  ⟨h'.inv, h.period.trans h'.period, h'.opening.trans h.opening, fun hs => h'.safe (h.safe hs)⟩

/-! ### Writes that move no settled minutes -/

theorem settledOn_replace {steps : Table MeetingProviderStepRecord}
    {step step' : MeetingProviderStepRecord} (hstep : step ∈ steps) (hid : step.id = step'.id)
    (hres : step'.reservationId = step.reservationId) (reservationId : ReservationId) :
    settledOn (steps.replace step') reservationId = settledOn steps reservationId +
      if step.reservationId = reservationId then
        step'.officialMinutesSettled - step.officialMinutesSettled else 0 := by
  unfold settledOn
  rw [Table.sum_replace _ hstep hid, hres]
  split_ifs <;> omega

theorem settledOn_releaseClaimedSteps {released reservationId : ReservationId}
    {steps : Table MeetingProviderStepRecord} :
    settledOn (releaseClaimedSteps now released steps) reservationId =
      settledOn steps reservationId :=
  Table.sum_updateWhere_of_eq _ (releasedStep_key now) fun _ _ _ => rfl

variable {user' : UserRecord}

theorem RowInv.congr {user : UserRecord} (hid : user'.id = user.id)
    (hperiod : localSettlementPeriodIdentity user' = localSettlementPeriodIdentity user)
    {steps : Table MeetingProviderStepRecord} (h : RowInv user steps r) : RowInv user' steps r :=
  ⟨h.settled_eq, h.settled_le, fun step hstep hres =>
    have hs := h.steps step hstep hres
    ⟨hs.owner.trans hid.symm, hs.nonneg, hs.idle, fun hst => by rw [hs.period hst, hperiod]⟩⟩

/-- A reservation of the account rewritten with the same settled minutes and no fewer reserved
ones, or a reservation of another account. -/
theorem advances_putReservation {userId : UserId} {user : UserRecord} {r' : MeetingProcessingReservationRecord}
    (hI : LedgerInv userId s user) (hr : r ∈ s.meetingProcessingReservations) (hid : r'.id = r.id)
    (howner : r'.userId = r.userId)
    (hsettled : r.userId = userId → r'.officialMinutesSettled = r.officialMinutesSettled)
    (hle : r.userId = userId → r.officialMinutesReserved ≤ r'.officialMinutesReserved)
    (hcap : r.userId = userId → Safe userId now s user →
      user.officialMinutesUsed + pendingTotal s userId now - pendingMinutes now r +
        pendingMinutes now r' ≤ user.officialMinutesTotal) :
    Advances userId now s user (s.putReservation r') user := by
  refine ⟨⟨hI.found, hI.active, fun x hx hu => ?_⟩, SamePeriod.refl user, ?_, ?_⟩
  · rcases Table.mem_replace.mp hx with ⟨hx, -⟩ | ⟨rfl, -⟩
    · exact hI.rows x hx hu
    · have hru : r.userId = userId := howner ▸ hu
      have hrow := hI.rows r hr hru
      exact ⟨by rw [hsettled hru, hid]; exact hrow.settled_eq,
        by rw [hsettled hru]; exact le_trans hrow.settled_le (hle hru),
        fun step hstep hres => hrow.steps step hstep (hid ▸ hres)⟩
  · have hsum : settledTotal (s.putReservation r') userId = settledTotal s userId := by
      unfold settledTotal AuthStore.putReservation
      rw [Table.sum_replace _ hr hid.symm, howner]
      by_cases hu : r.userId = userId
      · rw [hsettled hu]; abel
      · simp [hu]
    unfold opening
    rw [hsum]
    rfl
  · intro hsafe
    refine ⟨hsafe.1, ?_⟩
    have hpend : pendingTotal (s.putReservation r') userId now = pendingTotal s userId now -
        pendingFor userId now r + pendingFor userId now r' := by
      rw [pendingTotal_eq, pendingTotal_eq]
      exact Table.sum_replace _ hr hid.symm
    rw [hpend]
    unfold pendingFor
    rw [howner]
    by_cases hu : r.userId = userId
    · have := hcap hu hsafe
      simp only [hu, if_true]
      omega
    · have := hsafe.2
      simp only [hu, if_false]
      omega

/-- A new reservation, which no provider step refers to yet. -/
theorem advances_insertReservation {userId : UserId} {user : UserRecord} (hI : LedgerInv userId s user)
    (hfresh : s.meetingProcessingReservations.Fresh r.id)
    (hnew : ∀ step ∈ s.meetingProviderSteps, step.reservationId ≠ r.id) (hsettled : r.officialMinutesSettled = 0)
    (hle : 0 ≤ r.officialMinutesReserved) (hcap : r.userId = userId → Safe userId now s user →
      user.officialMinutesUsed + pendingTotal s userId now + pendingMinutes now r ≤
        user.officialMinutesTotal) :
    Advances userId now s user
      { s with meetingProcessingReservations := s.meetingProcessingReservations.insert r } user := by
  refine ⟨⟨hI.found, hI.active, fun x hx hu => ?_⟩, SamePeriod.refl user, ?_, ?_⟩
  · rcases Table.mem_of_mem_insert hx with hx | rfl
    · exact hI.rows x hx hu
    · refine ⟨?_, by rw [hsettled]; exact hle, fun step hstep hres => absurd hres (hnew step hstep)⟩
      rw [hsettled]
      exact (Table.sum_eq_zero _ fun step hstep => if_neg (hnew step hstep)).symm
  · have hsum : settledTotal { s with
        meetingProcessingReservations := s.meetingProcessingReservations.insert r } userId =
        settledTotal s userId := by
      unfold settledTotal
      rw [Table.sum_insert _ hfresh, hsettled, ite_self, add_zero]
    unfold opening
    rw [hsum]
    rfl
  · intro hsafe
    refine ⟨hsafe.1, ?_⟩
    have hpend : pendingTotal { s with
        meetingProcessingReservations := s.meetingProcessingReservations.insert r } userId now =
        pendingTotal s userId now + pendingFor userId now r := by
      rw [pendingTotal_eq, pendingTotal_eq]
      exact Table.sum_insert _ hfresh
    rw [hpend]
    unfold pendingFor
    by_cases hu : r.userId = userId
    · have := hcap hu hsafe
      simp only [hu, if_true]
      omega
    · have := hsafe.2
      simp only [hu, if_false]
      omega

/-- A provider step rewritten with the same settled minutes. -/
theorem advances_putStep {userId : UserId} {user : UserRecord} {step step' : MeetingProviderStepRecord}
    (hI : LedgerInv userId s user) (hstep : step ∈ s.meetingProviderSteps) (hid : step'.id = step.id)
    (hres : step'.reservationId = step.reservationId)
    (hsettled : (∃ r ∈ s.meetingProcessingReservations, r.userId = userId ∧
      step.reservationId = r.id) → step'.officialMinutesSettled = step.officialMinutesSettled)
    (hinv : StepInv user step → StepInv user step') : Advances userId now s user (s.putStep step') user := by
  refine ⟨⟨hI.found, hI.active, fun r hr hu => ?_⟩, SamePeriod.refl user, rfl, fun h => h⟩
  have hrow := hI.rows r hr hu
  refine ⟨?_, hrow.settled_le, fun x hx hxr => ?_⟩
  · unfold AuthStore.putStep
    rw [settledOn_replace hstep hid.symm hres, hrow.settled_eq]
    split_ifs with h
    · rw [hsettled ⟨r, hr, hu, h⟩]; omega
    · omega
  · rcases Table.mem_replace.mp hx with ⟨hx, -⟩ | ⟨rfl, -⟩
    · exact hrow.steps x hx hxr
    · exact hinv (hrow.steps step hstep (hres ▸ hxr))

/-- A new provider step. -/
theorem advances_insertStep {userId : UserId} {user : UserRecord} {step : MeetingProviderStepRecord}
    (hI : LedgerInv userId s user) (hfresh : s.meetingProviderSteps.Fresh step.id)
    (hsettled : step.officialMinutesSettled = 0)
    (hinv : ∀ r ∈ s.meetingProcessingReservations, r.userId = userId → step.reservationId = r.id →
      StepInv user step) :
    Advances userId now s user
      { s with meetingProviderSteps := s.meetingProviderSteps.insert step } user := by
  refine ⟨⟨hI.found, hI.active, fun r hr hu => ?_⟩, SamePeriod.refl user, rfl, fun h => h⟩
  have hrow := hI.rows r hr hu
  refine ⟨?_, hrow.settled_le, fun x hx hxr => ?_⟩
  · unfold settledOn
    rw [Table.sum_insert _ hfresh, hsettled, ite_self, add_zero]
    exact hrow.settled_eq
  · rcases Table.mem_of_mem_insert hx with hx | rfl
    · exact hrow.steps x hx hxr
    · exact hinv r hr hu hxr

/-- The claimed steps of a reservation released together. -/
theorem advances_releaseSteps {userId : UserId} {user : UserRecord} {reservationId : ReservationId}
    (hI : LedgerInv userId s user) :
    Advances userId now s user { s with
      meetingProviderSteps := releaseClaimedSteps now reservationId s.meetingProviderSteps } user := by
  refine ⟨⟨hI.found, hI.active, fun r hr hu => ?_⟩, SamePeriod.refl user, rfl, fun h => h⟩
  have hrow := hI.rows r hr hu
  refine ⟨hrow.settled_eq.trans settledOn_releaseClaimedSteps.symm, hrow.settled_le,
    fun x hx hxr => ?_⟩
  obtain ⟨step, hstep, rfl⟩ := mem_releaseClaimedSteps.mp hx
  unfold releasedRow at hxr ⊢
  split_ifs at hxr ⊢ with h
  · have hs := hrow.steps step hstep hxr
    exact ⟨hs.owner, hs.nonneg, fun _ => hs.idle (.inl h.2), fun hst => by cases hst⟩
  · exact hrow.steps step hstep hxr

/-- The reservations, steps and usage events stay, and the account keeps its minutes and its quota
period. -/
theorem advances_users {userId : UserId} {t : AuthStore} {user : UserRecord} (hI : LedgerInv userId s user)
    (hres : t.meetingProcessingReservations = s.meetingProcessingReservations)
    (hsteps : t.meetingProviderSteps = s.meetingProviderSteps) (husage : t.usageEvents = s.usageEvents)
    (hfound : t.users.get? userId = some user') (hsame : SamePeriod user user')
    (hused : user'.officialMinutesUsed = user.officialMinutesUsed) : Advances userId now s user t user' := by
  refine ⟨⟨hfound, hsame.deletedAt.trans hI.active, fun r hr hu => ?_⟩, hsame, ?_, ?_⟩
  · rw [hsteps]
    exact (hI.rows r (hres ▸ hr) hu).congr hsame.id hsame.period
  · unfold opening settledTotal chargedTotal
    rw [hused, hres, husage]
  · rintro ⟨h0, hcap⟩
    refine ⟨hused.symm ▸ h0, ?_⟩
    rw [pendingTotal_eq] at hcap ⊢
    rw [hused, hsame.total, hres]
    exact hcap

/-- Another account rewritten. -/
theorem advances_putUser {userId : UserId} {user other : UserRecord} (hI : LedgerInv userId s user)
    (hne : other.id ≠ userId) : Advances userId now s user (s.putUser other) user :=
  advances_users hI rfl rfl rfl ((Table.get?_replace_of_ne hne).trans hI.found)
    (SamePeriod.refl user) rfl

theorem LedgerInv.id {userId : UserId} {user : UserRecord} (hI : LedgerInv userId s user) :
    user.id = userId := (Table.get?_eq_some.mp hI.found).2

theorem LedgerInv.found_replace {userId : UserId} {user : UserRecord} (hI : LedgerInv userId s user)
    (hsame : SamePeriod user user') : (s.users.replace user').get? userId = some user' := by
  have hid : HasKey.key user' = userId := hsame.id.trans hI.id
  have hf := hI.found
  rw [← hid] at hf ⊢
  exact Table.get?_replace_self hf

/-- The account itself rewritten, with the same minutes and quota period. -/
theorem advances_putSelf {userId : UserId} {user : UserRecord} (hI : LedgerInv userId s user)
    (hsame : SamePeriod user user') (hused : user'.officialMinutesUsed = user.officialMinutesUsed) :
    Advances userId now s user (s.putUser user') user' :=
  advances_users hI rfl rfl rfl (hI.found_replace hsame) hsame hused

/-- A usage event that charges the account nothing by itself. -/
theorem advances_usageEvent {userId : UserId} {user : UserRecord} {event : UsageEventRecord}
    (hI : LedgerInv userId s user) (hevent : event.userId = userId → event.processingReservationId ≠ none) :
    Advances userId now s user { s with usageEvents := s.usageEvents ++ [event] } user := by
  refine ⟨⟨hI.found, hI.active, hI.rows⟩, SamePeriod.refl user, ?_, fun h => h⟩
  have hne : ¬ (event.userId = userId ∧ event.type = .meetingFinalize ∧
      event.processingReservationId = none) := fun h => hevent h.1 h.2.2
  have hsum : chargedTotal { s with usageEvents := s.usageEvents ++ [event] } userId =
      chargedTotal s userId := by
    simp [chargedTotal, hne]
  unfold opening
  rw [hsum]
  rfl

/-! ### Writes that settle or refund minutes -/

/-- `minutes` settled on a provider step, its reservation and the account; refunded, when they are
negative. -/
theorem advances_settle {userId : UserId} {user : UserRecord} {step step' : MeetingProviderStepRecord} {minutes : ℤ}
    (hI : LedgerInv userId s user) (hr : r ∈ s.meetingProcessingReservations) (howner : r.userId = userId)
    (hstep : step ∈ s.meetingProviderSteps) (hres : step.reservationId = r.id) (hid : step'.id = step.id)
    (hres' : step'.reservationId = step.reservationId) (hsame : SamePeriod user user')
    (hused : user'.officialMinutesUsed = user.officialMinutesUsed + minutes)
    (hsettled : step'.officialMinutesSettled = step.officialMinutesSettled + minutes)
    (hle : r.officialMinutesSettled + minutes ≤ r.officialMinutesReserved)
    (hstepInv : StepInv user step → StepInv user step')
    (hpos : 0 ≤ user.officialMinutesUsed → 0 ≤ user.officialMinutesUsed + minutes)
    (hcap : minutes + pendingMinutes now (settledReservation r minutes) ≤ pendingMinutes now r) :
    Advances userId now s user
      (((s.putUser user').putReservation (settledReservation r minutes)).putStep step') user' := by
  refine ⟨⟨hI.found_replace hsame, hsame.deletedAt.trans hI.active, fun x hx hu => ?_⟩, hsame, ?_, ?_⟩
  · refine RowInv.congr hsame.id hsame.period ?_
    have hsum := settledOn_replace hstep hid.symm hres' x.id
    rcases Table.mem_replace.mp hx with ⟨hx, hne⟩ | ⟨rfl, -⟩
    · have hrow := hI.rows x hx hu
      have hne : x.id ≠ r.id := hne
      refine ⟨?_, hrow.settled_le, fun y hy hyr => ?_⟩
      · rw [AuthStore.putStep_steps, AuthStore.putReservation_steps, AuthStore.putUser_steps, hsum,
          if_neg (hres ▸ hne.symm), add_zero]
        exact hrow.settled_eq
      · rcases Table.mem_replace.mp hy with ⟨hy, -⟩ | ⟨rfl, -⟩
        · exact hrow.steps y hy hyr
        · exact absurd (hyr.symm.trans (hres'.trans hres)) hne
    · have hrow := hI.rows r hr howner
      refine ⟨?_, hle, fun y hy hyr => ?_⟩
      · rw [AuthStore.putStep_steps, AuthStore.putReservation_steps, AuthStore.putUser_steps, hsum,
          settledReservation_settled, settledReservation_id, if_pos hres, hsettled, hrow.settled_eq]
        omega
      · rcases Table.mem_replace.mp hy with ⟨hy, -⟩ | ⟨rfl, -⟩
        · exact hrow.steps y hy hyr
        · exact hstepInv (hrow.steps step hstep hres)
  · have hsum : settledTotal (((s.putUser user').putReservation
        (settledReservation r minutes)).putStep step') userId = settledTotal s userId + minutes := by
      have h := Table.sum_replace (fun r : MeetingProcessingReservationRecord =>
        if r.userId = userId then r.officialMinutesSettled else 0) (x := settledReservation r minutes) hr rfl
      have hro : (settledReservation r minutes).userId = userId := howner
      simp only [howner, hro, if_true] at h
      unfold settledTotal
      refine h.trans ?_
      rw [settledReservation_settled]
      omega
    unfold opening
    rw [hsum, hused]
    change _ - _ - chargedTotal s userId = _
    omega
  · rintro ⟨h0, hle⟩
    refine ⟨hused ▸ hpos h0, ?_⟩
    have hpend : pendingTotal (((s.putUser user').putReservation
        (settledReservation r minutes)).putStep step') userId now = pendingTotal s userId now -
        pendingMinutes now r + pendingMinutes now (settledReservation r minutes) := by
      rw [pendingTotal_eq, pendingTotal_eq]
      have h := Table.sum_replace (pendingFor userId now) (x := settledReservation r minutes) hr rfl
      have hro : (settledReservation r minutes).userId = userId := howner
      refine h.trans ?_
      simp only [pendingFor, howner, hro, if_true]
    rw [hpend, hused, hsame.total]
    omega

/-- `minutes` charged to the account and recorded without a reservation. -/
theorem advances_charge {userId : UserId} {user : UserRecord} {minutes : ℤ} {event : UsageEventRecord}
    (hI : LedgerInv userId s user) (hsame : SamePeriod user user')
    (hused : user'.officialMinutesUsed = user.officialMinutesUsed + minutes) (hpos : 0 ≤ minutes)
    (hevent : event.userId = userId ∧ event.type = .meetingFinalize ∧ event.minutes = minutes ∧
      event.processingReservationId = none) (hcap : Safe userId now s user →
      user.officialMinutesUsed + minutes + pendingTotal s userId now ≤ user.officialMinutesTotal) :
    Advances userId now s user
      { s.putUser user' with usageEvents := s.usageEvents ++ [event] } user' := by
  refine ⟨⟨hI.found_replace hsame, hsame.deletedAt.trans hI.active, fun r hr hu => ?_⟩, hsame, ?_, ?_⟩
  · exact (hI.rows r hr hu).congr hsame.id hsame.period
  · have hsum : chargedTotal { s.putUser user' with usageEvents := s.usageEvents ++ [event] } userId =
        chargedTotal s userId + minutes := by
      simp [chargedTotal, hevent]
    unfold opening
    rw [hsum, hused]
    change _ - settledTotal s userId - _ = _
    omega
  · intro hsafe
    have h0 := hsafe.1
    refine ⟨by omega, ?_⟩
    rw [hused, hsame.total]
    exact hcap hsafe

/-! ### Accounts as the operations rewrite them -/

theorem samePeriod_normalize (user : UserRecord) :
    SamePeriod user (normalizeLocalFreeTrialFields user) := ⟨rfl, rfl, rfl, rfl, rfl⟩

@[simp] theorem normalize_used (user : UserRecord) :
    (normalizeLocalFreeTrialFields user).officialMinutesUsed = user.officialMinutesUsed := rfl

theorem samePeriod_capture (user : UserRecord) :
    SamePeriod user (captureLocalFreeTrialUsage user) := by
  unfold captureLocalFreeTrialUsage
  dsimp only
  split_ifs <;> exact ⟨rfl, rfl, rfl, rfl, rfl⟩

@[simp] theorem capture_used (user : UserRecord) :
    (captureLocalFreeTrialUsage user).officialMinutesUsed = user.officialMinutesUsed := by
  unfold captureLocalFreeTrialUsage
  dsimp only
  split_ifs <;> rfl

theorem samePeriod_charged (user : UserRecord) (minutes : ℤ) :
    SamePeriod user (chargedUser user minutes) := by
  have h : SamePeriod user { user with officialMinutesUsed := user.officialMinutesUsed + minutes } :=
    ⟨rfl, rfl, rfl, rfl, rfl⟩
  exact h.trans (samePeriod_capture _)

@[simp] theorem charged_used (user : UserRecord) (minutes : ℤ) :
    (chargedUser user minutes).officialMinutesUsed = user.officialMinutesUsed + minutes :=
  capture_used _

theorem samePeriod_refunded (user : UserRecord) (step : MeetingProviderStepRecord) :
    SamePeriod user (refundedUser user step) := by
  unfold refundedUser
  dsimp only
  split_ifs <;> exact ⟨rfl, rfl, rfl, rfl, rfl⟩

theorem refunded_used {user : UserRecord} {step : MeetingProviderStepRecord}
    (h : step.settlementPeriodIdentity = some (localSettlementPeriodIdentity user)) :
    (refundedUser user step).officialMinutesUsed =
      user.officialMinutesUsed - max 0 step.officialMinutesSettled := by
  unfold refundedUser
  dsimp only
  rw [if_pos h]
  rfl

end OwnMinutes.Local.Ledger
