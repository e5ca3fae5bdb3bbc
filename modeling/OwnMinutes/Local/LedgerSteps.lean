import OwnMinutes.Local.Ledger

/-! # The quota calls on the ledger

Reading the store, refreshing an account's entitlements and every write of a quota call advance the
ledger of every account (`effect_advances`); only a refresh that changes the account's minutes or
its quota period does not. -/

namespace OwnMinutes.Local.LedgerSteps

open OwnMinutes.Lib.Keyed OwnMinutes.Lib.Outcome OwnMinutes.Auth.ProcessingRoute
open OwnMinutes.Auth.Records OwnMinutes.Auth.QuotaTypes
open OwnMinutes.Local.Store OwnMinutes.Local.Quota OwnMinutes.Quota.Calls OwnMinutes.Local.Calls
open OwnMinutes.Local.Ledger

/-! ### Reading and refreshing the store -/

variable {r : MeetingProcessingReservationRecord}

theorem settledOn_nonneg {user : UserRecord} {steps : Table MeetingProviderStepRecord} (h : RowInv user steps r) :
    0 ≤ r.officialMinutesSettled := by
  rw [h.settled_eq]
  refine Table.sum_nonneg fun step hstep => ?_
  split_ifs with hr
  · exact (h.steps step hstep hr).nonneg
  · exact le_rfl

/-- Reading the store changes no reservation whose ledger is in order. -/
theorem normalize_row {user : UserRecord} {steps : Table MeetingProviderStepRecord} (h : RowInv user steps r) :
    normalizeLocalProcessingReservation r = r := by
  have h0 := settledOn_nonneg h
  have hle := h.settled_le
  unfold normalizeLocalProcessingReservation
  have hres : max 0 r.officialMinutesReserved = r.officialMinutesReserved := by omega
  have hset : max 0 (min r.officialMinutesReserved r.officialMinutesSettled) =
      r.officialMinutesSettled := by omega
  simp only [hres, hset]

theorem advances_normalize {userId : UserId} {now : Timestamp} {s : AuthStore} {user : UserRecord}
    (hI : LedgerInv userId s user) :
    Advances userId now s user (normalizeStore s) (normalizeLocalFreeTrialFields user) := by
  have hrows : ∀ (g : MeetingProcessingReservationRecord → ℤ),
      ((normalizeStore s).meetingProcessingReservations.sum fun r =>
        if r.userId = userId then g r else 0) =
      s.meetingProcessingReservations.sum fun r => if r.userId = userId then g r else 0 := by
    intro g
    refine normalizeStore_reservations_sum fun r hr => ?_
    by_cases hu : r.userId = userId
    · rw [normalize_row (hI.rows r hr hu)]
    · have hu' : (normalizeLocalProcessingReservation r).userId ≠ userId := hu
      rw [if_neg hu, if_neg hu']
  refine ⟨⟨?_, hI.active, fun x hx hu => ?_⟩, samePeriod_normalize user, ?_, ?_⟩
  · rw [normalizeStore_users_get?, hI.found, Option.map_some]
  · obtain ⟨r, hr, rfl⟩ := mem_normalizeStore_reservations.mp hx
    have hrow := hI.rows r hr hu
    rw [normalize_row hrow]
    exact hrow.congr (samePeriod_normalize user).id (samePeriod_normalize user).period
  · unfold opening settledTotal
    rw [hrows]
    rfl
  · rintro ⟨h0, hcap⟩
    refine ⟨h0, ?_⟩
    rw [pendingTotal_eq] at hcap ⊢
    have hp := hrows (pendingMinutes now)
    unfold pendingFor at hcap ⊢
    rw [hp]
    exact hcap

theorem refresh_user (now : Timestamp) (s : AuthStore) (user : UserRecord) :
    (refreshLocalUserEntitlements now s user).2.id = user.id ∧
      (refreshLocalUserEntitlements now s user).2.deletedAt = user.deletedAt := by
  unfold refreshLocalUserEntitlements projectLocalGrant
  dsimp only
  split
  · exact ⟨rfl, rfl⟩
  · split_ifs
    · exact ⟨(samePeriod_capture user).id, (samePeriod_capture user).deletedAt⟩
    · exact ⟨rfl, rfl⟩

/-- A refresh of the entitlements that leaves the account its plan, its minutes and its quota
period. -/
def RefreshNeutral (now : Timestamp) (s : AuthStore) (user : UserRecord) : Prop :=
  let user' := (refreshLocalUserEntitlements now s user).2
  user'.plan = user.plan ∧ user'.officialMinutesTotal = user.officialMinutesTotal ∧
    user'.officialMinutesUsed = user.officialMinutesUsed ∧
    localSettlementPeriodIdentity user' = localSettlementPeriodIdentity user

theorem advances_refreshSelf {userId : UserId} {now : Timestamp} {s : AuthStore} {user : UserRecord}
    (hI : LedgerInv userId s user) (hneutral : RefreshNeutral now s user) :
    Advances userId now s user (refreshLocalUserEntitlements now s user).1
      (refreshLocalUserEntitlements now s user).2 := by
  obtain ⟨hplan, htotal, hused, hperiod⟩ := hneutral
  have hrows := refresh_rows now s user
  have huser := refresh_user now s user
  have hsame : SamePeriod user (refreshLocalUserEntitlements now s user).2 :=
    ⟨huser.1, huser.2, hplan, htotal, hperiod⟩
  refine advances_users hI hrows.reservations hrows.steps hrows.usageEvents ?_ hsame hused
  rw [hrows.users]
  exact hI.found_replace hsame

theorem advances_refreshOther {userId : UserId} {now : Timestamp} {s : AuthStore}
    {user other : UserRecord} (hI : LedgerInv userId s user) (hne : other.id ≠ userId) :
    Advances userId now s user (refreshLocalUserEntitlements now s other).1 user := by
  have hrows := refresh_rows now s other
  refine advances_users hI hrows.reservations hrows.steps hrows.usageEvents ?_
    (SamePeriod.refl user) rfl
  rw [hrows.users]
  have hid : HasKey.key (refreshLocalUserEntitlements now s other).2 ≠ userId := by
    rw [show HasKey.key (refreshLocalUserEntitlements now s other).2 = other.id from
      (refresh_user now s other).1]
    exact hne
  exact (Table.get?_replace_of_ne hid).trans hI.found

/-! ### Every call advances the ledger -/

section Effects

variable (hashToken : ClaimToken → TokenHash) {userId : UserId} {now : Timestamp}
  {s : AuthStore} {user : UserRecord}

theorem found_eq {other : UserRecord} (hI : LedgerInv userId s user)
    (h : findActiveUser s userId = some other) : other = user := by
  obtain ⟨hmem, hid, -⟩ := findActiveUser_spec h
  have := hI.found
  rw [show userId = HasKey.key other from hid.symm, Table.get?_key hmem] at this
  exact Option.some.inj this

theorem pendingMinutes_le (now : Timestamp) (r : MeetingProcessingReservationRecord) :
    pendingMinutes now r ≤ max 0 (r.officialMinutesReserved - r.officialMinutesSettled) := by
  unfold pendingMinutes
  split_ifs
  · exact le_rfl
  · exact le_max_left _ _

variable {caller : UserRecord}

theorem advances_reserveAgain {r0 : MeetingProcessingReservationRecord} (hI : LedgerInv userId s user)
    (hcaller : findActiveUser s r0.userId = some caller) (hr0 : r0 ∈ s.meetingProcessingReservations)
    (hr : Reserved s now caller r0 r) : Advances userId now s user (s.putReservation r) user := by
  obtain ⟨processed, target, streamed, sequence, rfl, htarget, hcap⟩ := hr
  refine advances_putReservation hI hr0 rfl rfl (fun _ => rfl)
    (fun _ => le_trans (le_max_left _ _) htarget) fun hu hsafe => ?_
  subst hu
  have hcaller := found_eq hI hcaller
  subst hcaller
  have hexcl : localPendingCapacity s r0.userId now (some r0.id) + pendingFor r0.userId now r0 =
      pendingTotal s r0.userId now := pending_exclude hr0
  unfold pendingFor at hexcl
  rw [if_pos rfl] at hexcl
  have hle := pendingMinutes_le now (reactivateLocalReservation { r0 with
      processedMinutes := processed
      officialMinutesReserved := target
      realtimeDurationMs := streamed
      realtimeHighestSequence := sequence } now)
  simp only [reactivateLocalReservation] at hle ⊢
  have hp := pendingMinutes_nonneg now r0
  have hsafe := hsafe.2
  unfold availableFor at hcap
  rw [hI.id] at hcap
  omega

theorem advances_reserveNew {r0 : MeetingProcessingReservationRecord} {meetingId : MeetingId} {operationKey : String}
    {route : MeetingProcessingRoute} (hI : LedgerInv userId s user)
    (hcaller : findActiveUser s caller.id = some caller) (hfresh : s.meetingProcessingReservations.Fresh r0.id)
    (hnew : ∀ step ∈ s.meetingProviderSteps, step.reservationId ≠ r0.id)
    (hr0 : r0 = createLocalProcessingReservation caller r0.id meetingId operationKey route now)
    (hr : Reserved s now caller r0 r) : Advances userId now s user
      { s with meetingProcessingReservations := s.meetingProcessingReservations.insert r } user := by
  obtain ⟨processed, target, streamed, sequence, rfl, htarget, hcap⟩ := hr
  have hsettled : r0.officialMinutesSettled = 0 := by rw [hr0]; rfl
  have howner : r0.userId = caller.id := by rw [hr0]; rfl
  refine advances_insertReservation hI hfresh hnew hsettled
    (le_trans (le_max_right _ _) htarget) fun hu hsafe => ?_
  have hu : caller.id = userId := howner.symm.trans hu
  subst hu
  have hcaller := found_eq hI hcaller
  subst hcaller
  have hle := pendingMinutes_le now (reactivateLocalReservation { r0 with
      processedMinutes := processed
      officialMinutesReserved := target
      realtimeDurationMs := streamed
      realtimeHighestSequence := sequence } now)
  simp only [reactivateLocalReservation] at hle ⊢
  have hsafe := hsafe.2
  unfold availableFor at hcap
  rw [pending_exclude_fresh hfresh] at hcap
  omega

/-- An open reservation that a claim holds longer. -/
theorem advances_extendedLease {leaseExpiresAt : Timestamp} (hI : LedgerInv userId s user)
    (hr : r ∈ s.meetingProcessingReservations) (hactive : isLocalReservationCapacityActive r now = true) :
    Advances userId now s user (s.putReservation (extendedLease r leaseExpiresAt)) user := by
  refine advances_putReservation hI hr rfl rfl (fun _ => rfl) (fun _ => le_rfl) fun hu hsafe => ?_
  obtain ⟨hstatus, hreleased, hlease⟩ := capacityActive_iff.mp hactive
  have hactive' : isLocalReservationCapacityActive (extendedLease r leaseExpiresAt) now = true :=
    capacityActive_iff.mpr ⟨hstatus, rfl, lt_of_lt_of_le hlease (le_max_left _ _)⟩
  have hsame : pendingMinutes now (extendedLease r leaseExpiresAt) = pendingMinutes now r := by
    unfold pendingMinutes
    rw [if_pos hactive, if_pos hactive']
    rfl
  have := hsafe.2
  omega

theorem stepInv_claimed {step : MeetingProviderStepRecord} {token : ClaimToken} {leaseExpiresAt : Timestamp}
    (h : step.userId = caller.id) : StepInv caller (claimedStep hashToken step token leaseExpiresAt) :=
  ⟨h, le_rfl, fun _ => rfl, fun h => by cases h⟩

/-- A provider step of another account rewritten. -/
theorem advances_foreignStep {step step' : MeetingProviderStepRecord} (hI : LedgerInv userId s user)
    (hstep : step ∈ s.meetingProviderSteps) (hne : step.userId ≠ userId)
    (hid : step'.id = step.id) (hres : step'.reservationId = step.reservationId) :
    Advances userId now s user (s.putStep step') user := by
  refine advances_putStep hI hstep hid hres (fun ⟨r, hr, hu, hrid⟩ => ?_) fun hinv => ?_
  · exact absurd (((hI.rows r hr hu).steps step hstep hrid).owner.trans hI.id) hne
  · exact absurd (hinv.owner.trans hI.id) hne

/-- The account, a reservation and a provider step of another account rewritten. -/
theorem advances_foreign {other : UserRecord} {r' : MeetingProcessingReservationRecord}
    {step step' : MeetingProviderStepRecord} (hI : LedgerInv userId s user) (hother : other.id ≠ userId)
    (hru : r.userId ≠ userId) (hsu : step.userId ≠ userId) (hr : r ∈ s.meetingProcessingReservations)
    (hstep : step ∈ s.meetingProviderSteps) (hid : r'.id = r.id) (howner : r'.userId = r.userId)
    (hstepId : step'.id = step.id) (hres : step'.reservationId = step.reservationId) :
    Advances userId now s user
      (((s.putUser other).putReservation r').putStep step') user := by
  have h1 : Advances userId now s user (s.putUser other) user := advances_putUser hI hother
  have h2 : Advances userId now (s.putUser other) user ((s.putUser other).putReservation r') user :=
    advances_putReservation h1.inv hr hid howner (fun h => absurd h hru) (fun h => absurd h hru)
      fun h => absurd h hru
  exact (h1.trans h2).trans (advances_foreignStep h2.inv hstep hsu hstepId hres)

theorem advances_start {step : MeetingProviderStepRecord} {minutes : ℤ} (hI : LedgerInv userId s user)
    (hcaller : findActiveUser s caller.id = some caller) (hr : r ∈ s.meetingProcessingReservations)
    (howner : r.userId = caller.id) (hactive : isLocalReservationCapacityActive r now = true)
    (hstep : step ∈ s.meetingProviderSteps) (hres : step.reservationId = r.id) (hstepOwner : step.userId = caller.id)
    (hstatus : step.status = .claimed)
    (hminutes : minutes = max 0 (r.officialMinutesReserved - r.officialMinutesSettled)) :
    ∃ user', Advances userId now s user
      (((s.putUser (chargedUser (normalizeLocalFreeTrialFields caller) minutes)).putReservation
        (settledReservation r minutes)).putStep
          (startedStep step (normalizeLocalFreeTrialFields caller) minutes now)) user' := by
  have hsame := (samePeriod_normalize caller).trans
    (samePeriod_charged (normalizeLocalFreeTrialFields caller) minutes)
  by_cases hu : caller.id = userId
  · subst hu
    have hcaller := found_eq hI hcaller
    subst hcaller
    have hrow := hI.rows r hr howner
    have hinv := hrow.steps step hstep hres
    have hle := hrow.settled_le
    refine ⟨_, advances_settle hI hr howner hstep hres rfl rfl hsame (charged_used _ _) ?_ ?_ ?_ ?_ ?_⟩
    · have h0 := hinv.idle (.inl hstatus)
      change minutes = step.officialMinutesSettled + minutes
      omega
    · omega
    · have hpos : 0 ≤ minutes := hminutes ▸ le_max_left _ _
      exact fun _ => ⟨hinv.owner, hpos, fun h => by simp [startedStep] at h, fun _ => rfl⟩
    · omega
    · have hp : pendingMinutes now r = minutes := by
        unfold pendingMinutes
        rw [if_pos hactive, hminutes]
      have hle' := pendingMinutes_le now (settledReservation r minutes)
      have hres' : (settledReservation r minutes).officialMinutesReserved =
        r.officialMinutesReserved := rfl
      rw [hres', settledReservation_settled] at hle'
      omega
  · have hid : (chargedUser (normalizeLocalFreeTrialFields caller) minutes).id ≠ userId := by
      rw [hsame.id]; exact hu
    exact ⟨user, advances_foreign hI hid (howner ▸ hu) (hstepOwner ▸ hu) hr hstep rfl rfl rfl rfl⟩

theorem advances_refund {step : MeetingProviderStepRecord} (hI : LedgerInv userId s user)
    (hcaller : caller ∈ s.users) (hr : r ∈ s.meetingProcessingReservations) (howner : r.userId = caller.id)
    (hstep : step ∈ s.meetingProviderSteps) (hres : step.reservationId = r.id) (hstepOwner : step.userId = caller.id)
    (hstatus : step.status = .started)
    (hused : step.settlementPeriodIdentity = some (localSettlementPeriodIdentity caller) →
      max 0 step.officialMinutesSettled ≤ caller.officialMinutesUsed) :
    ∃ user', Advances userId now s user
      (((s.putUser (refundedUser caller step)).putReservation
        (settledReservation r (-max 0 step.officialMinutesSettled))).putStep { step with
          status := .released
          officialMinutesSettled := 0
          releasedAt := some now }) user' := by
  by_cases hu : caller.id = userId
  · subst hu
    have hfound : s.users.get? caller.id = some caller := Table.get?_key hcaller
    rw [hI.found] at hfound
    cases hfound
    have hrow := hI.rows r hr howner
    have hinv := hrow.steps step hstep hres
    have hle := hrow.settled_le
    have hperiod := hinv.period hstatus
    have hpos := hinv.nonneg
    have hmax : max 0 step.officialMinutesSettled = step.officialMinutesSettled := max_eq_right hpos
    have hused := hused hperiod
    refine ⟨_, advances_settle hI hr howner hstep hres rfl rfl (samePeriod_refunded user step)
      (by rw [refunded_used hperiod]; omega) ?_ ?_ ?_ ?_ ?_⟩
    · change 0 = step.officialMinutesSettled + _
      omega
    · omega
    · exact fun _ => ⟨hinv.owner, le_rfl, fun _ => rfl, fun h => by cases h⟩
    · omega
    · have hact : isLocalReservationCapacityActive
          (settledReservation r (-max 0 step.officialMinutesSettled)) now =
          isLocalReservationCapacityActive r now := rfl
      have hres' : (settledReservation r (-max 0 step.officialMinutesSettled)).officialMinutesReserved =
        r.officialMinutesReserved := rfl
      unfold pendingMinutes
      rw [hact, hres', settledReservation_settled]
      split_ifs <;> omega
  · have hid : (refundedUser caller step).id ≠ userId := by
      rw [(samePeriod_refunded caller step).id]; exact hu
    exact ⟨user, advances_foreign hI hid (howner ▸ hu) (hstepOwner ▸ hu) hr hstep rfl rfl rfl rfl⟩

theorem advances_rejectDeleted {step : MeetingProviderStepRecord} (hI : LedgerInv userId s user)
    (hcaller : caller ∈ s.users) (hdeleted : caller.deletedAt ≠ none) (hstep : step ∈ s.meetingProviderSteps)
    (hstepOwner : step.userId = caller.id) :
    Advances userId now s user (rejectForDeletedAccount now caller.id s step).2 user := by
  have hu : caller.id ≠ userId := by
    rintro rfl
    have hfound : s.users.get? caller.id = some caller := Table.get?_key hcaller
    rw [hI.found] at hfound
    cases hfound
    exact hdeleted hI.active
  have hstepNe : step.userId ≠ userId := hstepOwner ▸ hu
  have hrest : ∀ t : AuthStore, LedgerInv userId t user → step ∈ t.meetingProviderSteps →
      Advances userId now t user (t.putStep { step with
        status := .released
        officialMinutesSettled := 0
        freeTrialMinutesSettled := 0
        releasedAt := some now }) user :=
    fun t ht hmem => advances_foreignStep ht hmem hstepNe rfl rfl
  unfold rejectForDeletedAccount
  dsimp only
  split
  · rename_i r hr
    obtain ⟨hrmem, -, howner⟩ := findReservationById_spec hr
    have hru : r.userId ≠ userId := howner ▸ hu
    split
    · have h : Advances userId now s user (s.putReservation { r with
          officialMinutesSettled :=
            max 0 (r.officialMinutesSettled - max 0 step.officialMinutesSettled) }) user :=
        advances_putReservation hI hrmem rfl rfl (fun h => absurd h hru) (fun h => absurd h hru)
          fun h => absurd h hru
      exact h.trans (hrest _ h.inv hstep)
    · exact hrest s hI hstep
  · exact hrest s hI hstep

theorem advances_recording {caller : UserId} {t : AuthStore} (hI : LedgerInv userId s user)
    (h : Recording now caller s t) : ∃ user', Advances userId now s user t user' := by
  cases h with
  | recorded => exact ⟨user, hI, SamePeriod.refl user, rfl, fun h => h⟩
  | @charged other minutes event hcaller hpos hcap hevent =>
    obtain ⟨-, hid, -⟩ := findActiveUser_spec hcaller
    by_cases hu : caller = userId
    · subst hu
      have hcaller := found_eq hI hcaller
      subst hcaller
      refine ⟨_, advances_charge hI (samePeriod_charged _ _) (charged_used _ _) hpos hevent
        fun hsafe => ?_⟩
      have hsafe := hsafe.2
      unfold availableFor at hcap
      rw [hid] at hcap
      change minutes ≤ max 0 (_ - pendingTotal s _ now) at hcap
      omega
    · have hne : (chargedUser other minutes).id ≠ userId := by
        rw [(samePeriod_charged other minutes).id, hid]; exact hu
      have h : Advances userId now s user (s.putUser (chargedUser other minutes)) user :=
        advances_putUser hI hne
      exact ⟨user, h.trans (advances_usageEvent h.inv fun he => absurd (hevent.1.symm.trans he) hu)⟩
  | @finalized other r route processed resultGeneratedAt event hcaller hr howner hevent =>
    obtain ⟨-, hid, -⟩ := findActiveUser_spec hcaller
    have hfinal : ∀ v : AuthStore, ∀ user' : UserRecord, LedgerInv userId v user' →
        r ∈ v.meetingProcessingReservations → Advances userId now v user' (v.putReservation { r with
          processingRoute := route
          processedMinutes := processed
          status := .finalized
          releasedAt := none
          resultGeneratedAt := some resultGeneratedAt
          finalizedAt := some now }) user' := by
      intro v user' hv hmem
      refine advances_putReservation hv hmem rfl rfl (fun _ => rfl) (fun _ => le_rfl) fun _ hsafe => ?_
      have hp := pendingMinutes_nonneg now r
      have hsafe := hsafe.2
      have h0 : pendingMinutes now { r with
          processingRoute := route
          processedMinutes := processed
          status := .finalized
          releasedAt := none
          resultGeneratedAt := some resultGeneratedAt
          finalizedAt := some now } = 0 := if_neg (by simp [isLocalReservationCapacityActive])
      omega
    have hlast : ∀ v : AuthStore, ∀ user' : UserRecord, Advances userId now s user v user' →
        r ∈ v.meetingProcessingReservations → ∃ user'', Advances userId now s user
          { v.putReservation { r with
              processingRoute := route
              processedMinutes := processed
              status := .finalized
              releasedAt := none
              resultGeneratedAt := some resultGeneratedAt
              finalizedAt := some now } with usageEvents := v.usageEvents ++ [event] } user'' := by
      intro v user' hv hmem
      have h := hv.trans (hfinal v user' hv.inv hmem)
      exact ⟨user', h.trans (advances_usageEvent h.inv fun _ => by rw [hevent]; simp)⟩
    by_cases hu : caller = userId
    · subst hu
      have hcaller := found_eq hI hcaller
      subst hcaller
      exact hlast _ _ (advances_putSelf hI (samePeriod_capture _) (capture_used _)) hr
    · have hne : (captureLocalFreeTrialUsage other).id ≠ userId := by
        rw [(samePeriod_capture other).id, hid]; exact hu
      exact hlast _ _ (advances_putUser hI hne) hr

/-- The refresh that ends `recordMeetingFinalizeUsage` leaves the account its plan, its minutes and
its quota period. -/
def KeepsPeriod (userId : UserId) (now : Timestamp) (call : QuotaCall) (s : AuthStore) : Prop :=
  match call with
  | .recordUsage caller input newId =>
    caller = userId → ∀ p ∈ (recordFinalizeUsage now newId userId input s).toOption,
      ∀ user ∈ findActiveUser (normalizeStore p.2) userId, RefreshNeutral now (normalizeStore p.2) user
  | _ => True

instance (now : Timestamp) (s : AuthStore) (user : UserRecord) :
    Decidable (RefreshNeutral now s user) :=
  inferInstanceAs (Decidable (_ ∧ _ ∧ _ ∧ _))

instance (userId : UserId) (now : Timestamp) (s : AuthStore) :
    ∀ call, Decidable (KeepsPeriod userId now call s)
  | .recordUsage caller input newId => inferInstanceAs (Decidable (caller = userId →
      ∀ p ∈ (recordFinalizeUsage now newId userId input s).toOption,
        ∀ user ∈ findActiveUser (normalizeStore p.2) userId,
          RefreshNeutral now (normalizeStore p.2) user))
  | .reserveRealtime .. | .reserveFinalization .. | .claim .. | .start .. | .complete ..
  | .reconcile .. | .releaseStep .. | .reject .. | .releaseReservation .. => .isTrue trivial

/-- **Every effect of a call advances the ledger** of every account whose quota period the refresh
at the end of the call leaves alone. -/
theorem effect_advances {call : QuotaCall} {res : QuotaResult} {s' : AuthStore}
    (h : Effect hashToken now call s res s')
    (hfresh : FreshIds s.meetingProcessingReservations s.meetingProviderSteps call)
    (hI : LedgerInv userId s user) (hkeeps : KeepsPeriod userId now call s) :
    ∃ user', Advances userId now s user s' user' := by
  cases h with
  | unchanged => exact ⟨user, hI, SamePeriod.refl user, rfl, fun h => h⟩
  | @reserveNew res caller r0 r _ hcaller hid hr0 hr =>
    obtain ⟨-, hcid, -⟩ := findActiveUser_spec hcaller
    obtain ⟨meetingId, operationKey, route, hr0⟩ := hr0
    obtain ⟨hf, hnew⟩ := hfresh.1 _ hid
    exact ⟨user, advances_reserveNew hI (hcid ▸ hcaller) hf hnew hr0 hr⟩
  | @reserveAgain res caller r0 r _ hcaller _ hr0 howner _ hr =>
    exact ⟨user, advances_reserveAgain hI (howner ▸ hcaller) hr0 hr⟩
  | @claimNew caller r step token leaseExpiresAt hcaller hr howner hactive hid _ hstep _ =>
    have h1 : Advances userId now s user (s.putReservation (extendedLease r leaseExpiresAt)) user :=
      advances_extendedLease hI hr hactive
    refine ⟨user, h1.trans (advances_insertStep h1.inv (hfresh.2 _ hid) rfl fun x hx hu hxr => ?_)⟩
    have hx' : extendedLease r leaseExpiresAt = x :=
      Table.eq_of_key (Table.mem_replace_self hr rfl) hx (hstep.1.symm.trans hxr)
    have hru : r.userId = userId := by rw [← hu, ← hx']; rfl
    exact stepInv_claimed hashToken
      (hstep.2.trans (howner.symm.trans (hru.trans hI.id.symm)))
  | @claimAgain caller r step token leaseExpiresAt hcaller hr howner hactive _ hstep hres hstatus =>
    have h1 : Advances userId now s user (s.putReservation (extendedLease r leaseExpiresAt)) user :=
      advances_extendedLease hI hr hactive
    refine ⟨user, h1.trans (advances_putStep h1.inv hstep rfl rfl (fun ⟨x, hx, hu, hxr⟩ => ?_)
      fun hs => stepInv_claimed hashToken hs.owner)⟩
    exact (((h1.inv.rows x hx hu).steps step hstep hxr).idle
      (hstatus.elim .inr fun h => .inl h.1)).symm
  | start hcall hcaller hr howner hactive hstep _ hstepOwner hres hstatus _ _ hminutes _ =>
    exact advances_start hI hcaller hr howner hactive hstep hres hstepOwner hstatus hminutes
  | @complete res step _ _ hstep hstatus =>
    refine ⟨user, advances_putStep hI hstep rfl rfl (fun _ => rfl) fun hs => ?_⟩
    exact ⟨hs.owner, hs.nonneg, fun h => by simp at h, fun h => by simp at h⟩
  | @releaseStep res step _ _ _ hstep _ hstatus _ =>
    refine ⟨user, advances_putStep hI hstep rfl rfl (fun _ => rfl) fun hs => ?_⟩
    exact ⟨hs.owner, hs.nonneg, fun _ => hs.idle (.inl hstatus), fun h => by simp at h⟩
  | refund hcall hcaller _ hr howner _ hstep _ hstepOwner hres hstatus _ _ hused =>
    exact advances_refund hI hcaller hr howner hstep hres hstepOwner hstatus hused
  | @rejectDeleted caller step step' s' input hcall hcaller hdeleted hstep _ hstepOwner _ _ hs' =>
    have h : Advances userId now s user (rejectForDeletedAccount now caller.id s step).2 user :=
      advances_rejectDeleted hI hcaller hdeleted hstep hstepOwner
    rw [hs'] at h
    exact ⟨user, h⟩
  | @releaseReservation res r _ _ hr howner _ _ =>
    have h1 : Advances userId now s user
        (s.putReservation { r with releasedAt := some now, reservationExpiresAt := now }) user := by
      refine advances_putReservation hI hr rfl rfl (fun _ => rfl) (fun _ => le_rfl)
        fun _ hsafe => ?_
      have hp := pendingMinutes_nonneg now r
      have h0 : pendingMinutes now { r with releasedAt := some now, reservationExpiresAt := now } =
        0 := if_neg (by simp [isLocalReservationCapacityActive])
      have hsafe := hsafe.2
      omega
    exact ⟨user, h1.trans (advances_releaseSteps h1.inv)⟩
  | @record input newId mid caller hcall hmid hcaller =>
    obtain ⟨user', h1⟩ := advances_recording hI (recording_of_ok hmid)
    have h2 : Advances userId now mid user' (normalizeStore mid)
      (normalizeLocalFreeTrialFields user') := advances_normalize h1.inv
    by_cases hu : caller.id = userId
    · rw [hu] at hcall hmid hcaller
      rw [hcall] at hkeeps
      have hneutral := hkeeps rfl _ (by rw [hmid]; rfl) caller hcaller
      have hcaller := found_eq h2.inv hcaller
      rw [hcaller] at hneutral ⊢
      exact ⟨_, (h1.trans h2).trans (advances_refreshSelf h2.inv hneutral)⟩
    · exact ⟨_, (h1.trans h2).trans (advances_refreshOther h2.inv hu)⟩

end Effects

end OwnMinutes.Local.LedgerSteps
