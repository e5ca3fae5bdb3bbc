import OwnMinutes.Backends.QuotaAgreement
import OwnMinutes.Backends.UsageRecording

/-! # The backends agree on the usage of a finalization

Recording it writes an event and the reservation, or charges the account. Both backends refresh the account afterwards,
which changes nothing that is in force (`AtRest`). -/

namespace OwnMinutes.Backends.UsageAgreement

open OwnMinutes.Lib.Keyed OwnMinutes.Lib.Outcome OwnMinutes.Auth.ProcessingRoute OwnMinutes.Auth.Records
open OwnMinutes.Auth.Errors OwnMinutes.Auth.QuotaTypes
open OwnMinutes.Quota.UsageNotes (isMeetingId usageKey)
open OwnMinutes.Local.Store (AuthStore expireLocalGrant activeLocalGrant grantCounts projectLocalGrant
  restoreLocalFreeTrial refreshLocalUserEntitlements)
open OwnMinutes.Local.Calls (settleLocalLegacyUsage_ok)
open OwnMinutes.Postgres.Store (Tables Database expireGrants grantExpired activeGrant projectGrant refreshTables
  postgresGetUserUsage postgresFindActiveUserById postgresRefreshUserEntitlements)
open OwnMinutes.Postgres.Quota (selectRecordedReservation selectReservationById findPostgresProcessingReservation)
open OwnMinutes.Postgres.Calls (lockPostgresQuotaUser_ok)
open OwnMinutes.Backends.UsageRecording (Matches matches_append matches_of_prefix noteLike_iff textIncludes_iff)
open OwnMinutes.Backends.SameRows OwnMinutes.Backends.FittingRows OwnMinutes.Backends.QuotaAgreement

variable {t : Tables} {s : AuthStore} {now : Timestamp} {userId : UserId} {input : RecordMeetingFinalizeUsageInput}

/-! ### What is recorded already -/

theorem matches_iff {id text : List Char} (hid : '_' ∉ id) : Matches id text ↔ id <+: text := by
  refine ⟨fun h => ?_, matches_of_prefix⟩
  have happend : Matches (id ++ []) text := by
    rw [List.append_nil]
    exact h
  obtain ⟨rest, rfl, -⟩ := (matches_append hid).mp happend
  exact List.prefix_append id rest

/-- Where the id of the meeting has nothing that `like` expands, it finds the notes with the id in them. -/
theorem noteLike_eq (hid : isMeetingId input.meetingId.toList = true) (hplain : '_' ∉ input.meetingId.toList)
    (note : String) :
    Postgres.Quota.noteLike note input.meetingId = textIncludes note ("meeting:" ++ input.meetingId) := by
  have hjoin : ∀ front back : List Char, front ++ (usageKey ++ input.meetingId.toList) ++ back =
      front ++ (usageKey ++ (input.meetingId.toList ++ back)) := by
    intro front back
    simp only [List.append_assoc]
  rw [Bool.eq_iff_iff, noteLike_iff hid, textIncludes_iff, String.toList_append]
  constructor
  · rintro ⟨front, rest, hnote, hmatch⟩
    obtain ⟨back, rfl⟩ := (matches_iff hplain).mp hmatch
    exact ⟨front, back, (hjoin front back).trans hnote.symm⟩
  · rintro ⟨front, back, hnote⟩
    refine ⟨front, input.meetingId.toList ++ back, ?_, matches_of_prefix (List.prefix_append _ _)⟩
    exact hnote.symm.trans (hjoin front back)

theorem recorded_eq (h : Agrees t s) (hid : isMeetingId input.meetingId.toList = true)
    (hplain : '_' ∉ input.meetingId.toList) :
    Local.Quota.finalizeUsageRecorded s userId input = Postgres.Quota.finalizeUsageRecorded t userId input := by
  unfold Local.Quota.finalizeUsageRecorded Postgres.Quota.finalizeUsageRecorded
  rw [h.usageEvents]
  dsimp only
  rw [List.any_filter]
  refine congrArg (List.any t.usageEvents) (funext fun event => ?_)
  rw [noteLike_eq hid hplain]
  generalize (event.userId == userId && event.type == UsageEventType.meetingFinalize) = ofUser
  generalize (input.reservationId.isSome && event.processingReservationId == input.reservationId) = sameReservation
  generalize textIncludes event.note ("meeting:" ++ input.meetingId) = sameMeeting
  generalize textIncludes event.note ("result:" ++ input.resultGeneratedAt) = sameResult
  generalize (!input.isReprocess && !textIncludes event.note "result:") = noResult
  cases ofUser <;> cases sameReservation <;> cases sameMeeting <;> simp

theorem find_recorded (h : Agrees t s) :
    Local.Quota.findRecordedReservation s userId input = selectRecordedReservation t userId input := by
  unfold Local.Quota.findRecordedReservation selectRecordedReservation
  cases input.reservationId with
  | some reservationId => exact find_byId h userId reservationId
  | none =>
    cases input.reservationOperationKey with
    | some operationKey => exact find_byKey h userId operationKey
    | none => rfl

theorem recorded_spec {r : MeetingProcessingReservationRecord}
    (hfound : selectRecordedReservation t userId input = some r) :
    r ∈ t.meetingProcessingReservations ∧ r.userId = userId := by
  unfold selectRecordedReservation at hfound
  split at hfound
  · have hp := Table.of_find? hfound
    rw [Bool.and_eq_true, beq_iff_eq, beq_iff_eq] at hp
    exact ⟨Table.mem_of_find? hfound, hp.2⟩
  · have hp := Table.of_find? hfound
    rw [Bool.and_eq_true, beq_iff_eq, beq_iff_eq] at hp
    exact ⟨Table.mem_of_find? hfound, hp.1⟩
  · cases hfound

/-- The id of the meeting has nothing that `like` expands, and where a reservation is found by its key, it is on no
event, or the finalization is recorded. -/
structure Recordable (s : AuthStore) (userId : UserId) (input : RecordMeetingFinalizeUsageInput) : Prop where
  isId : isMeetingId input.meetingId.toList = true
  plain : '_' ∉ input.meetingId.toList
  recorded : input.reservationId = none → ∀ r ∈ Local.Quota.findRecordedReservation s userId input,
    ∀ event ∈ s.usageEvents, event.processingReservationId = some r.id →
      Local.Quota.finalizeUsageRecorded s userId input = true

theorem unrecorded (h : Agrees t s) (hfits : Fits t) (hallowed : Recordable s userId input)
    {r : MeetingProcessingReservationRecord} (hfound : selectRecordedReservation t userId input = some r)
    (hnew : ¬ Postgres.Quota.finalizeUsageRecorded t userId input = true) :
    ∀ event ∈ t.usageEvents, event.processingReservationId ≠ some r.id := by
  intro event hevent hid
  refine hnew ?_
  obtain ⟨hr, howner⟩ := recorded_spec hfound
  cases hreservation : input.reservationId with
  | none =>
    rw [← recorded_eq h hallowed.isId hallowed.plain]
    refine hallowed.recorded hreservation r ?_ event ?_ hid
    · rw [find_recorded h]
      exact hfound
    · rw [h.usageEvents]
      exact hevent
  | some reservationId =>
    obtain ⟨r', hr', hrid, huser, htype⟩ := hfits.recorded event hevent r.id hid
    obtain rfl : r' = r := Table.eq_of_key hr' hr hrid
    have hselect : selectReservationById t userId reservationId = some r' := by
      unfold selectRecordedReservation at hfound
      rw [hreservation] at hfound
      exact hfound
    have hp := Table.of_find? hselect
    rw [Bool.and_eq_true, beq_iff_eq] at hp
    have hsame : (input.reservationId.isSome && event.processingReservationId == input.reservationId) = true := by
      rw [hreservation, hid, hp.1]
      simp
    have huser : event.userId = userId := huser.symm.trans howner
    unfold Postgres.Quota.finalizeUsageRecorded
    dsimp only
    rw [List.any_filter, List.any_eq_true]
    refine ⟨event, hevent, ?_⟩
    rw [hsame, huser, htype]
    simp

/-! ### Recording -/

theorem agree_record {db : Database} {newId : UsageEventId} (h : Agrees db.toTables s) (hfits : Fits db.toTables)
    (hallowed : Recordable s userId input) :
    SameResult (Local.Quota.withLocalQuotaMutation (Local.Quota.recordFinalizeUsage now newId userId input) s)
      (Postgres.Quota.recordFinalizeUsage now newId userId input db) := by
  unfold Local.Quota.recordFinalizeUsage Postgres.Quota.recordFinalizeUsage
  refine same_mutation h hfits ?_
  rw [find_quotaUser h]
  refine same_bind fun user huser => ?_
  obtain ⟨hmem, rfl, -⟩ := lockPostgresQuotaUser_ok huser
  have hactive : user.active = true := active_of_locked huser
  have huserFits : UserFits user := hfits.users user hmem
  rw [recorded_eq h hallowed.isId hallowed.plain, find_recorded h]
  refine same_ite (fun _ => .ok _ h hfits) fun hnew => ?_
  dsimp only
  rcases hfound : selectRecordedReservation db.toTables user.id input with _ | r
  · refine same_ite (fun _ => .error _) fun _ => ?_
    rw [settle_legacy h hmem hactive huserFits]
    refine same_bind_map fun charged hcharged => ?_
    obtain ⟨hnonneg, havailable⟩ := settleLocalLegacyUsage_ok hcharged
    have hwithin : user.officialMinutesUsed + charged ≤ user.officialMinutesTotal :=
      within_of_available huserFits havailable
    have hcharge : Local.Store.captureLocalFreeTrialUsage
        { user with officialMinutesUsed := user.officialMinutesUsed + charged } = incremented user charged :=
      charged_eq huserFits hnonneg
    rw [hcharge]
    refine .ok _ ((h.replaceUser _).appendEvent _) ?_
    have hmid : Fits { db.toTables with users := db.users.replace (incremented user charged) } :=
      hfits.replaceUser hmem (sameAccount_incremented user charged) (huserFits.charged hnonneg hwithin)
    refine hmid.appendEvent (fun id hid => ?_) fun id hid => ?_
    · cases hid
    · cases hid
  · refine same_ite (fun _ => .error _) fun _ => same_ite (fun _ => .error _) fun _ => ?_
    obtain ⟨hr, howner⟩ := recorded_spec hfound
    obtain ⟨-, hchecks⟩ := hfits.constraints.reservations r hr
    have husers : s.users.replace (Local.Store.captureLocalFreeTrialUsage user) = db.users := by
      rw [captured_eq huserFits, h.users]
      exact Table.replace_self hmem
    refine .ok _ { (h.replaceReservation _).appendEvent _ with users := husers } ?_
    have hmid : Fits { db.toTables with
        meetingProcessingReservations := db.meetingProcessingReservations.replace { r with
          processingRoute := input.route
          processedMinutes := (calculateMeetingUsage input.durationMs input.route).processedMinutes
          status := .finalized
          releasedAt := none
          resultGeneratedAt := some input.resultGeneratedAt
          finalizedAt := some now } } :=
      hfits.replaceReservation hr rfl rfl rfl ⟨processed_pos input.durationMs input.route, hchecks⟩
    refine hmid.appendEvent (fun id hid => ?_) fun id hid => ?_
    · obtain rfl : r.id = id := Option.some.inj hid
      exact ⟨_, Table.mem_replace_self hr rfl, rfl, howner, rfl⟩
    · obtain rfl : r.id = id := Option.some.inj hid
      exact unrecorded h hfits hallowed hfound hnew

/-! ### Refreshing an account at rest -/

section Refresh

variable {user : UserRecord} {grants : Table EntitlementGrantRecord}

theorem trial_restored (hfits : UserFits user) (h : OnTrial user) : restoreLocalFreeTrial user = user := by
  obtain ⟨hused, htotal⟩ := hfits.trial h.plan
  unfold restoreLocalFreeTrial
  rw [hfits.normalize]
  cases user
  simp only [UserRecord.mk.injEq, true_and, and_true]
  exact ⟨h.plan.symm, htotal.symm, hused, h.billing.symm, h.start.symm, h.finish.symm, h.source.symm⟩

theorem project_local (hfits : UserFits user) {grant : Option EntitlementGrantRecord} (h : Projected user grant) :
    projectLocalGrant user grant = user := by
  cases grant with
  | none => exact trial_restored hfits h
  | some grant =>
    obtain ⟨hplan, hbilling⟩ : user.plan = grant.plan ∧ user.officialMinutesBillingOrderId = grant.billingOrderId := h
    unfold projectLocalGrant
    dsimp only
    rw [if_neg]
    rintro (hne | hne)
    · exact hne hplan
    · exact hne hbilling

theorem project_postgres (hfits : UserFits user) {grant : Option EntitlementGrantRecord} (h : Projected user grant) :
    projectGrant user grant = user := by
  cases grant with
  | none =>
    have htrial : OnTrial user := h
    obtain ⟨hused, htotal⟩ := hfits.trial htrial.plan
    unfold projectGrant
    dsimp only
    rw [if_neg]
    simp [htrial.plan, htrial.source, htrial.finish, htrial.billing, hused, htotal]
  | some grant =>
    obtain ⟨hplan, hbilling⟩ : user.plan = grant.plan ∧ user.officialMinutesBillingOrderId = grant.billingOrderId := h
    unfold projectGrant
    dsimp only
    rw [if_neg]
    rintro (hne | hne)
    · exact hne hplan
    · exact hne hbilling

theorem expire_rest {grant : EntitlementGrantRecord}
    (happle : grant.userId = userId → grant.status = .active → grant.source ≠ .appleIap) (s : AuthStore) :
    expireLocalGrant now userId s grant = s := by
  unfold expireLocalGrant
  rw [if_pos]
  by_cases huser : grant.userId = userId
  · by_cases hstatus : grant.status = .active
    · exact .inr (.inl (happle huser hstatus))
    · exact .inr (.inr hstatus)
  · exact .inl huser

theorem expire_all (hrest : AtRest s.entitlementGrants user) :
    s.entitlementGrants.rows.foldl (expireLocalGrant now user.id) s = s := by
  rw [List.foldl_ext (expireLocalGrant now user.id) (fun s _ => s) s fun s grant hgrant =>
    expire_rest (hrest.apple grant hgrant) s]
  exact List.foldl_fixed _

/-- A second condition that holds wherever the first one does. -/
theorem filter_and {α : Type} {rows : List α} {p q : α → Bool} (h : ∀ x ∈ rows, p x = true → q x = true) :
    (rows.filter fun x => p x && q x) = rows.filter p := by
  refine List.filter_congr fun x hx => ?_
  cases hp : p x with
  | false => rfl
  | true => rw [h x hx hp, Bool.and_true]

theorem active_local (hrest : AtRest s.entitlementGrants user) : activeLocalGrant now s user.id =
    newestGrant (s.entitlementGrants.rows.filter fun grant => grant.userId == user.id && grant.status == .active) := by
  unfold activeLocalGrant
  refine congrArg newestGrant (filter_and fun grant hgrant hactive => ?_)
  rw [Bool.and_eq_true, beq_iff_eq, beq_iff_eq] at hactive
  unfold grantCounts
  rw [if_pos (hrest.apple grant hgrant hactive.1 hactive.2)]

theorem local_refresh (hfits : UserFits user) (huser : user ∈ s.users) (hrest : AtRest s.entitlementGrants user) :
    refreshLocalUserEntitlements now s user = (s, user) := by
  unfold refreshLocalUserEntitlements
  dsimp only
  rw [expire_all hrest, active_local hrest, project_local hfits hrest.projected, Table.replace_self huser]

theorem grants_kept (hrest : AtRest t.entitlementGrants user) :
    (expireGrants now user.id t).entitlementGrants = t.entitlementGrants := by
  unfold expireGrants
  refine Table.updateWhere_none (Postgres.Store.expiredGrant_key now) fun grant hgrant => ?_
  rw [← Bool.not_eq_true]
  intro hexpired
  unfold grantExpired at hexpired
  simp only [Bool.and_eq_true, beq_iff_eq] at hexpired
  exact hrest.apple grant hgrant hexpired.1.1.1 hexpired.1.2 hexpired.1.1.2

theorem active_postgres (hrest : AtRest t.entitlementGrants user) : activeGrant now user.id (expireGrants now user.id t) =
    newestGrant (t.entitlementGrants.rows.filter fun grant => grant.userId == user.id && grant.status == .active) := by
  unfold activeGrant
  rw [grants_kept hrest]
  refine congrArg newestGrant (filter_and fun grant hgrant hactive => ?_)
  rw [Bool.and_eq_true, beq_iff_eq, beq_iff_eq] at hactive
  have hsource : (grant.source != .appleIap) = true := bne_iff_ne.mpr (hrest.apple grant hgrant hactive.1 hactive.2)
  rw [hsource, Bool.true_or]

/-- A refresh may expire subscriptions, which no grant in force depends on. -/
theorem postgres_refresh (hfits : UserFits user) (huser : user ∈ t.users) (hactive : user.active = true)
    (hrest : AtRest t.entitlementGrants user) : refreshTables now user.id t =
      { t with appleSubscriptions := (expireGrants now user.id t).appleSubscriptions } := by
  have hfind : (t.users.find? fun row => row.id == user.id && row.active) = some user := by
    refine Table.find?_eq_some_of_unique huser (by simp [hactive]) fun row hrow hp => ?_
    rw [Bool.and_eq_true, beq_iff_eq] at hp
    exact Table.eq_of_key hrow huser hp.1
  unfold refreshTables
  rw [hfind]
  dsimp only
  have husers : (expireGrants now user.id t).users = t.users := rfl
  have hgrants : (expireGrants now user.id t).entitlementGrants = t.entitlementGrants := grants_kept hrest
  rw [active_postgres hrest, project_postgres hfits hrest.projected, husers, Table.replace_self huser, hgrants]
  rfl

end Refresh

/-- A refresh whose tables meet the constraints is committed. -/
theorem refresh_commits {db : Database} (hvalid : Postgres.Store.Constraints (refreshTables now userId db.toTables)) :
    postgresRefreshUserEntitlements now userId db = .ok ((), ⟨refreshTables now userId db.toTables, hvalid⟩) := by
  unfold postgresRefreshUserEntitlements Postgres.Store.postgresTransaction
  rw [ok_bind]
  dsimp only
  unfold Postgres.Store.commitTables
  rw [dif_pos hvalid]

theorem fits_subscriptions (h : Fits t) (subscriptions : Table AppleSubscriptionRecord) :
    Fits { t with appleSubscriptions := subscriptions } where
  constraints := { h.constraints with }
  users := h.users
  steps := h.steps
  linked := h.linked
  atRest := h.atRest
  recorded := h.recorded

theorem agree_usage {db : Database} (h : Agrees db.toTables s) (hfits : Fits db.toTables) :
    SameResult (Local.Store.getUserUsage now userId s) (postgresGetUserUsage now userId db) := by
  unfold Local.Store.getUserUsage postgresGetUserUsage postgresFindActiveUserById
  rw [normalize_store h hfits]
  dsimp only
  rw [find_activeUser h]
  rcases hfind : db.users.find? (fun user => user.id == userId && user.active) with _ | user
  · have hrefresh : refreshTables now userId db.toTables = db.toTables := by
      unfold refreshTables
      rw [hfind]
    have hfound : ((refreshTables now userId db.toTables).users.find? fun user =>
        user.id == userId && user.active) = none := by
      rw [hrefresh]
      exact hfind
    rw [refresh_commits (hrefresh.symm ▸ hfits.constraints), ok_bind, ok_bind]
    dsimp only
    rw [hfound]
    exact .error _
  · have hmem : user ∈ db.users := Table.mem_of_find? hfind
    have hp := Table.of_find? hfind
    rw [Bool.and_eq_true, beq_iff_eq] at hp
    obtain ⟨rfl, hactive⟩ := hp
    have huserFits : UserFits user := hfits.users user hmem
    have hrest : AtRest db.entitlementGrants user := hfits.atRest user hmem hactive
    have hlocal : refreshLocalUserEntitlements now s user = (s, user) :=
      local_refresh huserFits (by rw [h.users]; exact hmem) (by rw [h.grants]; exact hrest)
    have hrefresh : refreshTables now user.id db.toTables =
        { db.toTables with appleSubscriptions := (expireGrants now user.id db.toTables).appleSubscriptions } :=
      postgres_refresh huserFits hmem hactive hrest
    have hrefreshed : Fits (refreshTables now user.id db.toTables) := by
      rw [hrefresh]
      exact fits_subscriptions hfits _
    have hrows : Agrees (refreshTables now user.id db.toTables) s := by
      rw [hrefresh]
      exact ⟨h.users, h.reservations, h.steps, h.usageEvents, h.grants, h.orders⟩
    have hfound : ((refreshTables now user.id db.toTables).users.find? fun row =>
        row.id == user.id && row.active) = some user := by
      rw [hrefresh]
      exact hfind
    rw [refresh_commits hrefreshed.constraints, ok_bind, ok_bind]
    dsimp only
    rw [hfound, hlocal]
    exact .ok _ hrows hrefreshed

theorem agree_recordUsage {db : Database} {newId : UsageEventId} (h : Agrees db.toTables s) (hfits : Fits db.toTables)
    (hallowed : Recordable s userId input) : SameResult (Local.Quota.recordMeetingFinalizeUsage now newId userId input s)
      (Postgres.Quota.postgresRecordMeetingFinalizeUsage now newId userId input db) := by
  have hrecord : SameResult (Local.Quota.withLocalQuotaMutation (Local.Quota.recordFinalizeUsage now newId userId input) s)
      (Postgres.Quota.recordFinalizeUsage now newId userId input db) := agree_record h hfits hallowed
  unfold Local.Quota.recordMeetingFinalizeUsage Postgres.Quota.postgresRecordMeetingFinalizeUsage
  generalize Local.Quota.withLocalQuotaMutation (Local.Quota.recordFinalizeUsage now newId userId input) s = x at hrecord ⊢
  generalize Postgres.Quota.recordFinalizeUsage now newId userId input db = y at hrecord ⊢
  cases hrecord with
  | error e => exact .error e
  | ok a hrows hfits => exact agree_usage hrows hfits

end OwnMinutes.Backends.UsageAgreement
