import OwnMinutes.Backends.UsageAgreement

/-! # The same runs on both backends

A run of quota calls on the local store is a run on the database with the same events, and the other way round: the
answers are the same, and so are the rows in the end (`backends_agree`). -/

namespace OwnMinutes.Backends.SameRuns

open OwnMinutes.Lib.Keyed OwnMinutes.Lib.Runs OwnMinutes.Lib.Outcome OwnMinutes.Auth.ProcessingRoute
open OwnMinutes.Auth.Records OwnMinutes.Auth.Errors OwnMinutes.Auth.QuotaTypes OwnMinutes.Quota.Calls
open OwnMinutes.Quota.UsageNotes (isMeetingId)
open OwnMinutes.Local.Store (AuthStore)
open OwnMinutes.Postgres.Store (Tables Database)
open OwnMinutes.Backends.SameRows OwnMinutes.Backends.FittingRows OwnMinutes.Backends.QuotaAgreement
open OwnMinutes.Backends.UsageAgreement

variable {hashToken : ClaimToken → TokenHash}

/-! ### Allowed calls -/

/-- The calls that both backends answer alike: a chunk has no negative sequence, a step is completed or reconciled for
an account that is there, and a usage can be recorded. -/
def Allowed (s : AuthStore) : QuotaCall → Prop
  | .reserveRealtime _ input _ => 0 ≤ input.sequence
  | .complete userId _ => (s.users.get? userId).isSome = true
  | .reconcile userId _ => (s.users.get? userId).isSome = true
  | .recordUsage userId input _ => Recordable s userId input
  | .reserveFinalization .. | .claim .. | .start .. | .releaseStep .. | .reject .. | .releaseReservation .. => True

/-- The store that has the rows of the tables. -/
def rowsOf (t : Tables) : AuthStore where
  users := t.users
  meetingProcessingReservations := t.meetingProcessingReservations
  meetingProviderSteps := t.meetingProcessingProviderSteps
  usageEvents := t.usageEvents
  entitlementGrants := t.entitlementGrants
  billingOrders := t.billingOrders

theorem agrees_rowsOf (t : Tables) : Agrees t (rowsOf t) := ⟨rfl, rfl, rfl, rfl, rfl, rfl⟩

theorem Recordable.of_agrees {t : Tables} {s s' : AuthStore} {userId : UserId} {input : RecordMeetingFinalizeUsageInput}
    (h : Agrees t s) (h' : Agrees t s') (hallowed : Recordable s userId input) : Recordable s' userId input := by
  refine ⟨hallowed.isId, hallowed.plain, fun hnone r hr event hevent hid => ?_⟩
  rw [find_recorded h', ← find_recorded h] at hr
  rw [h'.usageEvents, ← h.usageEvents] at hevent
  rw [recorded_eq h' hallowed.isId hallowed.plain, ← recorded_eq h hallowed.isId hallowed.plain]
  exact hallowed.recorded hnone r hr event hevent hid

theorem allowed_of_agrees {t : Tables} {s s' : AuthStore} (h : Agrees t s) (h' : Agrees t s') {call : QuotaCall}
    (hallowed : Allowed s call) : Allowed s' call := by
  have husers : s'.users = s.users := h'.users.trans h.users.symm
  cases call with
  | reserveRealtime userId input newId => exact hallowed
  | complete userId input =>
    show (s'.users.get? userId).isSome = true
    rw [husers]
    exact hallowed
  | reconcile userId input =>
    show (s'.users.get? userId).isSome = true
    rw [husers]
    exact hallowed
  | recordUsage userId input newId => exact Recordable.of_agrees h h' hallowed
  | reserveFinalization userId input newId | claim userId input newId claimToken | start userId input => trivial
  | releaseStep userId input | reject userId input | releaseReservation userId reservationId => trivial

/-! ### One call -/

section Call

variable {s : AuthStore} {db : Database}

theorem same_map {α β : Type} {x : Except AuthError (α × AuthStore)} {y : Except AuthError (α × Database)}
    (h : SameResult x y) (f : α → β) : SameResult (x.map (Prod.map f id)) (y.map (Prod.map f id)) := by
  cases h with
  | error e => exact .error e
  | ok a hrows hfits => exact .ok (f a) hrows hfits

/-- What is committed, or left as it was after an error. -/
theorem same_commit {α : Type} {x : Except AuthError (α × AuthStore)} {y : Except AuthError (α × Database)}
    (hrows : Agrees db.toTables s) (hfits : Fits db.toTables) (h : SameResult x y) :
    (commit s x).1 = (commit db y).1 ∧ Agrees (commit db y).2.toTables (commit s x).2 ∧
      Fits (commit db y).2.toTables := by
  cases h with
  | error e | ok a hrows hfits => exact ⟨rfl, hrows, hfits⟩

/-- **Both backends answer an allowed call alike.** -/
theorem agree_call (hashToken : ClaimToken → TokenHash) (now : Timestamp) {call : QuotaCall}
    (hrows : Agrees db.toTables s) (hfits : Fits db.toTables) (hfresh : Postgres.Calls.freshIn db call)
    (hallowed : Allowed s call) :
    (Local.Calls.execute hashToken now call s).1 = (Postgres.Calls.execute hashToken now call db).1 ∧
      Agrees (Postgres.Calls.execute hashToken now call db).2.toTables (Local.Calls.execute hashToken now call s).2 ∧
      Fits (Postgres.Calls.execute hashToken now call db).2.toTables := by
  have husers : ∀ userId, (s.users.get? userId).isSome = true → (db.users.get? userId).isSome = true := by
    intro userId hsome
    rw [hrows.users] at hsome
    exact hsome
  refine same_commit hrows hfits ?_
  cases call with
  | reserveRealtime userId input newId =>
    exact same_map (agree_reserveRealtime hrows hfits (hfresh.1 newId rfl).1 hallowed) _
  | reserveFinalization userId input newId =>
    exact same_map (agree_reserveFinalization hrows hfits (hfresh.1 newId rfl).1) _
  | claim userId input newId claimToken => exact same_map (agree_claim hrows hfits (hfresh.2 newId rfl)) _
  | start userId input => exact same_map (agree_start hrows hfits) _
  | complete userId input => exact same_map (agree_complete hrows hfits (husers userId hallowed)) _
  | reconcile userId input => exact same_map (agree_reconcile hrows hfits (husers userId hallowed)) _
  | releaseStep userId input => exact same_map (agree_releaseStep hrows hfits) _
  | reject userId input => exact same_map (agree_reject hrows hfits) _
  | releaseReservation userId reservationId => exact same_map (agree_releaseReservation hrows hfits) _
  | recordUsage userId input newId => exact same_map (agree_recordUsage hrows hfits hallowed) _

theorem fresh_iff (hrows : Agrees db.toTables s) (call : QuotaCall) :
    Local.Calls.freshIn s call ↔ Postgres.Calls.freshIn db call := by
  unfold Local.Calls.freshIn Postgres.Calls.freshIn
  rw [hrows.reservations, hrows.steps]

end Call

/-! ### Runs -/

/-- The backends at one time, with the same rows. -/
structure Same (s : Clocked AuthStore) (db : Clocked Database) : Prop where
  clock : db.clock = s.clock
  rows : Agrees db.store.toTables s.store
  fits : Fits db.store.toTables

/-- An allowed call on the local store. -/
def LocalStep (hashToken : ClaimToken → TokenHash) (s : Clocked AuthStore) (e : QuotaEvent) (s' : Clocked AuthStore) :
    Prop :=
  Local.Calls.QuotaStep hashToken s e s' ∧ Allowed s.store e.call

/-- An allowed call on the database. -/
def PostgresStep (hashToken : ClaimToken → TokenHash) (db : Clocked Database) (e : QuotaEvent) (db' : Clocked Database) :
    Prop :=
  Postgres.Calls.QuotaStep hashToken db e db' ∧ Allowed (rowsOf db.store.toTables) e.call

variable {s s' : Clocked AuthStore} {db db' : Clocked Database} {e : QuotaEvent}

theorem local_simulated (hsame : Same s db) (hstep : LocalStep hashToken s e s') :
    ∃ db', PostgresStep hashToken db e db' ∧ Same s' db' := by
  obtain ⟨⟨hclock, hfresh, hexecute, hafter⟩, hallowed⟩ := hstep
  rw [fresh_iff hsame.rows] at hfresh
  obtain ⟨hresult, hrows, hfits⟩ := agree_call hashToken e.now hsame.rows hsame.fits hfresh hallowed
  rw [hexecute] at hresult hrows
  refine ⟨⟨(Postgres.Calls.execute hashToken e.now e.call db.store).2, e.now⟩, ⟨⟨?_, hfresh, ?_, rfl⟩, ?_⟩, ?_⟩
  · rw [hsame.clock]
    exact hclock
  · exact Prod.ext hresult.symm rfl
  · exact allowed_of_agrees hsame.rows (agrees_rowsOf _) hallowed
  · exact ⟨hafter.symm, hrows, hfits⟩

theorem postgres_simulated (hsame : Same s db) (hstep : PostgresStep hashToken db e db') :
    ∃ s', LocalStep hashToken s e s' ∧ Same s' db' := by
  obtain ⟨⟨hclock, hfresh, hexecute, hafter⟩, hallowed⟩ := hstep
  have hallowed : Allowed s.store e.call := allowed_of_agrees (agrees_rowsOf _) hsame.rows hallowed
  obtain ⟨hresult, hrows, hfits⟩ := agree_call hashToken e.now hsame.rows hsame.fits hfresh hallowed
  rw [hexecute] at hresult hrows hfits
  refine ⟨⟨(Local.Calls.execute hashToken e.now e.call s.store).2, e.now⟩, ⟨⟨?_, ?_, ?_, rfl⟩, hallowed⟩, ?_⟩
  · rw [← hsame.clock]
    exact hclock
  · exact (fresh_iff hsame.rows e.call).mpr hfresh
  · exact Prod.ext hresult rfl
  · exact ⟨hafter, hrows, hfits⟩

instance (s : AuthStore) (userId : UserId) (input : RecordMeetingFinalizeUsageInput) :
    Decidable (Recordable s userId input) :=
  decidable_of_iff
    (isMeetingId input.meetingId.toList = true ∧ '_' ∉ input.meetingId.toList ∧
      (input.reservationId = none → ∀ r ∈ Local.Quota.findRecordedReservation s userId input,
        ∀ event ∈ s.usageEvents, event.processingReservationId = some r.id →
          Local.Quota.finalizeUsageRecorded s userId input = true))
    ⟨fun ⟨h1, h2, h3⟩ => ⟨h1, h2, h3⟩, fun h => ⟨h.isId, h.plain, h.recorded⟩⟩

instance (s : AuthStore) : ∀ call, Decidable (Allowed s call)
  | .reserveRealtime _ input _ => inferInstanceAs (Decidable (0 ≤ input.sequence))
  | .complete userId _ => inferInstanceAs (Decidable ((s.users.get? userId).isSome = true))
  | .reconcile userId _ => inferInstanceAs (Decidable ((s.users.get? userId).isSome = true))
  | .recordUsage userId input _ => inferInstanceAs (Decidable (Recordable s userId input))
  | .reserveFinalization .. | .claim .. | .start .. | .releaseStep .. | .reject .. | .releaseReservation .. =>
    inferInstanceAs (Decidable True)

def trialUser : UserRecord :=
  { id := "u", officialMinutesPeriodStartAt := some 0, officialMinutesPeriodSource := some FREE_TRIAL_SOURCE }

def trialTables : Tables := { users := Table.empty.insert trialUser }

def localStart : Clocked AuthStore := ⟨rowsOf trialTables, 0⟩

def postgresStart : Clocked Database := ⟨⟨trialTables, by decide⟩, 0⟩

theorem trialUser_of_mem {user : UserRecord} (h : user ∈ trialTables.users) : user = trialUser := by
  rcases Table.mem_of_mem_insert h with h | h
  · cases h
  · exact h

theorem same_start : Same localStart postgresStart where
  clock := rfl
  rows := agrees_rowsOf trialTables
  fits :=
    { constraints := postgresStart.store.valid
      users := by
        intro user huser
        obtain rfl := trialUser_of_mem huser
        exact ⟨by decide, by decide, by decide⟩
      steps := fun _ h => by cases h
      linked := fun _ h => by cases h
      atRest := by
        intro user huser _
        obtain rfl := trialUser_of_mem huser
        refine ⟨(fun _ h => by cases h), ?_⟩
        exact ⟨rfl, rfl, rfl, rfl, rfl⟩
      recorded := fun _ h => by cases h }

def reservation : ReserveFinalizationQuotaInput where
  durationMs := 120000
  meetingId := "m"
  operationKey := "key"
  processingRoute := .officialQuota

def result : RecordMeetingFinalizeUsageInput where
  meetingId := "m"
  durationMs := 120000
  route := .officialQuota
  resultGeneratedAt := "2026-01-01T00:00:00.000Z"

/-- A step is rejected and claimed again; its result is recorded twice. -/
def rejectedStep : List (Timestamp × QuotaCall) :=
  [(10, .reserveFinalization "u" reservation "r1"),
   (20, .claim "u" { reservationId := "r1", stage := .finalizationAsr } "p1" "first"),
   (30, .start "u" { claimToken := "first", stepId := "p1" }),
   (40, .reject "u" { claimToken := "first", stepId := "p1" }),
   (50, .claim "u" { reservationId := "r1", stage := .finalizationAsr } "p2" "second"),
   (60, .start "u" { claimToken := "second", stepId := "p1" }),
   (70, .complete "u" { claimToken := "second", stepId := "p1" }),
   (80, .recordUsage "u" { result with reservationId := some "r1" } "e1"),
   (90, .recordUsage "u" { result with reservationOperationKey := some "key" } "e2")]

theorem scheduled_rejectedStep : Scheduled (Local.Calls.execute id) Local.Calls.freshIn
    (fun s call _ => Allowed s.store call.2) localStart rejectedStep := by
  decide +kernel

end OwnMinutes.Backends.SameRuns
