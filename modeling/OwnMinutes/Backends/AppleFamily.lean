import OwnMinutes.Local.AppleFamily
import OwnMinutes.Postgres.AppleFamily

/-! # Subscription families in both backends

In runs that start before anything was bought, the law of a subscription family holds in every state
as long as each step satisfies its backend's condition. Without it the law fails: the reversal of an
old refund makes the grant of a transaction active that is not the current one any more. -/

namespace OwnMinutes.Backends.AppleFamily

open OwnMinutes.Lib.Keyed OwnMinutes.Lib.Runs OwnMinutes.Auth.ProcessingRoute
open OwnMinutes.Auth.Records OwnMinutes.Auth.Apple OwnMinutes.Quota.Calls
open OwnMinutes.Apple.Family OwnMinutes.Apple.Calls

/-- The ledger of a database. -/
def databaseLedger (db : Postgres.Store.Database) : AppleLedger :=
  Postgres.AppleFamily.ledger db.toTables

/-- **The law of a subscription family** holds on the local store and on the database. -/
theorem family_safe {sha256 : String → String} {s s' : Clocked Local.Store.AuthStore}
    {d d' : Clocked Postgres.Store.Database} {es fs : List AppleEvent}
    (hs : NoPurchases (Local.AppleFamily.ledger s.store)) (hd : NoPurchases (databaseLedger d.store))
    (hlocal : Run (AppleStep (Local.AppleFamily.apply sha256) Local.AppleFamily.ledger
      (Local.AppleFamily.ReversalsOfCurrent sha256)) s es s')
    (hpostgres : Run (AppleStep (Postgres.AppleFamily.apply sha256) databaseLedger
      (Postgres.AppleFamily.InOrder sha256)) d fs d') :
    FamilySafe (Local.AppleFamily.ledger s'.store) ∧ FamilySafe (databaseLedger d'.store) := by
  constructor
  · have hinv : FamilyInv (Local.AppleFamily.ledger s'.store) :=
      hlocal.invariant (fun _ _ _ h hstep => Local.AppleFamily.familyInv_step hstep h) hs.familyInv
    exact hinv.safe
  · have hinv : FamilyInv (databaseLedger d'.store) :=
      hpostgres.invariant (fun _ _ _ h hstep => Postgres.AppleFamily.familyInv_step hstep h)
        hd.familyInv
    exact hinv.safe

/-! ### A refund reversed after the next period -/

def freeStore : Local.Store.AuthStore where
  users := Table.empty.insert { id := "u" }

def freeDatabase : Postgres.Store.Database where
  users := Table.empty.insert { id := "u" }
  valid := by decide

def bought (n : String) (periodStartAt periodEndAt : Timestamp) : AppleEvent where
  now := periodStartAt
  call := .purchase ⟨"e" ++ n, "o" ++ n, "g" ++ n⟩
    { environment := "Production", externalTransactionId := "t" ++ n, idempotencyKey := "t" ++ n
      originalTransactionId := some "f", periodEndAt := some periodEndAt
      periodStartAt := some periodStartAt, plan := .plus, productId := "plus"
      signedDate := some periodStartAt, userId := "u" }

def notified (now : Timestamp) (notificationType n : String) : AppleEvent where
  now := now
  call := .notification ⟨"e" ++ notificationType, "o" ++ notificationType, "g" ++ notificationType⟩
    { notificationType := some notificationType, notificationUUID := some notificationType
      originalTransactionId := some "f", payloadSha256 := some notificationType
      reason := notificationType, signedDate := some now, transactionId := some ("t" ++ n) }

/-- The first period is refunded, the second runs out, and then Apple reverses the refund. -/
def refundReversed : List AppleEvent :=
  [bought "1" 100 1000, notified 200 "REFUND" "1", bought "2" 1000 2000, ⟨3000, .refresh "u"⟩,
    notified 3100 "REFUND_REVERSED" "1"]

/-- The subscription says that the second transaction is the current one, and the grant of the first
is active. -/
theorem unsafe_after_reversal : ∃ (s0 s : Clocked Local.Store.AuthStore) (es : List AppleEvent),
    NoPurchases (Local.AppleFamily.ledger s0.store) ∧
      Run (AppleStep (Local.AppleFamily.apply id) Local.AppleFamily.ledger fun _ _ => True) s0 es s ∧
      ¬ FamilySafe (Local.AppleFamily.ledger s.store) := by
  have hscheduled : Scheduled (Local.AppleFamily.apply id) Local.AppleFamily.ledger
      (fun _ _ => True) ⟨freeStore, 0⟩ refundReversed := by decide
  refine ⟨⟨freeStore, 0⟩, replay (Local.AppleFamily.apply id) ⟨freeStore, 0⟩ refundReversed,
    refundReversed, ⟨by decide, rfl⟩, run_replay _ _ hscheduled, fun hsafe => ?_⟩
  have hgrant : ∃ order ∈ (Local.AppleFamily.ledger (replay (Local.AppleFamily.apply id)
      ⟨freeStore, 0⟩ refundReversed).store).orders.rows, ∃ grant ∈ (Local.AppleFamily.ledger (replay
      (Local.AppleFamily.apply id) ⟨freeStore, 0⟩ refundReversed).store).grants.rows,
      inFamily "f" order = true ∧ order.entitlementGrantId = some grant.id ∧
        grant.status = .active ∧ ¬ Current (Local.AppleFamily.ledger (replay
          (Local.AppleFamily.apply id) ⟨freeStore, 0⟩ refundReversed).store) "f" order := by
    decide
  obtain ⟨order, ho, grant, hg, hf, hp, hactive, hcurrent⟩ := hgrant
  exact hcurrent (hsafe "f" order grant ⟨ho, hg, hf, Or.inl hp⟩ hactive).1

/-- A refund that is reversed while the period lasts, and the next period. -/
def reversedInTime : List AppleEvent :=
  [bought "1" 100 1000, notified 200 "REFUND" "1", notified 300 "REFUND_REVERSED" "1",
    ⟨500, .refresh "u"⟩, bought "2" 1000 2000]

theorem family_safe_reversedInTime :
    FamilySafe (Local.AppleFamily.ledger (replay (Local.AppleFamily.apply id) ⟨freeStore, 0⟩
        reversedInTime).store) ∧
      FamilySafe (databaseLedger (replay (Postgres.AppleFamily.apply id) ⟨freeDatabase, 0⟩
        reversedInTime).store) := by
  have hlocal : Scheduled (Local.AppleFamily.apply id) Local.AppleFamily.ledger
      (Local.AppleFamily.ReversalsOfCurrent id) ⟨freeStore, 0⟩ reversedInTime := by
    decide
  have hpostgres : Scheduled (Postgres.AppleFamily.apply id) databaseLedger
      (Postgres.AppleFamily.InOrder id) ⟨freeDatabase, 0⟩ reversedInTime := by
    decide
  exact family_safe ⟨by decide, rfl⟩ ⟨by decide, rfl⟩ (run_replay _ _ hlocal)
    (run_replay _ _ hpostgres)

end OwnMinutes.Backends.AppleFamily
