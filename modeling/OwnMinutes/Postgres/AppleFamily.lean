import OwnMinutes.Apple.Calls
import OwnMinutes.Postgres.Apple
import OwnMinutes.Postgres.Calls

/-! # Subscription families in PostgreSQL

What purchases, notifications and refreshes do to the orders, grants and subscriptions of the
database, and that `FamilyInv` survives them. Three steps could break it: a purchase or a renewal
that is taken although the subscription was signed later, so that its row stays behind; a lifecycle
notification that names an old transaction and brings back its grant; and a reversed refund that
makes the grant of an old transaction active again. -/

namespace OwnMinutes.Postgres.AppleFamily

open OwnMinutes.Lib.Keyed OwnMinutes.Lib.Newest OwnMinutes.Lib.Outcome OwnMinutes.Lib.Runs
open OwnMinutes.Auth.ProcessingRoute OwnMinutes.Auth.Records OwnMinutes.Auth.Errors
open OwnMinutes.Auth.Apple OwnMinutes.Quota.Calls OwnMinutes.Apple.Family OwnMinutes.Apple.Calls
open OwnMinutes.Postgres.Store OwnMinutes.Postgres.Apple
open OwnMinutes.Postgres.Calls

def ledger (t : Tables) : AppleLedger :=
  ⟨t.users, t.billingOrders, t.entitlementGrants, t.appleSubscriptions⟩

/-- One call on the database. -/
def apply (sha256 : String → String) (now : Timestamp) (call : AppleCall) (db : Database) :
    Database :=
  match call with
  | .purchase ids input => (commit db (postgresRecordAppleIapPurchase now ids input db)).2
  | .notification ids input => (postgresRecordAppleIapNotification sha256 now ids input db).2
  | .refresh userId => (commit db (postgresRefreshUserEntitlements now userId db)).2

/-! ### Updates -/

variable {order : BillingOrderRecord} {transactionId : TransactionId} {grant : EntitlementGrantRecord}
  {now : Timestamp} {t' : Tables}

section Updates

variable {a : GrantId → Prop} {t : Tables}

theorem keeps_updateUser {id : UserId} {f : UserRecord → UserRecord} {p : UserRecord → Bool}
    (h : ∀ x, SameUser x (f x)) : Keeps a (ledger t) (ledger (t.updateUser id f p)) := by
  unfold Tables.updateUser
  split
  · exact Keeps.refl _
  · rename_i user huser
    split
    · refine { Keeps.refl (a := a) (ledger t) with users := ?_ }
      exact Table.rewrites_replace_mem SameUser.refl (Table.mem_of_get? huser) (h user).id (h user)
    · exact Keeps.refl _

theorem keeps_updateOrder {id : BillingOrderId} {f : BillingOrderRecord → BillingOrderRecord}
    (h : ∀ x, SameOrder x (f x)) : Keeps a (ledger t) (ledger (updateOrder t id f)) := by
  unfold updateOrder
  split
  · exact Keeps.refl _
  · rename_i order horder
    refine { Keeps.refl (a := a) (ledger t) with orders := ?_ }
    exact Table.rewrites_replace_mem SameOrder.refl (Table.mem_of_get? horder) (h order).id (h order)

theorem keeps_updateGrant {id : GrantId} {f : EntitlementGrantRecord → EntitlementGrantRecord}
    {p : EntitlementGrantRecord → Bool} (h : ∀ x, x.id = id → SameGrant a x (f x)) :
    Keeps a (ledger t) (ledger (updateGrant t id f p)) := by
  unfold updateGrant
  split
  · exact Keeps.refl _
  · rename_i grant hgrant
    split
    · refine { Keeps.refl (a := a) (ledger t) with grants := ?_ }
      have hg := h grant (Table.key_of_get? hgrant)
      exact Table.rewrites_replace_mem SameGrant.refl (Table.mem_of_get? hgrant) hg.id hg
    · exact Keeps.refl _

theorem keeps_updateSubscription {f : TransactionId}
    {g : AppleSubscriptionRecord → AppleSubscriptionRecord} {p : AppleSubscriptionRecord → Bool}
    (h : ∀ x, SameSubscription x (g x)) :
    Keeps a (ledger t) (ledger (updateSubscription t f g p)) := by
  unfold updateSubscription
  split
  · exact Keeps.refl _
  · rename_i sub hsub
    split
    · refine { Keeps.refl (a := a) (ledger t) with subscriptions := ?_ }
      exact Table.rewrites_replace_mem SameSubscription.refl (Table.mem_of_get? hsub)
        (h sub).originalTransactionId (h sub)
    · exact Keeps.refl _

theorem keeps_updateFamily {g : AppleSubscriptionRecord → AppleSubscriptionRecord}
    {p : AppleSubscriptionRecord → Bool} (h : ∀ x, SameSubscription x (g x)) :
    Keeps a (ledger t) (ledger (updateFamily t order g p)) := by
  unfold updateFamily
  split
  · exact Keeps.refl _
  · exact keeps_updateSubscription h

@[simp] theorem ledger_insertAdjustment (id : UsageEventId) (userId : UserId) (note : String) :
    ledger (insertAdjustment t id userId note) = ledger t := rfl

end Updates

/-! ### Rows the operations find -/

theorem findAppleOrder_some {t : Tables} (h : findAppleOrder t transactionId = some order) :
    order ∈ t.billingOrders ∧ order.provider = .appleIap ∧
      order.externalTransactionId = some transactionId :=
  ⟨Table.mem_of_find? h, ofTransaction_iff.mp (Table.of_find? h)⟩

theorem findAppleOrder_none {t : Tables} (h : findAppleOrder t transactionId = none) :
    ∀ o ∈ t.billingOrders, o.provider = .appleIap → o.externalTransactionId ≠ some transactionId := by
  intro o ho hp he
  have hfalse := Table.find?_none.mp h o ho
  rw [ofTransaction_iff.mpr ⟨hp, he⟩] at hfalse
  cases hfalse

theorem orderOfGrant_some {t : Tables} (h : orderOfGrant t grant = some order) :
    order ∈ t.billingOrders ∧ grant.billingOrderId = some order.id := by
  obtain ⟨id, hid, ho⟩ := Option.bind_eq_some_iff.mp h
  exact ⟨Table.mem_of_get? ho, by rw [hid, ← Table.key_of_get? ho]; rfl⟩

theorem orderOfGrant_eq {t : Tables} (ho : order ∈ t.billingOrders) (h : grant.billingOrderId = some order.id) :
    orderOfGrant t grant = some order := by
  rw [orderOfGrant, h, Option.bind_some]
  exact Table.get?_key ho

/-! ### Superseding -/

theorem keeps_supersede {a : GrantId → Prop} (t : Tables) (userId : UserId)
    (f next : TransactionId) (now : Timestamp) :
    Keeps a (ledger t) (ledger (postgresSupersedeAppleSubscriptionFamily t userId f next now).2) := by
  refine { Keeps.refl (a := a) (ledger t) with grants := ?_ }
  exact Table.rewrites_updateWhere (revokedGrant_key now _) SameGrant.refl fun x _ _ =>
    ⟨rfl, rfl, fun h => by cases h⟩

/-- If the next transaction is new, superseding leaves no grant of the family active. -/
theorem idle_supersede {t : Tables} (h : FamilyInv (ledger t)) (userId : UserId)
    {f next : TransactionId} (now : Timestamp)
    (hnew : ∀ o ∈ t.billingOrders, o.provider = .appleIap → o.externalTransactionId ≠ some next) :
    Idle (ledger (postgresSupersedeAppleSubscriptionFamily t userId f next now).2) f := by
  intro order ho grant hg hf hp hactive
  obtain ⟨x, hx, rfl⟩ := (Table.mem_updateWhere (revokedGrant_key now _)).mp hg
  have ho : order ∈ t.billingOrders := ho
  by_cases hs : activeGrantOf t (replacedOrder f next) x = true
  · rw [if_pos hs] at hactive
    cases hactive
  · rw [if_neg hs] at hactive hp
    refine hs ?_
    have happle := (inFamily_iff.mp hf).1
    have hlink := (h.linked order ho x hx happle).mp hp
    obtain ⟨transactionId, hext⟩ := Option.isSome_iff_exists.mp (h.identified order ho happle)
    have hne : transactionId ≠ next := fun he => hnew order ho happle (he ▸ hext)
    rw [activeGrantOf, orderOfGrant_eq ho hlink, hactive]
    simp [replacedOrder, hf, hext, hne]

/-- `insert into apple_subscriptions … on conflict do update`, which may not be held back. -/
theorem moved_upsert {t : Tables} {row : AppleSubscriptionRecord} {p : AppleSubscriptionRecord → Bool}
    (onConflict : AppleSubscriptionRecord → AppleSubscriptionRecord)
    (hallowed : ∀ s, t.appleSubscriptions.get? row.originalTransactionId = some s → p s = true)
    (hkey : ∀ s, (onConflict s).originalTransactionId = s.originalTransactionId) :
    ∃ s, Moved t.appleSubscriptions (upsertSubscription t row onConflict p).appleSubscriptions
      row.originalTransactionId s ∧ (s = row ∨ ∃ existing,
        t.appleSubscriptions.get? row.originalTransactionId = some existing ∧
          s = onConflict existing) := by
  unfold upsertSubscription
  cases hs : t.appleSubscriptions.get? row.originalTransactionId with
  | none =>
    have hfresh : t.appleSubscriptions.Fresh (HasKey.key row) := Table.fresh_iff.mpr hs
    refine ⟨row, ⟨Table.get?_insert_self hfresh, fun k hk => ?_⟩, Or.inl rfl⟩
    exact Table.get?_insert_of_ne (Ne.symm hk)
  | some existing =>
    have hk : HasKey.key (onConflict existing) = row.originalTransactionId :=
      (hkey existing).trans (Table.key_of_get? hs)
    dsimp only
    rw [if_pos (hallowed existing hs)]
    refine ⟨onConflict existing, ⟨?_, fun k hne => ?_⟩, Or.inr ⟨existing, rfl, rfl⟩⟩
    · rw [← hk] at hs ⊢
      exact Table.get?_replace_self hs
    · exact Table.get?_replace_of_ne fun he => hne (he.symm.trans hk)

theorem sameUser_purchased (now : Timestamp) (orderId : BillingOrderId) (plan : BillingPlanId)
    (periodStartAt periodEndAt : Option Timestamp) (user : UserRecord) :
    SameUser user (purchasedUser now orderId plan periodStartAt periodEndAt user) := ⟨rfl, rfl⟩

/-! ### Purchases -/

theorem keeps_supersedeFamilyOf {a : GrantId → Prop} (t : Tables) (userId : UserId)
    (plan : BillingPlanId) (f? : Option TransactionId) (next : TransactionId) (now : Timestamp) :
    Keeps a (ledger t) (ledger (supersedeFamilyOf t userId plan f? next now).2) := by
  unfold supersedeFamilyOf
  split
  · exact Keeps.refl _
  · exact keeps_supersede t _ _ _ _

/-- Superseding touches the grants only. -/
theorem supersede_rest (t : Tables) (userId : UserId) (plan : BillingPlanId)
    (f? : Option TransactionId) (next : TransactionId) (now : Timestamp) :
    (supersedeFamilyOf t userId plan f? next now).2.users = t.users ∧
      (supersedeFamilyOf t userId plan f? next now).2.billingOrders = t.billingOrders ∧
      (supersedeFamilyOf t userId plan f? next now).2.appleSubscriptions = t.appleSubscriptions := by
  cases f? <;> exact ⟨rfl, rfl, rfl⟩

/-- An update of an account leaves the other tables. -/
theorem updateUser_rest (t : Tables) (id : UserId) (f : UserRecord → UserRecord)
    (p : UserRecord → Bool) :
    (t.updateUser id f p).billingOrders = t.billingOrders ∧
      (t.updateUser id f p).entitlementGrants = t.entitlementGrants ∧
      (t.updateUser id f p).appleSubscriptions = t.appleSubscriptions := by
  unfold Tables.updateUser
  split
  · exact ⟨rfl, rfl, rfl⟩
  · split
    · exact ⟨rfl, rfl, rfl⟩
    · exact ⟨rfl, rfl, rfl⟩

/-- A taken transaction: the family superseded, the account moved, the order and the grant inserted
and the subscription, if the upsert is not held back, moved on. -/
theorem familyInv_taken (now : Timestamp) {ids : PlanChangeIds} {next : TransactionId} {t : Tables}
    (plan : BillingPlanId) {f? : Option TransactionId} (order : BillingOrderRecord)
    (grant : EntitlementGrantRecord) (subs : Table AppleSubscriptionRecord)
    (g : UserRecord → UserRecord) (p : UserRecord → Bool) (h : FamilyInv (ledger t)) (hids : FreshIn (ledger t) ids) (hg : ∀ x, SameUser x (g x))
    (horder : order.id = ids.order ∧ order.provider = .appleIap ∧
      order.externalTransactionId = some next ∧ order.entitlementGrantId = some ids.grant ∧
      order.originalTransactionId = f?)
    (hgrant : grant.id = ids.grant ∧ grant.billingOrderId = some ids.order)
    (hnew : ∀ o ∈ t.billingOrders, o.provider = .appleIap → o.externalTransactionId ≠ some next)
    (hlive : ∃ user, t.users.get? order.userId = some user ∧ user.deletedAt = none)
    (howner : ∀ f s, f? = some f → t.appleSubscriptions.get? f = some s → s.userId = order.userId)
    (halone : f? = none → subs = t.appleSubscriptions)
    (hjoins : ∀ f, f? = some f → ∃ s, Moved t.appleSubscriptions subs f s ∧
      s.userId = order.userId ∧ next = s.currentTransactionId) :
    FamilyInv { ledger ((supersedeFamilyOf t order.userId plan f? next now).2.updateUser order.userId g p) with
      orders := t.billingOrders.insert order
      grants := (supersedeFamilyOf t order.userId plan f? next now).2.entitlementGrants.insert grant
      subscriptions := subs } := by
  set t1 := (supersedeFamilyOf t order.userId plan f? next now).2 with ht1
  set t2 := t1.updateUser order.userId g p with ht2
  have hrest := updateUser_rest t1 order.userId g p
  rw [← ht2] at hrest
  have hk1 : KeepsAll (ledger t) (ledger t1) := keeps_supersedeFamilyOf t order.userId plan f? next now
  have hk2 : KeepsAll (ledger t1) (ledger t2) := keeps_updateUser hg
  obtain ⟨hoid, hop, hoext, hoent, hof⟩ := horder
  have ht : Take (ledger t) (ledger t2) ids next order grant subs :=
    { fresh := hids
      orders := hrest.1.trans (supersede_rest t order.userId plan f? next now).2.1
      subscriptions := hrest.2.2.trans (supersede_rest t order.userId plan f? next now).2.2
      order_id := hoid
      provider := hop
      transaction := hoext
      granted := hoent
      grant_id := hgrant.1
      billing := hgrant.2
      new := hnew
      live := hlive
      alone := fun hf => halone (hof ▸ hf)
      joins := fun f hf => by
        have hf : f? = some f := hof ▸ hf
        refine ⟨?_, fun s hs => howner f s hf hs, hjoins f hf⟩
        have hidle : Idle (ledger t1) f := by
          rw [ht1, hf]
          exact idle_supersede h order.userId now hnew
        intro o ho x hx
        have ho1 : o ∈ (ledger t1).orders := by
          have he : (ledger t2).orders = (ledger t1).orders := hrest.1
          rw [← he]; exact ho
        have hx1 : x ∈ (ledger t1).grants := by
          have he : (ledger t2).grants = (ledger t1).grants := hrest.2.1
          rw [← he]; exact hx
        exact hidle o ho1 x hx1 }
  have hgrants : (ledger t2).grants = t1.entitlementGrants := hrest.2.1
  have hinv := h.take (hk1.trans hk2) ht
  rw [hgrants] at hinv
  exact hinv

/-- The upsert of a subscription depends on the subscriptions only, and changes nothing else. -/
theorem ledger_upsert (t : Tables) (row : AppleSubscriptionRecord)
    (onConflict : AppleSubscriptionRecord → AppleSubscriptionRecord)
    (p : AppleSubscriptionRecord → Bool) :
    ledger (upsertSubscription t row onConflict p) = { ledger t with
      subscriptions := (upsertSubscription t row onConflict p).appleSubscriptions } := by
  unfold upsertSubscription
  split
  · rfl
  · split
    · rfl
    · rfl

theorem upsert_congr (t t' : Tables) (h : t'.appleSubscriptions = t.appleSubscriptions)
    (row : AppleSubscriptionRecord) (onConflict : AppleSubscriptionRecord → AppleSubscriptionRecord)
    (p : AppleSubscriptionRecord → Bool) :
    (upsertSubscription t' row onConflict p).appleSubscriptions =
      (upsertSubscription t row onConflict p).appleSubscriptions := by
  unfold upsertSubscription
  rw [h]
  split
  · rfl
  · split
    · rfl
    · exact h

theorem ledger_savePurchase (input : AppleIapPurchaseInput) (t : Tables) :
    ledger (savePurchase input t) = { ledger t with
      subscriptions := (savePurchase input t).appleSubscriptions } := by
  unfold savePurchase
  split
  · rfl
  · exact ledger_upsert _ _ _ _

theorem savePurchase_congr (t t' : Tables) (h : t'.appleSubscriptions = t.appleSubscriptions)
    (input : AppleIapPurchaseInput) :
    (savePurchase input t').appleSubscriptions = (savePurchase input t).appleSubscriptions := by
  unfold savePurchase
  split
  · exact h
  · exact upsert_congr t t' h _ _ _

/-- The ledger of a purchase that is taken. -/
theorem ledger_takePurchase (now : Timestamp) (ids : PlanChangeIds) (input : AppleIapPurchaseInput)
    (user : UserRecord) (t : Tables) :
    ledger (takePurchase now ids input user t) =
      { ledger ((supersedeFamilyOf t input.userId user.plan input.originalTransactionId
          input.externalTransactionId now).2.updateUser input.userId
          (purchasedUser now ids.order input.plan input.periodStartAt input.periodEndAt)
          (·.active)) with
        orders := t.billingOrders.insert (insertedOrder now ids input)
        grants := (supersedeFamilyOf t input.userId user.plan input.originalTransactionId
          input.externalTransactionId now).2.entitlementGrants.insert (purchasedGrant now ids input
            (supersedeFamilyOf t input.userId user.plan input.originalTransactionId
              input.externalTransactionId now).1)
        subscriptions := (savePurchase input t).appleSubscriptions } := by
  have h1 := supersede_rest t input.userId user.plan input.originalTransactionId
    input.externalTransactionId now
  unfold takePurchase
  dsimp only
  set superseded := supersedeFamilyOf t input.userId user.plan input.originalTransactionId
    input.externalTransactionId now with hsuperseded
  have h2 := updateUser_rest superseded.2 input.userId
    (purchasedUser now ids.order input.plan input.periodStartAt input.periodEndAt) (·.active)
  set t2 := superseded.2.updateUser input.userId
    (purchasedUser now ids.order input.plan input.periodStartAt input.periodEndAt) (·.active)
    with ht2
  rw [ledger_insertAdjustment, ledger_savePurchase]
  refine AppleLedger.ext rfl ?_ ?_ ?_
  · exact congrArg (fun table => Table.insert table (insertedOrder now ids input))
      (h2.1.trans h1.2.1)
  · exact congrArg (fun table => Table.insert table (purchasedGrant now ids input _)) h2.2.1
  · exact savePurchase_congr t
      { t2 with
        billingOrders := t2.billingOrders.insert (insertedOrder now ids input)
        entitlementGrants :=
          t2.entitlementGrants.insert (purchasedGrant now ids input superseded.1) }
      (h2.2.2.trans h1.2.2) input

/-- A purchase that is taken keeps the invariant if the subscription was not signed later. -/
theorem familyInv_takePurchase {ids : PlanChangeIds} {input : AppleIapPurchaseInput} {t : Tables} {user : UserRecord}
    (h : FamilyInv (ledger t)) (hids : FreshIn (ledger t) ids) (huser : t.users.get? input.userId = some user)
    (hlive : user.deletedAt = none) (hnew : ∀ o ∈ t.billingOrders, o.provider = .appleIap →
      o.externalTransactionId ≠ some input.externalTransactionId)
    (howner : ∀ f s, input.originalTransactionId = some f → t.appleSubscriptions.get? f = some s →
      s.userId = input.userId) (hsigned : ∀ f ∈ input.originalTransactionId, ∀ s ∈ t.appleSubscriptions.get? f,
      signedInOrder s.lastSignedDate input.signedDate = true) :
    FamilyInv (ledger (takePurchase now ids input user t)) := by
  rw [ledger_takePurchase]
  refine familyInv_taken now user.plan (insertedOrder now ids input) _ _ _ _ h hids
    (sameUser_purchased now _ _ _ _) ⟨rfl, rfl, rfl, rfl, rfl⟩ ⟨rfl, rfl⟩ hnew
    ⟨user, huser, hlive⟩ howner ?_ ?_
  · intro hf
    rw [savePurchase, hf]
  · intro f hf
    rw [savePurchase, hf]
    have hallowed : ∀ s, t.appleSubscriptions.get?
        (purchasedSubscription input f).originalTransactionId = some s →
          upsertAllowed input.userId input.signedDate s = true := by
      intro s hs
      rw [upsertAllowed, howner f s hf hs, hsigned f hf s hs]
      simp
    obtain ⟨s, hmoved, hs⟩ := moved_upsert (repurchasedSubscription input) hallowed fun _ => rfl
    refine ⟨s, hmoved, ?_⟩
    rcases hs with rfl | ⟨existing, -, rfl⟩
    · exact ⟨rfl, rfl⟩
    · exact ⟨rfl, rfl⟩

/-- The earliest order so far. -/
theorem earliest_some {orders : List BillingOrderRecord} {best : Option BillingOrderRecord}
    (h : orders.foldl (fun best order => match best with
      | none => some order
      | some b => if order.createdAt < b.createdAt then some order else some b) best = some order) :
    best = some order ∨ order ∈ orders := by
  induction orders generalizing best order with
  | nil => exact Or.inl h
  | cons x orders ih =>
    rcases ih h with h | h
    · dsimp only at h
      split at h
      · cases h; exact Or.inr List.mem_cons_self
      · split at h
        · cases h; exact Or.inr List.mem_cons_self
        · exact Or.inl h
    · exact Or.inr (List.mem_cons_of_mem x h)

theorem earliest_ne_none {orders : List BillingOrderRecord} {best : BillingOrderRecord} :
    orders.foldl (fun best order => match best with
      | none => some order
      | some b => if order.createdAt < b.createdAt then some order else some b) (some best) ≠ none := by
  induction orders generalizing best with
  | nil => exact fun h => by cases h
  | cons x orders ih =>
    intro h
    rw [List.foldl_cons] at h
    dsimp only at h
    split at h
    · exact ih h
    · exact ih h

theorem findExistingOrder_some {t : Tables} {input : AppleIapPurchaseInput}
    (h : findExistingOrder t input = some order) : order ∈ t.billingOrders := by
  rcases earliest_some h with h | h
  · cases h
  · exact (List.mem_filter.mp h).1

theorem findExistingOrder_none {t : Tables} {input : AppleIapPurchaseInput}
    (h : findExistingOrder t input = none) : ∀ o ∈ t.billingOrders, o.provider = .appleIap →
      o.externalTransactionId ≠ some input.externalTransactionId := by
  intro o ho hp he
  have hmem : o ∈ t.billingOrders.rows.filter fun order =>
      order.idempotencyKey == input.idempotencyKey ||
        ofTransaction input.externalTransactionId order := by
    refine List.mem_filter.mpr ⟨ho, ?_⟩
    rw [ofTransaction_iff.mpr ⟨hp, he⟩, Bool.or_true]
  unfold findExistingOrder at h
  cases hrows : t.billingOrders.rows.filter fun order =>
      order.idempotencyKey == input.idempotencyKey ||
        ofTransaction input.externalTransactionId order with
  | nil => rw [hrows] at hmem; cases hmem
  | cons x orders => rw [hrows, List.foldl_cons] at h; exact earliest_ne_none h

/-! ### Repairs -/

theorem sameOrder_ensured (input : EnsureInput) (productId environment : String)
    (order : BillingOrderRecord) : SameOrder order (ensuredOrder input productId environment order) :=
  ⟨rfl, rfl, rfl, rfl, rfl, rfl⟩

theorem sameGrant_ensured {a : GrantId → Prop} (periodStartAt expiresDate : Option Timestamp)
    (grant : EntitlementGrantRecord) :
    SameGrant a grant (ensuredGrant periodStartAt expiresDate grant) := ⟨rfl, rfl, Or.inl⟩

/-- The updates of orders and grants leave the subscriptions. -/
theorem updateOrder_subscriptions (t : Tables) (id : BillingOrderId)
    (f : BillingOrderRecord → BillingOrderRecord) :
    (updateOrder t id f).appleSubscriptions = t.appleSubscriptions := by
  unfold updateOrder
  split
  · rfl
  · rfl

theorem updateGrant_subscriptions (t : Tables) (id : GrantId)
    (f : EntitlementGrantRecord → EntitlementGrantRecord) (p : EntitlementGrantRecord → Bool) :
    (updateGrant t id f p).appleSubscriptions = t.appleSubscriptions := by
  unfold updateGrant
  split
  · rfl
  · split
    · rfl
    · rfl

/-- An order of a family has its subscription already. -/
theorem ensure_subscriptions {input : EnsureInput} {t : Tables} (h : FamilyInv (ledger t))
    (ho : order ∈ t.billingOrders) (hok : postgresEnsureAppleSubscriptionForOrder now order input t = .ok t') :
    t'.appleSubscriptions = t.appleSubscriptions := by
  unfold postgresEnsureAppleSubscriptionForOrder at hok
  split at hok
  · rename_i f transactionId hf htx
    split at hok
    · rename_i productId environment _ _
      have hp : order.provider = .appleIap := by
        by_contra hp
        rw [h.foreign order ho hp] at hf
        cases hf
      obtain ⟨s, hs, -⟩ := h.subscribed f order ho (inFamily_iff.mpr ⟨hp, hf⟩)
      have hs : t.appleSubscriptions.get? f = some s := hs
      rw [← Except.ok.inj hok]
      dsimp only
      split
      · rw [updateOrder_subscriptions]
        exact Table.insert_of_mem (Table.mem_of_get? hs) (Table.key_of_get? hs)
      · rw [updateGrant_subscriptions, updateOrder_subscriptions]
        exact Table.insert_of_mem (Table.mem_of_get? hs) (Table.key_of_get? hs)
    · cases hok
  · cases hok
    rfl

theorem keeps_ensure {input : EnsureInput} {t : Tables} (h : FamilyInv (ledger t)) (ho : order ∈ t.billingOrders)
    (hok : postgresEnsureAppleSubscriptionForOrder now order input t = .ok t') : KeepsAll (ledger t) (ledger t') := by
  have hsubs := ensure_subscriptions h ho hok
  have hk : (ledger t).orders.Rewrites SameOrder (ledger t').orders ∧
      (ledger t).grants.Rewrites (SameGrant fun _ => False) (ledger t').grants ∧
      (ledger t).users.Rewrites SameUser (ledger t').users := by
    unfold postgresEnsureAppleSubscriptionForOrder at hok
    split at hok
    · split at hok
      · rename_i productId environment _ _
        rw [← Except.ok.inj hok]
        have hk1 : KeepsAll (ledger t) (ledger (updateOrder t order.id (ensuredOrder
            { input with expiresDate := input.expiresDate <|> order.periodEndAt } productId
            environment))) := keeps_updateOrder fun x => sameOrder_ensured _ _ _ x
        split
        · exact ⟨hk1.orders, hk1.grants, hk1.users⟩
        · rename_i grantId _
          have hk2 : KeepsAll (ledger (updateOrder t order.id (ensuredOrder
              { input with expiresDate := input.expiresDate <|> order.periodEndAt } productId
              environment))) (ledger (updateGrant (updateOrder t order.id (ensuredOrder
              { input with expiresDate := input.expiresDate <|> order.periodEndAt } productId
              environment)) grantId (ensuredGrant order.periodStartAt
                (input.expiresDate <|> order.periodEndAt)))) :=
            keeps_updateGrant fun x _ => sameGrant_ensured _ _ x
          have hk := hk1.trans hk2
          exact ⟨hk.orders, hk.grants, hk.users⟩
      · cases hok
    · cases hok
      have hk : KeepsAll (ledger t') (ledger t') := Keeps.refl _
      exact ⟨hk.orders, hk.grants, hk.users⟩
  refine ⟨hk.2.2, hk.1, hk.2.1, ?_⟩
  have hledger : (ledger t').subscriptions = (ledger t).subscriptions := hsubs
  rw [hledger]
  exact .refl SameSubscription.refl _

/-! ### Calls of purchases -/

/-- The subscription that a purchase which is taken finds. -/
def purchaseSubscription (t : Tables) (input : AppleIapPurchaseInput) :
    Option AppleSubscriptionRecord :=
  if (t.users.find? fun user => user.id == input.userId && user.active).isSome ∧
      tokenMatches t input.appAccountToken input.userId ∧ findExistingOrder t input = none then
    (input.originalTransactionId.bind t.appleSubscriptions.get?).filter fun s =>
      s.userId == input.userId && !purchaseStale t s input.externalTransactionId
        { expiresDate := input.periodEndAt
          periodStartDate := input.periodStartAt
          signedDate := input.signedDate }
  else none

/-- A purchase that is taken is not signed before the subscription. -/
def PurchaseInOrder (t : Tables) (input : AppleIapPurchaseInput) : Prop :=
  ∀ s ∈ purchaseSubscription t input, signedInOrder s.lastSignedDate input.signedDate = true

theorem familyInv_purchase {ids : PlanChangeIds} {input : AppleIapPurchaseInput} {t : Tables}
    {r : AppleIapPurchaseResult} (h : FamilyInv (ledger t)) (hids : FreshIn (ledger t) ids)
    (hsigned : PurchaseInOrder t input) (hok : purchaseTransaction now ids input t = .ok (r, t')) :
    FamilyInv (ledger t') := by
  unfold purchaseTransaction at hok
  split at hok
  · cases hok
  · rename_i user huser
    have hu := Table.of_find? huser
    simp only [Bool.and_eq_true, UserRecord.active, Option.isNone_iff_eq_none, beq_iff_eq] at hu
    have hget : t.users.get? input.userId = some user :=
      Table.get?_eq_some.mpr ⟨Table.mem_of_find? huser, hu.1⟩
    split at hok
    · cases hok
    · rename_i htoken
      split at hok
      · rename_i existing hexisting
        split at hok
        · cases hok
        · obtain ⟨t1, h1, hok⟩ := bind_eq_ok.mp hok
          cases hok
          exact h.keepsAll (keeps_ensure h (findExistingOrder_some hexisting) h1)
      · rename_i hnone
        dsimp only at hok
        split at hok
        · cases hok
        · rename_i howner
          have howner : ∀ f s, input.originalTransactionId = some f →
              t.appleSubscriptions.get? f = some s → s.userId = input.userId := by
            intro f s hf hs
            rw [hf, Option.bind_some, hs] at howner
            simpa using howner
          split at hok
          · split at hok
            · cases hok
            · cases hok
              exact h
          · rename_i hstale
            cases hok
            refine familyInv_takePurchase h hids hget hu.2 (findExistingOrder_none hnone) howner ?_
            intro f hf s hs
            refine hsigned s ?_
            rw [hf, Option.bind_some, hs] at hstale
            rw [purchaseSubscription, if_pos ⟨huser ▸ rfl, by simpa using htoken, hnone⟩, hf,
              Option.bind_some, hs, Option.mem_def, Option.filter_eq_some_iff]
            refine ⟨rfl, ?_⟩
            rw [howner f s hf hs]
            simpa [Option.filter_eq_none_iff] using hstale

/-! ### Renewals -/

/-- The subscriptions after a renewal that is taken. -/
def renewedSubscriptions (notificationUUID : String) (input : AppleIapNotificationInput) (r : Renewal)
    (user : UserRecord) (t : Tables) : Table AppleSubscriptionRecord :=
  let row := renewalSubscription notificationUUID input r user
  (upsertSubscription t row
    (fun existing => { movedSubscription row existing with isUpgraded := row.isUpgraded })
    (upsertAllowed user.id input.signedDate)).appleSubscriptions

theorem ledger_takeRenewal (now : Timestamp) (ids : PlanChangeIds) (notificationUUID : String)
    (input : AppleIapNotificationInput) (r : Renewal) (user : UserRecord) (t : Tables) :
    ledger (takeRenewal now ids notificationUUID input r user t) =
      { ledger ((supersedeFamilyOf t user.id user.plan (some r.family) r.transactionId
          now).2.updateUser user.id
          (purchasedUser now ids.order r.plan input.purchaseDate input.expiresDate) (·.active)) with
        orders := t.billingOrders.insert (renewalOrder now ids input r user)
        grants := (supersedeFamilyOf t user.id user.plan (some r.family) r.transactionId
          now).2.entitlementGrants.insert (renewalGrant now ids input r user
            (supersedeFamilyOf t user.id user.plan (some r.family) r.transactionId now).1)
        subscriptions := renewedSubscriptions notificationUUID input r user t } := by
  have h1 := supersede_rest t user.id user.plan (some r.family) r.transactionId now
  unfold takeRenewal
  set superseded := supersedeFamilyOf t user.id user.plan (some r.family) r.transactionId now
    with hsuperseded
  have he : postgresSupersedeAppleSubscriptionFamily t user.id r.family r.transactionId now =
    superseded := rfl
  rw [he]
  dsimp only
  have h2 := updateUser_rest superseded.2 user.id
    (purchasedUser now ids.order r.plan input.purchaseDate input.expiresDate) (·.active)
  set t2 := superseded.2.updateUser user.id
    (purchasedUser now ids.order r.plan input.purchaseDate input.expiresDate) (·.active) with ht2
  rw [ledger_insertAdjustment, ledger_upsert]
  refine AppleLedger.ext rfl ?_ ?_ ?_
  · exact congrArg (fun table => Table.insert table (renewalOrder now ids input r user))
      (h2.1.trans h1.2.1)
  · exact congrArg (fun table => Table.insert table (renewalGrant now ids input r user _)) h2.2.1
  · exact upsert_congr t
      { t2 with
        billingOrders := t2.billingOrders.insert (renewalOrder now ids input r user)
        entitlementGrants :=
          t2.entitlementGrants.insert (renewalGrant now ids input r user superseded.1) }
      (h2.2.2.trans h1.2.2) _ _ _

variable {input : AppleIapNotificationInput} {notificationUUID : String}

theorem familyInv_takeRenewal {ids : PlanChangeIds} {r : Renewal} {t : Tables} {user : UserRecord}
    (h : FamilyInv (ledger t)) (hids : FreshIn (ledger t) ids) (hmem : user ∈ t.users)
    (hlive : user.deletedAt = none)
    (hnew : ∀ o ∈ t.billingOrders, o.provider = .appleIap → o.externalTransactionId ≠ some r.transactionId)
    (howner : ∀ s, t.appleSubscriptions.get? r.family = some s → s.userId = user.id)
    (hsigned : ∀ s ∈ t.appleSubscriptions.get? r.family, signedInOrder s.lastSignedDate input.signedDate = true) :
    FamilyInv (ledger (takeRenewal now ids notificationUUID input r user t)) := by
  have hactive : user.active = true := by simp [UserRecord.active, hlive]
  rw [ledger_takeRenewal]
  refine familyInv_taken now user.plan (renewalOrder now ids input r user) _ _ _ _ h hids
    (sameUser_purchased now _ _ _ _) ⟨rfl, rfl, rfl, ?_, rfl⟩ ⟨rfl, rfl⟩ hnew
    ⟨user, Table.get?_key hmem, hlive⟩ ?_ (fun hf => by cases hf) ?_
  · rw [renewalOrder, if_pos hactive]
  · intro f s hf hs
    cases hf
    exact howner s hs
  · intro f hf
    cases hf
    have hallowed : ∀ s, t.appleSubscriptions.get?
        (renewalSubscription notificationUUID input r user).originalTransactionId = some s →
          upsertAllowed user.id input.signedDate s = true := by
      intro s hs
      rw [upsertAllowed, howner s hs, hsigned s hs]
      simp
    obtain ⟨s, hmoved, hs⟩ := moved_upsert (fun existing =>
      { movedSubscription (renewalSubscription notificationUUID input r user) existing with
        isUpgraded := (renewalSubscription notificationUUID input r user).isUpgraded })
      hallowed fun _ => rfl
    refine ⟨s, hmoved, ?_⟩
    rcases hs with rfl | ⟨existing, hget, rfl⟩
    · exact ⟨rfl, rfl⟩
    · exact ⟨howner existing hget, rfl⟩

/-- The family of a deleted account has no active grant, so its order may join. -/
theorem familyInv_retainRenewal {ids : PlanChangeIds} {r : Renewal} {t : Tables} {user : UserRecord}
    (h : FamilyInv (ledger t)) (hids : FreshIn (ledger t) ids) (hmem : user ∈ t.users)
    (hdeleted : user.deletedAt.isSome)
    (hnew : ∀ o ∈ t.billingOrders, o.provider = .appleIap → o.externalTransactionId ≠ some r.transactionId)
    (howner : ∀ s, t.appleSubscriptions.get? r.family = some s → s.userId = user.id) :
    FamilyInv (ledger (retainRenewal now ids notificationUUID input r user t)) := by
  set order := renewalOrder now ids input r user with horder
  have hnone : order.entitlementGrantId = none := by
    have : user.active = false := by
      rw [UserRecord.active, Option.isNone_eq_false_iff]; exact hdeleted
    rw [horder, renewalOrder, if_neg (by simp [this])]
  set row := renewalSubscription notificationUUID input r user with hrow
  obtain ⟨s, hmoved, hs⟩ := @moved_upsert t row (fun _ => true) (movedSubscription row)
    (fun _ _ => rfl) fun _ => rfl
  have hs : s.userId = user.id ∧ s.currentTransactionId = r.transactionId := by
    rcases hs with rfl | ⟨existing, hget, rfl⟩
    · exact ⟨rfl, rfl⟩
    · exact ⟨howner existing hget, rfl⟩
  have hidle : Idle (ledger t) r.family := by
    intro o ho grant hg hf hp _
    obtain ⟨sub, hsub, hsubUser⟩ := h.subscribed r.family o ho hf
    obtain ⟨u, hu, hlive⟩ := h.owners r.family o ho hf (by rw [hp]; exact Option.some_ne_none _)
    rw [← hsubUser, howner sub hsub] at hu
    have hself : t.users.get? user.id = some user := Table.get?_key hmem
    have hu : some u = some user := hu.symm.trans hself
    cases hu
    rw [hlive] at hdeleted
    cases hdeleted
  have ha : Addable (ledger t) order
      (upsertSubscription t row (movedSubscription row) fun _ => true).appleSubscriptions :=
    { fresh := hids.order
      provider := rfl
      identified := rfl
      new := hnew
      unlinked := fun g hg => ⟨by rw [hnone]; exact (Option.some_ne_none _).symm, hids.billing g hg⟩
      owner := fun hne => absurd hnone hne
      alone := fun hf => by cases hf
      joins := fun f hf => by
        cases hf
        exact ⟨hidle, howner, s, hmoved, hs.1, by rw [hs.2]; rfl⟩ }
  have hinv := h.addOrder ha
  unfold retainRenewal
  dsimp only
  rw [ledger_upsert]
  have hsubs : (upsertSubscription { t with billingOrders := t.billingOrders.insert order } row
      (movedSubscription row) fun _ => true).appleSubscriptions =
      (upsertSubscription t row (movedSubscription row) fun _ => true).appleSubscriptions :=
    upsert_congr t { t with billingOrders := t.billingOrders.insert order } rfl _ _ _
  rw [hsubs]
  exact hinv

/-- The subscription that a renewal which is taken for an account that is not deleted finds. -/
def renewalTarget (t : Tables) (input : AppleIapNotificationInput)
    (transactionId f : TransactionId) : Option AppleSubscriptionRecord :=
  (t.appleSubscriptions.get? f).filter fun s =>
    !purchaseStale t s transactionId
      { expiresDate := input.expiresDate
        periodStartDate := input.purchaseDate
        signedDate := input.signedDate } &&
    input.productId.isSome &&
    input.idempotencyKey.any (fun key => (t.billingOrders.find? (·.idempotencyKey == key)).isNone) &&
    (t.users.get? s.userId).any (·.active)

/-- A renewal that is taken is not signed before the subscription. -/
def RenewalInOrder (t : Tables) (input : AppleIapNotificationInput) (transactionId : TransactionId) :
    Prop :=
  findAppleOrder t transactionId = none → ∀ f ∈ input.originalTransactionId,
    ∀ s ∈ renewalTarget t input transactionId f,
      signedInOrder s.lastSignedDate input.signedDate = true

variable {r : NotificationOutcome}

theorem familyInv_renewExisting {t : Tables} (h : FamilyInv (ledger t)) (ho : order ∈ t.billingOrders)
    (hok : renewExisting now notificationUUID input order t = .ok (r, t')) : FamilyInv (ledger t') := by
  unfold renewExisting at hok
  split at hok
  · cases hok
  · obtain ⟨t1, h1, hok⟩ := bind_eq_ok.mp hok
    have he : _ = t' := congrArg Prod.snd (Except.ok.inj hok)
    have hk := keeps_ensure h ho h1
    rw [← he]
    dsimp only
    split
    · exact h.keepsAll hk
    · exact h.keepsAll (hk.trans (keeps_updateSubscription fun _ => ⟨rfl, rfl, rfl⟩))

theorem familyInv_renewNew {ids : PlanChangeIds} {f : TransactionId} {t : Tables} (h : FamilyInv (ledger t))
    (hids : FreshIn (ledger t) ids) (hnone : findAppleOrder t transactionId = none)
    (hsigned : ∀ s ∈ renewalTarget t input transactionId f, signedInOrder s.lastSignedDate input.signedDate = true)
    (hok : renewNew now ids notificationUUID input transactionId f t = .ok (r, t')) : FamilyInv (ledger t') := by
  unfold renewNew at hok
  dsimp only at hok
  split at hok
  · split at hok
    · cases hok
      exact h
    · cases hok
  · rename_i hstale
    split at hok
    · rename_i plan productId key _ hproduct hkey
      split at hok
      · cases hok
      · rename_i ownerUserId _
        split at hok
        · cases hok
        · rename_i howner
          split at hok
          · cases hok
          · rename_i user huser
            have hid : user.id = ownerUserId := Table.key_of_get? huser
            have hmem : user ∈ t.users := Table.mem_of_get? huser
            have howner : ∀ s, t.appleSubscriptions.get? f = some s → s.userId = user.id := by
              intro s hs
              rw [hs] at howner
              rw [hid]
              simpa using howner
            split at hok
            · rename_i hdeleted
              cases hok
              exact familyInv_retainRenewal h hids hmem hdeleted (findAppleOrder_none hnone) howner
            · rename_i hlive
              have hlive : user.deletedAt = none := by simpa using hlive
              split at hok
              · cases hok
                exact h
              · rename_i hfree
                cases hok
                refine familyInv_takeRenewal h hids hmem hlive (findAppleOrder_none hnone) howner ?_
                intro s hs
                have hs : t.appleSubscriptions.get? f = some s := hs
                refine hsigned s ?_
                rw [hs] at hstale
                rw [renewalTarget, hs, Option.mem_def, Option.filter_eq_some_iff]
                refine ⟨rfl, ?_⟩
                have hself : t.users.get? user.id = some user := Table.get?_key hmem
                rw [howner s hs, hself, hproduct, hkey]
                simpa [UserRecord.active, hlive, hfree] using hstale
    · cases hok

theorem familyInv_renewal {ids : PlanChangeIds} {t : Tables} (h : FamilyInv (ledger t))
    (hids : FreshIn (ledger t) ids) (hsigned : RenewalInOrder t input transactionId)
    (hok : applyRenewal now ids notificationUUID input transactionId t = .ok (r, t')) : FamilyInv (ledger t') := by
  unfold applyRenewal at hok
  split at hok
  · rename_i order horder
    exact familyInv_renewExisting h (findAppleOrder_some horder).1 hok
  · rename_i hnone
    split at hok
    · cases hok
    · rename_i f hf
      exact familyInv_renewNew h hids hnone (hsigned hnone f hf) hok

/-! ### Lifecycle notifications -/

theorem get?_updateGrant {t : Tables} {id gid : GrantId}
    {f : EntitlementGrantRecord → EntitlementGrantRecord} {p : EntitlementGrantRecord → Bool}
    {y : EntitlementGrantRecord} (h : (updateGrant t id f p).entitlementGrants.get? gid = some y)
    (hf : ∀ x, (f x).id = x.id) :
    ∃ x, t.entitlementGrants.get? gid = some x ∧
      (y = x ∧ (gid = id → p x = false) ∨ gid = id ∧ p x = true ∧ y = f x) := by
  unfold updateGrant at h
  split at h
  · rename_i hnone
    refine ⟨y, h, Or.inl ⟨rfl, fun he => ?_⟩⟩
    rw [he, hnone] at h
    cases h
  · rename_i x hx
    have hxid : x.id = id := Table.key_of_get? hx
    split at h
    · rename_i hp
      have hkey : HasKey.key (f x) = id := (hf x).trans hxid
      by_cases he : gid = id
      · have hx' : t.entitlementGrants.get? (HasKey.key (f x)) = some x := by rw [hkey]; exact hx
        have hself := Table.get?_replace_self hx'
        rw [hkey, ← he] at hself
        exact ⟨x, he ▸ hx, Or.inr ⟨he, hp, Option.some.inj (h.symm.trans hself)⟩⟩
      · have hne : HasKey.key (f x) ≠ gid := fun h => he (h.symm.trans hkey)
        have hother : (t.entitlementGrants.replace (f x)).get? gid = some y := h
        rw [Table.get?_replace_of_ne hne] at hother
        exact ⟨y, hother, Or.inl ⟨rfl, fun h => absurd h he⟩⟩
    · rename_i hp
      refine ⟨y, h, Or.inl ⟨rfl, fun he => ?_⟩⟩
      have hxy : some y = some x := by rw [← h, he, ← hx]
      cases hxy
      simpa using hp

theorem ensure_grant {input : EnsureInput} {t : Tables} {gid : GrantId} {y : EntitlementGrantRecord}
    (hok : postgresEnsureAppleSubscriptionForOrder now order input t = .ok t')
    (h : t'.entitlementGrants.get? gid = some y) :
    ∃ x, t.entitlementGrants.get? gid = some x ∧ y.status = x.status ∧
      y.statusReason = x.statusReason := by
  have horders : ∀ (id : BillingOrderId) f, (updateOrder t id f).entitlementGrants =
      t.entitlementGrants := by
    intro id f
    unfold updateOrder
    split
    · rfl
    · rfl
  unfold postgresEnsureAppleSubscriptionForOrder at hok
  split at hok
  · split at hok
    · have he : _ = t' := Except.ok.inj hok
      rw [← he] at h
      dsimp only at h
      split at h
      · rw [horders] at h
        exact ⟨y, h, rfl, rfl⟩
      · obtain ⟨x, hx, hxy⟩ := get?_updateGrant h fun _ => rfl
        rw [horders] at hx
        refine ⟨x, hx, ?_⟩
        rcases hxy with ⟨rfl, -⟩ | ⟨-, -, rfl⟩
        · exact ⟨rfl, rfl⟩
        · exact ⟨rfl, rfl⟩
    · cases hok
  · cases hok
    exact ⟨y, h, rfl, rfl⟩

/-- The reason of a grant after the period was extended. -/
def extendedReason (input : AppleIapNotificationInput) (grant : EntitlementGrantRecord) :
    Option String :=
  if input.action = .extended then some input.reason else grant.statusReason

theorem extendPeriod_grant {user : UserRecord} {t : Tables} {gid : GrantId} {y : EntitlementGrantRecord}
    (hgid : order.entitlementGrantId = some gid) (huntil : recoveryUntil input ≠ none)
    (h : (extendPeriod now input order user t).entitlementGrants.get? gid = some y) :
    ∃ x, t.entitlementGrants.get? gid = some x ∧ y.status = x.status ∧
      y.statusReason = extendedReason input x := by
  unfold extendPeriod at h
  split at h
  · rename_i haction
    exact ⟨y, h, rfl, by rw [extendedReason, if_neg haction]⟩
  · rename_i haction
    have haction : input.action = .extended := by simpa using haction
    split at h
    · rename_i hnone
      rw [recoveryUntil, haction] at huntil
      exact absurd hnone huntil
    · rename_i expiresDate hexpires
      rw [hgid] at h
      dsimp only at h
      have h : (updateGrant (updateOrder t order.id fun row => { row with
          periodEndAt := some expiresDate
          statusReason := some input.reason
          statusUpdatedAt := some now }) gid fun grant => { grant with
          expiresAt := some expiresDate
          statusReason := some input.reason
          statusUpdatedAt := some now }).entitlementGrants.get? gid = some y := by
        split at h
        · rw [(updateUser_rest _ _ _ _).2.1] at h
          exact h
        · exact h
      obtain ⟨x, hx, hxy⟩ := get?_updateGrant h fun _ => rfl
      have hx : t.entitlementGrants.get? gid = some x := by
        unfold updateOrder at hx
        split at hx
        · exact hx
        · exact hx
      refine ⟨x, hx, ?_⟩
      rcases hxy with ⟨-, hp⟩ | ⟨-, -, rfl⟩
      · cases hp rfl
      · exact ⟨rfl, by rw [extendedReason, if_pos haction]⟩

/-- The order whose grant a lifecycle notification brings back. -/
def recoveredOrder (now : Timestamp) (t : Tables) (input : AppleIapNotificationInput) :
    Option BillingOrderRecord :=
  (input.transactionId.bind (lifecycleOrder t input)).filter fun order =>
    (t.users.get? order.userId).any (·.active) &&
    ((input.originalTransactionId <|> order.originalTransactionId).bind
      t.appleSubscriptions.get?).any (fun s => signedInOrder s.lastSignedDate input.signedDate) &&
    (recoveryUntil input).any (fun until_ => decide (now < until_)) &&
    (order.entitlementGrantId.bind t.entitlementGrants.get?).any fun grant =>
      grant.status == .revoked &&
        extendedReason input grant == some APPLE_EXPIRY_RECONCILIATION_REASON

/-- A lifecycle notification brings back only the grant of a current transaction. -/
def RecoveryOfCurrent (now : Timestamp) (t : Tables) (input : AppleIapNotificationInput) : Prop :=
  ∀ order ∈ recoveredOrder now t input, ∀ f ∈ order.originalTransactionId,
    Current (ledger t) f order

theorem lifecycleOrder_mem {t : Tables} (h : lifecycleOrder t input transactionId = some order) :
    order ∈ t.billingOrders ∧ order.provider = .appleIap := by
  have hnewest : ∀ (p : BillingOrderRecord → Bool) f, newestOrder
      ((t.billingOrders.rows.filter (inFamily f)).filter p) = some order →
        order ∈ t.billingOrders ∧ order.provider = .appleIap := by
    intro p f h
    have hm := (List.mem_filter.mp (mem_of_newest h)).1
    exact ⟨(List.mem_filter.mp hm).1, (inFamily_iff.mp (List.mem_filter.mp hm).2).1⟩
  have hfamily : ∀ f, newestOrder (t.billingOrders.rows.filter (inFamily f)) = some order →
      order ∈ t.billingOrders ∧ order.provider = .appleIap := by
    intro f h
    have hm := List.mem_filter.mp (mem_of_newest h)
    exact ⟨hm.1, (inFamily_iff.mp hm.2).1⟩
  unfold lifecycleOrder at h
  split at h
  · have ho := findAppleOrder_some h
    exact ⟨ho.1, ho.2.1⟩
  · rename_i f hf
    dsimp only at h
    split at h
    · exact hfamily f h
    · simp only [Option.orElse_eq_orElse, Option.orElse_eq_or, Option.or_eq_some_iff] at h
      rcases h with h | ⟨-, h | ⟨-, h⟩⟩
      · exact hnewest _ f h
      · exact hnewest _ f h
      · exact hfamily f h

theorem keeps_extendGrant {a : GrantId → Prop} (now expiresDate : Timestamp) (input : AppleIapNotificationInput)
    (order : BillingOrderRecord) (t : Tables) :
    Keeps a (ledger t) (ledger (match order.entitlementGrantId with
      | none => t
      | some grantId => updateGrant t grantId fun grant => { grant with
          expiresAt := some expiresDate
          statusReason := some input.reason
          statusUpdatedAt := some now })) := by
  split
  · exact Keeps.refl _
  · exact keeps_updateGrant fun _ _ => ⟨rfl, rfl, Or.inl⟩

theorem keeps_extendPeriod {a : GrantId → Prop} (now : Timestamp) (input : AppleIapNotificationInput)
    (order : BillingOrderRecord) (user : UserRecord) (t : Tables) :
    Keeps a (ledger t) (ledger (extendPeriod now input order user t)) := by
  unfold extendPeriod
  split
  · exact Keeps.refl _
  · split
    · exact Keeps.refl _
    · rename_i expiresDate _
      dsimp only
      set t1 := updateOrder t order.id fun row => { row with
        periodEndAt := some expiresDate
        statusReason := some input.reason
        statusUpdatedAt := some now } with ht1
      have hk1 : Keeps a (ledger t) (ledger t1) :=
        keeps_updateOrder fun _ => ⟨rfl, rfl, rfl, rfl, rfl, rfl⟩
      have hk2 := @keeps_extendGrant a now expiresDate input order t1
      split
      · exact (hk1.trans hk2).trans (keeps_updateUser fun _ => ⟨rfl, rfl⟩)
      · exact hk1.trans hk2

/-- A grant that is brought back is that of the order. -/
theorem keeps_recover (now : Timestamp) (input : AppleIapNotificationInput)
    (order : BillingOrderRecord) (user : UserRecord) (t : Tables) :
    Keeps (fun id => order.entitlementGrantId = some id) (ledger t)
      (ledger (recover now input order user t)) := by
  unfold recover
  split
  · exact Keeps.refl _
  · split
    · rename_i grant until_ hgrant _
      split
      · obtain ⟨gid, hgid, hget⟩ := Option.bind_eq_some_iff.mp hgrant
        have hid : order.entitlementGrantId = some grant.id := by
          rw [hgid, ← Table.key_of_get? hget]; rfl
        have hk : Keeps (fun id => order.entitlementGrantId = some id) (ledger t)
            (ledger (updateGrant t grant.id (recoveredGrant now input))) :=
          keeps_updateGrant fun x hx => ⟨rfl, rfl, fun _ => Or.inr (hx ▸ hid)⟩
        exact hk.trans (keeps_updateUser fun _ => ⟨rfl, rfl⟩)
      · exact Keeps.refl _
    · exact Keeps.refl _

/-- The grant that is brought back. -/
theorem recover_cases (now : Timestamp) (input : AppleIapNotificationInput)
    (order : BillingOrderRecord) (user : UserRecord) (t : Tables) :
    recover now input order user t = t ∨ user.active = true ∧ ∃ gid grant until_,
      order.entitlementGrantId = some gid ∧ t.entitlementGrants.get? gid = some grant ∧
      recoveryUntil input = some until_ ∧ now < until_ ∧ expiredByRefresh grant = true := by
  unfold recover
  split
  · exact Or.inl rfl
  · rename_i hactive
    split
    · rename_i grant until_ hgrant huntil
      split
      · rename_i hrecover
        obtain ⟨gid, hgid, hget⟩ := Option.bind_eq_some_iff.mp hgrant
        exact Or.inr ⟨by simpa using hactive, gid, grant, until_, hgid, hget, huntil, hrecover⟩
      · exact Or.inl rfl
    · exact Or.inl rfl

theorem familyInv_lifecycle {t : Tables} (h : FamilyInv (ledger t)) (htx : input.transactionId = some transactionId)
    (hrecovered : RecoveryOfCurrent now t input)
    (hok : applyLifecycle now notificationUUID input transactionId t = .ok (r, t')) : FamilyInv (ledger t') := by
  unfold applyLifecycle at hok
  split at hok
  · cases hok
  · rename_i order horder
    obtain ⟨ho, hp⟩ := lifecycleOrder_mem horder
    split at hok
    · cases hok
    · rename_i user huser
      obtain ⟨t1, h1, hok⟩ := bind_eq_ok.mp hok
      have hk1 := keeps_ensure h ho h1
      dsimp only at hok
      split at hok
      · cases hok
        exact h.keepsAll hk1
      · rename_i s hs
        have he : _ = t' := congrArg Prod.snd (Except.ok.inj hok)
        rw [← he]
        dsimp only
        obtain ⟨hsub, hsigned⟩ := Option.filter_eq_some_iff.mp hs
        obtain ⟨f, hf, hget⟩ := Option.bind_eq_some_iff.mp hsub
        set t2 : Tables := { t1 with
          appleSubscriptions :=
            t1.appleSubscriptions.replace (lifecycleSubscription input notificationUUID s) } with ht2
        have hk2 : KeepsAll (ledger t1) (ledger t2) := by
          refine { Keeps.refl (a := fun _ => False) (ledger t1) with subscriptions := ?_ }
          exact Table.rewrites_replace_mem SameSubscription.refl (Table.mem_of_get? hget) rfl
            ⟨rfl, rfl, rfl⟩
        set t3 := extendPeriod now input order user t2 with ht3
        have hk3 : KeepsAll (ledger t2) (ledger t3) := keeps_extendPeriod now input order user t2
        have hk := (hk1.trans hk2).trans hk3
        rcases recover_cases now input order user t3 with hsame |
          ⟨hactive, gid, grant, until_, hgid, hgrant, huntil, hnow, hexpired⟩
        · rw [hsame]
          exact h.keepsAll hk
        · have hcur : ∀ f ∈ order.originalTransactionId, Current (ledger t) f order := by
            refine hrecovered order ?_
            obtain ⟨x2, hx2, hstatus2, hreason2⟩ :=
              extendPeriod_grant hgid (huntil ▸ Option.some_ne_none _) hgrant
            obtain ⟨x, hx, hstatus, hreason⟩ := ensure_grant h1 hx2
            rw [ensure_subscriptions h ho h1] at hsub
            have huser' : t.users.get? order.userId = some user := huser
            rw [recoveredOrder, htx, Option.bind_some, horder, Option.mem_def,
              Option.filter_eq_some_iff]
            refine ⟨rfl, ?_⟩
            rw [huser', hsub, huntil, hgid, Option.bind_some, hx]
            simp only [expiredByRefresh, Bool.and_eq_true, beq_iff_eq] at hexpired
            have hrevoked : x.status = .revoked := by rw [← hstatus, ← hstatus2, hexpired.1]
            have hwhy : extendedReason input x = some APPLE_EXPIRY_RECONCILIATION_REASON := by
              rw [← hexpired.2, hreason2, extendedReason, extendedReason, hreason]
            simp [hactive, hsigned, hnow, hrevoked, hwhy]
          obtain ⟨o3, ho3, hoo⟩ := hk.orders.new ho
          have hrecover := keeps_recover now input order user t3
          rw [← hoo.entitlementGrantId] at hrecover
          refine (h.keepsAll hk).keepsActivating ho3 (hoo.provider.trans hp) ?_ hrecover
          intro f hf
          rw [hoo.originalTransactionId] at hf
          exact hk.current hoo (hcur f hf)

/-! ### Refunds, revocations and reversals -/

theorem keeps_noteSignature {a : GrantId → Prop} (notificationUUID : String)
    (input : AppleIapNotificationInput) (order : BillingOrderRecord) (t : Tables) :
    Keeps a (ledger t) (ledger (noteSignature notificationUUID input order t)) := by
  unfold noteSignature
  dsimp only
  have hk : Keeps a (ledger t) (ledger (updateOrder t order.id fun row => { row with
      statusSignedDate := input.signedDate <|> row.statusSignedDate })) :=
    keeps_updateOrder fun _ => ⟨rfl, rfl, rfl, rfl, rfl, rfl⟩
  split
  · exact hk
  · exact hk.trans (keeps_updateSubscription fun _ => ⟨rfl, rfl, rfl⟩)

theorem noteSignature_rest (notificationUUID : String) (input : AppleIapNotificationInput)
    (order : BillingOrderRecord) (t : Tables) :
    (noteSignature notificationUUID input order t).entitlementGrants = t.entitlementGrants := by
  have horders : ∀ (id : BillingOrderId) f, (updateOrder t id f).entitlementGrants =
      t.entitlementGrants := by
    intro id f
    unfold updateOrder
    split
    · rfl
    · rfl
  have hsubs : ∀ (t : Tables) f g p, (updateSubscription t f g p).entitlementGrants =
      t.entitlementGrants := by
    intro t f g p
    unfold updateSubscription
    split
    · rfl
    · split
      · rfl
      · rfl
  unfold noteSignature
  dsimp only
  split
  · exact horders _ _
  · exact (hsubs _ _ _ _).trans (horders _ _)

theorem sameSubscription_changed (notificationUUID : String) (input : AppleIapNotificationInput)
    (s : AppleSubscriptionRecord) :
    SameSubscription s (changedSubscription notificationUUID input s) := ⟨rfl, rfl, rfl⟩

theorem sameOrder_status (now : Timestamp) (status : BillingOrderStatus) (reason : String)
    (order : BillingOrderRecord) : SameOrder order (setOrderStatus now status reason order) :=
  ⟨rfl, rfl, rfl, rfl, rfl, rfl⟩

theorem keeps_applyToDeleted {a : GrantId → Prop} (now : Timestamp) (notificationUUID : String)
    (input : AppleIapNotificationInput) (order : BillingOrderRecord)
    (grant : Option EntitlementGrantRecord) (t : Tables) :
    Keeps a (ledger t) (ledger (applyToDeleted now notificationUUID input order grant t)) := by
  unfold applyToDeleted
  dsimp only
  split
  · exact (keeps_updateOrder fun x => sameOrder_status _ _ _ x).trans
      (keeps_updateFamily fun s => sameSubscription_changed _ _ s)
  · rename_i grant
    have hgrant : Keeps a (ledger t) (ledger (updateGrant t grant.id (setGrantStatus now
        (if input.action = .refunded then .refunded else .revoked)
        (input.reason ++ "; account already deleted")))) := by
      refine keeps_updateGrant fun x _ => ⟨rfl, rfl, fun h => ?_⟩
      unfold setGrantStatus at h
      dsimp only at h
      split at h
      · cases h
      · cases h
    exact hgrant.trans ((keeps_updateOrder fun x => sameOrder_status _ _ _ x).trans
      (keeps_updateFamily fun s => sameSubscription_changed _ _ s))

/-- The order whose inactive grant a reversed refund makes active again. -/
def reactivatedOrder (t : Tables) (input : AppleIapNotificationInput) :
    Option BillingOrderRecord :=
  (input.transactionId.bind (findAppleOrder t)).filter fun order =>
    decide (input.action = .restored) && !statusChangeStale t input order &&
    (t.users.get? order.userId).any (·.active) &&
    (order.entitlementGrantId.bind t.entitlementGrants.get?).any (·.status != .active) &&
    !hasActiveFamilyGrant t order

/-- A reversed refund makes only the grant of a current transaction active again. -/
def ReversalOfCurrent (t : Tables) (input : AppleIapNotificationInput) : Prop :=
  ∀ order ∈ reactivatedOrder t input, ∀ f ∈ order.originalTransactionId,
    Current (ledger t) f order

/-- A grant of the family that was active before the signature was noted is active after it. -/
theorem hasActiveFamilyGrant_noted {t : Tables} (h : hasActiveFamilyGrant t order = true) :
    hasActiveFamilyGrant (noteSignature notificationUUID input order t) order = true := by
  have hk : KeepsAll (ledger t) (ledger (noteSignature notificationUUID input order t)) :=
    keeps_noteSignature _ _ _ _
  unfold hasActiveFamilyGrant at h ⊢
  split
  · rename_i hf
    rw [hf] at h
    cases h
  · rename_i f hf
    rw [hf] at h
    obtain ⟨grant, hg, hactive⟩ := List.any_eq_true.mp h
    refine List.any_eq_true.mpr ⟨grant, by rw [noteSignature_rest]; exact hg, ?_⟩
    simp only [activeGrantOf, Bool.and_eq_true, Option.any_eq_true] at hactive ⊢
    obtain ⟨hstatus, other, hother, hfamily, hne⟩ := hactive
    obtain ⟨hom, hlink⟩ := orderOfGrant_some hother
    obtain ⟨other', hom', hoo⟩ := hk.orders.new hom
    refine ⟨hstatus, other', orderOfGrant_eq hom' (by rw [hlink, hoo.id]), ?_, ?_⟩
    · rw [hoo.inFamily]; exact hfamily
    · rw [hoo.id]; exact hne

theorem sameGrant_reactivated {a : GrantId → Prop} (now : Timestamp) (input : AppleIapNotificationInput)
    (previousPlan : BillingPlanId) (h : a grant.id) :
    SameGrant a grant (reactivatedGrant now input previousPlan grant) :=
  ⟨rfl, rfl, fun _ => Or.inr h⟩

theorem keeps_reactivate (now : Timestamp) (usageId : UsageEventId) (notificationUUID : String)
    (input : AppleIapNotificationInput) (transactionId : TransactionId) (user : UserRecord) (t : Tables)
    (hgrant : order.entitlementGrantId = some grant.id) :
    Keeps (fun id => order.entitlementGrantId = some id) (ledger t)
      (ledger (reactivate now usageId notificationUUID input transactionId order grant user t)) := by
  unfold reactivate
  dsimp only
  rw [ledger_insertAdjustment]
  set superseded := supersedeFamilyOf t user.id user.plan order.originalTransactionId
    (order.externalTransactionId.getD transactionId) now with hsuperseded
  set t1 := updateGrant superseded.2 grant.id (reactivatedGrant now input superseded.1) with ht1
  have h1 : Keeps (fun id => order.entitlementGrantId = some id) (ledger t) (ledger superseded.2) :=
    keeps_supersedeFamilyOf t _ _ _ _ now
  have h2 : Keeps (fun id => order.entitlementGrantId = some id) (ledger superseded.2)
      (ledger t1) := keeps_updateGrant fun x hx => sameGrant_reactivated now input _ (hx ▸ hgrant)
  refine Keeps.trans ?_ (keeps_updateUser fun _ => ⟨rfl, rfl⟩)
  refine Keeps.trans ?_ (keeps_updateFamily fun s => sameSubscription_changed _ _ s)
  exact Keeps.trans (h1.trans h2) (keeps_updateOrder fun x => sameOrder_status _ _ _ x)

theorem familyInv_restored {usageId : UsageEventId} {user : UserRecord} {t : Tables} (h : FamilyInv (ledger t))
    (ho : order ∈ t.billingOrders) (hp : order.provider = .appleIap) (hg : grant ∈ t.entitlementGrants)
    (hgrant : order.entitlementGrantId = some grant.id)
    (hcur : hasActiveFamilyGrant t order = false → grant.status ≠ .active →
      ∀ f ∈ order.originalTransactionId, Current (ledger t) f order) {noted : Tables}
    (hnoted : noted = noteSignature notificationUUID input order t) :
    FamilyInv (ledger (applyRestored now usageId notificationUUID input transactionId order grant user
      noted).2) := by
  have hk : KeepsAll (ledger t) (ledger noted) := hnoted ▸ keeps_noteSignature _ _ _ _
  unfold applyRestored
  split
  · dsimp only
    split
    · exact h.keepsAll hk
    · exact h.keepsAll (hk.trans (keeps_updateSubscription fun _ => ⟨rfl, rfl, rfl⟩))
  · split
    · dsimp only
      refine h.keepsAll (Keeps.trans ?_ (keeps_updateOrder fun x => sameOrder_status _ _ _ x))
      refine Keeps.trans hk (keeps_updateGrant fun x _ => ⟨rfl, rfl, fun hactive => ?_⟩)
      unfold setGrantStatus at hactive
      dsimp only at hactive
      split at hactive
      · cases hactive
      · exact Or.inl hactive
    · rename_i hidle
      have hidle0 : hasActiveFamilyGrant t order = false := by
        by_contra hne
        refine hidle ?_
        rw [hnoted]
        exact hasActiveFamilyGrant_noted (by simpa using hne)
      have hcur' : ∀ f ∈ order.originalTransactionId, Current (ledger t) f order := by
        intro f hf
        by_cases hactive : grant.status = .active
        · exact h.pointed f order ho grant hg (inFamily_iff.mpr ⟨hp, hf⟩) hgrant hactive
        · exact hcur hidle0 hactive f hf
      exact h.keepsActivating ho hp hcur' ((hk.mono fun _ ha => ha.elim).trans
        (keeps_reactivate now usageId notificationUUID input transactionId user noted hgrant))

theorem keeps_revoked {a : GrantId → Prop} (now : Timestamp) (usageId : UsageEventId)
    (notificationUUID : String) (input : AppleIapNotificationInput) (order : BillingOrderRecord)
    (grant : EntitlementGrantRecord) (user : UserRecord) (t : Tables) :
    Keeps a (ledger t)
      (ledger (applyRevoked now usageId notificationUUID input order grant user t).2) := by
  have hfamily : Keeps a (ledger t) (ledger (revokeFamily now input order grant t)) := by
    refine { Keeps.refl (a := a) (ledger t) with grants := ?_ }
    refine Table.rewrites_updateWhere (familyRevoked_key now _ _) SameGrant.refl fun x _ _ => ?_
    refine ⟨rfl, rfl, fun h => ?_⟩
    unfold setGrantStatus at h
    dsimp only at h
    split at h
    · cases h
    · cases h
  have huser : ∀ (plan : BillingPlanId) (x : UserRecord), SameUser x (fallenBackUser plan x) := by
    intro plan x
    unfold fallenBackUser
    split
    · exact ⟨rfl, rfl⟩
    · exact ⟨rfl, rfl⟩
  unfold applyRevoked
  dsimp only
  split
  · split
    · rw [ledger_insertAdjustment]
      exact keeps_updateOrder fun x => sameOrder_status _ _ _ x
    · exact Keeps.refl _
  · rw [ledger_insertAdjustment]
    refine Keeps.trans ?_ (keeps_updateUser fun x => huser _ x)
    refine Keeps.trans ?_ (keeps_updateFamily fun s => sameSubscription_changed _ _ s)
    exact hfamily.trans (keeps_updateOrder fun x => sameOrder_status _ _ _ x)

theorem familyInv_statusChange {usageId : UsageEventId} {t : Tables} (h : FamilyInv (ledger t))
    (htx : input.transactionId = some transactionId) (hreversal : ReversalOfCurrent t input)
    (hok : applyStatusChange now usageId notificationUUID input transactionId t = .ok (r, t')) :
    FamilyInv (ledger t') := by
  unfold applyStatusChange at hok
  split at hok
  · cases hok
  · rename_i order horder
    obtain ⟨ho, hp, -⟩ := findAppleOrder_some horder
    split at hok
    · cases hok
    · rename_i user huser
      dsimp only at hok
      split at hok
      · cases hok
        exact h
      · rename_i hstale
        set noted := noteSignature notificationUUID input order t with hnoted
        have hk : KeepsAll (ledger t) (ledger noted) := keeps_noteSignature _ _ _ _
        split at hok
        · split at hok
          · cases hok
            exact h.keepsAll (hk.trans (keeps_applyToDeleted _ _ _ _ _ _))
          · cases hok
        · rename_i grant hgrant
          split at hok
          · cases hok
            exact h.keepsAll (hk.trans (keeps_applyToDeleted _ _ _ _ _ _))
          · rename_i hlive
            obtain ⟨gid, hgid, hget⟩ := Option.bind_eq_some_iff.mp hgrant
            have hid : order.entitlementGrantId = some grant.id := by
              rw [hgid, ← Table.key_of_get? hget]; rfl
            have he : _ = t' := congrArg Prod.snd (Except.ok.inj hok)
            rw [← he]
            dsimp only
            split
            · rename_i haction
              refine familyInv_restored h ho hp (Table.mem_of_get? hget) hid ?_ hnoted
              intro hidle hinactive
              refine hreversal order ?_
              have hactive : user.active = true := by
                rw [UserRecord.active, Option.isNone_iff_eq_none]
                simpa using hlive
              rw [reactivatedOrder, htx, Option.bind_some, horder, Option.mem_def,
                Option.filter_eq_some_iff]
              refine ⟨rfl, ?_⟩
              rw [huser, hgrant]
              simp [haction, hstale, hactive, hinactive, hidle]
            · exact h.keepsAll (hk.trans (keeps_revoked _ _ _ _ _ _ _ _))

/-! ### Refreshes -/

theorem keeps_expireGrants (now : Timestamp) (userId : UserId) (t : Tables) :
    KeepsAll (ledger t) (ledger (expireGrants now userId t)) := by
  refine { Keeps.refl (a := fun _ => False) (ledger t) with grants := ?_, subscriptions := ?_ }
  · exact Table.rewrites_updateWhere (expiredGrant_key now) SameGrant.refl fun x _ _ =>
      ⟨rfl, rfl, fun h => by cases h⟩
  · exact Table.rewrites_updateWhere expiredSubscription_key SameSubscription.refl fun x _ _ =>
      ⟨rfl, rfl, rfl⟩

theorem sameUser_project (user : UserRecord) (grant : Option EntitlementGrantRecord) :
    SameUser user (projectGrant user grant) := by
  unfold projectGrant
  split
  · split
    · exact ⟨rfl, rfl⟩
    · exact SameUser.refl user
  · dsimp only
    split
    · exact ⟨rfl, rfl⟩
    · exact SameUser.refl user

theorem keeps_refreshTables (now : Timestamp) (userId : UserId) (t : Tables) :
    KeepsAll (ledger t) (ledger (refreshTables now userId t)) := by
  unfold refreshTables
  split
  · exact Keeps.refl _
  · rename_i user huser
    have hk := keeps_expireGrants now userId t
    refine { hk with users := ?_ }
    have hsame := sameUser_project user (activeGrant now userId (expireGrants now userId t))
    exact Table.rewrites_replace_mem SameUser.refl (Table.mem_of_find? huser) hsame.id hsame

/-! ### Calls -/

/-- A notification that is acted on: its event is new or was not finished. -/
def awaited (sha256 : String → String) (db : Database) (input : AppleIapNotificationInput) : Bool :=
  (logEvent (input.notificationUUID.getD (makeLegacyAppleNotificationId sha256 input))
    (input.payloadSha256.getD (sha256 input.reason)) db).isSome

theorem logEvent_tables {payloadSha256 : String} {db db' : Database}
    (h : logEvent notificationUUID payloadSha256 db = some db') :
    ∃ events, db'.toTables = { db.toTables with appleNotificationEvents := events } := by
  unfold logEvent at h
  split at h
  · cases h
    exact ⟨_, rfl⟩
  · split at h
    · cases h
      exact ⟨_, rfl⟩
    · cases h

@[simp] theorem ledger_complete (notificationUUID : String)
    (status : AppleNotificationProcessingStatus) (action : AppleIapNotificationAction)
    (db : Database) :
    ledger (postgresCompleteAppleNotificationEvent notificationUUID status action db).toTables =
      ledger db.toTables := rfl

/-- A notification changes no more than its event, or its transaction commits. -/
theorem recordAppleIapNotification_cases (sha256 : String → String) (now : Timestamp)
    (ids : PlanChangeIds) (input : AppleIapNotificationInput) (db : Database) :
    ledger (postgresRecordAppleIapNotification sha256 now ids input db).2.toTables =
        ledger db.toTables ∨
      ∃ notificationUUID transactionId logged outcome t,
        logEvent notificationUUID (input.payloadSha256.getD (sha256 input.reason)) db = some logged ∧
        awaited sha256 db input = true ∧ input.transactionId = some transactionId ∧
        applyNotification now ids notificationUUID input transactionId logged.toTables =
          .ok (outcome, t) ∧
        ledger (postgresRecordAppleIapNotification sha256 now ids input db).2.toTables =
          ledger t := by
  unfold postgresRecordAppleIapNotification
  dsimp only
  split
  · split
    · exact Or.inl rfl
    · exact Or.inl rfl
  · rename_i logged hlogged
    obtain ⟨events, hevents⟩ := logEvent_tables hlogged
    have hledger : ledger logged.toTables = ledger db.toTables := by
      rw [hevents]; rfl
    split
    · exact Or.inl hledger
    · split
      · exact Or.inl hledger
      · rename_i transactionId htx
        split
        · exact Or.inl hledger
        · rename_i outcome db' hcommit
          obtain ⟨t, ht, he⟩ := postgresTransaction_ok hcommit
          refine Or.inr ⟨_, transactionId, logged, outcome, t, hlogged, ?_, htx, ht, ?_⟩
          · rw [awaited, hlogged]; rfl
          · rw [ledger_complete, he]

/-- The condition on a step: a purchase or a renewal that is taken is not signed before the
subscription, and a grant that is brought back is that of a current transaction. -/
def InOrder (sha256 : String → String) (s : Clocked Database) (e : AppleEvent) : Prop :=
  match e.call with
  | .purchase _ input => PurchaseInOrder s.store.toTables input
  | .notification _ input =>
    awaited sha256 s.store input = true →
      (input.action = .renewed ∨ input.action = .purchased →
        ∀ transactionId ∈ input.transactionId,
          RenewalInOrder s.store.toTables input transactionId) ∧
      RecoveryOfCurrent e.now s.store.toTables input ∧ ReversalOfCurrent s.store.toTables input
  | .refresh _ => True

instance (t : Tables) (input : AppleIapPurchaseInput) : Decidable (PurchaseInOrder t input) :=
  inferInstanceAs (Decidable (∀ s ∈ purchaseSubscription t input, _))

instance (t : Tables) (input : AppleIapNotificationInput) (transactionId : TransactionId) :
    Decidable (RenewalInOrder t input transactionId) :=
  inferInstanceAs (Decidable (_ → ∀ f ∈ input.originalTransactionId,
    ∀ s ∈ renewalTarget t input transactionId f, _))

instance (now : Timestamp) (t : Tables) (input : AppleIapNotificationInput) :
    Decidable (RecoveryOfCurrent now t input) :=
  inferInstanceAs (Decidable (∀ order ∈ recoveredOrder now t input,
    ∀ f ∈ order.originalTransactionId, _))

instance (t : Tables) (input : AppleIapNotificationInput) : Decidable (ReversalOfCurrent t input) :=
  inferInstanceAs (Decidable (∀ order ∈ reactivatedOrder t input,
    ∀ f ∈ order.originalTransactionId, _))

instance (sha256 : String → String) (s : Clocked Database) :
    ∀ e : AppleEvent, Decidable (InOrder sha256 s e)
  | ⟨_, .purchase _ input⟩ => inferInstanceAs (Decidable (PurchaseInOrder _ input))
  | ⟨_, .notification _ _⟩ => inferInstanceAs (Decidable (_ → _ ∧ _ ∧ _))
  | ⟨_, .refresh _⟩ => .isTrue trivial

theorem familyInv_step {sha256 : String → String} {s t : Clocked Database} {e : AppleEvent}
    (hstep : AppleStep (apply sha256) (fun db => ledger db.toTables) (InOrder sha256) s e t)
    (h : FamilyInv (ledger s.store.toTables)) : FamilyInv (ledger t.store.toTables) := by
  obtain ⟨hfresh, hguard, rfl⟩ := hstep
  obtain ⟨now, call⟩ := e
  cases call with
  | purchase ids input =>
    change FamilyInv (ledger (commit _ (postgresRecordAppleIapPurchase now ids input
      s.store)).2.toTables)
    cases hok : postgresRecordAppleIapPurchase now ids input s.store with
    | error e => exact h
    | ok p =>
      obtain ⟨t, ht, he⟩ := postgresTransaction_ok hok
      change FamilyInv (ledger p.2.toTables)
      rw [he]
      exact familyInv_purchase h (hfresh ids rfl) hguard ht
  | notification ids input =>
    change FamilyInv (ledger (postgresRecordAppleIapNotification sha256 now ids input
      s.store).2.toTables)
    have hguard := hguard
    rcases recordAppleIapNotification_cases sha256 now ids input s.store with
      hk | ⟨uuid, transactionId, logged, outcome, t, hlogged, hawaited, htx, hok, hresult⟩
    · rw [hk]; exact h
    · rw [hresult]
      have hguard := hguard hawaited
      obtain ⟨events, hevents⟩ := logEvent_tables hlogged
      -- the tables with the event logged have the same ledger, and the guard reads no events
      rw [hevents] at hok
      set acting : Tables := { s.store.toTables with appleNotificationEvents := events } with hacting
      have h : FamilyInv (ledger acting) := h
      have hids : FreshIn (ledger acting) ids := hfresh ids rfl
      have hrenewal : input.action = .renewed ∨ input.action = .purchased →
          RenewalInOrder acting input transactionId := fun h => hguard.1 h transactionId htx
      have hrecovery : RecoveryOfCurrent now acting input := hguard.2.1
      have hreversal : ReversalOfCurrent acting input := hguard.2.2
      unfold applyNotification at hok
      split at hok
      · rename_i haction
        exact familyInv_renewal h hids (hrenewal (Or.inl haction)) hok
      · rename_i haction
        exact familyInv_renewal h hids (hrenewal (Or.inr haction)) hok
      · exact familyInv_lifecycle h htx hrecovery hok
      · exact familyInv_lifecycle h htx hrecovery hok
      · exact familyInv_lifecycle h htx hrecovery hok
      · exact familyInv_lifecycle h htx hrecovery hok
      · exact familyInv_statusChange h htx hreversal hok
  | refresh userId =>
    change FamilyInv (ledger (commit _ (postgresRefreshUserEntitlements now userId
      s.store)).2.toTables)
    cases hok : postgresRefreshUserEntitlements now userId s.store with
    | error e => exact h
    | ok p =>
      obtain ⟨t, ht, he⟩ := postgresTransaction_ok hok
      cases ht
      change FamilyInv (ledger p.2.toTables)
      rw [he]
      exact h.keepsAll (keeps_refreshTables now userId _)

end OwnMinutes.Postgres.AppleFamily
