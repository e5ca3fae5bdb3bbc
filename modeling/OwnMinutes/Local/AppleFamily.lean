import OwnMinutes.Apple.Calls
import OwnMinutes.Local.Apple

/-! # Subscription families in the local store

What purchases, notifications and refreshes do to the orders, grants and subscriptions of the local
store, and that `FamilyInv` survives them. The one step that could break it is a reversed refund
that makes a grant active again: `reactivatedOrder` is the order of that grant. -/

namespace OwnMinutes.Local.AppleFamily

open OwnMinutes.Lib.Keyed OwnMinutes.Lib.Outcome OwnMinutes.Lib.Runs OwnMinutes.Auth.ProcessingRoute
open OwnMinutes.Auth.Records OwnMinutes.Auth.Errors OwnMinutes.Auth.Apple OwnMinutes.Quota.Calls
open OwnMinutes.Apple.Family OwnMinutes.Apple.Calls
open OwnMinutes.Local.Store OwnMinutes.Local.Apple

def ledger (s : AuthStore) : AppleLedger :=
  ⟨s.users, s.billingOrders, s.entitlementGrants, s.appleSubscriptions⟩

/-- One call on the store; a call that throws leaves it as it was, but for the notification's
event. -/
def apply (sha256 : String → String) (now : Timestamp) (call : AppleCall) (s : AuthStore) :
    AuthStore :=
  match call with
  | .purchase ids input => (commit s (recordAppleIapPurchase now ids input s)).2
  | .notification ids input => (recordAppleIapNotification sha256 now ids input s).2
  | .refresh userId => (commit s (getUserUsage now userId s)).2

/-! ### Records put back -/

variable {order : BillingOrderRecord} {grant : EntitlementGrantRecord} {transactionId : TransactionId}
  {now : Timestamp}

section Puts

variable {a : GrantId → Prop} {s : AuthStore}

theorem keeps_putUser {user user' : UserRecord} (hu : user ∈ s.users) (h : SameUser user user') :
    Keeps a (ledger s) (ledger (s.putUser user')) := by
  refine { Keeps.refl (ledger s) with users := ?_ }
  exact Table.rewrites_replace_mem SameUser.refl hu h.id h

theorem keeps_putOrder {order' : BillingOrderRecord} (ho : order ∈ s.billingOrders) (h : SameOrder order order') :
    Keeps a (ledger s) (ledger (s.putOrder order')) := by
  refine { Keeps.refl (ledger s) with orders := ?_ }
  exact Table.rewrites_replace_mem SameOrder.refl ho h.id h

theorem keeps_putGrant {grant' : EntitlementGrantRecord} (hg : grant ∈ s.entitlementGrants)
    (h : SameGrant a grant grant') : Keeps a (ledger s) (ledger (s.putGrant grant')) := by
  refine { Keeps.refl (a := a) (ledger s) with grants := ?_ }
  exact Table.rewrites_replace_mem SameGrant.refl hg h.id h

/-- The same for a row that was read before the store `s` was written. -/
theorem keeps_putGrant_read {s0 : AuthStore} (h0 : KeepsAll (ledger s0) (ledger s)) {grant' : EntitlementGrantRecord}
    (hg : grant ∈ s0.entitlementGrants) (hid : grant'.id = grant.id)
    (hbilling : grant'.billingOrderId = grant.billingOrderId) (hactive : grant'.status = .active → a grant.id) :
    Keeps a (ledger s) (ledger (s.putGrant grant')) := by
  refine { Keeps.refl (a := a) (ledger s) with grants := ?_ }
  refine Table.rewrites_replace SameGrant.refl fun y hy hk => ?_
  obtain ⟨x, hx, hxy⟩ := h0.grants.old hy
  have hxg : x = grant := Table.eq_of_key hx hg ((hxy.key _ _).symm.trans (hk.trans hid))
  subst hxg
  exact ⟨hid.trans hxy.id.symm, hbilling.trans hxy.billingOrderId.symm,
    fun h => Or.inr (hxy.id ▸ hactive h)⟩

theorem keeps_putSubscription {x x' : AppleSubscriptionRecord} (hx : x ∈ s.appleSubscriptions)
    (h : SameSubscription x x') : Keeps a (ledger s) (ledger (s.putSubscription x')) := by
  refine { Keeps.refl (ledger s) with subscriptions := ?_ }
  exact Table.rewrites_replace_mem SameSubscription.refl hx h.originalTransactionId h

@[simp] theorem ledger_pushAdjustment (id : UsageEventId) (userId : UserId) (note : String) :
    ledger (pushAdjustment s id userId note) = ledger s := rfl

@[simp] theorem ledger_markEvent (event : AppleNotificationEventRecord)
    (status : AppleNotificationProcessingStatus) (action : AppleIapNotificationAction) :
    ledger (markEvent s event status action) = ledger s := rfl

theorem keeps_normalize : Keeps a (ledger s) (ledger (normalizeStore s)) :=
  { Keeps.refl (ledger s) with
    users := Table.rewrites_mapRows normalizeLocalFreeTrialFields_key fun _ _ => ⟨rfl, rfl⟩ }

theorem keeps_completeEvent (notificationUUID : String) (action : AppleIapNotificationAction) :
    Keeps a (ledger s) (ledger (completeLocalAppleNotificationEvent notificationUUID action s)) := by
  unfold completeLocalAppleNotificationEvent
  dsimp only
  split
  · exact Keeps.refl _
  · exact keeps_normalize

end Puts

/-! ### Rows the operations find -/

theorem findActiveUser_some {s : AuthStore} {userId : UserId} {user : UserRecord}
    (h : findActiveUser s userId = some user) :
    user ∈ s.users ∧ user.id = userId ∧ user.deletedAt = none := by
  have hp := Table.of_find? h
  simp only [Bool.and_eq_true, UserRecord.active, Option.isNone_iff_eq_none, beq_iff_eq] at hp
  exact ⟨Table.mem_of_find? h, hp.2, hp.1⟩

theorem findAppleOrder_some {s : AuthStore} (h : findAppleOrder s transactionId = some order) :
    order ∈ s.billingOrders ∧ order.provider = .appleIap ∧
      order.externalTransactionId = some transactionId :=
  ⟨Table.mem_of_find? h, ofTransaction_iff.mp (Table.of_find? h)⟩

theorem findAppleOrder_none {s : AuthStore} (h : findAppleOrder s transactionId = none) :
    ∀ o ∈ s.billingOrders, o.provider = .appleIap → o.externalTransactionId ≠ some transactionId := by
  intro o ho hp he
  have := Table.find?_none.mp h o ho
  rw [ofTransaction_iff.mpr ⟨hp, he⟩] at this
  cases this

theorem grantOfOrder_some {s : AuthStore} (h : grantOfOrder s order = some grant) :
    grant ∈ s.entitlementGrants ∧ order.entitlementGrantId = some grant.id := by
  obtain ⟨id, hid, hg⟩ := Option.bind_eq_some_iff.mp h
  exact ⟨Table.mem_of_get? hg, by rw [hid, ← Table.key_of_get? hg]; rfl⟩

/-! ### Purchases -/

theorem sameUser_capture (user : UserRecord) : SameUser user (captureLocalFreeTrialUsage user) := by
  unfold captureLocalFreeTrialUsage
  dsimp only
  split
  · exact ⟨rfl, rfl⟩
  · exact ⟨rfl, rfl⟩

theorem sameUser_purchased (now : Timestamp) (orderId : BillingOrderId)
    (input : AppleIapPurchaseInput) (user : UserRecord) :
    SameUser user (purchasedUser now orderId input user) :=
  ⟨(sameUser_capture user).id, (sameUser_capture user).deletedAt⟩

/-- Superseding makes no grant active. -/
theorem keeps_supersede {a : GrantId → Prop} (s : AuthStore)
    (originalTransactionId : Option TransactionId) (next : TransactionId) (now : Timestamp) :
    Keeps a (ledger s) (ledger (supersedeFamilyOf s originalTransactionId next now)) := by
  unfold supersedeFamilyOf
  split
  · exact Keeps.refl _
  · refine { Keeps.refl (a := a) (ledger s) with grants := ?_ }
    exact Table.rewrites_updateWhere (revokedGrant_key now _) SameGrant.refl fun x _ _ =>
      ⟨rfl, rfl, fun h => by cases h⟩

/-- If the next transaction is new, superseding leaves no grant of the family active. -/
theorem idle_supersede {s : AuthStore} {f next : TransactionId}
    (hnew : ∀ o ∈ s.billingOrders, o.provider = .appleIap → o.externalTransactionId ≠ some next) :
    Idle (ledger (supersedeAppleSubscriptionFamily s f next now)) f := by
  intro order ho grant hg hf hp hactive
  obtain ⟨x, hx, rfl⟩ := (Table.mem_updateWhere (revokedGrant_key now _)).mp hg
  have ho : order ∈ s.billingOrders := ho
  by_cases hs : superseded s.billingOrders f next x = true
  · rw [if_pos hs] at hactive
    cases hactive
  · rw [if_neg hs] at hactive hp
    refine hs ?_
    have hne := hnew order ho (inFamily_iff.mp hf).1
    simp only [superseded, Bool.and_eq_true, beq_iff_eq, List.any_eq_true, bne_iff_ne]
    exact ⟨hactive, order, ho, ⟨hf, hne⟩, hp⟩

/-- The subscriptions after a purchase. -/
def savedSubscriptions (s : AuthStore) (input : AppleIapPurchaseInput) :
    Table AppleSubscriptionRecord :=
  match input.originalTransactionId with
  | none => s.appleSubscriptions
  | some f => (saveSubscription s
      (purchasedSubscription (s.appleSubscriptions.get? f) input f)).appleSubscriptions

theorem moved_saveSubscription (s : AuthStore) (x : AppleSubscriptionRecord) :
    Moved s.appleSubscriptions (saveSubscription s x).appleSubscriptions x.originalTransactionId
      x := by
  unfold saveSubscription
  dsimp only
  cases hx : s.appleSubscriptions.get? x.originalTransactionId with
  | none =>
    have hfresh : s.appleSubscriptions.Fresh (HasKey.key x) := Table.fresh_iff.mpr hx
    exact ⟨Table.get?_insert_self hfresh, fun k hk => Table.get?_insert_of_ne (Ne.symm hk)⟩
  | some y =>
    exact ⟨Table.get?_replace_self hx, fun k hk => Table.get?_replace_of_ne (Ne.symm hk)⟩

/-- The ledger of a purchase that is taken. -/
theorem ledger_takePurchase (now : Timestamp) (ids : PlanChangeIds) (input : AppleIapPurchaseInput)
    (s : AuthStore) (user : UserRecord) :
    ledger (takePurchase now ids input s user) =
      { ledger ((supersedeFamilyOf s input.originalTransactionId input.externalTransactionId
          now).putUser (purchasedUser now ids.order input user)) with
        orders := s.billingOrders.insert (purchasedOrder now ids input)
        grants := (supersedeFamilyOf s input.originalTransactionId input.externalTransactionId
          now).entitlementGrants.insert (purchasedGrant now ids input
            (getPlanOutsideAppleSubscriptionFamily s user.id input.originalTransactionId user.plan))
        subscriptions := savedSubscriptions s input } := by
  unfold takePurchase savedSubscriptions
  cases input.originalTransactionId <;> rfl

theorem supersede_orders (s : AuthStore) (originalTransactionId : Option TransactionId)
    (next : TransactionId) (now : Timestamp) :
    (supersedeFamilyOf s originalTransactionId next now).billingOrders = s.billingOrders := by
  cases originalTransactionId <;> rfl

theorem supersede_users (s : AuthStore) (originalTransactionId : Option TransactionId)
    (next : TransactionId) (now : Timestamp) :
    (supersedeFamilyOf s originalTransactionId next now).users = s.users := by
  cases originalTransactionId <;> rfl

theorem supersede_subscriptions (s : AuthStore) (originalTransactionId : Option TransactionId)
    (next : TransactionId) (now : Timestamp) :
    (supersedeFamilyOf s originalTransactionId next now).appleSubscriptions =
      s.appleSubscriptions := by
  cases originalTransactionId <;> rfl

/-- A purchase that is taken keeps the invariant. -/
theorem familyInv_takePurchase {ids : PlanChangeIds} {input : AppleIapPurchaseInput} {s : AuthStore}
    {user : UserRecord} (h : FamilyInv (ledger s)) (hids : FreshIn (ledger s) ids)
    (huser : findActiveUser s input.userId = some user) (hnew : ∀ o ∈ s.billingOrders, o.provider = .appleIap →
      o.externalTransactionId ≠ some input.externalTransactionId)
    (howner : ∀ f sub, input.originalTransactionId = some f → s.appleSubscriptions.get? f = some sub →
      sub.userId = input.userId) : FamilyInv (ledger (takePurchase now ids input s user)) := by
  obtain ⟨hu, hid, hlive⟩ := findActiveUser_some huser
  set s1 := supersedeFamilyOf s input.originalTransactionId input.externalTransactionId now with hs1
  set s2 := s1.putUser (purchasedUser now ids.order input user) with hs2
  have hk1 : KeepsAll (ledger s) (ledger s1) := keeps_supersede s _ _ _
  have hu1 : user ∈ s1.users := by rw [hs1, supersede_users]; exact hu
  have hk2 : KeepsAll (ledger s1) (ledger s2) := keeps_putUser hu1 (sameUser_purchased now _ _ _)
  have hidle : ∀ f, input.originalTransactionId = some f → Idle (ledger s2) f := by
    intro f hf
    have hidle1 : Idle (ledger s1) f := by
      rw [hs1, hf]
      exact idle_supersede hnew
    exact hidle1
  have hsaved : ∀ f, input.originalTransactionId = some f →
      Moved s.appleSubscriptions (savedSubscriptions s input) f
        (purchasedSubscription (s.appleSubscriptions.get? f) input f) := by
    intro f hf
    rw [savedSubscriptions, hf]
    exact moved_saveSubscription s _
  have ht : Take (ledger s) (ledger s2) ids input.externalTransactionId (purchasedOrder now ids input)
      (purchasedGrant now ids input (getPlanOutsideAppleSubscriptionFamily s user.id
        input.originalTransactionId user.plan)) (savedSubscriptions s input) :=
    { fresh := hids
      orders := supersede_orders s _ _ _
      subscriptions := supersede_subscriptions s _ _ _
      order_id := rfl
      provider := rfl
      transaction := rfl
      granted := rfl
      grant_id := rfl
      billing := rfl
      new := hnew
      live := ⟨user, Table.get?_eq_some.mpr ⟨hu, hid⟩, hlive⟩
      alone := fun hf => by
        have hf : input.originalTransactionId = none := hf
        rw [savedSubscriptions, hf]
        rfl
      joins := fun f hf => ⟨hidle f hf, fun sub hsub => howner f sub hf hsub, _, hsaved f hf, rfl, rfl⟩ }
  rw [ledger_takePurchase]
  exact h.take (hk1.trans hk2) ht

/-- A purchase that is taken, in a store that was read. -/
structure Taken (now : Timestamp) (ids : PlanChangeIds) (input : AppleIapPurchaseInput)
    (s t : AuthStore) (user : UserRecord) : Prop where
  account : findActiveUser s input.userId = some user
  new : findExistingOrder s input = none
  subscription : ∀ f sub, input.originalTransactionId = some f →
    s.appleSubscriptions.get? f = some sub →
      sub.userId = input.userId ∧ purchaseStale s input sub = false
  result : t = takePurchase now ids input s user

variable {t : AuthStore} {input : AppleIapNotificationInput} {sub : AppleSubscriptionRecord}

theorem recordAppleIapPurchase_ok {ids : PlanChangeIds} {input : AppleIapPurchaseInput} {stored : AuthStore}
    {r : AppleIapPurchaseResult} (h : recordAppleIapPurchase now ids input stored = .ok (r, t)) :
    t = stored ∨ ∃ user, Taken now ids input (normalizeStore stored) t user := by
  unfold recordAppleIapPurchase at h
  dsimp only at h
  split at h
  · cases h
  · rename_i user huser
    split at h
    · split at h
      · cases h
      · cases h; exact Or.inl rfl
    · rename_i hnone
      split at h
      · cases h
      · rename_i howner
        split at h
        · split at h
          · cases h
          · cases h; exact Or.inl rfl
        · rename_i hstale
          cases h
          refine Or.inr ⟨user, huser, hnone, fun f sub hf hsub => ?_, rfl⟩
          rw [hf, Option.bind_some, hsub] at howner hstale
          constructor
          · simpa using howner
          · simpa [Option.filter_eq_none_iff] using hstale

theorem findExistingOrder_none {s : AuthStore} {input : AppleIapPurchaseInput}
    (h : findExistingOrder s input = none) : ∀ o ∈ s.billingOrders, o.provider = .appleIap →
      o.externalTransactionId ≠ some input.externalTransactionId := by
  intro o ho hp he
  have hfalse := Table.find?_none.mp h o ho
  rw [ofTransaction_iff.mpr ⟨hp, he⟩, Bool.or_true] at hfalse
  cases hfalse

theorem familyInv_purchase {ids : PlanChangeIds} {input : AppleIapPurchaseInput} {s : AuthStore}
    {r : AppleIapPurchaseResult} (h : FamilyInv (ledger s)) (hids : FreshIn (ledger s) ids)
    (hok : recordAppleIapPurchase now ids input s = .ok (r, t)) : FamilyInv (ledger t) := by
  rcases recordAppleIapPurchase_ok hok with rfl | ⟨user, ht⟩
  · exact h
  · have hk : KeepsAll (ledger s) (ledger (normalizeStore s)) := keeps_normalize
    rw [ht.result]
    exact familyInv_takePurchase (h.keepsAll hk) (hids.keeps hk) ht.account
      (findExistingOrder_none ht.new) fun f sub hf hsub => (ht.subscription f sub hf hsub).1

theorem familyInv_renewal {ids : PlanChangeIds} {uuid : String} {s : AuthStore} {r : AppleIapNotificationResult}
    (h : FamilyInv (ledger s)) (hids : FreshIn (ledger s) ids)
    (hok : applyRenewal now ids uuid input transactionId s = .ok (r, t)) : FamilyInv (ledger t) := by
  unfold applyRenewal at hok
  split at hok
  · cases hok
    exact h.keepsAll (keeps_completeEvent _ _)
  · dsimp only at hok
    split at hok
    · cases hok
    · split at hok
      · obtain ⟨⟨purchase, t1⟩, hp, hok⟩ := bind_eq_ok.mp hok
        cases hok
        exact (familyInv_purchase h hids hp).keepsAll (keeps_completeEvent _ _)
      · cases hok

/-! ### Lifecycle notifications -/

theorem sameSubscription_lifecycle (input : AppleIapNotificationInput) (uuid : String)
    (x : AppleSubscriptionRecord) : SameSubscription x (lifecycleSubscription input uuid x) :=
  ⟨rfl, rfl, rfl⟩

theorem sameOrder_extended (input : AppleIapNotificationInput) (order : BillingOrderRecord) :
    SameOrder order (extendedOrder input order) := by
  unfold extendedOrder
  split
  · exact SameOrder.refl _
  · exact ⟨rfl, rfl, rfl, rfl, rfl, rfl⟩

theorem sameUser_extended (input : AppleIapNotificationInput) (order : BillingOrderRecord)
    (user : UserRecord) : SameUser user (extendedUser input order user) := by
  unfold extendedUser
  split
  · exact SameUser.refl _
  · split
    · exact ⟨rfl, rfl⟩
    · exact SameUser.refl _

theorem sameGrant_extended {a : GrantId → Prop} (input : AppleIapNotificationInput)
    (grant : EntitlementGrantRecord) : SameGrant a grant (extendedGrant input grant) := by
  unfold extendedGrant
  split
  · exact SameGrant.refl _
  · exact ⟨rfl, rfl, Or.inl⟩

theorem findLifecycleSubscription_some {s : AuthStore}
    (h : findLifecycleSubscription s input transactionId = some sub) : sub ∈ s.appleSubscriptions := by
  unfold findLifecycleSubscription at h
  split at h
  · exact Table.mem_of_get? h
  · exact Table.mem_of_find? h

/-- The order a lifecycle notification is for is that of the current transaction. -/
theorem lifecycleOrder_current {s : AuthStore} (h : FamilyInv (ledger s)) (hsub : sub ∈ s.appleSubscriptions)
    (ho : lifecycleOrder s sub = some order) :
    order ∈ s.billingOrders ∧ inFamily sub.originalTransactionId order = true ∧
      order.externalTransactionId = some sub.currentTransactionId := by
  obtain ⟨o, hom, hf, hext⟩ := h.current _ sub (Table.get?_key hsub)
  have hp : o.provider = .appleIap := (inFamily_iff.mp hf).1
  have hfind : ∃ x, findAppleOrder s sub.currentTransactionId = some x := by
    cases hx : findAppleOrder s sub.currentTransactionId with
    | none => exact absurd hext (findAppleOrder_none hx o hom hp)
    | some x => exact ⟨x, rfl⟩
  obtain ⟨x, hx⟩ := hfind
  have ho : some x = some order := by
    rw [lifecycleOrder, hx] at ho
    exact ho
  obtain ⟨hxm, hxp, hxext⟩ := findAppleOrder_some hx
  have hxo : x = o := h.transactions x hxm o hom hxp hp (hxext.trans hext.symm)
  cases ho
  rw [hxo]
  exact ⟨hom, hf, hext⟩

/-- The store after a lifecycle notification: rows are rewritten, and a grant that becomes active is
that of the order. -/
theorem keeps_lifecycleGrant (now : Timestamp) (input : AppleIapNotificationInput)
    (order : BillingOrderRecord) (s : AuthStore) {old user : UserRecord} (hu : old ∈ s.users)
    (hsame : SameUser old user) :
    Keeps (fun id => order.entitlementGrantId = some id) (ledger s)
      (ledger (lifecycleGrant now input order user s).1) := by
  unfold lifecycleGrant
  split
  · exact keeps_putUser hu hsame
  · rename_i grant hgrant
    obtain ⟨hg, hp⟩ := grantOfOrder_some hgrant
    dsimp only
    split
    · have hk : Keeps (fun id => order.entitlementGrantId = some id) (ledger s)
          (ledger (s.putGrant (recoveredGrant now input (extendedGrant input grant)))) := by
        have he := sameGrant_extended (a := fun _ => False) input grant
        exact keeps_putGrant hg ⟨he.id, he.billingOrderId, fun _ => Or.inr hp⟩
      exact hk.trans (keeps_putUser hu ⟨hsame.id, hsame.deletedAt⟩)
    · exact (keeps_putGrant hg (sameGrant_extended input grant)).trans (keeps_putUser hu hsame)

theorem familyInv_lifecycle {event : AppleNotificationEventRecord} {s : AuthStore} {r : AppleIapNotificationResult}
    (h : FamilyInv (ledger s)) (hok : applyLifecycle now event input transactionId s = .ok (r, t)) :
    FamilyInv (ledger t) := by
  unfold applyLifecycle at hok
  split at hok
  · cases hok
  · rename_i sub hsub
    have hsub := findLifecycleSubscription_some hsub
    split at hok
    · cases hok
      exact h
    · dsimp only at hok
      set s1 := s.putSubscription (lifecycleSubscription input event.notificationUUID sub) with hs1
      have hk1 : KeepsAll (ledger s) (ledger s1) :=
        keeps_putSubscription hsub (sameSubscription_lifecycle _ _ _)
      split at hok
      · cases hok
      · rename_i order horder
        have hcur := lifecycleOrder_current h hsub horder
        split at hok
        · cases hok
        · rename_i user huser
          cases hok
          rw [ledger_markEvent]
          have hu : user ∈ s1.users := Table.mem_of_get? huser
          have hk2 : KeepsAll (ledger s1) (ledger (s1.putOrder (extendedOrder input order))) :=
            keeps_putOrder hcur.1 (sameOrder_extended input order)
          have hk := hk1.trans hk2
          obtain ⟨o2, ho2, hoo⟩ := hk.orders.new hcur.1
          have hp2 : o2.provider = .appleIap := hoo.provider.trans (inFamily_iff.mp hcur.2.1).1
          have hk3 := keeps_lifecycleGrant now input (extendedOrder input order)
            (s1.putOrder (extendedOrder input order)) hu (sameUser_extended input order user)
          rw [(sameOrder_extended input order).entitlementGrantId, ← hoo.entitlementGrantId] at hk3
          refine (h.keepsAll hk).keepsActivating ho2 hp2 ?_ hk3
          intro f hf
          have hff : f = sub.originalTransactionId := by
            rw [hoo.originalTransactionId, (inFamily_iff.mp hcur.2.1).2] at hf
            exact (Option.some.inj hf).symm
          rw [hff]
          exact hk.current hoo ⟨sub, Table.get?_key hsub, hcur.2.2⟩

/-! ### Refunds, revocations and reversals -/

/-- A notification that is acted on: its event is new or was not finished. -/
def awaited (sha256 : String → String) (s : AuthStore) (input : AppleIapNotificationInput) : Bool :=
  match s.appleNotificationEvents.get?
      (input.notificationUUID.getD (makeLegacyAppleNotificationId sha256 input)) with
  | none => true
  | some event =>
    event.payloadSha256 == input.payloadSha256.getD (sha256 input.reason) &&
      event.processingStatus != .processed && event.processingStatus != .ignored

/-- The order whose inactive grant a reversed refund makes active again. -/
def reactivatedOrder (s : AuthStore) (input : AppleIapNotificationInput) :
    Option BillingOrderRecord :=
  match input.transactionId.bind (findAppleOrder s) with
  | none => none
  | some order =>
    if input.action = .restored ∧ statusChangeStale s input order = false ∧
        (grantOfOrder s order).any (·.status != .active) ∧
        (findActiveUser s order.userId).isSome ∧ hasActiveFamilyGrant s order = false
    then some order else none

/-- A reversed refund makes only the grant of a current transaction active again. -/
def ReversalOfCurrent (sha256 : String → String) (s : AuthStore) (input : AppleIapNotificationInput) :
    Prop :=
  awaited sha256 s input = true → ∀ order ∈ reactivatedOrder s input,
    ∀ f ∈ order.originalTransactionId, Current (ledger s) f order

/-! The parts of a change of status. -/

theorem targetSubscription_some {s : AuthStore} (h : targetSubscription s order = some sub) :
    sub ∈ s.appleSubscriptions := by
  obtain ⟨hb, -⟩ := Option.filter_eq_some_iff.mp h
  obtain ⟨f, -, hget⟩ := Option.bind_eq_some_iff.mp hb
  exact Table.mem_of_get? hget

theorem keeps_setTargetStatus {a : GrantId → Prop} (s : AuthStore)
    (event : AppleNotificationEventRecord) (input : AppleIapNotificationInput)
    (order : BillingOrderRecord) (status : AppleSubscriptionStatus) :
    Keeps a (ledger s) (ledger (setTargetStatus s event input order status)) := by
  unfold setTargetStatus
  split
  · exact Keeps.refl _
  · rename_i sub hsub
    exact keeps_putSubscription (targetSubscription_some hsub) ⟨rfl, rfl, rfl⟩

theorem setTargetStatus_orders (s : AuthStore) (event : AppleNotificationEventRecord)
    (input : AppleIapNotificationInput) (order : BillingOrderRecord)
    (status : AppleSubscriptionStatus) :
    (setTargetStatus s event input order status).billingOrders = s.billingOrders := by
  unfold setTargetStatus
  split
  · rfl
  · rfl

theorem setTargetStatus_users (s : AuthStore) (event : AppleNotificationEventRecord)
    (input : AppleIapNotificationInput) (order : BillingOrderRecord)
    (status : AppleSubscriptionStatus) :
    (setTargetStatus s event input order status).users = s.users := by
  unfold setTargetStatus
  split
  · rfl
  · rfl

theorem sameOrder_changed (now : Timestamp) (input : AppleIapNotificationInput)
    (order : BillingOrderRecord) (status : BillingOrderStatus) :
    SameOrder order (changedOrder now input order status) := ⟨rfl, rfl, rfl, rfl, rfl, rfl⟩

/-- A reversed refund keeps the invariant if the grant it makes active is of a current
transaction. -/
theorem familyInv_restored {usageId : UsageEventId} {event : AppleNotificationEventRecord} {user : UserRecord}
    {s : AuthStore} (h : FamilyInv (ledger s)) (ho : order ∈ s.billingOrders) (hp : order.provider = .appleIap)
    (hg : grant ∈ s.entitlementGrants) (hgrant : order.entitlementGrantId = some grant.id) (hu : user ∈ s.users)
    (hcur : hasActiveFamilyGrant s order = false → grant.status ≠ .active →
      ∀ f ∈ order.originalTransactionId, Current (ledger s) f order) :
    FamilyInv (ledger (applyRestored now usageId event input transactionId order grant user s).2) := by
  unfold applyRestored
  split
  · rw [ledger_markEvent]
    have ho1 : order ∈ (setTargetStatus s event input order .active).billingOrders := by
      rw [setTargetStatus_orders]; exact ho
    refine h.keepsAll ((keeps_setTargetStatus s event input order .active).trans ?_)
    exact keeps_putOrder ho1 ⟨rfl, rfl, rfl, rfl, rfl, rfl⟩
  · split
    · rw [ledger_markEvent]
      refine h.keepsAll ((keeps_putOrder ho (sameOrder_changed now input order .paid)).trans ?_)
      have hg1 : grant ∈ (s.putOrder (changedOrder now input order .paid)).entitlementGrants := hg
      refine keeps_putGrant hg1 ⟨rfl, rfl, fun hactive => Or.inl ?_⟩
      dsimp only at hactive
      split at hactive
      · cases hactive
      · exact hactive
    · rename_i hidle
      dsimp only
      rw [ledger_markEvent, ledger_pushAdjustment]
      set s1 := supersedeFamilyOf s order.originalTransactionId
        (order.externalTransactionId.getD transactionId) now with hs1
      set s2 := setTargetStatus s1 event input order .active with hs2
      have hk1 : KeepsAll (ledger s) (ledger s2) :=
        (keeps_supersede s _ _ _).trans (keeps_setTargetStatus s1 event input order .active)
      have ho2 : order ∈ s2.billingOrders := by
        rw [hs2, setTargetStatus_orders, hs1, supersede_orders]; exact ho
      have hu2 : user ∈ s2.users := by
        rw [hs2, setTargetStatus_users, hs1, supersede_users]; exact hu
      have hcur' : ∀ f ∈ order.originalTransactionId, Current (ledger s) f order := by
        intro f hf
        by_cases hactive : grant.status = .active
        · exact h.pointed f order ho grant hg (inFamily_iff.mpr ⟨hp, hf⟩) hgrant hactive
        · exact hcur (by simpa using hidle) hactive f hf
      set active := reactivatedGrant now input (getPlanOutsideAppleSubscriptionFamily s user.id
        order.originalTransactionId user.plan) grant with hactive
      set paid := changedOrder now input order .paid with hpaid
      have h3 : Keeps (fun id => order.entitlementGrantId = some id) (ledger s2)
          (ledger (s2.putGrant active)) := keeps_putGrant_read hk1 hg rfl rfl fun _ => hgrant
      have ho3 : order ∈ (s2.putGrant active).billingOrders := ho2
      have h4 : KeepsAll (ledger (s2.putGrant active)) (ledger ((s2.putGrant active).putOrder paid)) :=
        keeps_putOrder ho3 (sameOrder_changed now input order .paid)
      have hu4 : user ∈ ((s2.putGrant active).putOrder paid).users := hu2
      have h5 : KeepsAll (ledger ((s2.putGrant active).putOrder paid))
          (ledger (((s2.putGrant active).putOrder paid).putUser (restoredUser paid active user))) :=
        keeps_putUser hu4 ⟨rfl, rfl⟩
      exact h.keepsActivating ho hp hcur'
        ((hk1.mono fun _ ha => ha.elim).trans (h3.trans ((h4.trans h5).mono fun _ ha => ha.elim)))

theorem keeps_revokeFamily {a : GrantId → Prop} (now : Timestamp)
    (input : AppleIapNotificationInput) (order : BillingOrderRecord) (s : AuthStore) :
    Keeps a (ledger s) (ledger (revokeFamily now input order s)) := by
  refine { Keeps.refl (a := a) (ledger s) with grants := ?_ }
  refine Table.rewrites_updateWhere (familyRevoked_key now _ _) SameGrant.refl fun x _ _ => ?_
  refine ⟨rfl, rfl, fun h => ?_⟩
  dsimp only at h
  split at h
  · cases h
  · cases h

theorem sameUser_restoreTrial (user : UserRecord) : SameUser user (restoreLocalFreeTrial user) :=
  ⟨rfl, rfl⟩

theorem sameUser_fallenBack (user : UserRecord) (plan : BillingPlanId) :
    SameUser user (fallenBackUser user plan) := by
  unfold fallenBackUser
  split
  · exact sameUser_restoreTrial user
  · exact ⟨rfl, rfl⟩

theorem familyInv_revoked {usageId : UsageEventId} {event : AppleNotificationEventRecord} {user : UserRecord}
    {s : AuthStore} (h : FamilyInv (ledger s)) (ho : order ∈ s.billingOrders) (hu : user ∈ s.users) :
    FamilyInv (ledger (applyRevoked now usageId event input order grant user s).2) := by
  unfold applyRevoked
  dsimp only
  split
  · split
    · rw [ledger_markEvent, ledger_pushAdjustment]
      exact h.keepsAll (keeps_putOrder ho (sameOrder_changed _ _ _ _))
    · rw [ledger_markEvent]
      exact h.keepsAll (keeps_putOrder ho ⟨rfl, rfl, rfl, rfl, rfl, rfl⟩)
  · rw [ledger_markEvent, ledger_pushAdjustment]
    set s1 := revokeFamily now input order s with hs1
    generalize (if input.action = .expired then AppleSubscriptionStatus.expired else .revoked) =
      status
    set s2 := setTargetStatus s1 event input order status with hs2
    have ho2 : order ∈ s2.billingOrders := by
      rw [hs2, setTargetStatus_orders]; exact ho
    have hu2 : user ∈ s2.users := by
      rw [hs2, setTargetStatus_users]; exact hu
    refine h.keepsAll ((keeps_revokeFamily now input order s).trans ?_)
    refine (keeps_setTargetStatus s1 event input order status).trans ?_
    set changed := changedOrder now input order
      (getAppleBillingOrderStatus input.action order.status) with hchanged
    have h3 : KeepsAll (ledger s2) (ledger (s2.putOrder changed)) :=
      keeps_putOrder ho2 (sameOrder_changed now input order _)
    have hu3 : user ∈ (s2.putOrder changed).users := hu2
    exact h3.trans (keeps_putUser hu3 (sameUser_fallenBack _ _))

theorem familyInv_statusChange {usageId : UsageEventId} {event : AppleNotificationEventRecord} {s : AuthStore}
    {r : AppleIapNotificationResult} (h : FamilyInv (ledger s)) (htx : input.transactionId = some transactionId)
    (hcur : ∀ order ∈ reactivatedOrder s input, ∀ f ∈ order.originalTransactionId, Current (ledger s) f order)
    (hok : applyStatusChange now usageId event input transactionId s = .ok (r, t)) : FamilyInv (ledger t) := by
  unfold applyStatusChange at hok
  split at hok
  · cases hok
  · rename_i order horder
    obtain ⟨ho, hp, -⟩ := findAppleOrder_some horder
    split at hok
    · cases hok
    · rename_i grant hgrant
      obtain ⟨hg, hlink⟩ := grantOfOrder_some hgrant
      split at hok
      · cases hok
        exact h
      · rename_i hstale
        split at hok
        · cases hok
        · rename_i user huser
          obtain ⟨hu, -, -⟩ := findActiveUser_some huser
          split at hok
          · rename_i haction
            have he : _ = t := congrArg Prod.snd (Except.ok.inj hok)
            rw [← he]
            refine familyInv_restored h ho hp hg hlink hu fun hidle hactive => ?_
            refine hcur order ?_
            rw [reactivatedOrder, htx, Option.bind_some, horder]
            dsimp only
            have hany : (grantOfOrder s order).any (·.status != .active) = true := by
              rw [hgrant]; simpa using hactive
            rw [if_pos ⟨haction, by simpa using hstale, hany, by rw [huser]; rfl, hidle⟩]
            rfl
          · have he : _ = t := congrArg Prod.snd (Except.ok.inj hok)
            rw [← he]
            exact familyInv_revoked h ho hu

/-! ### Refreshes -/

theorem subscriptionOfOrder_some {s : AuthStore} {order : Option BillingOrderRecord}
    (h : subscriptionOfOrder s order = some sub) : sub ∈ s.appleSubscriptions := by
  obtain ⟨f, -, hget⟩ := Option.bind_eq_some_iff.mp h
  exact Table.mem_of_get? hget

/-- The grant is one of the store before the refresh. -/
theorem keeps_expireLocalGrant {userId : UserId} {s0 s : AuthStore} (h0 : KeepsAll (ledger s0) (ledger s))
    (hg : grant ∈ s0.entitlementGrants) : KeepsAll (ledger s) (ledger (expireLocalGrant now userId s grant)) := by
  unfold expireLocalGrant
  split
  · exact Keeps.refl _
  · dsimp only
    split
    · exact Keeps.refl _
    · split
      · exact Keeps.refl _
      · split
        · exact Keeps.refl _
        · have hgrant : KeepsAll (ledger s) (ledger (s.putGrant (expiredGrant now grant))) :=
            keeps_putGrant_read h0 hg rfl rfl fun h => by cases h
          split
          · exact hgrant
          · rename_i sub hsub
            exact hgrant.trans (keeps_putSubscription (subscriptionOfOrder_some hsub) ⟨rfl, rfl, rfl⟩)

theorem keeps_expireGrants {now : Timestamp} {userId : UserId} {s0 : AuthStore} :
    ∀ (grants : List EntitlementGrantRecord) (s : AuthStore),
      (∀ g ∈ grants, g ∈ s0.entitlementGrants) → KeepsAll (ledger s0) (ledger s) →
        KeepsAll (ledger s0) (ledger (grants.foldl (expireLocalGrant now userId) s))
  | [], _, _, h => h
  | g :: grants, s, hm, h => by
    have hstep : KeepsAll (ledger s) (ledger (expireLocalGrant now userId s g)) :=
      keeps_expireLocalGrant h (hm g List.mem_cons_self)
    exact keeps_expireGrants grants _ (fun x hx => hm x (List.mem_cons_of_mem _ hx)) (h.trans hstep)

theorem sameUser_project (user : UserRecord) (grant : Option EntitlementGrantRecord) :
    SameUser user (projectLocalGrant user grant) := by
  unfold projectLocalGrant
  split
  · exact sameUser_restoreTrial user
  · split
    · exact ⟨(sameUser_capture user).id, (sameUser_capture user).deletedAt⟩
    · exact SameUser.refl user

theorem keeps_refresh {s : AuthStore} {user : UserRecord} (hu : user ∈ s.users) :
    KeepsAll (ledger s) (ledger (refreshLocalUserEntitlements now s user).1) := by
  unfold refreshLocalUserEntitlements
  dsimp only
  set s1 := s.entitlementGrants.rows.foldl (expireLocalGrant now user.id) s with hs1
  have h1 : KeepsAll (ledger s) (ledger s1) :=
    keeps_expireGrants _ s (fun _ hg => hg) (Keeps.refl _)
  have hu1 : user ∈ s1.users := by
    rw [hs1, (sameRows_expireGrants now user.id s.entitlementGrants.rows s).users]
    exact hu
  exact h1.trans (keeps_putUser hu1 (sameUser_project user _))

theorem keeps_getUserUsage {userId : UserId} {s : AuthStore} :
    KeepsAll (ledger s) (ledger (commit s (getUserUsage now userId s)).2) := by
  unfold getUserUsage
  dsimp only
  split
  · exact Keeps.refl _
  · rename_i user huser
    obtain ⟨hu, -, -⟩ := findActiveUser_some huser
    exact keeps_normalize.trans (keeps_refresh hu)

/-! ### Calls -/

/-- The event a notification is logged as, and the store it is acted on in. -/
def loggedEvent (sha256 : String → String) (input : AppleIapNotificationInput) (s : AuthStore) :
    AppleNotificationEventRecord :=
  receivedEvent sha256 input (s.appleNotificationEvents.get?
    (input.notificationUUID.getD (makeLegacyAppleNotificationId sha256 input)))

def logged (sha256 : String → String) (input : AppleIapNotificationInput) (s : AuthStore) :
    AuthStore :=
  putEvent (normalizeStore s) (loggedEvent sha256 input s)

/-- A notification rewrites no more than its event, or it is acted on. -/
theorem recordAppleIapNotification_cases (sha256 : String → String) (now : Timestamp)
    (ids : PlanChangeIds) (input : AppleIapNotificationInput) (s : AuthStore) :
    KeepsAll (ledger s) (ledger (recordAppleIapNotification sha256 now ids input s).2) ∨
      awaited sha256 s input = true ∧ ∃ transactionId r t,
        input.transactionId = some transactionId ∧
        applyNotification now ids (loggedEvent sha256 input s) input transactionId
          (logged sha256 input s) = .ok (r, t) ∧
        (recordAppleIapNotification sha256 now ids input s).2 = t := by
  have hevents : (normalizeStore s).appleNotificationEvents = s.appleNotificationEvents := rfl
  unfold recordAppleIapNotification
  dsimp only
  rw [hevents]
  split
  · exact Or.inl (Keeps.refl _)
  · rename_i hpayload
    split
    · exact Or.inl (Keeps.refl _)
    · rename_i hstatus
      split
      · exact Or.inl keeps_normalize
      · split
        · exact Or.inl keeps_normalize
        · rename_i transactionId htx
          change KeepsAll _ (ledger (commit (logged sha256 input s) (applyNotification now ids
            (loggedEvent sha256 input s) input transactionId (logged sha256 input s))).2) ∨ _
          cases happly : applyNotification now ids (loggedEvent sha256 input s) input transactionId
              (logged sha256 input s) with
          | error e => exact Or.inl keeps_normalize
          | ok p =>
            refine Or.inr ⟨?_, transactionId, p.1, p.2, htx, happly, ?_⟩
            · unfold awaited
              cases hevent : s.appleNotificationEvents.get?
                  (input.notificationUUID.getD (makeLegacyAppleNotificationId sha256 input)) with
              | none => rfl
              | some event =>
                rw [hevent] at hpayload hstatus
                simp_all
            · change (commit _ (applyNotification now ids (loggedEvent sha256 input s) input
                transactionId (logged sha256 input s))).2 = p.2
              rw [happly]
              rfl

theorem findActiveUser_normalize (s : AuthStore) (userId : UserId) :
    (findActiveUser (normalizeStore s) userId).isSome = (findActiveUser s userId).isSome := by
  unfold findActiveUser Table.find? normalizeStore Table.mapRows
  dsimp only
  rw [List.find?_map, Option.isSome_map]
  rfl

theorem reactivatedOrder_logged (sha256 : String → String) (input : AppleIapNotificationInput)
    (s : AuthStore) : reactivatedOrder (logged sha256 input s) input = reactivatedOrder s input := by
  have huser : ∀ userId, (findActiveUser (logged sha256 input s) userId).isSome =
      (findActiveUser s userId).isSome := findActiveUser_normalize s
  unfold reactivatedOrder
  simp only [huser]
  rfl

/-- The condition on a step: a reversed refund makes only the grant of a current transaction active
again. -/
def ReversalsOfCurrent (sha256 : String → String) (s : Clocked AuthStore) (e : AppleEvent) : Prop :=
  match e.call with
  | .notification _ input => ReversalOfCurrent sha256 s.store input
  | _ => True

instance (sha256 : String → String) (s : AuthStore) (input : AppleIapNotificationInput) :
    Decidable (ReversalOfCurrent sha256 s input) :=
  inferInstanceAs (Decidable (_ → ∀ order ∈ reactivatedOrder s input,
    ∀ f ∈ order.originalTransactionId, _))

instance (sha256 : String → String) (s : Clocked AuthStore) :
    ∀ e : AppleEvent, Decidable (ReversalsOfCurrent sha256 s e)
  | ⟨_, .purchase _ _⟩ => .isTrue trivial
  | ⟨_, .notification _ input⟩ => inferInstanceAs (Decidable (ReversalOfCurrent _ _ input))
  | ⟨_, .refresh _⟩ => .isTrue trivial

theorem familyInv_step {sha256 : String → String} {s t : Clocked AuthStore} {e : AppleEvent}
    (hstep : AppleStep (apply sha256) ledger (ReversalsOfCurrent sha256) s e t)
    (h : FamilyInv (ledger s.store)) : FamilyInv (ledger t.store) := by
  obtain ⟨hfresh, hguard, rfl⟩ := hstep
  obtain ⟨now, call⟩ := e
  cases call with
  | purchase ids input =>
    change FamilyInv (ledger (commit _ (recordAppleIapPurchase now ids input s.store)).2)
    cases hok : recordAppleIapPurchase now ids input s.store with
    | error e => exact h
    | ok p => exact familyInv_purchase h (hfresh ids rfl) hok
  | notification ids input =>
    have hguard : ReversalOfCurrent sha256 s.store input := hguard
    rcases recordAppleIapNotification_cases sha256 now ids input s.store with
      hk | ⟨hawaited, transactionId, r, t, htx, hok, hresult⟩
    · exact h.keepsAll hk
    · change FamilyInv (ledger (recordAppleIapNotification sha256 now ids input s.store).2)
      rw [hresult]
      have hk : KeepsAll (ledger s.store) (ledger (logged sha256 input s.store)) := keeps_normalize
      have h1 := h.keepsAll hk
      have hids := (hfresh ids rfl).keeps hk
      unfold applyNotification at hok
      split at hok
      · exact familyInv_renewal h1 hids hok
      · exact familyInv_renewal h1 hids hok
      · exact familyInv_lifecycle h1 hok
      · exact familyInv_lifecycle h1 hok
      · exact familyInv_lifecycle h1 hok
      · exact familyInv_lifecycle h1 hok
      · refine familyInv_statusChange h1 htx ?_ hok
        rw [reactivatedOrder_logged]
        exact hguard hawaited
  | refresh userId => exact h.keepsAll keeps_getUserUsage

end OwnMinutes.Local.AppleFamily
