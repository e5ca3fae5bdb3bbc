import OwnMinutes.Auth.Apple

/-! # Families of Apple subscriptions

The accounts, orders, grants and subscriptions of a backend, and the law of a subscription family:
at most one of its grants is active, and it is the grant of the transaction that the subscription
record calls the current one (`FamilySafe`).

`FamilyInv` is the invariant that carries the law over a run. Rows may be rewritten as long as they
stay what they are and no grant becomes active that is not of a current transaction
(`FamilyInv.keeps`); an order may be added to a family that has no active grant, which makes its
transaction the current one (`FamilyInv.addOrder`), and its grant after it (`FamilyInv.addGrant`). -/

namespace OwnMinutes.Apple.Family

open OwnMinutes.Lib.Keyed OwnMinutes.Auth.Records OwnMinutes.Auth.Apple

@[ext]
structure AppleLedger where
  users : Table UserRecord
  orders : Table BillingOrderRecord
  grants : Table EntitlementGrantRecord
  subscriptions : Table AppleSubscriptionRecord

/-- `order`, of the family `f`, granted `grant`. -/
structure FamilyGrant (l : AppleLedger) (f : TransactionId) (order : BillingOrderRecord)
    (grant : EntitlementGrantRecord) : Prop where
  order_mem : order ∈ l.orders
  grant_mem : grant ∈ l.grants
  family : inFamily f order = true
  granted : order.entitlementGrantId = some grant.id ∨ grant.billingOrderId = some order.id

/-- The order is that of the current transaction of the family. -/
def Current (l : AppleLedger) (f : TransactionId) (order : BillingOrderRecord) : Prop :=
  ∃ s, l.subscriptions.get? f = some s ∧ order.externalTransactionId = some s.currentTransactionId

instance (l : AppleLedger) (f : TransactionId) (order : BillingOrderRecord) :
    Decidable (Current l f order) :=
  decidable_of_iff ((l.subscriptions.get? f).any fun s =>
      order.externalTransactionId == some s.currentTransactionId) (by
    rw [Option.any_eq_true]
    exact exists_congr fun s => and_congr_right fun _ => beq_iff_eq)

/-- An active grant of a family is the only one, and its order that of the current transaction. -/
def FamilySafe (l : AppleLedger) : Prop :=
  ∀ f order grant, FamilyGrant l f order grant → grant.status = .active →
    Current l f order ∧
      ∀ order' grant', FamilyGrant l f order' grant' → grant'.status = .active → grant' = grant

variable {f : TransactionId} {order : BillingOrderRecord}

theorem inFamily_iff :
    inFamily f order = true ↔ order.provider = .appleIap ∧ order.originalTransactionId = some f := by
  simp [inFamily]

theorem ofTransaction_iff {transactionId : TransactionId} :
    ofTransaction transactionId order = true ↔
      order.provider = .appleIap ∧ order.externalTransactionId = some transactionId := by
  simp [ofTransaction]

/-! ### The invariant -/

structure FamilyInv (l : AppleLedger) : Prop where
  /-- An active grant of a family is that of the current transaction. -/
  pointed : ∀ f, ∀ order ∈ l.orders, ∀ grant ∈ l.grants, inFamily f order = true →
    order.entitlementGrantId = some grant.id → grant.status = .active → Current l f order
  /-- A transaction has one order. -/
  transactions : ∀ order ∈ l.orders, ∀ order' ∈ l.orders, order.provider = .appleIap →
    order'.provider = .appleIap → order.externalTransactionId = order'.externalTransactionId →
    order = order'
  identified : ∀ order ∈ l.orders, order.provider = .appleIap → order.externalTransactionId.isSome
  /-- Orders and grants refer to each other. -/
  linked : ∀ order ∈ l.orders, ∀ grant ∈ l.grants, order.provider = .appleIap →
    (order.entitlementGrantId = some grant.id ↔ grant.billingOrderId = some order.id)
  subscribed : ∀ f, ∀ order ∈ l.orders, inFamily f order = true →
    ∃ s, l.subscriptions.get? f = some s ∧ s.userId = order.userId
  current : ∀ f s, l.subscriptions.get? f = some s →
    ∃ order ∈ l.orders, inFamily f order = true ∧
      order.externalTransactionId = some s.currentTransactionId
  /-- An order that was granted something is that of an account that is not deleted. -/
  owners : ∀ f, ∀ order ∈ l.orders, inFamily f order = true → order.entitlementGrantId ≠ none →
    ∃ user, l.users.get? order.userId = some user ∧ user.deletedAt = none
  /-- Only Apple orders belong to a subscription. -/
  foreign : ∀ order ∈ l.orders, order.provider ≠ .appleIap → order.originalTransactionId = none

variable {l l' : AppleLedger}

theorem FamilyInv.safe (h : FamilyInv l) : FamilySafe l := by
  intro f order grant hg hactive
  have points : ∀ {order grant}, FamilyGrant l f order grant →
      order.entitlementGrantId = some grant.id := by
    intro order grant hg
    have hlink := h.linked _ hg.order_mem _ hg.grant_mem (inFamily_iff.mp hg.family).1
    rcases hg.granted with hp | hp
    · exact hp
    · exact hlink.mpr hp
  have hcur := h.pointed f _ hg.order_mem _ hg.grant_mem hg.family (points hg) hactive
  refine ⟨hcur, fun order' grant' hg' hactive' => ?_⟩
  obtain ⟨s, hs, hext⟩ := hcur
  obtain ⟨s', hs', hext'⟩ := h.pointed f _ hg'.order_mem _ hg'.grant_mem hg'.family (points hg')
    hactive'
  have hss : s' = s := Option.some.inj (hs'.symm.trans hs)
  have horder : order' = order := h.transactions _ hg'.order_mem _ hg.order_mem
    (inFamily_iff.mp hg'.family).1 (inFamily_iff.mp hg.family).1 (by rw [hext', hext, hss])
  have hid : grant'.id = grant.id := by
    have := (points hg').symm.trans (horder ▸ points hg)
    exact Option.some.inj this
  exact Table.eq_of_key hg'.grant_mem hg.grant_mem hid

/-- Nothing was bought from Apple yet. -/
structure NoPurchases (l : AppleLedger) : Prop where
  orders : ∀ order ∈ l.orders.rows, order.provider ≠ .appleIap ∧ order.originalTransactionId = none
  subscriptions : l.subscriptions = .empty

theorem NoPurchases.familyInv (h : NoPurchases l) : FamilyInv l where
  pointed _ order hm _ _ hf _ _ := absurd (inFamily_iff.mp hf).1 (h.orders order hm).1
  transactions order hm _ _ hp _ _ := absurd hp (h.orders order hm).1
  identified order hm hp := absurd hp (h.orders order hm).1
  linked order hm _ _ hp := absurd hp (h.orders order hm).1
  subscribed _ order hm hf := absurd (inFamily_iff.mp hf).1 (h.orders order hm).1
  current f s hs := by
    rw [h.subscriptions] at hs
    exact absurd (Table.mem_of_get? hs) (Table.not_mem_empty s)
  owners _ order hm hf _ := absurd (inFamily_iff.mp hf).1 (h.orders order hm).1
  foreign order hm _ := (h.orders order hm).2

/-! ### Rows that stay what they are -/

structure SameUser (x y : UserRecord) : Prop where
  id : y.id = x.id
  deletedAt : y.deletedAt = x.deletedAt

structure SameOrder (x y : BillingOrderRecord) : Prop where
  id : y.id = x.id
  userId : y.userId = x.userId
  provider : y.provider = x.provider
  externalTransactionId : y.externalTransactionId = x.externalTransactionId
  originalTransactionId : y.originalTransactionId = x.originalTransactionId
  entitlementGrantId : y.entitlementGrantId = x.entitlementGrantId

/-- The grant, which becomes active only where `a` allows it. -/
structure SameGrant (a : GrantId → Prop) (x y : EntitlementGrantRecord) : Prop where
  id : y.id = x.id
  billingOrderId : y.billingOrderId = x.billingOrderId
  status : y.status = .active → x.status = .active ∨ a x.id

structure SameSubscription (x y : AppleSubscriptionRecord) : Prop where
  originalTransactionId : y.originalTransactionId = x.originalTransactionId
  userId : y.userId = x.userId
  currentTransactionId : y.currentTransactionId = x.currentTransactionId

theorem SameUser.refl (x : UserRecord) : SameUser x x := ⟨rfl, rfl⟩

theorem SameOrder.refl (x : BillingOrderRecord) : SameOrder x x := ⟨rfl, rfl, rfl, rfl, rfl, rfl⟩

variable {a : GrantId → Prop}

theorem SameGrant.refl (x : EntitlementGrantRecord) : SameGrant a x x :=
  ⟨rfl, rfl, Or.inl⟩

theorem SameSubscription.refl (x : AppleSubscriptionRecord) : SameSubscription x x :=
  ⟨rfl, rfl, rfl⟩

theorem SameOrder.inFamily {x y : BillingOrderRecord} (h : SameOrder x y) (f : TransactionId) :
    inFamily f y = inFamily f x := by
  unfold Auth.Apple.inFamily
  rw [h.provider, h.originalTransactionId]

/-- The rows of `l'` are those of `l`, rewritten; only grants in `a` become active. -/
structure Keeps (a : GrantId → Prop) (l l' : AppleLedger) : Prop where
  users : l.users.Rewrites SameUser l'.users
  orders : l.orders.Rewrites SameOrder l'.orders
  grants : l.grants.Rewrites (SameGrant a) l'.grants
  subscriptions : l.subscriptions.Rewrites SameSubscription l'.subscriptions

/-- No grant becomes active. -/
abbrev KeepsAll : AppleLedger → AppleLedger → Prop := Keeps fun _ => False

theorem Keeps.refl (l : AppleLedger) : Keeps a l l :=
  ⟨.refl .refl _, .refl .refl _, .refl .refl _, .refl .refl _⟩

theorem Keeps.trans {l'' : AppleLedger} (h : Keeps a l l') (h' : Keeps a l' l'') : Keeps a l l'' where
  users := h.users.trans (fun _ _ _ h h' => ⟨h'.id.trans h.id, h'.deletedAt.trans h.deletedAt⟩)
    h'.users
  orders := h.orders.trans (fun _ _ _ h h' => ⟨h'.id.trans h.id, h'.userId.trans h.userId,
    h'.provider.trans h.provider, h'.externalTransactionId.trans h.externalTransactionId,
    h'.originalTransactionId.trans h.originalTransactionId,
    h'.entitlementGrantId.trans h.entitlementGrantId⟩) h'.orders
  grants := h.grants.trans (fun x y z h h' => ⟨h'.id.trans h.id,
    h'.billingOrderId.trans h.billingOrderId, fun hz => by
      rcases h'.status hz with hy | ha
      · exact h.status hy
      · exact Or.inr (h.id ▸ ha)⟩) h'.grants
  subscriptions := h.subscriptions.trans (fun _ _ _ h h' =>
    ⟨h'.originalTransactionId.trans h.originalTransactionId, h'.userId.trans h.userId,
      h'.currentTransactionId.trans h.currentTransactionId⟩) h'.subscriptions

theorem Keeps.mono {b : GrantId → Prop} (hab : ∀ id, a id → b id) (h : Keeps a l l') : Keeps b l l' :=
  ⟨h.users, h.orders, h.grants.mono fun _ _ h => ⟨h.id, h.billingOrderId, fun hy =>
    (h.status hy).imp_right (hab _)⟩, h.subscriptions⟩

theorem SameUser.key (x y : UserRecord) (h : SameUser x y) : HasKey.key y = HasKey.key x := h.id

theorem SameOrder.key (x y : BillingOrderRecord) (h : SameOrder x y) :
    HasKey.key y = HasKey.key x := h.id

theorem SameGrant.key (x y : EntitlementGrantRecord) (h : SameGrant a x y) :
    HasKey.key y = HasKey.key x := h.id

theorem SameSubscription.key (x y : AppleSubscriptionRecord) (h : SameSubscription x y) :
    HasKey.key y = HasKey.key x := h.originalTransactionId

theorem Keeps.subscription (h : Keeps a l l') {s : AppleSubscriptionRecord} (hs : l.subscriptions.get? f = some s) :
    ∃ s', l'.subscriptions.get? f = some s' ∧ SameSubscription s s' :=
  h.subscriptions.get?_some SameSubscription.key hs

/-- The subscription of `l'` is one of `l`. -/
theorem Keeps.subscription_old (h : Keeps a l l') {s' : AppleSubscriptionRecord}
    (hs : l'.subscriptions.get? f = some s') : ∃ s, l.subscriptions.get? f = some s ∧ SameSubscription s s' := by
  obtain ⟨s, hm, hss⟩ := h.subscriptions.old (Table.mem_of_get? hs)
  have hk : HasKey.key s = f := (SameSubscription.key _ _ hss).symm.trans (Table.key_of_get? hs)
  exact ⟨s, Table.get?_eq_some.mpr ⟨hm, hk⟩, hss⟩

theorem Keeps.current (h : Keeps a l l') {order' : BillingOrderRecord} (ho : SameOrder order order')
    (hc : Current l f order) : Current l' f order' := by
  obtain ⟨s, hs, hext⟩ := hc
  obtain ⟨s', hs', hss⟩ := h.subscription hs
  refine ⟨s', hs', ?_⟩
  rw [ho.externalTransactionId, hss.currentTransactionId, hext]

/-- Rewriting rows keeps the invariant if the grants that become active are of current
transactions. -/
theorem FamilyInv.keeps (h : FamilyInv l) (hk : Keeps a l l')
    (ha : ∀ f, ∀ order ∈ l.orders, ∀ grant ∈ l.grants, inFamily f order = true →
      order.entitlementGrantId = some grant.id → a grant.id → Current l f order) :
    FamilyInv l' where
  pointed f order' ho' grant' hg' hf hp hactive := by
    obtain ⟨order, ho, hoo⟩ := hk.orders.old ho'
    obtain ⟨grant, hg, hgg⟩ := hk.grants.old hg'
    have hf0 : inFamily f order = true := (hoo.inFamily f).symm.trans hf
    have hp0 : order.entitlementGrantId = some grant.id := by
      rw [← hoo.entitlementGrantId, hp, hgg.id]
    refine hk.current hoo ?_
    rcases hgg.status hactive with hact | hact
    · exact h.pointed f order ho grant hg hf0 hp0 hact
    · exact ha f order ho grant hg hf0 hp0 hact
  transactions x' hx' y' hy' hpx hpy hext := by
    obtain ⟨x, hx, hxx⟩ := hk.orders.old hx'
    obtain ⟨y, hy, hyy⟩ := hk.orders.old hy'
    have hxy : x = y := h.transactions x hx y hy (hxx.provider.symm.trans hpx)
      (hyy.provider.symm.trans hpy) (by
        rw [← hxx.externalTransactionId, ← hyy.externalTransactionId, hext])
    exact Table.eq_of_key hx' hy' (by rw [hxx.key, hyy.key, hxy])
  identified x' hx' hp := by
    obtain ⟨x, hx, hxx⟩ := hk.orders.old hx'
    rw [hxx.externalTransactionId]
    exact h.identified x hx (hxx.provider.symm.trans hp)
  linked x' hx' g' hg' hp := by
    obtain ⟨x, hx, hxx⟩ := hk.orders.old hx'
    obtain ⟨g, hg, hgg⟩ := hk.grants.old hg'
    rw [hxx.entitlementGrantId, hgg.id, hgg.billingOrderId, hxx.id]
    exact h.linked x hx g hg (hxx.provider.symm.trans hp)
  subscribed f x' hx' hf := by
    obtain ⟨x, hx, hxx⟩ := hk.orders.old hx'
    obtain ⟨s, hs, hu⟩ := h.subscribed f x hx ((hxx.inFamily f).symm.trans hf)
    obtain ⟨s', hs', hss⟩ := hk.subscription hs
    exact ⟨s', hs', by rw [hss.userId, hxx.userId, hu]⟩
  current f s' hs' := by
    obtain ⟨s, hs, hss⟩ := hk.subscription_old hs'
    obtain ⟨x, hx, hf, hext⟩ := h.current f s hs
    obtain ⟨x', hx', hxx⟩ := hk.orders.new hx
    refine ⟨x', hx', (hxx.inFamily f).trans hf, ?_⟩
    rw [hxx.externalTransactionId, hss.currentTransactionId, hext]
  owners f x' hx' hf hne := by
    obtain ⟨x, hx, hxx⟩ := hk.orders.old hx'
    rw [hxx.entitlementGrantId] at hne
    obtain ⟨u, hu, hlive⟩ := h.owners f x hx ((hxx.inFamily f).symm.trans hf) hne
    obtain ⟨u', hu', huu⟩ := hk.users.get?_some SameUser.key hu
    exact ⟨u', by rw [hxx.userId, hu'], huu.deletedAt.trans hlive⟩
  foreign x' hx' hp := by
    obtain ⟨x, hx, hxx⟩ := hk.orders.old hx'
    rw [hxx.originalTransactionId]
    exact h.foreign x hx fun he => hp (hxx.provider.trans he)

theorem FamilyInv.keepsAll (h : FamilyInv l) (hk : KeepsAll l l') : FamilyInv l' :=
  h.keeps hk fun _ _ _ _ _ _ _ ha => ha.elim

/-- The same where the grant that becomes active is that of one order. -/
theorem FamilyInv.keepsActivating (h : FamilyInv l) (ho : order ∈ l.orders) (hp : order.provider = .appleIap)
    (hcur : ∀ f ∈ order.originalTransactionId, Current l f order)
    (hk : Keeps (fun id => order.entitlementGrantId = some id) l l') : FamilyInv l' := by
  refine h.keeps hk ?_
  intro f o hom grant hg hf hgrant ha
  -- a grant has one Apple order
  have hlink := (h.linked o hom grant hg (inFamily_iff.mp hf).1).mp hgrant
  have hlink' := (h.linked order ho grant hg hp).mp ha
  have hid : o.id = order.id := Option.some.inj (hlink.symm.trans hlink')
  have heq : o = order := Table.eq_of_key hom ho hid
  rw [heq] at hf ⊢
  exact hcur f (inFamily_iff.mp hf).2

/-! ### New orders and grants -/

/-- No grant of the family is active. -/
def Idle (l : AppleLedger) (f : TransactionId) : Prop :=
  ∀ order ∈ l.orders, ∀ grant ∈ l.grants, inFamily f order = true →
    order.entitlementGrantId = some grant.id → grant.status ≠ .active

/-- The subscriptions of `l'` are those of `l`, but that of `f` is `s`. -/
structure Moved (t t' : Table AppleSubscriptionRecord) (f : TransactionId)
    (s : AppleSubscriptionRecord) : Prop where
  self : t'.get? f = some s
  others : ∀ k, k ≠ f → t'.get? k = t.get? k

/-- The identifiers are not used. -/
structure FreshIn (l : AppleLedger) (ids : PlanChangeIds) : Prop where
  order : l.orders.Fresh ids.order
  grant : l.grants.Fresh ids.grant
  billing : ∀ g ∈ l.grants.rows, g.billingOrderId ≠ some ids.order
  entitlement : ∀ o ∈ l.orders.rows, o.entitlementGrantId ≠ some ids.grant

instance (l : AppleLedger) (ids : PlanChangeIds) : Decidable (FreshIn l ids) :=
  decidable_of_iff (l.orders.Fresh ids.order ∧ l.grants.Fresh ids.grant ∧
      (∀ g ∈ l.grants.rows, g.billingOrderId ≠ some ids.order) ∧
      ∀ o ∈ l.orders.rows, o.entitlementGrantId ≠ some ids.grant)
    ⟨fun ⟨a, b, c, d⟩ => ⟨a, b, c, d⟩, fun ⟨a, b, c, d⟩ => ⟨a, b, c, d⟩⟩

/-- Rewritten rows leave fresh identifiers fresh. -/
theorem FreshIn.keeps {ids : PlanChangeIds} (h : FreshIn l ids) (hk : Keeps a l l') : FreshIn l' ids where
  order := hk.orders.fresh SameOrder.key h.order
  grant := hk.grants.fresh SameGrant.key h.grant
  billing g hg he := by
    obtain ⟨x, hx, hxg⟩ := hk.grants.old hg
    exact h.billing x hx (hxg.billingOrderId.symm.trans he)
  entitlement o ho he := by
    obtain ⟨x, hx, hxo⟩ := hk.orders.old ho
    exact h.entitlement x hx (hxo.entitlementGrantId.symm.trans he)

/-- `order` can be added, with `subs` for the subscriptions: its transaction is new, and becomes the
current one of a family that has no active grant and, if it has a subscription, the same owner. -/
structure Addable (l : AppleLedger) (order : BillingOrderRecord)
    (subs : Table AppleSubscriptionRecord) : Prop where
  fresh : l.orders.Fresh order.id
  provider : order.provider = .appleIap
  identified : order.externalTransactionId.isSome
  new : ∀ o ∈ l.orders, o.provider = .appleIap →
    o.externalTransactionId ≠ order.externalTransactionId
  unlinked : ∀ g ∈ l.grants, order.entitlementGrantId ≠ some g.id ∧ g.billingOrderId ≠ some order.id
  owner : order.entitlementGrantId ≠ none →
    ∃ user, l.users.get? order.userId = some user ∧ user.deletedAt = none
  alone : order.originalTransactionId = none → subs = l.subscriptions
  joins : ∀ f, order.originalTransactionId = some f → Idle l f ∧
    (∀ s, l.subscriptions.get? f = some s → s.userId = order.userId) ∧
    ∃ s, Moved l.subscriptions subs f s ∧ s.userId = order.userId ∧
      order.externalTransactionId = some s.currentTransactionId

/-- The subscription of another family is as before. -/
theorem Addable.others {subs : Table AppleSubscriptionRecord} (h : Addable l order subs)
    (hf : order.originalTransactionId ≠ some f) : subs.get? f = l.subscriptions.get? f := by
  rcases ho : order.originalTransactionId with _ | g
  · rw [h.alone ho]
  · obtain ⟨-, -, s, hmoved, -⟩ := h.joins g ho
    exact hmoved.others f fun he => hf (by rw [ho, he])

theorem FamilyInv.addOrder (h : FamilyInv l) {subs : Table AppleSubscriptionRecord} (ha : Addable l order subs) :
    FamilyInv { l with orders := l.orders.insert order, subscriptions := subs } := by
  have hmem : ∀ {o}, o ∈ l.orders.insert order ↔ o ∈ l.orders ∨ o = order :=
    Table.mem_insert ha.fresh
  have hself : ∀ f, inFamily f order = true ↔ order.originalTransactionId = some f := fun f =>
    inFamily_iff.trans ⟨And.right, fun hf => ⟨ha.provider, hf⟩⟩
  constructor
  · intro f o ho grant hg hf hp hactive
    rcases hmem.mp ho with ho | rfl
    · have hne : order.originalTransactionId ≠ some f := fun he =>
        (ha.joins f he).1 o ho grant hg hf hp hactive
      obtain ⟨s, hs, hext⟩ := h.pointed f o ho grant hg hf hp hactive
      exact ⟨s, (ha.others hne).trans hs, hext⟩
    · exact absurd hp (ha.unlinked grant hg).1
  · intro x hx y hy hpx hpy hext
    rcases hmem.mp hx with hx' | rfl
    · rcases hmem.mp hy with hy' | rfl
      · exact h.transactions x hx' y hy' hpx hpy hext
      · exact absurd hext (ha.new x hx' hpx)
    · rcases hmem.mp hy with hy' | rfl
      · exact absurd hext.symm (ha.new y hy' hpy)
      · rfl
  · intro x hx hp
    rcases hmem.mp hx with hx | rfl
    · exact h.identified x hx hp
    · exact ha.identified
  · intro x hx grant hg hp
    rcases hmem.mp hx with hx | rfl
    · exact h.linked x hx grant hg hp
    · have hu := ha.unlinked grant hg
      exact ⟨fun he => absurd he hu.1, fun he => absurd he hu.2⟩
  · intro f x hx hf
    rcases hmem.mp hx with hx | rfl
    · obtain ⟨s, hs, hu⟩ := h.subscribed f x hx hf
      by_cases he : order.originalTransactionId = some f
      · obtain ⟨-, hsame, s', hmoved, hu', -⟩ := ha.joins f he
        exact ⟨s', hmoved.self, by rw [hu', ← hsame s hs, hu]⟩
      · exact ⟨s, (ha.others he).trans hs, hu⟩
    · obtain ⟨-, -, s', hmoved, hu', -⟩ := ha.joins f ((hself f).mp hf)
      exact ⟨s', hmoved.self, hu'⟩
  · intro f s hs
    by_cases he : order.originalTransactionId = some f
    · obtain ⟨-, -, s', hmoved, -, hext⟩ := ha.joins f he
      have hss : s' = s := Option.some.inj (hmoved.self.symm.trans hs)
      exact ⟨order, hmem.mpr (Or.inr rfl), (hself f).mpr he, hss ▸ hext⟩
    · obtain ⟨x, hx, hf, hext⟩ := h.current f s ((ha.others he).symm.trans hs)
      exact ⟨x, hmem.mpr (Or.inl hx), hf, hext⟩
  · intro f x hx hf hne
    rcases hmem.mp hx with hx | rfl
    · exact h.owners f x hx hf hne
    · exact ha.owner hne
  · intro x hx hp
    rcases hmem.mp hx with hx | rfl
    · exact h.foreign x hx hp
    · exact absurd ha.provider hp

/-- The grant of an order that waits for it, of a current transaction. -/
theorem FamilyInv.addGrant (h : FamilyInv l) {grant : EntitlementGrantRecord}
    (hfresh : l.grants.Fresh grant.id)
    (hlinked : ∀ o ∈ l.orders, o.provider = .appleIap →
      (o.entitlementGrantId = some grant.id ↔ grant.billingOrderId = some o.id))
    (hcur : ∀ f, ∀ o ∈ l.orders, inFamily f o = true → o.entitlementGrantId = some grant.id →
      Current l f o) :
    FamilyInv { l with grants := l.grants.insert grant } := by
  have hmem : ∀ {g}, g ∈ l.grants.insert grant ↔ g ∈ l.grants ∨ g = grant :=
    Table.mem_insert hfresh
  refine { h with pointed := ?_, linked := ?_ }
  · intro f o ho g hg hf hp hactive
    rcases hmem.mp hg with hg | rfl
    · exact h.pointed f o ho g hg hf hp hactive
    · exact hcur f o ho hf hp
  · intro o ho g hg hp
    rcases hmem.mp hg with hg | rfl
    · exact h.linked o ho g hg hp
    · exact hlinked o ho hp

/-- A transaction is taken: from `l` the family's grants were superseded, which gave `l2`; then its
order and its grant are added, and its family has the subscriptions `subs`. -/
structure Take (l l2 : AppleLedger) (ids : PlanChangeIds) (next : TransactionId)
    (order : BillingOrderRecord) (grant : EntitlementGrantRecord)
    (subs : Table AppleSubscriptionRecord) : Prop where
  fresh : FreshIn l ids
  orders : l2.orders = l.orders
  subscriptions : l2.subscriptions = l.subscriptions
  order_id : order.id = ids.order
  provider : order.provider = .appleIap
  transaction : order.externalTransactionId = some next
  granted : order.entitlementGrantId = some ids.grant
  grant_id : grant.id = ids.grant
  billing : grant.billingOrderId = some ids.order
  new : ∀ o ∈ l.orders, o.provider = .appleIap → o.externalTransactionId ≠ some next
  live : ∃ user, l.users.get? order.userId = some user ∧ user.deletedAt = none
  alone : order.originalTransactionId = none → subs = l.subscriptions
  joins : ∀ f, order.originalTransactionId = some f → Idle l2 f ∧
    (∀ s, l.subscriptions.get? f = some s → s.userId = order.userId) ∧
    ∃ s, Moved l.subscriptions subs f s ∧ s.userId = order.userId ∧ next = s.currentTransactionId

theorem FamilyInv.take {l2 : AppleLedger} {ids : PlanChangeIds} {next : TransactionId}
    {grant : EntitlementGrantRecord} {subs : Table AppleSubscriptionRecord} (h : FamilyInv l) (hk : KeepsAll l l2)
    (ht : Take l l2 ids next order grant subs) :
    FamilyInv { l2 with
      orders := l.orders.insert order
      grants := l2.grants.insert grant
      subscriptions := subs } := by
  have hfresh := ht.fresh.keeps hk
  have ha : Addable l2 order subs := by
    refine ⟨?_, ht.provider, ?_, ?_, ?_, ?_, ?_, ?_⟩
    · rw [ht.order_id]; exact hfresh.order
    · rw [ht.transaction]; rfl
    · intro o ho hp
      rw [ht.transaction]
      exact ht.new o (ht.orders ▸ ho) hp
    · intro g hg
      rw [ht.granted, ht.order_id]
      exact ⟨fun he => hfresh.grant g hg (Option.some.inj he).symm, hfresh.billing g hg⟩
    · intro _
      obtain ⟨u, hu, hlive⟩ := ht.live
      obtain ⟨u', hu', huu⟩ := hk.users.get?_some SameUser.key hu
      exact ⟨u', hu', huu.deletedAt.trans hlive⟩
    · rw [ht.subscriptions]; exact ht.alone
    · intro f hf
      obtain ⟨hidle, hsame, s, hmoved, hu, hnext⟩ := ht.joins f hf
      rw [ht.subscriptions, ht.transaction, hnext]
      exact ⟨hidle, hsame, s, hmoved, hu, rfl⟩
  have hmem : ∀ {o}, o ∈ l2.orders.insert order ↔ o ∈ l2.orders ∨ o = order :=
    Table.mem_insert ha.fresh
  have hunused : ∀ o ∈ l2.orders, o.entitlementGrantId ≠ some grant.id := by
    intro o ho
    rw [ht.grant_id]
    exact hfresh.entitlement o ho
  have hgrant : l2.grants.Fresh grant.id := by rw [ht.grant_id]; exact hfresh.grant
  rw [← ht.orders]
  refine ((h.keepsAll hk).addOrder ha).addGrant hgrant ?_ ?_
  · intro o ho _
    rcases hmem.mp ho with ho | rfl
    · refine ⟨fun he => absurd he (hunused o ho), fun he => ?_⟩
      rw [ht.billing, ← ht.order_id] at he
      exact absurd (Option.some.inj he).symm (ha.fresh o ho)
    · rw [ht.granted, ht.grant_id, ht.billing, ht.order_id]
      exact ⟨fun _ => rfl, fun _ => rfl⟩
  · intro f o ho hf hp
    rcases hmem.mp ho with ho | rfl
    · exact absurd hp (hunused o ho)
    · obtain ⟨-, -, s, hmoved, -, hext⟩ := ha.joins f (inFamily_iff.mp hf).2
      exact ⟨s, hmoved.self, hext⟩

end OwnMinutes.Apple.Family
