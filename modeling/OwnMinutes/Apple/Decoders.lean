import OwnMinutes.Lib.JsText
import Mathlib.Data.Rat.Floor

/-! # The two decoders of an Apple notification

`previewAppleNotificationSignedPayload` and `verifyAppleNotificationSignedPayload` of `apple-iap.ts` read the
same decoded records. The first lists the fields of the transaction one by one; the second spreads the preview
of the renewal over that of the transaction, and a field that the renewal does not have is still one of the
spread. They agree exactly where the transaction and the renewal have the same product, family and offer
(`SameFields`). A decoder that throws gives no preview. -/

namespace OwnMinutes.Apple.Decoders

open OwnMinutes.Lib

/-! ### Values -/

/-- A number of JSON as it is read: too large ones are infinite. -/
inductive JsonNumber
  | finite (value : ℚ)
  | infinite
  deriving DecidableEq

inductive Json
  | null
  | bool (value : Bool)
  | number (value : JsonNumber)
  | string (value : String)
  | array (items : List Json)
  | object (fields : List (String × Json))

/-- The fields of a decoded record. -/
abbrev JsonRecord := String → Option Json

def stringValue : Option Json → Option String
  | some (.string value) => some value
  | _ => none

def numberValue : Option Json → Option ℚ
  | some (.number (.finite value)) => some value
  | _ => none

def booleanValue : Option Json → Option Bool
  | some (.bool value) => some value
  | _ => none

/-- `left || right` -/
def stringOr (left right : Option String) : Option String :=
  match left with
  | some value => if value = "" then right else some value
  | none => right

/-! ### Dates -/

/-- Year, month and day of a day counted from 1970. -/
def civilOfDays (days : ℤ) : ℤ × ℤ × ℤ :=
  let z := days + 719468
  let era := z / 146097
  let doe := z % 146097
  let yoe := (doe - doe / 1460 + doe / 36524 - doe / 146096) / 365
  let doy := doe - (365 * yoe + yoe / 4 - yoe / 100)
  let mp := (5 * doy + 2) / 153
  let day := doy - (153 * mp + 2) / 5 + 1
  let month := if mp < 10 then mp + 3 else mp - 9
  (yoe + era * 400 + (if month ≤ 2 then 1 else 0), month, day)

def padded (width : ℕ) (n : ℕ) : List Char :=
  let digits := Nat.toDigits 10 n
  List.replicate (width - digits.length) '0' ++ digits

def yearText (year : ℤ) : List Char :=
  if 0 ≤ year ∧ year ≤ 9999 then padded 4 year.toNat
  else (if year < 0 then '-' else '+') :: padded 6 year.natAbs

/-- `new Date(value).toISOString()`, which throws beyond the range of times. -/
def isoDate (value : ℚ) : Option String :=
  if |value| ≤ 8640000000000000 then
    let ms := if 0 ≤ value then ⌊value⌋ else ⌈value⌉
    let (year, month, day) := civilOfDays (ms / 86400000)
    let time := (ms % 86400000).toNat
    some (String.ofList (yearText year ++ '-' :: padded 2 month.toNat ++ '-' :: padded 2 day.toNat ++
      'T' :: padded 2 (time / 3600000) ++ ':' :: padded 2 (time / 60000 % 60) ++
      ':' :: padded 2 (time / 1000 % 60) ++ '.' :: padded 3 (time % 1000) ++ ['Z']))
  else none

/-- `appleDateValue`: nothing where it throws. -/
def appleDateValue : Option Json → Option (Option String)
  | some (.string value) => some (if JsText.trim value.toList = [] then none else some value)
  | some (.number (.finite value)) => (isoDate value).map some
  | _ => some none

/-! ### Previews -/

structure AppleIapNotificationPreview where
  appAccountToken : Option String := none
  autoRenewStatus : Option Bool := none
  bundleId : Option String := none
  currency : Option String := none
  environment : Option String := none
  expiresDate : Option String := none
  graceExpiresDate : Option String := none
  isInBillingRetryPeriod : Option Bool := none
  isUpgraded : Option Bool := none
  notificationType : Option String := none
  offerDiscountType : Option String := none
  offerIdentifier : Option String := none
  offerType : Option ℚ := none
  originalPurchaseDate : Option String := none
  price : Option ℚ := none
  subtype : Option String := none
  purchaseDate : Option String := none
  revocationDate : Option String := none
  signedDate : Option String := none
  status : Option ℚ := none
  storefront : Option String := none
  transactionId : Option String := none
  originalTransactionId : Option String := none
  productId : Option String := none
  deriving DecidableEq

/-- A notification with its signed parts decoded; the environment and the bundle of its data are strings. -/
structure Notification where
  payload : JsonRecord
  environment : String
  bundleId : String
  status : Option Json
  signedTransaction : Option JsonRecord
  signedRenewal : Option JsonRecord

/-- The fields of the transaction, none where there is no transaction. -/
def Notification.transaction (n : Notification) : JsonRecord := n.signedTransaction.getD fun _ => none

def Notification.renewal (n : Notification) : JsonRecord := n.signedRenewal.getD fun _ => none

def decodeAppleTransactionPreview (transaction : JsonRecord) : Option AppleIapNotificationPreview := do
  let expiresDate ← appleDateValue (transaction "expiresDate")
  let originalPurchaseDate ← appleDateValue (transaction "originalPurchaseDate")
  let purchaseDate ← appleDateValue (transaction "purchaseDate")
  let revocationDate ← appleDateValue (transaction "revocationDate")
  let signedDate ← appleDateValue (transaction "signedDate")
  return {
    appAccountToken := stringValue (transaction "appAccountToken")
    bundleId := stringValue (transaction "bundleId")
    currency := stringValue (transaction "currency")
    environment := stringValue (transaction "environment")
    expiresDate := expiresDate
    isUpgraded := booleanValue (transaction "isUpgraded")
    offerDiscountType := stringValue (transaction "offerDiscountType")
    offerIdentifier := stringValue (transaction "offerIdentifier")
    offerType := numberValue (transaction "offerType")
    originalPurchaseDate := originalPurchaseDate
    originalTransactionId := stringValue (transaction "originalTransactionId")
    price := numberValue (transaction "price")
    productId := stringValue (transaction "productId")
    purchaseDate := purchaseDate
    revocationDate := revocationDate
    signedDate := signedDate
    storefront := stringValue (transaction "storefront")
    transactionId := stringValue (transaction "transactionId") }

def decodeAppleRenewalPreview (renewal : JsonRecord) : Option AppleIapNotificationPreview := do
  let graceExpiresDate ← appleDateValue (renewal "gracePeriodExpiresDate")
  let signedDate ← appleDateValue (renewal "signedDate")
  return {
    appAccountToken := stringValue (renewal "appAccountToken")
    autoRenewStatus := (numberValue (renewal "autoRenewStatus")).map fun status => status = 1
    currency := stringValue (renewal "currency")
    environment := stringValue (renewal "environment")
    graceExpiresDate := graceExpiresDate
    isInBillingRetryPeriod := booleanValue (renewal "isInBillingRetryPeriod")
    offerDiscountType := stringValue (renewal "offerDiscountType")
    offerIdentifier := stringValue (renewal "offerIdentifier")
    offerType := numberValue (renewal "offerType")
    originalTransactionId := stringValue (renewal "originalTransactionId")
    productId := stringValue (renewal "productId")
    signedDate := signedDate }

/-- `{ ...transactionPreview, ...renewalPreview }`: the renewal's preview has these twelve keys, with a value or
without. -/
def spreadRenewal (transactionPreview renewalPreview : AppleIapNotificationPreview) : AppleIapNotificationPreview :=
  { transactionPreview with
    appAccountToken := renewalPreview.appAccountToken
    autoRenewStatus := renewalPreview.autoRenewStatus
    currency := renewalPreview.currency
    environment := renewalPreview.environment
    graceExpiresDate := renewalPreview.graceExpiresDate
    isInBillingRetryPeriod := renewalPreview.isInBillingRetryPeriod
    offerDiscountType := renewalPreview.offerDiscountType
    offerIdentifier := renewalPreview.offerIdentifier
    offerType := renewalPreview.offerType
    originalTransactionId := renewalPreview.originalTransactionId
    productId := renewalPreview.productId
    signedDate := renewalPreview.signedDate }

/-! ### The decoders -/

def previewAppleNotificationSignedPayload (n : Notification) : Option AppleIapNotificationPreview := do
  let renewalPreview ← decodeAppleRenewalPreview n.renewal
  let purchaseDate ← appleDateValue (n.transaction "purchaseDate")
  let originalPurchaseDate ← appleDateValue (n.transaction "originalPurchaseDate")
  let expiresDate ← appleDateValue (n.transaction "expiresDate")
  let revocationDate ← appleDateValue (n.transaction "revocationDate")
  let signedDate ← appleDateValue (n.payload "signedDate")
  return { renewalPreview with
    appAccountToken := stringOr (stringValue (n.transaction "appAccountToken")) renewalPreview.appAccountToken
    currency := stringOr (stringValue (n.transaction "currency")) renewalPreview.currency
    notificationType := stringValue (n.payload "notificationType")
    subtype := stringValue (n.payload "subtype")
    environment := some n.environment
    bundleId := some n.bundleId
    isUpgraded := booleanValue (n.transaction "isUpgraded")
    offerDiscountType := stringValue (n.transaction "offerDiscountType")
    offerIdentifier := stringValue (n.transaction "offerIdentifier")
    offerType := numberValue (n.transaction "offerType")
    transactionId := stringValue (n.transaction "transactionId")
    originalTransactionId := stringValue (n.transaction "originalTransactionId")
    productId := stringValue (n.transaction "productId")
    price := numberValue (n.transaction "price")
    purchaseDate := purchaseDate
    originalPurchaseDate := originalPurchaseDate
    expiresDate := expiresDate
    revocationDate := revocationDate
    signedDate := signedDate
    status := numberValue n.status
    storefront := stringValue (n.transaction "storefront") }

structure VerifiedAppleIapNotification where
  notificationUUID : Option Json
  preview : AppleIapNotificationPreview
  signedDate : Option String

/-- What is made of a notification that a verifier accepts. -/
def decodeVerified (n : Notification) : Option VerifiedAppleIapNotification := do
  let transactionPreview ← decodeAppleTransactionPreview n.transaction
  let renewalPreview ← decodeAppleRenewalPreview n.renewal
  let signedDate ← appleDateValue (n.payload "signedDate")
  return {
    notificationUUID := n.payload "notificationUUID"
    signedDate := signedDate
    preview := { spreadRenewal transactionPreview renewalPreview with
      appAccountToken := stringOr transactionPreview.appAccountToken renewalPreview.appAccountToken
      currency := stringOr transactionPreview.currency renewalPreview.currency
      notificationType := stringValue (n.payload "notificationType")
      subtype := stringValue (n.payload "subtype")
      signedDate := signedDate
      status := numberValue n.status
      environment := stringOr (some n.environment) transactionPreview.environment
      bundleId := stringOr (some n.bundleId) transactionPreview.bundleId } }

/-- The verifier of an environment: it may have no configuration, and it rejects what is not signed for it. -/
inductive EnvironmentVerifier
  | unconfigured
  | rejects
  | accepts
  deriving DecidableEq

/-- The environments in turn, until one gives a notification. -/
def verifyAppleNotificationSignedPayload (n : Notification) :
    List EnvironmentVerifier → Option VerifiedAppleIapNotification
  | [] => none
  | .accepts :: environments =>
    (decodeVerified n).orElse fun _ => verifyAppleNotificationSignedPayload n environments
  | .rejects :: environments => verifyAppleNotificationSignedPayload n environments
  | .unconfigured :: environments => verifyAppleNotificationSignedPayload n environments

variable {n : Notification} {environments : List EnvironmentVerifier}

theorem verify_eq_none (h : decodeVerified n = none) : verifyAppleNotificationSignedPayload n environments = none := by
  induction environments with
  | nil => rfl
  | cons environment environments ih =>
    cases environment with
    | unconfigured | rejects => exact ih
    | accepts =>
      unfold verifyAppleNotificationSignedPayload
      rw [h]
      exact ih

theorem verify_of_accepts (h : .accepts ∈ environments) :
    verifyAppleNotificationSignedPayload n environments = decodeVerified n := by
  cases hdecoded : decodeVerified n with
  | none => exact verify_eq_none hdecoded
  | some verified =>
    induction environments with
    | nil => cases h
    | cons environment environments ih =>
      cases environment with
      | unconfigured =>
        have hrest : .accepts ∈ environments := by simpa using h
        exact ih hrest
      | rejects =>
        have hrest : .accepts ∈ environments := by simpa using h
        exact ih hrest
      | accepts =>
        unfold verifyAppleNotificationSignedPayload
        rw [hdecoded]
        rfl

/-! ### Dates that can be read -/

/-- The value is no number beyond the range of times. -/
def DateReads (value : Option Json) : Prop := (appleDateValue value).isSome

instance (value : Option Json) : Decidable (DateReads value) := inferInstanceAs (Decidable ((appleDateValue value).isSome = true))

/-- The text of a date that can be read. -/
def dateText (value : Option Json) : Option String := (appleDateValue value).join

theorem appleDateValue_of_reads {value : Option Json} (h : DateReads value) :
    appleDateValue value = some (dateText value) := by
  obtain ⟨text, htext⟩ := Option.isSome_iff_exists.mp h
  rw [dateText, htext]
  rfl

/-- The dates that both decoders read. -/
structure DatesRead (n : Notification) : Prop where
  graceExpires : DateReads (n.renewal "gracePeriodExpiresDate")
  renewalSigned : DateReads (n.renewal "signedDate")
  purchase : DateReads (n.transaction "purchaseDate")
  originalPurchase : DateReads (n.transaction "originalPurchaseDate")
  expires : DateReads (n.transaction "expiresDate")
  revocation : DateReads (n.transaction "revocationDate")
  signed : DateReads (n.payload "signedDate")

/-! ### What the decoders give -/

/-- The preview of the first decoder. -/
def listedPreview (n : Notification) : AppleIapNotificationPreview where
  appAccountToken := stringOr (stringValue (n.transaction "appAccountToken"))
    (stringValue (n.renewal "appAccountToken"))
  autoRenewStatus := (numberValue (n.renewal "autoRenewStatus")).map fun status => status = 1
  bundleId := some n.bundleId
  currency := stringOr (stringValue (n.transaction "currency")) (stringValue (n.renewal "currency"))
  environment := some n.environment
  expiresDate := dateText (n.transaction "expiresDate")
  graceExpiresDate := dateText (n.renewal "gracePeriodExpiresDate")
  isInBillingRetryPeriod := booleanValue (n.renewal "isInBillingRetryPeriod")
  isUpgraded := booleanValue (n.transaction "isUpgraded")
  notificationType := stringValue (n.payload "notificationType")
  offerDiscountType := stringValue (n.transaction "offerDiscountType")
  offerIdentifier := stringValue (n.transaction "offerIdentifier")
  offerType := numberValue (n.transaction "offerType")
  originalPurchaseDate := dateText (n.transaction "originalPurchaseDate")
  price := numberValue (n.transaction "price")
  subtype := stringValue (n.payload "subtype")
  purchaseDate := dateText (n.transaction "purchaseDate")
  revocationDate := dateText (n.transaction "revocationDate")
  signedDate := dateText (n.payload "signedDate")
  status := numberValue n.status
  storefront := stringValue (n.transaction "storefront")
  transactionId := stringValue (n.transaction "transactionId")
  originalTransactionId := stringValue (n.transaction "originalTransactionId")
  productId := stringValue (n.transaction "productId")

/-- The preview of the second: six fields come from elsewhere. -/
def spreadPreview (n : Notification) : AppleIapNotificationPreview :=
  { listedPreview n with
    environment := stringOr (some n.environment) (stringValue (n.transaction "environment"))
    bundleId := stringOr (some n.bundleId) (stringValue (n.transaction "bundleId"))
    offerDiscountType := stringValue (n.renewal "offerDiscountType")
    offerIdentifier := stringValue (n.renewal "offerIdentifier")
    offerType := numberValue (n.renewal "offerType")
    originalTransactionId := stringValue (n.renewal "originalTransactionId")
    productId := stringValue (n.renewal "productId") }

theorem preview_of_datesRead (h : DatesRead n) :
    previewAppleNotificationSignedPayload n = some (listedPreview n) := by
  unfold previewAppleNotificationSignedPayload decodeAppleRenewalPreview
  rw [appleDateValue_of_reads h.graceExpires, appleDateValue_of_reads h.renewalSigned,
    appleDateValue_of_reads h.purchase, appleDateValue_of_reads h.originalPurchase,
    appleDateValue_of_reads h.expires, appleDateValue_of_reads h.revocation, appleDateValue_of_reads h.signed]
  rfl

theorem dateReads_of_some {value : Option Json} {text : Option String} (h : appleDateValue value = some text) :
    DateReads value := by
  unfold DateReads
  rw [h]
  rfl

theorem renewal_datesRead {renewal : JsonRecord} {preview : AppleIapNotificationPreview}
    (h : decodeAppleRenewalPreview renewal = some preview) :
    DateReads (renewal "gracePeriodExpiresDate") ∧ DateReads (renewal "signedDate") := by
  obtain ⟨graceExpires, hgraceExpires, h⟩ := Option.bind_eq_some_iff.mp h
  obtain ⟨signed, hsigned, -⟩ := Option.bind_eq_some_iff.mp h
  exact ⟨dateReads_of_some hgraceExpires, dateReads_of_some hsigned⟩

theorem datesRead_of_preview {preview : AppleIapNotificationPreview}
    (h : previewAppleNotificationSignedPayload n = some preview) : DatesRead n := by
  obtain ⟨renewal, hrenewal, h⟩ := Option.bind_eq_some_iff.mp h
  obtain ⟨purchase, hpurchase, h⟩ := Option.bind_eq_some_iff.mp h
  obtain ⟨originalPurchase, horiginalPurchase, h⟩ := Option.bind_eq_some_iff.mp h
  obtain ⟨expires, hexpires, h⟩ := Option.bind_eq_some_iff.mp h
  obtain ⟨revocation, hrevocation, h⟩ := Option.bind_eq_some_iff.mp h
  obtain ⟨signed, hsigned, -⟩ := Option.bind_eq_some_iff.mp h
  have hdates := renewal_datesRead hrenewal
  exact ⟨hdates.1, hdates.2, dateReads_of_some hpurchase, dateReads_of_some horiginalPurchase,
    dateReads_of_some hexpires, dateReads_of_some hrevocation, dateReads_of_some hsigned⟩

theorem preview_eq_none (h : ¬DatesRead n) : previewAppleNotificationSignedPayload n = none := by
  by_contra hsome
  obtain ⟨preview, hpreview⟩ := Option.ne_none_iff_exists'.mp hsome
  exact h (datesRead_of_preview hpreview)

theorem verified_of_datesRead (h : DatesRead n) (hsigned : DateReads (n.transaction "signedDate")) :
    (decodeVerified n).map (·.preview) = some (spreadPreview n) := by
  unfold decodeVerified decodeAppleTransactionPreview decodeAppleRenewalPreview
  rw [appleDateValue_of_reads h.graceExpires, appleDateValue_of_reads h.renewalSigned,
    appleDateValue_of_reads h.purchase, appleDateValue_of_reads h.originalPurchase,
    appleDateValue_of_reads h.expires, appleDateValue_of_reads h.revocation, appleDateValue_of_reads h.signed,
    appleDateValue_of_reads hsigned]
  rfl

theorem datesRead_of_verified {verified : VerifiedAppleIapNotification} (h : decodeVerified n = some verified) :
    DatesRead n ∧ DateReads (n.transaction "signedDate") := by
  obtain ⟨transaction, htransaction, h⟩ := Option.bind_eq_some_iff.mp h
  obtain ⟨renewal, hrenewal, h⟩ := Option.bind_eq_some_iff.mp h
  obtain ⟨signed, hsigned, -⟩ := Option.bind_eq_some_iff.mp h
  obtain ⟨expires, hexpires, htransaction⟩ := Option.bind_eq_some_iff.mp htransaction
  obtain ⟨originalPurchase, horiginalPurchase, htransaction⟩ := Option.bind_eq_some_iff.mp htransaction
  obtain ⟨purchase, hpurchase, htransaction⟩ := Option.bind_eq_some_iff.mp htransaction
  obtain ⟨revocation, hrevocation, htransaction⟩ := Option.bind_eq_some_iff.mp htransaction
  obtain ⟨transactionSigned, htransactionSigned, -⟩ := Option.bind_eq_some_iff.mp htransaction
  have hdates := renewal_datesRead hrenewal
  exact ⟨⟨hdates.1, hdates.2, dateReads_of_some hpurchase, dateReads_of_some horiginalPurchase,
    dateReads_of_some hexpires, dateReads_of_some hrevocation, dateReads_of_some hsigned⟩,
    dateReads_of_some htransactionSigned⟩

/-! ### Where they agree -/

/-- The fields in which the preview shows what the transaction has. -/
structure ShowsTransaction (n : Notification) (preview : AppleIapNotificationPreview) : Prop where
  productId : ∀ value, stringValue (n.transaction "productId") = some value → preview.productId = some value
  originalTransactionId : ∀ value, stringValue (n.transaction "originalTransactionId") = some value →
    preview.originalTransactionId = some value
  offerType : ∀ value, numberValue (n.transaction "offerType") = some value → preview.offerType = some value
  offerIdentifier : ∀ value, stringValue (n.transaction "offerIdentifier") = some value →
    preview.offerIdentifier = some value
  offerDiscountType : ∀ value, stringValue (n.transaction "offerDiscountType") = some value →
    preview.offerDiscountType = some value
  currency : ∀ value, stringValue (n.transaction "currency") = some value → preview.currency = some value

/-- Both decoders give the same preview, and it shows what the transaction has. -/
structure DecodersAgree (environments : List EnvironmentVerifier) (n : Notification) : Prop where
  same : (verifyAppleNotificationSignedPayload n environments).map (·.preview) =
    previewAppleNotificationSignedPayload n
  shows : ∀ verified, verifyAppleNotificationSignedPayload n environments = some verified →
    ShowsTransaction n verified.preview

/-- The renewal has the product, the family and the offer of the transaction, or lacks what it lacks; what the
data leaves empty is empty in the transaction. -/
structure SameFields (n : Notification) : Prop where
  signedDate : DateReads (n.transaction "signedDate")
  productId : stringValue (n.renewal "productId") = stringValue (n.transaction "productId")
  originalTransactionId :
    stringValue (n.renewal "originalTransactionId") = stringValue (n.transaction "originalTransactionId")
  offerType : numberValue (n.renewal "offerType") = numberValue (n.transaction "offerType")
  offerIdentifier : stringValue (n.renewal "offerIdentifier") = stringValue (n.transaction "offerIdentifier")
  offerDiscountType : stringValue (n.renewal "offerDiscountType") = stringValue (n.transaction "offerDiscountType")
  environment : n.environment = "" → stringValue (n.transaction "environment") = some ""
  bundleId : n.bundleId = "" → stringValue (n.transaction "bundleId") = some ""
  currency : stringValue (n.transaction "currency") = some "" → stringValue (n.renewal "currency") = some ""

theorem stringOr_eq_left {value : String} {right : Option String} :
    stringOr (some value) right = some value ↔ (value = "" → right = some "") := by
  unfold stringOr
  by_cases hvalue : value = ""
  · simp [hvalue]
  · simp [hvalue]

/-- The two previews are the same, and show the transaction, exactly where the fields are the same. -/
theorem spreadPreview_agrees (hsigned : DateReads (n.transaction "signedDate")) :
    spreadPreview n = listedPreview n ∧ ShowsTransaction n (spreadPreview n) ↔ SameFields n := by
  constructor
  · rintro ⟨hsame, hshows⟩
    have henvironment := congrArg (·.environment) hsame
    have hbundle := congrArg (·.bundleId) hsame
    refine ⟨hsigned, congrArg (·.productId) hsame, congrArg (·.originalTransactionId) hsame,
      congrArg (·.offerType) hsame, congrArg (·.offerIdentifier) hsame, congrArg (·.offerDiscountType) hsame,
      stringOr_eq_left.mp henvironment, stringOr_eq_left.mp hbundle, fun hempty => ?_⟩
    have hcurrency := hshows.currency "" hempty
    change stringOr (stringValue (n.transaction "currency")) (stringValue (n.renewal "currency")) = some ""
      at hcurrency
    rw [hempty] at hcurrency
    exact stringOr_eq_left.mp hcurrency rfl
  · intro h
    have hsame : spreadPreview n = listedPreview n := by
      unfold spreadPreview
      rw [stringOr_eq_left.mpr h.environment, stringOr_eq_left.mpr h.bundleId, h.productId,
        h.originalTransactionId, h.offerType, h.offerIdentifier, h.offerDiscountType]
      rfl
    refine ⟨hsame, ?_⟩
    rw [hsame]
    refine ⟨fun _ hv => hv, fun _ hv => hv, fun _ hv => hv, fun _ hv => hv, fun _ hv => hv, fun value hv => ?_⟩
    change stringOr (stringValue (n.transaction "currency")) (stringValue (n.renewal "currency")) = some value
    rw [hv]
    refine stringOr_eq_left.mpr fun hempty => h.currency ?_
    rw [hv, hempty]

/-- **Where the decoders agree.** They both throw, or the renewal adds nothing to the transaction. -/
theorem decoders_agree (h : .accepts ∈ environments) :
    DecodersAgree environments n ↔ (DatesRead n → SameFields n) := by
  have hverify := verify_of_accepts (n := n) h
  constructor
  · intro hagree hdates
    have hsame := hagree.same
    rw [hverify, preview_of_datesRead hdates] at hsame
    obtain ⟨verified, hverified, -⟩ := Option.map_eq_some_iff.mp hsame
    have hsigned := (datesRead_of_verified hverified).2
    have hspread := verified_of_datesRead hdates hsigned
    have hpreview : verified.preview = spreadPreview n := by
      rw [hverified] at hspread
      exact Option.some_inj.mp hspread
    rw [hspread] at hsame
    have hshows := hagree.shows verified (hverify.trans hverified)
    rw [hpreview] at hshows
    exact (spreadPreview_agrees hsigned).mp ⟨Option.some_inj.mp hsame, hshows⟩
  · intro hfields
    by_cases hdates : DatesRead n
    · have hsigned := (hfields hdates).signedDate
      have hspread := verified_of_datesRead hdates hsigned
      obtain ⟨hsame, hshows⟩ := (spreadPreview_agrees hsigned).mpr (hfields hdates)
      refine ⟨?_, fun verified hverified => ?_⟩
      · rw [hverify, hspread, preview_of_datesRead hdates, hsame]
      · rw [hverify] at hverified
        rw [hverified] at hspread
        have hpreview : verified.preview = spreadPreview n := Option.some_inj.mp hspread
        rw [hpreview]
        exact hshows
    · have hnone : decodeVerified n = none := by
        by_contra hsome
        obtain ⟨verified, hverified⟩ := Option.ne_none_iff_exists'.mp hsome
        exact hdates (datesRead_of_verified hverified).1
      refine ⟨?_, fun verified hverified => ?_⟩
      · rw [hverify, hnone, preview_eq_none hdates]
        rfl
      · rw [hverify, hnone] at hverified
        cases hverified

/-! ### A notification without renewal info -/

/-- A purchase: its transaction has a product, and nothing else is signed. -/
def purchaseNotification : Notification where
  payload := fun _ => none
  environment := "Sandbox"
  bundleId := "com.ownminutes.app"
  status := none
  signedTransaction := some fun name => if name = "productId" then some (.string "ownminutes.plus.monthly") else none
  signedRenewal := none

/-- The same, with renewal info for the same product. -/
def renewedNotification : Notification :=
  { purchaseNotification with signedRenewal := purchaseNotification.signedTransaction }

theorem decoders_agree_renewed : DecodersAgree [.unconfigured, .accepts] renewedNotification :=
  (decoders_agree (by decide)).mpr fun _ =>
    ⟨by decide, rfl, rfl, rfl, rfl, rfl, by decide, by decide, by decide⟩

/-- The verified preview has no product. -/
theorem decoders_differ : ¬DecodersAgree [.accepts] purchaseNotification := by
  intro hagree
  have hsigned : DateReads (purchaseNotification.transaction "signedDate") := by decide
  have hdates : DatesRead purchaseNotification :=
    ⟨by decide, by decide, by decide, by decide, by decide, by decide, by decide⟩
  have hsame := hagree.same
  rw [verify_of_accepts (List.mem_singleton_self _), preview_of_datesRead hdates,
    verified_of_datesRead hdates hsigned] at hsame
  have hproduct := congrArg (·.productId) (Option.some_inj.mp hsame)
  revert hproduct
  decide

end OwnMinutes.Apple.Decoders
