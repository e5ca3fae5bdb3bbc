import OwnMinutes.Lib.XmlText
import OwnMinutes.ObjectStore.Keys

/-! # Listings of the object store

Three listings follow the markers of their pages until a page is not truncated. They differ in what they ask, in what
they read on a page and in their markers. -/

namespace OwnMinutes.ObjectStore.Listing

open OwnMinutes.ObjectStore.Keys OwnMinutes.Lib.JsText OwnMinutes.Lib.Mentions
open OwnMinutes.Lib.XmlText (tagged between referenceText Node Block write fieldsOf Written)

/-! ### Reading a response -/

/-- The ampersands last, so that `&amp;quot;` is `&quot;`. -/
def decodeXml (value : Text) : Text :=
  replaceAll (referenceText "amp".toList) ['&'] (replaceAll (referenceText "apos".toList) ['\'']
    (replaceAll (referenceText "quot".toList) ['"'] (replaceAll (referenceText "gt".toList) ['>']
      (replaceAll (referenceText "lt".toList) ['<'] value))))

def extractXmlValues (xml tagName : Text) : List Text :=
  (between [tagged tagName] [tagged ('/' :: tagName)] xml.length xml).map decodeXml

/-- `extractXmlValues(xml, tagName)[0] || ""`. -/
def firstXmlValue (xml tagName : Text) : Text := (extractXmlValues xml tagName).head?.getD []

def extractCommonPrefixValues (xml : Text) : List Text :=
  (between [tagged "CommonPrefixes".toList] [tagged "/CommonPrefixes".toList] xml.length xml).flatMap fun block =>
    extractXmlValues block "Prefix".toList

structure StoredObjectVersion where
  key : Text
  versionId : Text
  deriving DecidableEq, Repr

def versionKinds : List Text := ["Version".toList, "DeleteMarker".toList]

def versionOfBlock (block : Text) : Except String StoredObjectVersion :=
  let key := firstXmlValue block "Key".toList
  let versionId := firstXmlValue block "VersionId".toList
  if key = [] ∨ versionId = [] then .error "Object store version listing contained an incomplete entry."
  else .ok ⟨key, versionId⟩

def extractObjectVersions (xml : Text) : Except String (List StoredObjectVersion) :=
  (between (versionKinds.map tagged) ((versionKinds.map ('/' :: ·)).map tagged) xml.length xml).mapM versionOfBlock

/-- `/<root(?:\s|>)/.test(xml)`. -/
def hasRoot (root xml : Text) : Bool :=
  xml.tails.any fun rest =>
    ('<' :: root).isPrefixOf rest && (rest.drop (root.length + 1)).head?.any fun c => isWhiteSpace c || c == '>'

def isTruncated (xml : Text) : Bool :=
  (extractXmlValues xml "IsTruncated".toList).head?.any fun value => (trim value).map Char.toLower == "true".toList

/-! ### The loops -/

/-- The search parameters of a request. -/
abbrev Query := List (String × Text)

/-- What a listing does with items `ι` and markers `μ`. -/
structure Lister (ι μ : Type) where
  query : μ → Query
  root : Text
  items : Text → Except String (List ι)
  /-- The marker for the next page. -/
  next : Text → μ
  missing : μ → Bool
  /-- What is remembered of a marker. -/
  mark : μ → Text
  tooManyPages : String
  invalidResponse : String
  omittedMarker : String
  noProgress : String

variable {ι μ : Type}

/-- The items of a page, and the marker for the next page where there is one. -/
def Lister.readPage (lister : Lister ι μ) (seen : List Text) (xml : Text) : Except String (List ι × Option μ) :=
  if xml = [] then .error "Object store GET returned an empty response body."
  else if hasRoot lister.root xml = false then .error lister.invalidResponse
  else do
    let page ← lister.items xml
    if isTruncated xml = false then pure (page, none)
    else if lister.missing (lister.next xml) then .error lister.omittedMarker
    else if seen.contains (lister.mark (lister.next xml)) then .error lister.noProgress
    else pure (page, some (lister.next xml))

/-- The loop, with some fuel. The response to a request, or the error of the request, may depend on its number. -/
def Lister.run (lister : Lister ι μ) (respond : ℕ → Query → Except String Text) :
    ℕ → ℕ → μ → List Text → List ι → Option (Except String (List ι))
  | 0, _, _, _, _ => none
  | fuel + 1, pages, marker, seen, items =>
    if 10000 < pages + 1 then some (.error lister.tooManyPages)
    else
      match respond (pages + 1) (lister.query marker) >>= lister.readPage seen with
      | .error message => some (.error message)
      | .ok (page, none) => some (.ok (items ++ page))
      | .ok (page, some next) => lister.run respond fuel (pages + 1) next (lister.mark next :: seen) (items ++ page)

/-- `${ prefix.replace(/\/$/, "") }/`. -/
def withSlash (scopedPrefix : Text) : Text :=
  (if scopedPrefix.getLast? = some '/' then scopedPrefix.dropLast else scopedPrefix) ++ ['/']

/-- `if (value) query.set(name, value)`. -/
def optional (name : String) (value : Text) : Query := if value = [] then [] else [(name, value)]

def keyLister (scopedPrefix : Text) : Lister Text Text where
  query := fun token =>
    [("list-type", "2".toList), ("prefix", withSlash scopedPrefix)] ++ optional "continuation-token" token
  root := "ListBucketResult".toList
  items := fun xml => .ok (extractXmlValues xml "Key".toList)
  next := fun xml => firstXmlValue xml "NextContinuationToken".toList
  missing := fun token => token.isEmpty
  mark := fun token => token
  tooManyPages := "Object store listing exceeded the pagination limit."
  invalidResponse := "Object store returned an invalid object listing response."
  omittedMarker := "Object store listing omitted its continuation token."
  noProgress := "Object store listing pagination did not make progress."

def listObjectKeys (scopedPrefix : Text) (respond : ℕ → Query → Except String Text) (fuel : ℕ) :
    Option (Except String (List Text)) :=
  (keyLister scopedPrefix).run respond fuel 0 [] [] []

/-- The marker for a page of versions: the key marker and the version id marker. -/
def versionLister (scopedPrefix : Text) : Lister StoredObjectVersion (Text × Text) where
  query := fun marker =>
    [("prefix", withSlash scopedPrefix), ("versions", [])] ++ optional "key-marker" marker.1 ++
      optional "version-id-marker" marker.2
  root := "ListVersionsResult".toList
  items := extractObjectVersions
  next := fun xml => (firstXmlValue xml "NextKeyMarker".toList, firstXmlValue xml "NextVersionIdMarker".toList)
  missing := fun marker => marker.1.isEmpty
  mark := fun marker => marker.1 ++ '\x00' :: marker.2
  tooManyPages := "Object store version listing exceeded the pagination limit."
  invalidResponse := "Object store returned an invalid version listing response."
  omittedMarker := "Object store version listing omitted its next key marker."
  noProgress := "Object store version listing pagination did not make progress."

def listObjectVersions (scopedPrefix : Text) (respond : ℕ → Query → Except String Text) (fuel : ℕ) :
    Option (Except String (List StoredObjectVersion)) :=
  (versionLister scopedPrefix).run respond fuel 0 ([], []) [] []

def prefixLister (rootPrefix : Text) : Lister Text Text where
  query := fun token =>
    [("delimiter", "/".toList), ("list-type", "2".toList)] ++ optional "prefix" rootPrefix ++
      optional "continuation-token" token
  root := "ListBucketResult".toList
  items := fun xml => .ok (extractCommonPrefixValues xml)
  next := fun xml => firstXmlValue xml "NextContinuationToken".toList
  missing := fun token => token.isEmpty
  mark := fun token => token
  tooManyPages := "Object store prefix listing exceeded the pagination limit."
  invalidResponse := "Object store returned an invalid prefix listing response."
  omittedMarker := "Object store prefix listing omitted its continuation token."
  noProgress := "Object store prefix listing pagination did not make progress."

/-- `[...new Set(prefixes)]`. -/
def listObjectPrefixes (rootPrefix : Text) (respond : ℕ → Query → Except String Text) (fuel : ℕ) :
    Option (Except String (List Text)) :=
  ((prefixLister rootPrefix).run respond fuel 0 [] [] []).map fun result => result.map List.eraseDups

/-! ### Every loop ends -/

variable {lister : Lister ι μ} {respond : ℕ → Query → Except String Text}

/-- **The budget of pages ends the loop** whatever the responses are. -/
theorem run_ends (lister : Lister ι μ) (respond : ℕ → Query → Except String Text) {fuel pages : ℕ}
    (hfuel : 10001 ≤ pages + fuel) (hpages : pages ≤ 10000) (marker : μ) (seen : List Text) (items : List ι) :
    ∃ result, lister.run respond fuel pages marker seen items = some result := by
  induction fuel generalizing pages marker seen items with
  | zero => omega
  | succ fuel ih =>
    rw [Lister.run]
    by_cases hlimit : 10000 < pages + 1
    · exact ⟨_, if_pos hlimit⟩
    · rw [if_neg hlimit]
      rcases respond (pages + 1) (lister.query marker) >>= lister.readPage seen with message | ⟨page, _ | next⟩
      · exact ⟨_, rfl⟩
      · exact ⟨_, rfl⟩
      · exact ih (by omega) (by omega) next _ _

/-- More fuel changes nothing. -/
theorem run_add {fuel pages : ℕ} {marker : μ} {seen : List Text} {items : List ι} {result : Except String (List ι)}
    (h : lister.run respond fuel pages marker seen items = some result) (more : ℕ) :
    lister.run respond (fuel + more) pages marker seen items = some result := by
  induction fuel generalizing pages marker seen items with
  | zero => cases h
  | succ fuel ih =>
    rw [Nat.succ_add, Lister.run]
    rw [Lister.run] at h
    by_cases hlimit : 10000 < pages + 1
    · rw [if_pos hlimit] at h ⊢
      exact h
    · rw [if_neg hlimit] at h ⊢
      rcases hpage : respond (pages + 1) (lister.query marker) >>= lister.readPage seen with message | ⟨page, _ | next⟩
      · rw [hpage] at h
        exact h
      · rw [hpage] at h
        exact h
      · rw [hpage] at h
        exact ih h

theorem run_unique {fuel fuel' pages : ℕ} {marker : μ} {seen : List Text} {items : List ι}
    {result result' : Except String (List ι)} (h : lister.run respond fuel pages marker seen items = some result)
    (h' : lister.run respond fuel' pages marker seen items = some result') : result = result' := by
  have hmore := run_add h fuel'
  have hmore' := run_add h' fuel
  rw [Nat.add_comm] at hmore'
  exact Option.some.inj (hmore.symm.trans hmore')

end OwnMinutes.ObjectStore.Listing
