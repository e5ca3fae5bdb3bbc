import OwnMinutes.Lib.Outcome
import OwnMinutes.ObjectStore.Listing
import Mathlib.Data.List.Nodup

/-! # Correct listings

A correct listing shows its items on pages, each a flat XML document with the marker for the page after it. The
listing loops read the items back, unless there are too many pages. -/

namespace OwnMinutes.ObjectStore.CorrectListings

open OwnMinutes.ObjectStore.Keys OwnMinutes.ObjectStore.Listing OwnMinutes.Lib.JsText
open OwnMinutes.Lib.XmlText (tagged Node Block write fieldsOf Written NamedReference between_write between_blocks escape
  written_escape lt_not_mem_escape fieldsOf_append fieldsOf_tag fieldsOf_same fieldsOf_other fieldsOf_map
  fieldsOf_map_other)

/-! ### Pages -/

/-- The root element, with or without attributes. -/
def HasRootTag (root : Text) (doc : List Node) : Prop :=
  ∃ attributes : Text, .tag (root ++ attributes) ∈ doc ∧ attributes.head?.all isWhiteSpace = true

/-- The only field of a name writes a value. -/
def Says (refs : Text → Char → Prop) (doc : List Node) (name value : Text) : Prop :=
  ∃ raw, fieldsOf name doc = [raw] ∧ Written refs raw value

def truncatedText (continues : Bool) : Text := if continues then "true".toList else "false".toList

structure IsKeyPage (refs : Text → Char → Prop) (doc : List Node) (keys : List Text) (next : Option Text) : Prop where
  plain : ∀ node ∈ doc, node.Plain
  root : HasRootTag "ListBucketResult".toList doc
  sole : ∀ name ∈ ["Key".toList, "IsTruncated".toList, "NextContinuationToken".toList], Node.tag name ∉ doc
  keys : List.Forall₂ (Written refs) (fieldsOf "Key".toList doc) keys
  truncated : fieldsOf "IsTruncated".toList doc = [truncatedText next.isSome]
  next : ∀ token ∈ next, token ≠ [] ∧ Says refs doc "NextContinuationToken".toList token

def ShowsKeys (refs : Text → Char → Prop) (xml : Text) (keys : List Text) (next : Option Text) : Prop :=
  ∃ doc, xml = write doc ∧ IsKeyPage refs doc keys next

/-- The nodes of a block with its tags. -/
def nodesOf (block : Block) : List Node :=
  .tag block.kind :: (block.nodes ++ .tag ('/' :: block.kind) :: block.gap)

def nodesOfPage (head : List Node) (blocks : List Block) : List Node := head ++ blocks.flatMap nodesOf

structure IsEntry (refs : Text → Char → Prop) (block : Block) (version : StoredObjectVersion) : Prop where
  sole : ∀ name ∈ ["Key".toList, "VersionId".toList], Node.tag name ∉ block.nodes
  key : version.key ≠ [] ∧ Says refs block.nodes "Key".toList version.key
  versionId : version.versionId ≠ [] ∧ Says refs block.nodes "VersionId".toList version.versionId

structure IsVersionPage (refs : Text → Char → Prop) (head : List Node) (blocks : List Block)
    (versions : List StoredObjectVersion) (next : Option (Text × Text)) : Prop where
  outside : ∀ node ∈ head, node.Plain ∧ node.Avoids versionKinds
  plain : ∀ block ∈ blocks, block.Plain versionKinds
  root : HasRootTag "ListVersionsResult".toList head
  entries : List.Forall₂ (IsEntry refs) blocks versions
  sole : ∀ name ∈ ["IsTruncated".toList, "NextKeyMarker".toList, "NextVersionIdMarker".toList],
    Node.tag name ∉ nodesOfPage head blocks
  truncated : fieldsOf "IsTruncated".toList (nodesOfPage head blocks) = [truncatedText next.isSome]
  next : ∀ marker ∈ next, marker.1 ≠ [] ∧ '\x00' ∉ marker.1 ∧
    Says refs (nodesOfPage head blocks) "NextKeyMarker".toList marker.1 ∧
    Says refs (nodesOfPage head blocks) "NextVersionIdMarker".toList marker.2

def ShowsVersions (refs : Text → Char → Prop) (xml : Text) (versions : List StoredObjectVersion)
    (next : Option (Text × Text)) : Prop :=
  ∃ head blocks, xml = write (nodesOfPage head blocks) ∧ IsVersionPage refs head blocks versions next

/-! ### Listings -/

variable {ι μ : Type}

/-- A listing in pages: the truncated ones with the markers for the pages after them, and the last. -/
structure Paged (ι μ : Type) where
  more : List (List ι × μ)
  last : List ι

def Paged.items (listing : Paged ι μ) : List ι := (listing.more.map Prod.fst).flatten ++ listing.last

def Paged.pages (listing : Paged ι μ) : ℕ := listing.more.length + 1

/-- The answers to the requests of a loop show the pages. -/
def Shown (shows : Text → List ι → Option μ → Prop) (answer : Query → Text) (query : μ → Query) :
    μ → List (List ι × μ) → List ι → Prop
  | start, [], last => shows (answer (query start)) last none
  | start, (items, next) :: more, last =>
    shows (answer (query start)) items (some next) ∧ Shown shows answer query next more last

/-- The service lists some keys, no token twice. -/
structure ListsKeys (refs : Text → Char → Prop) (answer : Query → Text) (scopedPrefix : Text)
    (listing : Paged Text Text) : Prop where
  shown : Shown (ShowsKeys refs) answer (keyLister scopedPrefix).query [] listing.more listing.last
  tokens : (listing.more.map Prod.snd).Nodup

structure ListsVersions (refs : Text → Char → Prop) (answer : Query → Text) (scopedPrefix : Text)
    (listing : Paged StoredObjectVersion (Text × Text)) : Prop where
  shown : Shown (ShowsVersions refs) answer (versionLister scopedPrefix).query ([], []) listing.more listing.last
  markers : (listing.more.map Prod.snd).Nodup

/-! ### Reading values -/

theorem decodeXml_written {raw text : Text} (h : Written NamedReference raw text) : decodeXml raw = text := by
  have hlt := h.partly.replace .lt (by decide)
  have hgt := hlt.replace .gt (by decide)
  have hquot := hgt.replace .quot (by decide)
  have hapos := hquot.replace .apos (by decide)
  refine hapos.replaceLast fun name c hname hleft => ?_
  obtain ⟨⟨⟨⟨-, hlt⟩, hgt⟩, hquot⟩, hapos⟩ := hleft
  cases hname with
  | lt => exact absurd rfl hlt
  | gt => exact absurd rfl hgt
  | quot => exact absurd rfl hquot
  | apos => exact absurd rfl hapos
  | amp => rfl

variable {doc : List Node} {seen : List Text}

theorem extractXmlValues_eq {name : Text} {values : List Text} (hplain : ∀ node ∈ doc, node.Plain)
    (hname : '>' ∉ name ∧ '/' ∉ name) (hsole : .tag name ∉ doc)
    (h : List.Forall₂ (Written NamedReference) (fieldsOf name doc) values) :
    extractXmlValues (write doc) name = values := by
  rw [extractXmlValues, between_write hname hplain hsole le_rfl]
  generalize fieldsOf name doc = raws at h
  induction h with
  | nil => rfl
  | cons hwritten _ ih => rw [List.map_cons, decodeXml_written hwritten, ih]

theorem firstXmlValue_eq {name value : Text} (hplain : ∀ node ∈ doc, node.Plain) (hname : '>' ∉ name ∧ '/' ∉ name)
    (hsole : .tag name ∉ doc) (h : Says NamedReference doc name value) : firstXmlValue (write doc) name = value := by
  obtain ⟨raw, hfield, hwritten⟩ := h
  have hvalues : List.Forall₂ (Written NamedReference) (fieldsOf name doc) [value] := by
    rw [hfield]
    exact .cons hwritten .nil
  rw [firstXmlValue, extractXmlValues_eq hplain hname hsole hvalues]
  rfl

theorem isTruncated_eq {continues : Bool} (hplain : ∀ node ∈ doc, node.Plain)
    (hsole : .tag "IsTruncated".toList ∉ doc) (h : fieldsOf "IsTruncated".toList doc = [truncatedText continues]) :
    isTruncated (write doc) = continues := by
  have hself : Written NamedReference (truncatedText continues) (truncatedText continues) :=
    OwnMinutes.Lib.XmlText.written_self (by cases continues <;> simp [truncatedText])
  have hvalues : List.Forall₂ (Written NamedReference) (fieldsOf "IsTruncated".toList doc) [truncatedText continues] := by
    rw [h]
    exact .cons hself .nil
  rw [isTruncated, extractXmlValues_eq hplain (by decide) hsole hvalues]
  cases continues <;> decide

theorem hasRoot_write {root : Text} (h : HasRootTag root doc) : hasRoot root (write doc) = true := by
  obtain ⟨attributes, hmem, hspace⟩ := h
  obtain ⟨before, after, rfl⟩ := List.append_of_mem hmem
  have hsuffix : '<' :: (root ++ (attributes ++ '>' :: write after)) <:+ write (before ++ .tag (root ++ attributes) :: after) := by
    refine ⟨write before, ?_⟩
    simp [write, Node.write, tagged]
  refine List.any_eq_true.mpr ⟨_, (List.mem_tails _ _).mpr hsuffix, ?_⟩
  have hstart : ('<' :: root).isPrefixOf ('<' :: (root ++ (attributes ++ '>' :: write after))) = true :=
    List.isPrefixOf_iff_prefix.mpr ⟨_, rfl⟩
  rw [hstart, List.drop_succ_cons, List.drop_left]
  rcases attributes with _ | ⟨c, attributes⟩
  · simp
  · have hc : isWhiteSpace c = true := by simpa using hspace
    simp [hc]

/-! ### Reading pages -/

theorem readPage_ok {lister : Lister ι μ} {xml : Text} {page : List ι} {next : Option μ}
    (hroot : hasRoot lister.root xml = true) (hitems : lister.items xml = .ok page)
    (htruncated : isTruncated xml = next.isSome)
    (hnext : ∀ marker ∈ next, lister.next xml = marker ∧ lister.missing marker = false ∧ lister.mark marker ∉ seen) :
    lister.readPage seen xml = .ok (page, next) := by
  have hne : xml ≠ [] := by
    rintro rfl
    simp [hasRoot] at hroot
  rw [Lister.readPage, if_neg hne, if_neg (by simp [hroot]), hitems, htruncated]
  rcases next with _ | marker
  · rfl
  · obtain ⟨hmarker, hmissing, hfresh⟩ := hnext marker rfl
    rw [hmarker]
    rw [OwnMinutes.Lib.Outcome.ok_bind, if_neg (by simp), if_neg (by simp [hmissing]), if_neg (by simpa using hfresh)]
    rfl

theorem readPage_keys {scopedPrefix xml : Text} {keys : List Text} {next : Option Text}
    (h : ShowsKeys NamedReference xml keys next) (hseen : ∀ token ∈ next, token ∉ seen) :
    (keyLister scopedPrefix).readPage seen xml = .ok (keys, next) := by
  obtain ⟨doc, rfl, hpage⟩ := h
  have hsole : ∀ {name}, name ∈ ["Key".toList, "IsTruncated".toList, "NextContinuationToken".toList] →
      Node.tag name ∉ doc := fun hname => hpage.sole _ hname
  have hkeys : extractXmlValues (write doc) "Key".toList = keys :=
    extractXmlValues_eq hpage.plain (by decide) (hsole (by decide)) hpage.keys
  refine readPage_ok (hasRoot_write hpage.root) (congrArg Except.ok hkeys)
    (isTruncated_eq hpage.plain (hsole (by decide)) hpage.truncated) fun token htoken => ?_
  obtain ⟨hne, hsays⟩ := hpage.next token htoken
  exact ⟨firstXmlValue_eq hpage.plain (by decide) (hsole (by decide)) hsays, by simpa [keyLister] using hne,
    hseen token htoken⟩

theorem write_nodesOf (block : Block) : write (nodesOf block) = block.write := by
  simp [nodesOf, write, Node.write, Block.write]

theorem write_nodesOfPage (head : List Node) (blocks : List Block) :
    write (nodesOfPage head blocks) = write head ++ blocks.flatMap Block.write := by
  have hblocks : write (blocks.flatMap nodesOf) = blocks.flatMap Block.write := by
    induction blocks with
    | nil => rfl
    | cons block blocks ih =>
      rw [List.flatMap_cons, List.flatMap_cons, ← ih, ← write_nodesOf]
      simp [write]
  rw [← hblocks]
  simp [nodesOfPage, write]

theorem versionKinds_plain {kind : Text} (h : kind ∈ versionKinds) : '<' ∉ kind ∧ '>' ∉ kind := by
  simp only [versionKinds, List.mem_cons, List.not_mem_nil, or_false] at h
  rcases h with rfl | rfl <;> decide

section VersionPage
variable {head : List Node} {blocks : List Block} {versions : List StoredObjectVersion} {next : Option (Text × Text)}

theorem IsVersionPage.nodes_plain {refs : Text → Char → Prop} (h : IsVersionPage refs head blocks versions next) :
    ∀ node ∈ nodesOfPage head blocks, node.Plain := by
  intro node hnode
  rcases List.mem_append.mp hnode with hnode | hnode
  · exact (h.outside node hnode).1
  · obtain ⟨block, hblock, hnode⟩ := List.mem_flatMap.mp hnode
    have hplain := h.plain block hblock
    have hkind := versionKinds_plain hplain.kind
    rcases List.mem_cons.mp hnode with rfl | hnode
    · exact hkind
    · rcases List.mem_append.mp hnode with hnode | hnode
      · exact hplain.plain node (List.mem_append_left _ hnode)
      · rcases List.mem_cons.mp hnode with rfl | hnode
        · exact ⟨by simpa using hkind.1, by simpa using hkind.2⟩
        · exact hplain.plain node (List.mem_append_right _ hnode)

theorem versionOfBlock_eq {block : Block} {version : StoredObjectVersion} (hplain : block.Plain versionKinds)
    (h : IsEntry NamedReference block version) : versionOfBlock (write block.nodes) = .ok version := by
  have hnodes : ∀ node ∈ block.nodes, node.Plain := fun node hnode => hplain.plain node (List.mem_append_left _ hnode)
  have hkey := firstXmlValue_eq hnodes (by decide) (h.sole _ (by decide)) h.key.2
  have hid := firstXmlValue_eq hnodes (by decide) (h.sole _ (by decide)) h.versionId.2
  unfold versionOfBlock
  rw [hkey, hid, if_neg (by simp [h.key.1, h.versionId.1])]

theorem extractObjectVersions_eq (h : IsVersionPage NamedReference head blocks versions next) :
    extractObjectVersions (write (nodesOfPage head blocks)) = .ok versions := by
  rw [write_nodesOfPage, extractObjectVersions,
    between_blocks (fun kind hkind => (versionKinds_plain hkind).2) h.outside h.plain le_rfl]
  refine OwnMinutes.Lib.Outcome.mapM_eq_ok.mpr (List.forall₂_map_left_iff.mpr ?_)
  exact ((List.forall₂_and_left blocks versions).mpr ⟨h.plain, h.entries⟩).imp fun block version hentry =>
    versionOfBlock_eq hentry.1 hentry.2

theorem readPage_versions {scopedPrefix : Text} (h : IsVersionPage NamedReference head blocks versions next)
    (hseen : ∀ marker ∈ next, (versionLister scopedPrefix).mark marker ∉ seen) :
    (versionLister scopedPrefix).readPage seen (write (nodesOfPage head blocks)) = .ok (versions, next) := by
  have hsole : ∀ {name}, name ∈ ["IsTruncated".toList, "NextKeyMarker".toList, "NextVersionIdMarker".toList] →
      Node.tag name ∉ nodesOfPage head blocks := fun hname => h.sole _ hname
  have hroot : HasRootTag "ListVersionsResult".toList (nodesOfPage head blocks) := by
    obtain ⟨attributes, hmem, hspace⟩ := h.root
    exact ⟨attributes, List.mem_append_left _ hmem, hspace⟩
  refine readPage_ok (hasRoot_write hroot) (extractObjectVersions_eq h)
    (isTruncated_eq h.nodes_plain (hsole (by decide)) h.truncated) fun marker hmarker => ?_
  obtain ⟨hne, -, hkey, hid⟩ := h.next marker hmarker
  refine ⟨Prod.ext ?_ ?_, by simpa [versionLister] using hne, hseen marker hmarker⟩
  · exact firstXmlValue_eq h.nodes_plain (by decide) (hsole (by decide)) hkey
  · exact firstXmlValue_eq h.nodes_plain (by decide) (hsole (by decide)) hid

end VersionPage

/-! ### Reading listings -/

section Loop
variable {lister : Lister ι μ} {shows : Text → List ι → Option μ → Prop} {answer : Query → Text}

theorem shown_page {query : μ → Query} {start : μ} {more : List (List ι × μ)} {last : List ι}
    (h : Shown shows answer query start more last) : ∀ page ∈ more, ∃ xml, shows xml page.1 (some page.2) := by
  induction more generalizing start with
  | nil => exact fun _ hpage => absurd hpage List.not_mem_nil
  | cons first more ih =>
    intro page hpage
    rcases List.mem_cons.mp hpage with rfl | hpage
    · exact ⟨_, h.1⟩
    · exact ih h.2 page hpage

/-- What a loop makes of pages that are shown. -/
theorem run_shown (hread : ∀ {xml items next seen}, shows xml items next →
      (∀ marker ∈ next, lister.mark marker ∉ seen) → lister.readPage seen xml = .ok (items, next)) {start : μ}
    {more : List (List ι × μ)} {last : List ι} (h : Shown shows answer lister.query start more last) {pages : ℕ}
    (hseen : ∀ page ∈ more, lister.mark page.2 ∉ seen) (hmarks : (more.map fun page => lister.mark page.2).Nodup)
    (items : List ι) :
    ∃ fuel, lister.run (fun _ query => .ok (answer query)) fuel pages start seen items =
      some (if 10000 < pages + (more.length + 1) then .error lister.tooManyPages
        else .ok (items ++ ((more.map Prod.fst).flatten ++ last))) := by
  induction more generalizing start pages seen items with
  | nil =>
    refine ⟨1, ?_⟩
    have hpage := @hread _ _ _ seen h fun _ hmarker => by cases hmarker
    rw [Lister.run, OwnMinutes.Lib.Outcome.ok_bind, hpage]
    by_cases hlimit : 10000 < pages + 1
    · rw [if_pos hlimit, if_pos (by simpa using hlimit)]
    · rw [if_neg hlimit, if_neg (by simpa using hlimit)]
      simp
  | cons page more ih =>
    obtain ⟨page, next⟩ := page
    obtain ⟨hfirst, hrest⟩ := h
    obtain ⟨hnext, hmarks⟩ := List.nodup_cons.mp hmarks
    by_cases hlimit : 10000 < pages + 1
    · refine ⟨1, ?_⟩
      rw [Lister.run, if_pos hlimit, if_pos (by omega)]
    · have hfresh : ∀ page ∈ more, lister.mark page.2 ∉ lister.mark next :: seen := by
        intro other hother hmem
        rcases List.mem_cons.mp hmem with hsame | hmem
        · exact hnext (List.mem_map.mpr ⟨other, hother, hsame⟩)
        · exact hseen other (List.mem_cons_of_mem _ hother) hmem
      obtain ⟨fuel, hfuel⟩ : ∃ fuel, lister.run (fun _ query => .ok (answer query)) fuel (pages + 1) next
          (lister.mark next :: seen) (items ++ page) =
          some (if 10000 < pages + 1 + (more.length + 1) then .error lister.tooManyPages
            else .ok (items ++ page ++ ((more.map Prod.fst).flatten ++ last))) :=
        ih hrest hfresh hmarks (items ++ page)
      refine ⟨fuel + 1, ?_⟩
      have hpage := @hread _ _ _ seen hfirst fun marker hmarker => by
        obtain rfl : next = marker := by simpa using hmarker
        exact hseen _ List.mem_cons_self
      rw [Lister.run, if_neg hlimit, OwnMinutes.Lib.Outcome.ok_bind, hpage]
      refine hfuel.trans (congrArg some ?_)
      rw [show pages + 1 + (more.length + 1) = pages + ((page, next) :: more).length + 1 by simp; omega]
      simp [List.append_assoc, Nat.add_assoc]

end Loop

variable {answer : Query → Text} {scopedPrefix : Text}

theorem keys_of_listing {listing : Paged Text Text} (h : ListsKeys NamedReference answer scopedPrefix listing) :
    ∃ fuel, listObjectKeys scopedPrefix (fun _ query => .ok (answer query)) fuel =
      some (if 10000 < listing.pages then .error (keyLister scopedPrefix).tooManyPages else .ok listing.items) := by
  obtain ⟨fuel, hfuel⟩ := run_shown readPage_keys h.shown (fun _ _ => List.not_mem_nil) h.tokens []
  refine ⟨fuel, hfuel.trans (congrArg some ?_)⟩
  rw [Nat.zero_add]
  rfl

/-- No mark stands for two markers: the texts of XML have no null character. -/
theorem mark_injective {marker other : Text × Text} (hmarker : '\x00' ∉ marker.1) (hother : '\x00' ∉ other.1)
    (h : marker.1 ++ '\x00' :: marker.2 = other.1 ++ '\x00' :: other.2) : marker = other := by
  have hsplit : ∀ {left right : Text}, '\x00' ∉ left →
      (left ++ '\x00' :: right).splitOn '\x00' = left :: right.splitOn '\x00' :=
    fun hleft => List.splitOn_append_cons_self_of_not_mem hleft _
  have hfirst := (List.cons.inj ((hsplit hmarker).symm.trans ((congrArg (List.splitOn '\x00') h).trans (hsplit hother)))).1
  rw [hfirst] at h
  exact Prod.ext hfirst (List.cons.inj (List.append_cancel_left h)).2

theorem versions_of_listing {listing : Paged StoredObjectVersion (Text × Text)}
    (h : ListsVersions NamedReference answer scopedPrefix listing) :
    ∃ fuel, listObjectVersions scopedPrefix (fun _ query => .ok (answer query)) fuel =
      some (if 10000 < listing.pages then .error (versionLister scopedPrefix).tooManyPages
        else .ok listing.items) := by
  have hread : ∀ {xml items next} {seen : List Text}, ShowsVersions NamedReference xml items next →
      (∀ marker ∈ next, (versionLister scopedPrefix).mark marker ∉ seen) →
      (versionLister scopedPrefix).readPage seen xml = .ok (items, next) := by
    rintro xml items next seen ⟨head, blocks, rfl, hpage⟩ hseen
    exact readPage_versions hpage hseen
  have hmarks : (listing.more.map fun page => (versionLister scopedPrefix).mark page.2).Nodup := by
    have hplain : ∀ marker ∈ listing.more.map Prod.snd, '\x00' ∉ marker.1 := by
      intro marker hmarker
      obtain ⟨page, hpage, rfl⟩ := List.mem_map.mp hmarker
      obtain ⟨xml, head, blocks, -, hshows⟩ := shown_page h.shown page hpage
      exact (hshows.next page.2 rfl).2.1
    have hnodup : ((listing.more.map Prod.snd).map (versionLister scopedPrefix).mark).Nodup :=
      List.Nodup.map_on (fun marker hmarker other hother hsame =>
        mark_injective (hplain marker hmarker) (hplain other hother) hsame) h.markers
    rw [List.map_map] at hnodup
    exact hnodup
  obtain ⟨fuel, hfuel⟩ := run_shown hread h.shown (fun _ _ => List.not_mem_nil) hmarks []
  refine ⟨fuel, hfuel.trans (congrArg some ?_)⟩
  rw [Nat.zero_add]
  rfl

/-! ### Writing pages -/

def keyPage (keys : List Text) (next : Option Text) : List Node :=
  .tag "ListBucketResult".toList :: (keys.map (fun key => .field "Key".toList (escape key)) ++
    (.field "IsTruncated".toList (truncatedText next.isSome) ::
      next.toList.map fun token => .field "NextContinuationToken".toList (escape token)))

theorem lt_not_mem_truncatedText (continues : Bool) : '<' ∉ truncatedText continues := by
  cases continues <;> decide

theorem fieldsOf_keyPage (keys : List Text) (next : Option Text) :
    fieldsOf "Key".toList (keyPage keys next) = keys.map escape ∧
      fieldsOf "IsTruncated".toList (keyPage keys next) = [truncatedText next.isSome] ∧
      fieldsOf "NextContinuationToken".toList (keyPage keys next) = next.toList.map escape := by
  have hkey : "IsTruncated".toList ≠ "Key".toList ∧ "NextContinuationToken".toList ≠ "Key".toList := by decide
  have htruncated : "Key".toList ≠ "IsTruncated".toList ∧ "NextContinuationToken".toList ≠ "IsTruncated".toList := by
    decide
  have hnext : "Key".toList ≠ "NextContinuationToken".toList ∧
      "IsTruncated".toList ≠ "NextContinuationToken".toList := by decide
  refine ⟨?_, ?_, ?_⟩
  · rw [keyPage, fieldsOf_tag, fieldsOf_append, fieldsOf_map, fieldsOf_other hkey.1, fieldsOf_map_other hkey.2,
      List.append_nil]
  · rw [keyPage, fieldsOf_tag, fieldsOf_append, fieldsOf_map_other htruncated.1, fieldsOf_same,
      fieldsOf_map_other htruncated.2, List.nil_append]
  · rw [keyPage, fieldsOf_tag, fieldsOf_append, fieldsOf_map_other hnext.1, fieldsOf_other hnext.2, fieldsOf_map,
      List.nil_append]

/-- Every page can be shown. -/
theorem isKeyPage_keyPage (keys : List Text) {next : Option Text} (hnext : ∀ token ∈ next, token ≠ []) :
    IsKeyPage NamedReference (keyPage keys next) keys next := by
  obtain ⟨hkeys, htruncated, htoken⟩ := fieldsOf_keyPage keys next
  refine ⟨?_, ⟨[], by rw [List.append_nil]; exact List.mem_cons_self, rfl⟩, ?_, ?_, htruncated, fun token hmem => ?_⟩
  · intro node hnode
    simp only [keyPage, List.mem_cons, List.mem_append, List.mem_map] at hnode
    rcases hnode with rfl | ⟨key, -, rfl⟩ | rfl | ⟨token, -, rfl⟩
    · exact ⟨by decide, by decide⟩
    · exact ⟨by decide, by decide, by decide, lt_not_mem_escape key⟩
    · exact ⟨by decide, by decide, by decide, lt_not_mem_truncatedText _⟩
    · exact ⟨by decide, by decide, by decide, lt_not_mem_escape token⟩
  · intro name hname htag
    have hroot : name = "ListBucketResult".toList := by simpa [keyPage] using htag
    subst hroot
    exact absurd hname (by decide)
  · rw [hkeys]
    exact List.forall₂_map_left_iff.mpr (List.forall₂_same.mpr fun key _ => written_escape key)
  · obtain rfl : next = some token := hmem
    exact ⟨hnext token rfl, escape token, htoken, written_escape token⟩

def entryBlock (version : StoredObjectVersion) : Block where
  kind := "Version".toList
  nodes := [.field "Key".toList (escape version.key), .field "VersionId".toList (escape version.versionId)]
  gap := []

def versionHead : List Node := [.tag "ListVersionsResult".toList, .field "IsTruncated".toList "false".toList]

theorem nodes_entryBlock (version : StoredObjectVersion) : (entryBlock version).nodes =
    [.field "Key".toList (escape version.key), .field "VersionId".toList (escape version.versionId)] := rfl

theorem nodesOf_entryBlock (version : StoredObjectVersion) : nodesOf (entryBlock version) =
    [.tag "Version".toList, .field "Key".toList (escape version.key),
      .field "VersionId".toList (escape version.versionId), .tag "/Version".toList] := rfl

theorem mem_nodesOf_entryBlock {version : StoredObjectVersion} {node : Node} (h : node ∈ nodesOf (entryBlock version)) :
    node = .tag "Version".toList ∨ node = .field "Key".toList (escape version.key) ∨
      node = .field "VersionId".toList (escape version.versionId) ∨ node = .tag "/Version".toList := by
  rw [nodesOf_entryBlock] at h
  simpa only [List.mem_cons, List.not_mem_nil, or_false] using h

/-- One page can show any versions. -/
theorem isVersionPage_entryBlocks {versions : List StoredObjectVersion}
    (h : ∀ version ∈ versions, version.key ≠ [] ∧ version.versionId ≠ []) :
    IsVersionPage NamedReference versionHead (versions.map entryBlock) versions none := by
  have hmem : ∀ node ∈ (versions.map entryBlock).flatMap nodesOf, ∃ version, node ∈ nodesOf (entryBlock version) := by
    intro node hnode
    obtain ⟨block, hblock, hnode⟩ := List.mem_flatMap.mp hnode
    obtain ⟨version, -, rfl⟩ := List.mem_map.mp hblock
    exact ⟨version, hnode⟩
  have hfields : fieldsOf "IsTruncated".toList ((versions.map entryBlock).flatMap nodesOf) = [] := by
    refine List.filterMap_eq_nil_iff.mpr fun node hnode => ?_
    obtain ⟨version, hnode⟩ := hmem node hnode
    rcases mem_nodesOf_entryBlock hnode with rfl | rfl | rfl | rfl
    · rfl
    · exact if_neg (by decide)
    · exact if_neg (by decide)
    · rfl
  have hplain : ∀ block ∈ versions.map entryBlock, block.Plain versionKinds := by
    intro block hblock
    obtain ⟨version, -, rfl⟩ := List.mem_map.mp hblock
    have hnodes : ∀ node ∈ (entryBlock version).nodes, node = .field "Key".toList (escape version.key) ∨
        node = .field "VersionId".toList (escape version.versionId) := by
      intro node hnode
      rw [nodes_entryBlock] at hnode
      simpa only [List.mem_cons, List.not_mem_nil, or_false] using hnode
    refine ⟨List.mem_cons_self, fun node hnode => ?_, fun node hnode => ?_, fun node hnode => absurd hnode List.not_mem_nil⟩
    · rw [show (entryBlock version).gap = [] from rfl, List.append_nil] at hnode
      rcases hnodes node hnode with rfl | rfl
      · exact ⟨by decide, by decide, by decide, lt_not_mem_escape _⟩
      · exact ⟨by decide, by decide, by decide, lt_not_mem_escape _⟩
    · rcases hnodes node hnode with rfl | rfl
      · exact ⟨by decide, by decide⟩
      · exact ⟨by decide, by decide⟩
  refine ⟨?_, hplain, ⟨[], List.mem_cons_self, rfl⟩, ?_, fun name hname htag => ?_, ?_, fun _ hmem => by cases hmem⟩
  · intro node hnode
    simp only [versionHead, List.mem_cons, List.not_mem_nil, or_false] at hnode
    rcases hnode with rfl | rfl
    · exact ⟨⟨by decide, by decide⟩, by unfold OwnMinutes.Lib.XmlText.Node.Avoids; decide⟩
    · exact ⟨⟨by decide, by decide, by decide, by decide⟩, ⟨by decide, by decide⟩⟩
  · refine List.forall₂_map_left_iff.mpr (List.forall₂_same.mpr fun version hversion => ?_)
    obtain ⟨hkey, hid⟩ := h version hversion
    refine ⟨fun name _ htag => ?_, ⟨hkey, escape version.key, ?_, written_escape _⟩,
      ⟨hid, escape version.versionId, ?_, written_escape _⟩⟩
    · rw [nodes_entryBlock] at htag
      simp only [List.mem_cons, List.not_mem_nil, or_false] at htag
      rcases htag with htag | htag <;> cases htag
    · rw [nodes_entryBlock, fieldsOf_same, fieldsOf_other (by decide)]
      rfl
    · rw [nodes_entryBlock, fieldsOf_other (by decide), fieldsOf_same]
      rfl
  · have hne : name ≠ "ListVersionsResult".toList ∧ name ≠ "Version".toList ∧ name ≠ "/Version".toList := by
      simp only [List.mem_cons, List.not_mem_nil, or_false] at hname
      rcases hname with rfl | rfl | rfl <;> decide
    rcases List.mem_append.mp htag with htag | htag
    · simp only [versionHead, List.mem_cons, List.not_mem_nil, or_false, Node.tag.injEq, reduceCtorEq] at htag
      exact hne.1 htag
    · obtain ⟨version, hnode⟩ := hmem _ htag
      rcases mem_nodesOf_entryBlock hnode with htag | htag | htag | htag
      · exact hne.2.1 (Node.tag.inj htag)
      · cases htag
      · cases htag
      · exact hne.2.2 (Node.tag.inj htag)
  · rw [nodesOfPage, fieldsOf_append, hfields, List.append_nil, versionHead, fieldsOf_tag, fieldsOf_same]
    rfl

/-! ### Every listing -/

/-- **The listing loops read every listing back.** Whatever the responses are, each loop comes to an end within its
10,000 pages. A correct listing of keys or of versions is read back as it is, in its order and with its references
decoded, or refused when it has more pages than that. -/
theorem listings_read_back {scopedPrefix : Text} (rootPrefix : Text) (respond : ℕ → Query → Except String Text)
    {answer : Query → Text} {keys : Paged Text Text} {versions : Paged StoredObjectVersion (Text × Text)}
    (hkeys : ListsKeys NamedReference answer scopedPrefix keys)
    (hversions : ListsVersions NamedReference answer scopedPrefix versions) :
    ((∃ result, listObjectKeys scopedPrefix respond 10001 = some result) ∧
      (∃ result, listObjectVersions scopedPrefix respond 10001 = some result) ∧
      ∃ result, listObjectPrefixes rootPrefix respond 10001 = some result) ∧
    listObjectKeys scopedPrefix (fun _ query => .ok (answer query)) 10001 =
      some (if 10000 < keys.pages then .error "Object store listing exceeded the pagination limit."
        else .ok keys.items) ∧
    listObjectVersions scopedPrefix (fun _ query => .ok (answer query)) 10001 =
      some (if 10000 < versions.pages then .error "Object store version listing exceeded the pagination limit."
        else .ok versions.items) := by
  have hends : ∀ {ι μ : Type} (lister : Lister ι μ) (respond : ℕ → Query → Except String Text) (marker : μ),
      ∃ result, lister.run respond 10001 0 marker [] [] = some result :=
    fun lister respond marker => run_ends lister respond (by omega) (by omega) marker [] []
  refine ⟨⟨hends _ respond _, hends _ respond _, ?_⟩, ?_, ?_⟩
  · obtain ⟨result, hresult⟩ := hends (prefixLister rootPrefix) respond []
    exact ⟨result.map List.eraseDups, congrArg (Option.map _) hresult⟩
  · obtain ⟨result, hresult⟩ := hends (keyLister scopedPrefix) (fun _ query => .ok (answer query)) []
    obtain ⟨fuel, hfuel⟩ := keys_of_listing hkeys
    exact hresult.trans (congrArg some (run_unique hresult hfuel))
  · obtain ⟨result, hresult⟩ := hends (versionLister scopedPrefix) (fun _ query => .ok (answer query)) ([], [])
    obtain ⟨fuel, hfuel⟩ := versions_of_listing hversions
    exact hresult.trans (congrArg some (run_unique hresult hfuel))

/-- Two pages of keys, and one page of versions. -/
def sampleAnswer (query : Query) : Text :=
  if (query.lookup "versions").isSome then
    write (nodesOfPage versionHead ([⟨"m/a&b".toList, "1".toList⟩].map entryBlock))
  else if (query.lookup "continuation-token").isSome then write (keyPage ["m/c".toList] none)
  else write (keyPage ["m/a&b".toList] (some "next".toList))

theorem listings_read_back_sample :
    listObjectKeys "m".toList (fun _ query => .ok (sampleAnswer query)) 10001 =
        some (.ok ["m/a&b".toList, "m/c".toList]) ∧
      listObjectVersions "m".toList (fun _ query => .ok (sampleAnswer query)) 10001 =
        some (.ok [⟨"m/a&b".toList, "1".toList⟩]) := by
  have hkeys : ListsKeys NamedReference sampleAnswer "m".toList
      ⟨[(["m/a&b".toList], "next".toList)], ["m/c".toList]⟩ :=
    ⟨⟨⟨_, rfl, isKeyPage_keyPage _ (by decide)⟩, ⟨_, rfl, isKeyPage_keyPage _ (by decide)⟩⟩, by decide⟩
  have hversions : ListsVersions NamedReference sampleAnswer "m".toList ⟨[], [⟨"m/a&b".toList, "1".toList⟩]⟩ :=
    ⟨⟨_, _, rfl, isVersionPage_entryBlocks (by decide)⟩, by decide⟩
  exact (listings_read_back [] (fun _ _ => .error "") hkeys hversions).2

end OwnMinutes.ObjectStore.CorrectListings
