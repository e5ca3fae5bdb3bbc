import OwnMinutes.Ark.PublicAddresses

/-! # Where the Ark key goes

A request carries the key. It stays with the official endpoint and public addresses, or with loopback addresses in a
test environment, except where a textual test overlooks what an address is or a name passes for loopback. -/

namespace OwnMinutes.Ark.KeyConfinement

open OwnMinutes.Lib.IpText OwnMinutes.Lib.JsText OwnMinutes.Ark.EndpointSecurity OwnMinutes.Ark.PublicAddresses

variable {platform : Platform} {input : Input} {url : Url} {address : Text} {groups : List ℕ}

/-! ### What is allowed -/

/-- The address is outside all reserved ranges. -/
def IsOutsideReserved (address : Text) : Prop :=
  (∃ x, parseIpv4 address = some x ∧ ¬ x.IsReserved) ∨
    isIP address = 6 ∧ ∃ groups, parseIpv6 (normalizedIpv6 address) = some groups ∧ ¬ IsReservedIpv6 groups

def IsLoopback (address : Text) : Prop :=
  (∃ x, parseIpv4 address = some x ∧ x.IsLoopback) ∨
    isIP address = 6 ∧ ∃ groups, parseIpv6 (normalizedIpv6 address) = some groups ∧ IsLoopbackIpv6 groups

/-- `https://ark.cn-beijing.volces.com/api/v3/chat/completions` on port 443. -/
def IsOfficial (platform : Platform) (request : PinnedRequest) : Prop :=
  request.endpoint.protocol = "https:".toList ∧ request.endpoint.hostname = officialArkHost ∧
    request.path = "/api/v3/chat/completions".toList ∧ request.port platform = some 443

/-- **The key goes only where it may**, no redirect is followed and no long response is returned. -/
def KeyIsConfined (platform : Platform) (input : Input) : Prop :=
  ∀ request, postArkJson platform input = .ok request →
    (∀ address, request.ConnectsTo address →
      IsOfficial platform request ∧ IsOutsideReserved address ∨
        isTestEnvironment platform = true ∧ IsLoopback address) ∧
    ∀ response : Response,
      (300 ≤ response.status → response.status < 400 →
        handleResponse platform request response = .rejected .redirectForbidden) ∧
      ∀ body ok status, handleResponse platform request response = .resolved body ok status →
        body.length ≤ request.maxResponseBytes ∧ request.maxResponseBytes ≤ 4 * 1024 * 1024

/-- An IPv6 address that passes the tests on its text although it lies outside `2000::/3`, in a range for documentation
or protocol assignments, or tunnels to a reserved IPv4 address. -/
def IsOverlooked (address : Text) : Prop :=
  isIP address = 6 ∧ isPublicIpv6 address = true ∧ ∃ groups, parseIpv6 (normalizedIpv6 address) = some groups ∧
    (¬ IsMapped groups ∧ ¬ IsGlobalUnicast groups ∨ IsDocumentation groups ∨ IsProtocolAssignment groups ∨
      TunnelsReserved groups)

/-- The base URL is accepted, its host is a name, and all addresses of the name pass; and the URL is the one for tests
or one of the addresses is overlooked. -/
def IsExposed (platform : Platform) (input : Input) : Prop :=
  input.bodyBytes ≤ maxArkRequestBytes ∧
    ∃ url testOnly records, validateArkBaseUrlStructure platform input.baseUrl = some (url, testOnly) ∧
      isIP url.hostname = 0 ∧ platform.lookup url.hostname = some records ∧ records ≠ [] ∧
      (∀ record ∈ records, isPublicArkAddress record.address = true) ∧
      (testOnly = true ∨ ∃ record ∈ records, IsOverlooked record.address)

/-- What the parser of URLs does. -/
structure LawfulUrls (platform : Platform) : Prop where
  /-- The host of an `http` or `https` URL is in lower case. -/
  lower : ∀ text url, platform.newUrl text = some url → url.protocol = "http:".toList ∨ url.protocol = "https:".toList →
    platform.toLowerCase url.hostname = url.hostname
  /-- IPv6 addresses stand in brackets. -/
  brackets : ∀ text url, platform.newUrl text = some url → isIP url.hostname ≠ 6
  official : ∃ url, platform.newUrl defaultArkBaseUrl = some url ∧ url.hostname = officialArkHost ∧
    url.text = defaultArkBaseUrl
  completions : ∃ url, platform.newUrl (defaultArkBaseUrl ++ "/chat/completions".toList) = some url ∧
    url.protocol = "https:".toList ∧ url.hostname = officialArkHost ∧
    url.pathname = "/api/v3/chat/completions".toList ∧ url.search = []
  /-- Protocol, host, port and path of an `http` or `https` URL are a URL with this protocol and host. -/
  rebuilt : ∀ text url url', platform.newUrl text = some url →
    url.protocol = "http:".toList ∨ url.protocol = "https:".toList → platform.newUrl (testBaseUrl url) = some url' →
    url'.protocol = url.protocol ∧ url'.hostname = url.hostname
  /-- A path that is appended to it leaves its host. -/
  appended : ∀ text url url', platform.newUrl text = some url →
    url.protocol = "http:".toList ∨ url.protocol = "https:".toList → platform.newUrl (testBaseUrl url) = some url' →
    ∃ endpoint, platform.newUrl (withoutSlash url'.text ++ "/chat/completions".toList) = some endpoint ∧
      endpoint.hostname = url'.hostname

/-! ### Responses -/

theorem length_of_readBody {maxResponseBytes status : ℕ} (events : List ResponseEvent) :
    ∀ (chunks : List UInt8), chunks.length ≤ maxResponseBytes → ∀ body ok status',
      readBody maxResponseBytes status chunks events = .resolved body ok status' → body.length ≤ maxResponseBytes := by
  induction events with
  | nil => exact fun _ _ _ _ _ h => by cases h
  | cons e events ih =>
    intro chunks hchunks body ok status' h
    cases e with
    | data chunk =>
      rw [readBody] at h
      split at h
      · cases h
      · refine ih (chunks ++ chunk) ?_ body ok status' h
        rw [List.length_append]
        omega
    | error => cases h
    | ended =>
      cases h
      exact hchunks

theorem boundedMaxResponseBytes_le (value : Option ℚ) : boundedMaxResponseBytes value ≤ 4 * 1024 * 1024 := by
  cases value with
  | none => exact (by decide : 2 * 1024 * 1024 ≤ 4 * 1024 * 1024)
  | some value =>
    change (max 1024 (min (4 * 1024 * 1024) (Auth.ProcessingRoute.mathRound value))).toNat ≤ 4 * 1024 * 1024
    omega

theorem response_spec (request : PinnedRequest) (response : Response) :
    (300 ≤ response.status → response.status < 400 →
      handleResponse platform request response = .rejected .redirectForbidden) ∧
    ∀ body ok status, handleResponse platform request response = .resolved body ok status →
      body.length ≤ request.maxResponseBytes := by
  constructor
  · intro hlow hhigh
    unfold handleResponse
    rw [if_pos (by simp [hlow, hhigh])]
  · intro body ok status h
    unfold handleResponse at h
    split_ifs at h
    exact length_of_readBody response.events [] (Nat.zero_le _) body ok status h

/-! ### Addresses that pass -/

theorem isIP_cases (address : Text) : isIP address = 4 ∨ isIP address = 6 ∨ isIP address = 0 := by
  unfold isIP
  split_ifs <;> simp

theorem isIP_four (h : isIP address = 4) : ∃ x, parseIpv4 address = some x := by
  unfold isIP at h
  split at h
  · rename_i hsome
    exact Option.isSome_iff_exists.mp hsome
  · split at h <;> cases h

theorem isIP_six (h : isIP address = 6) :
    parseIpv4 address = none ∧ ∃ groups, parseIpv6 (normalizedIpv6 address) = some groups := by
  unfold isIP at h
  split at h
  · cases h
  · rename_i hnone
    split at h
    · rename_i hsome
      rw [Bool.and_eq_true] at hsome
      exact ⟨Option.not_isSome_iff_eq_none.mp hnone, Option.isSome_iff_exists.mp hsome.1⟩
    · cases h

theorem isPublicArkAddress_cases (h : isPublicArkAddress address = true) :
    isIP address = 4 ∧ isPublicIpv4 address = true ∨ isIP address = 6 ∧ isPublicIpv6 address = true := by
  unfold isPublicArkAddress at h
  split_ifs at h with hfour hsix
  · exact .inl ⟨hfour, h⟩
  · exact .inr ⟨hsix, h⟩

/-- The address of IPv6 that passes is reserved only where it is overlooked. -/
theorem isReservedIpv6_iff (hpublic : isPublicIpv6 address = true)
    (h : parseIpv6 (normalizedIpv6 address) = some groups) : IsReservedIpv6 groups ↔
      ¬ IsMapped groups ∧ ¬ IsGlobalUnicast groups ∨ IsDocumentation groups ∨ IsProtocolAssignment groups ∨
        TunnelsReserved groups := by
  have hmaps : ¬ MapsReserved groups := by
    rintro ⟨hmapped, hreserved⟩
    rcases groups_of_isPublicIpv6 hpublic h with hglobal | hnot
    · -- the first group of a mapped address is zero
      have hzero : group groups 0 = 0 := by
        cases groups with
        | nil => rfl
        | cons g gs => exact (List.cons.inj hmapped).1
      unfold IsGlobalUnicast at hglobal
      omega
    · exact hnot hreserved
  unfold IsReservedIpv6
  rw [or_iff_right hmaps]

/-- An address that passes is outside all reserved ranges, unless it is overlooked. -/
theorem isOutsideReserved_iff (h : isPublicArkAddress address = true) :
    IsOutsideReserved address ↔ ¬ IsOverlooked address := by
  rcases isPublicArkAddress_cases h with ⟨hfour, hpublic⟩ | ⟨hsix, hpublic⟩
  · obtain ⟨x, hx⟩ := isIP_four hfour
    refine iff_of_true (.inl ⟨x, hx, (isPublicIpv4_iff hx).mp hpublic⟩) fun hoverlooked => ?_
    exact absurd (hfour.symm.trans hoverlooked.1) (by decide)
  · obtain ⟨hnone, groups, hgroups⟩ := isIP_six hsix
    constructor
    · rintro (⟨x, hx, -⟩ | ⟨-, groups', hgroups', houtside⟩) ⟨-, -, groups'', hgroups'', hkind⟩
      · rw [hnone] at hx
        cases hx
      · rw [hgroups'] at hgroups''
        cases hgroups''
        exact houtside ((isReservedIpv6_iff hpublic hgroups').mpr hkind)
    · intro hnot
      refine .inr ⟨hsix, groups, hgroups, fun hreserved => hnot ⟨hsix, hpublic, groups, hgroups, ?_⟩⟩
      exact (isReservedIpv6_iff hpublic hgroups).mp hreserved

/-- An address that passes is no loopback address. -/
theorem not_isLoopback (h : isPublicArkAddress address = true) : ¬ IsLoopback address := by
  rcases isPublicArkAddress_cases h with ⟨hfour, hpublic⟩ | ⟨hsix, hpublic⟩
  · rintro (⟨x, hx, hloopback⟩ | ⟨hsix, -⟩)
    · have hoctets := (isPublicIpv4_eq hx).symm.trans hpublic
      rw [hloopback, isPublicOctets_iff] at hoctets
      exact hoctets (.inr (.inr (.inr (.inl rfl))))
    · exact absurd (hfour.symm.trans hsix) (by decide)
  · obtain ⟨hnone, groups, hgroups⟩ := isIP_six hsix
    rintro (⟨x, hx, -⟩ | ⟨-, groups', hgroups', hloopback⟩)
    · rw [hnone] at hx
      cases hx
    · rw [hloopback] at hgroups'
      rcases groups_of_isPublicIpv6 hpublic hgroups' with hglobal | hnot
      · exact absurd hglobal (by decide)
      · exact hnot (by decide)

/-! ### Base URLs -/

theorem official_base : "https://".toList ++ officialArkHost ++ "/api/v3".toList = defaultArkBaseUrl := by
  unfold officialArkHost defaultArkBaseUrl
  rw [String.toList_ofList, String.toList_ofList, String.toList_ofList, String.toList_ofList]
  rfl

theorem validate_cases (hurls : LawfulUrls platform) {baseUrl : Option Text} {testOnly : Bool}
    (h : validateArkBaseUrlStructure platform baseUrl = some (url, testOnly)) :
    testOnly = false ∧ url.hostname = officialArkHost ∧ url.text = defaultArkBaseUrl ∨
    testOnly = true ∧ isTestEnvironment platform = true ∧ isLoopbackAddress platform url.hostname = true ∧
      platform.toLowerCase url.hostname = url.hostname ∧ isIP url.hostname ≠ 6 ∧
      ∃ endpoint, platform.newUrl (withoutSlash url.text ++ "/chat/completions".toList) = some endpoint ∧
        endpoint.hostname = url.hostname := by
  unfold validateArkBaseUrlStructure at h
  simp only [Option.bind_eq_bind, Option.bind_eq_some_iff] at h
  obtain ⟨parsed, hparsed, h⟩ := h
  split at h
  · rename_i hofficial
    obtain ⟨found, hfound, hpair⟩ := Option.map_eq_some_iff.mp h
    cases hpair
    obtain ⟨official, hnew, hhost, htext⟩ := hurls.official
    rw [hofficial.2.1, official_base, hnew] at hfound
    cases hfound
    exact .inl ⟨rfl, hhost, htext⟩
  · split at h
    · rename_i hallowed
      obtain ⟨found, hfound, hpair⟩ := Option.map_eq_some_iff.mp h
      cases hpair
      simp only [isExplicitLoopbackTestAllowed, Bool.and_eq_true, Bool.or_eq_true, decide_eq_true_eq] at hallowed
      obtain ⟨⟨⟨⟨⟨⟨⟨⟨htest, hprotocol⟩, hloopback⟩, -⟩, -⟩, -⟩, -⟩, -⟩, -⟩ := hallowed
      obtain ⟨hsame, hhost⟩ := hurls.rebuilt _ parsed url hparsed hprotocol hfound
      obtain ⟨endpoint, hendpoint, hendpointHost⟩ := hurls.appended _ parsed url hparsed hprotocol hfound
      refine .inr ⟨rfl, htest, by rw [hhost]; exact hloopback, ?_, hurls.brackets _ url hfound, endpoint, hendpoint,
        hendpointHost⟩
      exact hurls.lower _ url hfound (hsame ▸ hprotocol)
    · cases h

/-- A loopback host that is an address is a loopback address. -/
theorem isLoopback_of_host (hloopback : isLoopbackAddress platform address = true)
    (hlower : platform.toLowerCase address = address) (hfour : isIP address = 4) : IsLoopback address := by
  obtain ⟨x, hx⟩ := isIP_four hfour
  have hchars := chars_of_parseIpv4 hx
  have hopen : '[' ∉ address := fun hmem => by
    rcases hchars _ hmem with hc | hc
    · exact absurd hc (by decide)
    · exact absurd hc (by decide)
  have hclose : ']' ∉ address := fun hmem => by
    rcases hchars _ hmem with hc | hc
    · exact absurd hc (by decide)
    · exact absurd hc (by decide)
  have hstrip : stripBrackets address = address := by
    have hhead : ¬ address.head? = some '[' := fun h => hopen (List.mem_of_mem_head? h)
    have hlast : ¬ address.getLast? = some ']' := fun h => hclose (List.mem_of_getLast? h)
    simp only [stripBrackets, hhead, if_false, hlast]
  simp only [isLoopbackAddress, hlower, hstrip, Bool.or_eq_true, decide_eq_true_eq, List.isPrefixOf_iff_prefix]
    at hloopback
  rcases hloopback with (hname | hsix) | ⟨rest, hrest⟩
  · rw [hname, (by decide : parseIpv4 "localhost".toList = none)] at hx
    cases hx
  · rw [hsix, (by decide : parseIpv4 "::1".toList = none)] at hx
    cases hx
  · refine .inl ⟨x, hx, ?_⟩
    obtain ⟨pa, pb, pc, pd, hsplit, ha, -⟩ := parseIpv4_eq_some hx
    have hfirst : "127.".toList ++ rest = "127".toList ++ '.' :: rest := rfl
    rw [← hrest, hfirst, List.splitOn_append_cons_self_of_not_mem (by decide)] at hsplit
    rw [← (List.cons.inj hsplit).1] at ha
    exact (Option.some.inj ha).symm

/-! ### Requests -/

theorem postArkJson_eq_ok {request : PinnedRequest} (h : postArkJson platform input = .ok request) :
    ∃ url testOnly, validateArkBaseUrlStructure platform input.baseUrl = some (url, testOnly) ∧
      resolveAndValidateAddresses platform url.hostname testOnly = .ok request.addresses ∧
      platform.newUrl (withoutSlash url.text ++ "/chat/completions".toList) = some request.endpoint ∧
      input.bodyBytes ≤ maxArkRequestBytes ∧
      request.maxResponseBytes = boundedMaxResponseBytes input.maxResponseBytes := by
  unfold postArkJson at h
  split at h
  · cases h
  · rename_i url testOnly hvalidated
    cases haddresses : resolveAndValidateAddresses platform url.hostname testOnly with
    | error e =>
      rw [haddresses] at h
      cases h
    | ok addresses =>
      rw [haddresses] at h
      dsimp only [bind, Except.bind] at h
      split at h
      · cases h
      · rename_i endpoint hendpoint
        split at h
        · cases h
        · rename_i hbytes
          cases h
          exact ⟨url, testOnly, hvalidated, haddresses, hendpoint, Nat.le_of_not_lt hbytes, rfl⟩

theorem resolve_name {hostname : Text} (hname : isIP hostname = 0) {testOnly : Bool} {addresses : List Address} :
    resolveAndValidateAddresses platform hostname testOnly = .ok addresses ↔
      platform.lookup hostname = some addresses ∧ addresses ≠ [] ∧
        ∀ record ∈ addresses, isPublicArkAddress record.address = true := by
  unfold resolveAndValidateAddresses
  rw [if_neg (by simp [hname])]
  cases hlookup : platform.lookup hostname with
  | none => simp
  | some records =>
    simp only [List.any_eq_true, Bool.not_eq_true', Option.some.injEq]
    split_ifs with hnil hany
    · simp only [false_iff, not_and]
      rintro rfl
      exact fun hne => absurd hnil hne
    · simp only [false_iff, not_and]
      rintro rfl -
      obtain ⟨record, hrecord, hprivate⟩ := hany
      exact fun hall => absurd ((hall record hrecord).symm.trans hprivate) (by decide)
    · constructor
      · rintro ⟨⟩
        refine ⟨rfl, hnil, fun record hrecord => ?_⟩
        by_contra hprivate
        exact hany ⟨record, hrecord, Bool.not_eq_true _ ▸ hprivate⟩
      · rintro ⟨rfl, -⟩
        rfl

theorem mem_of_connectsTo {request : PinnedRequest} (hname : isIP request.endpoint.hostname = 0)
    (h : request.ConnectsTo address) : ∃ record ∈ request.addresses, record.address = address := by
  unfold PinnedRequest.ConnectsTo at h
  rw [if_neg (by simp [hname])] at h
  obtain ⟨family, all, found, hfound, item, hitem, rfl⟩ := h
  refine ⟨item, ?_, rfl⟩
  have hsub : ∀ record ∈ (if family = 4 ∨ family = 6 then request.addresses.filter fun item => item.family = family
      else request.addresses), record ∈ request.addresses := by
    intro record hrecord
    split at hrecord
    · exact (List.mem_filter.mp hrecord).1
    · exact hrecord
  unfold PinnedRequest.lookupPinned at hfound
  dsimp only at hfound
  split at hfound
  · cases hfound
  · rename_i first rest hlist
    rw [hlist] at hsub
    cases hfound
    split at hitem
    · exact hsub item hitem
    · rw [List.mem_singleton] at hitem
      exact hsub item (hitem ▸ List.mem_cons_self)

/-- A lookup of all addresses gives each. -/
theorem connectsTo_of_mem {request : PinnedRequest} (hname : isIP request.endpoint.hostname = 0) {record : Address}
    (h : record ∈ request.addresses) : request.ConnectsTo record.address := by
  unfold PinnedRequest.ConnectsTo
  rw [if_neg (by simp [hname])]
  refine ⟨0, true, request.addresses, ?_, record, h, rfl⟩
  unfold PinnedRequest.lookupPinned
  dsimp only
  rw [if_neg (by decide)]
  cases hlist : request.addresses with
  | nil =>
    rw [hlist] at h
    cases h
  | cons first rest => rfl

theorem postArkJson_ok {testOnly : Bool} {addresses : List Address} {endpoint : Url}
    (hvalidated : validateArkBaseUrlStructure platform input.baseUrl = some (url, testOnly))
    (haddresses : resolveAndValidateAddresses platform url.hostname testOnly = .ok addresses)
    (hendpoint : platform.newUrl (withoutSlash url.text ++ "/chat/completions".toList) = some endpoint)
    (hbytes : input.bodyBytes ≤ maxArkRequestBytes) :
    postArkJson platform input =
      .ok ⟨endpoint, addresses, input.apiKey, boundedMaxResponseBytes input.maxResponseBytes⟩ := by
  simp only [postArkJson, hvalidated, haddresses, bind, Except.bind, hendpoint]
  rw [if_neg (by omega)]

/-- The official host is no loopback name. -/
theorem official_not_loopback (hlower : platform.toLowerCase officialArkHost = officialArkHost) :
    isLoopbackAddress platform officialArkHost = false := by
  unfold isLoopbackAddress
  rw [hlower]
  unfold officialArkHost
  rw [String.toList_ofList, String.toList_ofList, String.toList_ofList, String.toList_ofList]
  decide

theorem official_isIP : isIP officialArkHost = 0 := by
  unfold officialArkHost
  rw [String.toList_ofList]
  decide

/-- The endpoint of the official base URL. -/
theorem official_endpoint (hurls : LawfulUrls platform) (htext : url.text = defaultArkBaseUrl) :
    ∃ endpoint, platform.newUrl (withoutSlash url.text ++ "/chat/completions".toList) = some endpoint ∧
      endpoint.hostname = officialArkHost ∧ ∀ request : PinnedRequest, request.endpoint = endpoint →
        IsOfficial platform request := by
  obtain ⟨endpoint, hendpoint, hprotocol, hhost, hpath, hsearch⟩ := hurls.completions
  have hslash : withoutSlash defaultArkBaseUrl = defaultArkBaseUrl := by
    unfold defaultArkBaseUrl
    rw [String.toList_ofList]
    decide
  refine ⟨endpoint, by rw [htext, hslash, hendpoint], hhost, ?_⟩
  rintro request rfl
  refine ⟨hprotocol, hhost, ?_, if_pos hprotocol⟩
  rw [PinnedRequest.path, hpath, hsearch, List.append_nil]

/-- **The Ark key goes only where it may, where nothing exposes it.** -/
theorem key_is_confined (hurls : LawfulUrls platform) (input : Input) :
    KeyIsConfined platform input ↔ ¬ IsExposed platform input := by
  constructor
  · rintro hconfined ⟨hbytes, url, testOnly, records, hvalidated, hname, hlookup, hne, hpublic, hkind⟩
    have hresolved : resolveAndValidateAddresses platform url.hostname testOnly = .ok records :=
      (resolve_name hname).mpr ⟨hlookup, hne, hpublic⟩
    rcases validate_cases hurls hvalidated with ⟨rfl, -, htext⟩ | ⟨rfl, -, hloopback, hlower, -, hendpoints⟩
    · obtain ⟨endpoint, hendpoint, hhost, -⟩ := official_endpoint hurls htext
      obtain ⟨record, hrecord, hoverlooked⟩ := hkind.resolve_left (by decide)
      have hconnects :=
        @connectsTo_of_mem ⟨endpoint, records, input.apiKey, boundedMaxResponseBytes input.maxResponseBytes⟩
          (hhost ▸ official_isIP) _ hrecord
      rcases (hconfined _ (postArkJson_ok hvalidated hresolved hendpoint hbytes)).1 _ hconnects with h | h
      · exact (isOutsideReserved_iff (hpublic record hrecord)).mp h.2 hoverlooked
      · exact not_isLoopback (hpublic record hrecord) h.2
    · obtain ⟨endpoint, hendpoint, hhost⟩ := hendpoints
      obtain ⟨record, rest, hrecords⟩ := List.exists_cons_of_ne_nil hne
      have hrecord : record ∈ records := hrecords ▸ List.mem_cons_self
      have hconnects :=
        @connectsTo_of_mem ⟨endpoint, records, input.apiKey, boundedMaxResponseBytes input.maxResponseBytes⟩
          (hhost ▸ hname) _ hrecord
      rcases (hconfined _ (postArkJson_ok hvalidated hresolved hendpoint hbytes)).1 _ hconnects with h | h
      · have hsame : url.hostname = officialArkHost := hhost.symm.trans h.1.2.1
        rw [hsame] at hloopback hlower
        exact absurd ((official_not_loopback hlower).symm.trans hloopback) (by decide)
      · exact not_isLoopback (hpublic record hrecord) h.2
  · intro hexposed request hrequest
    obtain ⟨url, testOnly, hvalidated, haddresses, hendpoint, hbytes, hmax⟩ := postArkJson_eq_ok hrequest
    refine ⟨fun address hconnects => ?_, fun response => ?_⟩
    · rcases validate_cases hurls hvalidated with
        ⟨rfl, hhost, htext⟩ | ⟨rfl, htest, hloopback, hlower, hsix, hendpoints⟩
      · obtain ⟨endpoint, hfound, hendpointHost, hofficial⟩ := official_endpoint hurls htext
        have hsame : request.endpoint = endpoint := Option.some.inj (hendpoint.symm.trans hfound)
        have hname : isIP url.hostname = 0 := hhost ▸ official_isIP
        obtain ⟨hlookup, hne, hpublic⟩ := (resolve_name hname).mp haddresses
        obtain ⟨record, hrecord, rfl⟩ := mem_of_connectsTo (by rw [hsame, hendpointHost, official_isIP]) hconnects
        refine .inl ⟨hofficial request hsame, (isOutsideReserved_iff (hpublic record hrecord)).mpr fun hoverlooked => ?_⟩
        exact hexposed ⟨hbytes, url, false, _, hvalidated, hname, hlookup, hne, hpublic,
          .inr ⟨record, hrecord, hoverlooked⟩⟩
      · obtain ⟨endpoint, hfound, hendpointHost⟩ := hendpoints
        have hsame : request.endpoint = endpoint := Option.some.inj (hendpoint.symm.trans hfound)
        by_cases hname : isIP url.hostname = 0
        · obtain ⟨hlookup, hne, hpublic⟩ := (resolve_name hname).mp haddresses
          exact absurd ⟨hbytes, url, true, _, hvalidated, hname, hlookup, hne, hpublic, .inl rfl⟩ hexposed
        · unfold PinnedRequest.ConnectsTo at hconnects
          rw [hsame, hendpointHost, if_pos hname] at hconnects
          have hfour : isIP url.hostname = 4 := (isIP_cases url.hostname).resolve_right (not_or.mpr ⟨hsix, hname⟩)
          exact .inr ⟨htest, hconnects ▸ isLoopback_of_host hloopback hlower hfour⟩
    · obtain ⟨hredirect, hlength⟩ := response_spec request response
      refine ⟨hredirect, fun body ok status h => ⟨hlength body ok status h, ?_⟩⟩
      rw [hmax]
      exact boundedMaxResponseBytes_le _

/-- The official host, whose name has these addresses. -/
def officialPlatform (records : List Address) : Platform where
  env _ := none
  newUrl text :=
    if ("https://".toList ++ officialArkHost).isPrefixOf text then
      some
        { protocol := "https:".toList, hostname := officialArkHost, port := [], username := [], password := [],
          pathname := text.drop 33, search := [], hash := [], text }
    else none
  toLowerCase text := text.map Char.toLower
  lookup _ := some records
  finiteNumber text := if text = ['0'] then some 0 else none

theorem officialPlatform_newUrl {records : List Address} {text : Text}
    (h : (officialPlatform records).newUrl text = some url) :
    url.protocol = "https:".toList ∧ url.hostname = officialArkHost ∧ url.port = [] ∧ url.text = text := by
  simp only [officialPlatform] at h
  split at h
  · cases h
    exact ⟨rfl, rfl, rfl, rfl⟩
  · cases h

theorem withoutSlash_append {a b : Text} (hb : b ≠ []) : ∃ b', withoutSlash (a ++ b) = a ++ b' := by
  unfold withoutSlash
  split
  · exact ⟨b.dropLast, List.dropLast_append_of_ne_nil hb⟩
  · exact ⟨b, rfl⟩

theorem normalizedPath_ne_nil (url : Url) : normalizedPath url ≠ [] := by
  unfold normalizedPath
  split
  · exact List.cons_ne_nil _ _
  · assumption

theorem officialPlatform_lawful (records : List Address) : LawfulUrls (officialPlatform records) where
  lower _ url h _ := by
    rw [(officialPlatform_newUrl h).2.1]
    change officialArkHost.map Char.toLower = officialArkHost
    unfold officialArkHost
    rw [String.toList_ofList]
    decide
  brackets _ url h := by
    rw [(officialPlatform_newUrl h).2.1, official_isIP]
    decide
  official := ⟨_, rfl, rfl, rfl⟩
  completions := ⟨_, rfl, rfl, rfl, by decide, rfl⟩
  rebuilt _ url url' h _ h' := by
    obtain ⟨hprotocol, hhost, -⟩ := officialPlatform_newUrl h
    obtain ⟨hprotocol', hhost', -⟩ := officialPlatform_newUrl h'
    exact ⟨hprotocol'.trans hprotocol.symm, hhost'.trans hhost.symm⟩
  appended _ url url' h _ h' := by
    obtain ⟨hprotocol, hhost, hport, -⟩ := officialPlatform_newUrl h
    obtain ⟨-, hhost', -, htext'⟩ := officialPlatform_newUrl h'
    obtain ⟨path, hpath⟩ := withoutSlash_append
      (a := "https://".toList ++ officialArkHost) (normalizedPath_ne_nil url)
    have htext : url'.text = "https://".toList ++ officialArkHost ++ normalizedPath url := by
      rw [htext', testBaseUrl, hprotocol, hhost, portSuffix, hport, if_pos rfl]
      rfl
    refine ⟨_, if_pos (List.isPrefixOf_iff_prefix.mpr ?_), hhost'.symm⟩
    rw [htext, hpath, List.append_assoc]
    exact List.prefix_append _ _

/-- A request with the default base URL. -/
def defaultInput : Input := ⟨"key".toList, none, 100, none⟩

/-- `new URL` of a text with the official host. -/
def officialUrl (text : Text) : Url :=
  { protocol := "https:".toList, hostname := officialArkHost, port := [], username := [], password := [],
    pathname := text.drop 33, search := [], hash := [], text }

theorem officialPlatform_validate (records : List Address) :
    validateArkBaseUrlStructure (officialPlatform records) none = some (officialUrl defaultArkBaseUrl, false) := by
  rfl

theorem key_is_confined_public :
    KeyIsConfined (officialPlatform [⟨"101.126.4.1".toList, 4⟩, ⟨"2404:b3c0::1".toList, 6⟩]) defaultInput := by
  refine (key_is_confined (officialPlatform_lawful _) defaultInput).mpr ?_
  rintro ⟨-, url, testOnly, records, hvalidated, -, hlookup, -, -, hkind⟩
  have hpair := Option.some.inj ((officialPlatform_validate _).symm.trans hvalidated)
  cases hlookup
  cases hpair
  obtain ⟨record, hrecord, hsix, -, groups, hgroups, hkind⟩ := hkind.resolve_left (by decide)
  simp only [List.mem_cons, List.not_mem_nil, or_false] at hrecord
  rcases hrecord with rfl | rfl
  · exact absurd hsix (by decide)
  · rw [(by decide : parseIpv6 (normalizedIpv6 "2404:b3c0::1".toList) = some [0x2404, 0xb3c0, 0, 0, 0, 0, 0, 1])]
      at hgroups
    cases hgroups
    exact absurd hkind (by decide)

/-- **A 6to4 address passes that tunnels to 127.0.0.1.** -/
theorem key_to_tunnel : ¬ KeyIsConfined (officialPlatform [⟨"2002:7f00:1::1".toList, 6⟩]) defaultInput := by
  intro hconfined
  have hpublic : isPublicArkAddress "2002:7f00:1::1".toList = true := by decide
  have hresolved : resolveAndValidateAddresses (officialPlatform [⟨"2002:7f00:1::1".toList, 6⟩]) officialArkHost false =
      .ok [⟨"2002:7f00:1::1".toList, 6⟩] := by
    refine (resolve_name official_isIP).mpr ⟨rfl, List.cons_ne_nil _ _, fun record hrecord => ?_⟩
    rw [List.mem_singleton] at hrecord
    rw [hrecord, hpublic]
  let request : PinnedRequest :=
    ⟨officialUrl (defaultArkBaseUrl ++ "/chat/completions".toList), [⟨"2002:7f00:1::1".toList, 6⟩], "key".toList,
      boundedMaxResponseBytes none⟩
  have hrequest : postArkJson (officialPlatform [⟨"2002:7f00:1::1".toList, 6⟩]) defaultInput = .ok request :=
    postArkJson_ok (officialPlatform_validate _) hresolved rfl (by decide)
  have hconnects : request.ConnectsTo "2002:7f00:1::1".toList :=
    @connectsTo_of_mem request official_isIP ⟨"2002:7f00:1::1".toList, 6⟩ List.mem_cons_self
  rcases (hconfined _ hrequest).1 _ hconnects with ⟨-, houtside⟩ | ⟨htest, -⟩
  · refine (isOutsideReserved_iff hpublic).mp houtside ⟨by decide, by decide,
      [0x2002, 0x7f00, 1, 0, 0, 0, 0, 1], by decide, .inr (.inr (.inr (.inl ⟨rfl, by decide⟩)))⟩
  · cases htest

end OwnMinutes.Ark.KeyConfinement
