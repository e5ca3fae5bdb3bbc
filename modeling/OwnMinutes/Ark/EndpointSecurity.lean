import OwnMinutes.Lib.IpText
import OwnMinutes.Lib.JsText
import OwnMinutes.Auth.ProcessingRoute

/-! # The guarded Ark endpoint

`postArkJson` up to the request that it sends, and what it makes of the response. The parts of the platform that it
uses are parameters (`Platform`): the parser of URLs, the resolver of names, `toLowerCase` and `Number`. -/

namespace OwnMinutes.Ark.EndpointSecurity

open OwnMinutes.Lib.IpText OwnMinutes.Lib.JsText

structure Url where
  protocol : Text
  hostname : Text
  port : Text
  username : Text
  password : Text
  pathname : Text
  search : Text
  hash : Text
  /-- `url.toString()` -/
  text : Text
  deriving DecidableEq, Repr

structure Address where
  address : Text
  family : ℕ
  deriving DecidableEq, Repr

structure Platform where
  /-- `process.env` -/
  env : String → Option Text
  /-- `new URL(text)`, nothing where it throws. -/
  newUrl : Text → Option Url
  toLowerCase : Text → Text
  /-- `lookup(hostname, { all: true, verbatim: true })`, nothing where it fails. -/
  lookup : Text → Option (List Address)
  /-- `Number(text)`, where that is finite. -/
  finiteNumber : Text → Option ℚ

inductive ArkEndpointSecurityError
  | dnsResolutionFailed
  | endpointForbidden
  | redirectForbidden
  | privateAddressForbidden
  | responseTooLarge
  /-- Any other error. -/
  | other
  deriving DecidableEq, Repr

def defaultArkBaseUrl : Text := "https://ark.cn-beijing.volces.com/api/v3".toList

def officialArkHost : Text := "ark.cn-beijing.volces.com".toList

def maxArkRequestBytes : ℕ := 8 * 1024 * 1024

/-! ### Addresses -/

/-- What `net.isIP` reads of an IPv6 address: in lower case and without the zone. -/
def normalizedIpv6 (address : Text) : Text := (address.map Char.toLower).takeWhile (· ≠ '%')

/-- `(?:%[0-9a-zA-Z-.:]{1,})?` -/
def isZone (rest : Text) : Bool :=
  match rest with
  | [] => true
  | _ :: zone => zone ≠ [] && zone.all fun c => c.isAlphanum || c = '-' || c = '.' || c = ':'

/-- `net.isIP` -/
def isIP (address : Text) : ℕ :=
  if (parseIpv4 address).isSome then 4
  else if (parseIpv6 (normalizedIpv6 address)).isSome && isZone (address.dropWhile (· ≠ '%')) then 6
  else 0

/-- `Number` of digits. -/
def digitsNumber (part : Text) : Option ℕ := if part ≠ [] ∧ part.all Char.isDigit then some (decimal part) else none

def isPublicOctets (a b c : ℕ) : Bool :=
  if a = 0 || a = 10 || a = 127 || 224 ≤ a then false
  else if a = 100 && 64 ≤ b && b ≤ 127 then false
  else if a = 169 && b = 254 then false
  else if a = 172 && 16 ≤ b && b ≤ 31 then false
  else if a = 192 && b = 168 then false
  else if a = 192 && b = 0 && c = 0 then false
  else if a = 192 && b = 0 && c = 2 then false
  else if a = 192 && b = 88 && c = 99 then false
  else if a = 198 && (b = 18 || b = 19) then false
  else if a = 198 && b = 51 && c = 100 then false
  else if a = 203 && b = 0 && c = 113 then false
  else true

/-- It is only called with digits between dots. -/
def isPublicIpv4 (address : Text) : Bool :=
  match (address.splitOn '.').map digitsNumber with
  | [some a, some b, some c, some d] =>
    if 255 < a || 255 < b || 255 < c || 255 < d then false else isPublicOctets a b c
  | _ => false

/-- `\d+\.\d+\.\d+\.\d+` -/
def isDotted (text : Text) : Bool :=
  (text.splitOn '.').length = 4 && (text.splitOn '.').all fun part => part ≠ [] && part.all Char.isDigit

/-- What the group of `/::ffff:(\d+\.\d+\.\d+\.\d+)$/` matches; the beginning is not anchored. -/
def mappedIpv4 (normalized : Text) : Option Text :=
  (normalized.tails.find? fun rest => "::ffff:".toList.isPrefixOf rest && isDotted (rest.drop 7)).map (·.drop 7)

/-- `/^[23][0-9a-f]{3}:/` -/
def startsGlobal : Text → Bool
  | h₁ :: h₂ :: h₃ :: h₄ :: ':' :: _ =>
    (h₁ = '2' || h₁ = '3') && isHexDigit h₂ && isHexDigit h₃ && isHexDigit h₄
  | _ => false

/-- `/^fe[89ab]/` -/
def startsLinkLocal : Text → Bool
  | 'f' :: 'e' :: c :: _ => c = '8' || c = '9' || c = 'a' || c = 'b'
  | _ => false

def isPublicIpv6 (address : Text) : Bool :=
  let normalized := normalizedIpv6 address
  let startsWith (beginning : String) : Bool := beginning.toList.isPrefixOf normalized
  match mappedIpv4 normalized with
  | some mapped => isPublicIpv4 mapped
  | none =>
    if normalized = "::".toList || normalized = "::1".toList then false
    else if startsWith "fc" || startsWith "fd" then false
    else if startsLinkLocal normalized then false
    else if startsWith "ff" then false
    else if startsWith "2001:db8:" then false
    else if startsWith "2001:10:" || startsWith "2001:2:" then false
    else startsGlobal normalized

def isPublicArkAddress (address : Text) : Bool :=
  if isIP address = 4 then isPublicIpv4 address
  else if isIP address = 6 then isPublicIpv6 address
  else false

/-! ### The base URL -/

variable (platform : Platform)

/-- `replace(/^\[|\]$/g, "")` -/
def stripBrackets (text : Text) : Text :=
  let text := if text.head? = some '[' then text.tail else text
  if text.getLast? = some ']' then text.dropLast else text

def isLoopbackAddress (address : Text) : Bool :=
  let normalized := stripBrackets (platform.toLowerCase address)
  normalized = "localhost".toList || normalized = "::1".toList || "127.".toList.isPrefixOf normalized

/-- `/^[a-z][a-z0-9+.-]*:\/\/([^/]+)/i` -/
def authorityOf (candidate : Text) : Text :=
  match candidate with
  | [] => []
  | c :: rest =>
    let rest := rest.dropWhile fun c => c.isAlphanum || c = '+' || c = '.' || c = '-'
    if c.isAlpha && "://".toList.isPrefixOf rest then (rest.drop 3).takeWhile (· ≠ '/') else []

/-- `url.pathname.replace(/\/+$/, "") || "/"` -/
def normalizedPath (url : Url) : Text :=
  match url.pathname.rdropWhile (· = '/') with
  | [] => ['/']
  | path => path

def isTestEnvironment : Bool :=
  platform.env "NODE_ENV" ≠ some "production".toList &&
    platform.env "OWNMINUTES_ALLOW_UNSAFE_ARK_LOOPBACK_TEST" = some "1".toList

def portSuffix (url : Url) : Text := if url.port = [] then [] else ':' :: url.port

def isExplicitLoopbackTestAllowed (url : Url) (authority : Text) : Bool :=
  isTestEnvironment platform && (url.protocol = "http:".toList || url.protocol = "https:".toList) &&
    isLoopbackAddress platform url.hostname &&
    authority = platform.toLowerCase url.hostname ++ portSuffix url &&
    url.username = [] && url.password = [] && url.search = [] && url.hash = [] &&
    utf16Length (normalizedPath url) ≤ 120

/-- `${url.protocol}//${url.hostname}${port}${normalizedPath}` -/
def testBaseUrl (url : Url) : Text :=
  url.protocol ++ "//".toList ++ url.hostname ++ portSuffix url ++ normalizedPath url

/-- The URL and whether it is for tests only; nothing where it is refused or the function throws. -/
def validateArkBaseUrlStructure (input : Option Text) : Option (Url × Bool) := do
  let candidate := trim ((input.filter (· ≠ [])).getD defaultArkBaseUrl)
  let url ← platform.newUrl candidate
  let authority := platform.toLowerCase (authorityOf candidate)
  let hostname := platform.toLowerCase url.hostname
  if url.protocol = "https:".toList ∧ hostname = officialArkHost ∧ authority = hostname ∧ url.username = [] ∧
      url.password = [] ∧ url.port = [] ∧ url.search = [] ∧ url.hash = [] ∧
      normalizedPath url = "/api/v3".toList then
    (platform.newUrl ("https://".toList ++ hostname ++ "/api/v3".toList)).map fun url => (url, false)
  else if isExplicitLoopbackTestAllowed platform url authority then
    (platform.newUrl (testBaseUrl url)).map fun url => (url, true)
  else none

/-! ### The request -/

def resolveAndValidateAddresses (hostname : Text) (testOnly : Bool) : Except ArkEndpointSecurityError (List Address) :=
  if isIP hostname ≠ 0 then
    if testOnly && isLoopbackAddress platform hostname then .ok [⟨hostname, isIP hostname⟩]
    else if isPublicArkAddress hostname then .ok [⟨hostname, isIP hostname⟩]
    else .error .privateAddressForbidden
  else
    match platform.lookup hostname with
    | none => .error .dnsResolutionFailed
    | some records =>
      if records = [] then .error .dnsResolutionFailed
      else if records.any fun record => !isPublicArkAddress record.address then .error .privateAddressForbidden
      else .ok records

structure Input where
  apiKey : Text
  baseUrl : Option Text
  /-- The length of the body as JSON in UTF-8. -/
  bodyBytes : ℕ
  /-- `maxResponseBytes`, where it is finite. -/
  maxResponseBytes : Option ℚ

/-- What `requestPinnedJson` sends. -/
structure PinnedRequest where
  endpoint : Url
  addresses : List Address
  apiKey : Text
  maxResponseBytes : ℕ

def boundedMaxResponseBytes (value : Option ℚ) : ℕ :=
  match value with
  | none => 2 * 1024 * 1024
  | some value => (max 1024 (min (4 * 1024 * 1024) (Auth.ProcessingRoute.mathRound value))).toNat

/-- `replace(/\/$/, "")` -/
def withoutSlash (text : Text) : Text := if text.getLast? = some '/' then text.dropLast else text

def postArkJson (input : Input) : Except ArkEndpointSecurityError PinnedRequest :=
  match validateArkBaseUrlStructure platform input.baseUrl with
  | none => .error .endpointForbidden
  | some (url, testOnly) => do
    let addresses ← resolveAndValidateAddresses platform url.hostname testOnly
    match platform.newUrl (withoutSlash url.text ++ "/chat/completions".toList) with
    | none => .error .other
    | some endpoint =>
      if maxArkRequestBytes < input.bodyBytes then .error .endpointForbidden
      else
        .ok
          { endpoint, addresses, apiKey := input.apiKey,
            maxResponseBytes := boundedMaxResponseBytes input.maxResponseBytes }

namespace PinnedRequest

variable (request : PinnedRequest)

/-- The port that the request is sent to, where it is a number. -/
def port : Option ℚ :=
  if request.endpoint.protocol = "https:".toList then some 443
  else if request.endpoint.port = [] then some 80
  else platform.finiteNumber request.endpoint.port

def path : Text := request.endpoint.pathname ++ request.endpoint.search

/-- `lookupPinned` with the given options, nothing where it gives an error. -/
def lookupPinned (family : ℕ) (all : Bool) : Option (List Address) :=
  let addresses :=
    if family = 4 ∨ family = 6 then request.addresses.filter fun item => item.family = family else request.addresses
  match addresses with
  | [] => none
  | first :: rest => some (if all then first :: rest else [first])

/-- The address that is connected to: an address as the host, or else one that the lookup gives. -/
def ConnectsTo (address : Text) : Prop :=
  if isIP request.endpoint.hostname ≠ 0 then address = request.endpoint.hostname
  else ∃ family all found, request.lookupPinned family all = some found ∧ ∃ item ∈ found, item.address = address

end PinnedRequest

/-! ### The response -/

inductive ResponseEvent
  | data (chunk : List UInt8)
  | error
  | ended

structure Response where
  status : ℕ
  contentLength : Option Text
  /-- What comes of the body, in this order. -/
  events : List ResponseEvent

inductive Outcome
  | resolved (body : List UInt8) (ok : Bool) (status : ℕ)
  | rejected (error : ArkEndpointSecurityError)
  | waiting
  deriving DecidableEq

/-- A body that grows too long is destroyed with an error. -/
def readBody (maxResponseBytes status : ℕ) : List UInt8 → List ResponseEvent → Outcome
  | _, [] => .waiting
  | chunks, .data chunk :: events =>
    if maxResponseBytes < chunks.length + chunk.length then .rejected .responseTooLarge
    else readBody maxResponseBytes status (chunks ++ chunk) events
  | _, .error :: _ => .rejected .other
  | chunks, .ended :: _ => .resolved chunks (200 ≤ status && status < 300) status

def handleResponse (request : PinnedRequest) (response : Response) : Outcome :=
  if 300 ≤ response.status && response.status < 400 then .rejected .redirectForbidden
  else if (platform.finiteNumber ((response.contentLength.filter (· ≠ [])).getD ['0'])).any
      fun declared => (request.maxResponseBytes : ℚ) < declared then .rejected .responseTooLarge
  else readBody request.maxResponseBytes response.status [] response.events

end OwnMinutes.Ark.EndpointSecurity
