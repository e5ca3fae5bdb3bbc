import OwnMinutes.Lib.Dialogue
import OwnMinutes.VolcanoAsr.Config

/-! # Recognition of a file

One call of `transcribeWithVolcanoFileAsr`, as the requests that it sends and the answers that it gets. The
standard mode submits and then polls; the flash mode recognizes, and tries again what was rejected for lack of
capacity. Under the strategy `standard_then_turbo` a rejected submit may be followed by one flash request. -/

namespace OwnMinutes.VolcanoAsr.Recognition

open OwnMinutes.Lib.JsText OwnMinutes.Lib.Dialogue OwnMinutes.Lib.Dialogue.Asking OwnMinutes.VolcanoAsr.Config

/-! ### Requests and answers -/

inductive RequestKind
  | submit
  | recognize
  | query
  deriving DecidableEq, Repr

structure Request where
  kind : RequestKind
  url : Text
  /-- `X-Api-Resource-Id` -/
  resourceId : Text
  /-- `X-Api-Request-Id`, by the order in which the ids are drawn. -/
  requestId : ℕ
  /-- `X-Api-Sequence`: the attempt of a query, nothing for `-1`. -/
  sequence : Option ℕ := none
  deriving DecidableEq, Repr

structure Response (Body : Type) where
  httpStatus : ℕ
  /-- `x-api-status-code` -/
  statusCode : Option Text
  body : Body

/-- `response.ok` -/
def Response.ok {Body : Type} (response : Response Body) : Bool :=
  200 ≤ response.httpStatus && response.httpStatus < 300

/-- What `fetch` and the reading of the body give: a complete answer or an error. -/
inductive Answer (Body : Type)
  | failed
  | complete (response : Response Body)

inductive Event (Body : Type)
  /-- `input.beforeProviderRequest` ran, and whether it succeeded. -/
  | before (ok : Bool)
  /-- A request and its answer, if there is one by now. -/
  | request (request : Request) (answer : Option (Answer Body))

inductive Failure
  | configuration
  | audioSource
  | normalization
  | endpoint
  | turboPrimary
  | turboResource
  | beforeProviderRequest
  | network
  | ambiguous
  | queryFailed
  | terminalStatus
  | queryTimedOut
  deriving DecidableEq, Repr

inductive AsrError
  /-- `VolcanoRequestRejectedError` -/
  | rejected (phase : RequestKind) (httpStatus : ℕ) (statusCode : Option Text)
  | failed (failure : Failure)
  deriving DecidableEq, Repr

structure CallState where
  providerRequestStarted : Bool := false
  drawnIds : ℕ := 0

variable {Body : Type}

abbrev Call (Body : Type) := Asking (Answer Body) (Event Body) CallState AsrError

structure Input where
  audioUrl : Option Text
  hasBuffer : Bool
  /-- Whether `normalizeAudioForVolcanoAsr` succeeds on the buffer. -/
  normalizes : Bool
  durationMs : Number
  config : VolcanoAsrConfig
  /-- Whether the given `beforeProviderRequest` succeeds. -/
  beforeProviderRequest : Option Bool

structure VolcanoRecognitionRouteResult (Body : Type) where
  response : Response Body
  requestId : ℕ
  attempts : Option ℕ
  mode : Mode
  resourceId : Text
  fallbackReason : Option String

/-! ### Classification -/

/-- `/^[45]\d{7}$/` -/
def isErrorCode : Text → Bool
  | c :: digits => (c == '4' || c == '5') && digits.length == 7 && digits.all Char.isDigit
  | [] => false

def isRetryableVolcanoFlashResponse (response : Response Body) : Bool :=
  response.httpStatus = 429 || 500 ≤ response.httpStatus || response.statusCode = some "45000000".toList

def isDefinitiveVolcanoRejectionResponse (response : Response Body) : Bool :=
  !response.ok || response.statusCode.any isErrorCode

def isCompleteStatus (statusCode : Text) : Bool :=
  statusCode = "20000000".toList || statusCode = "20000003".toList

def isPendingStatus (statusCode : Text) : Bool :=
  statusCode = "20000001".toList || statusCode = "20000002".toList

def classifyTurboFallbackReason : AsrError → Option String
  | .rejected .submit httpStatus statusCode =>
    if httpStatus = 403 ∨ statusCode = some "45000030".toList then none
    else if httpStatus = 429 then some "standard_submit_rate_limited"
    else if 500 ≤ httpStatus ∧ httpStatus ≤ 599 then some "standard_submit_server_error"
    else if statusCode = some "45000000".toList then some "standard_submit_overloaded"
    else none
  | _ => none

/-! ### Requests -/

variable (platform : Platform) (input : Input)

def drawId : Call Body ℕ := do
  let state ← getState
  setState { state with drawnIds := state.drawnIds + 1 }
  pure state.drawnIds

/-- The wrapper that runs the caller's `beforeProviderRequest` once. -/
def beforeProviderRequest : Call Body Unit := do
  let state ← getState
  if state.providerRequestStarted then pure ()
  else
    match input.beforeProviderRequest with
    | some true => do
      note (.before true)
      setState { state with providerRequestStarted := true }
    | some false => do
      note (.before false)
      fail (.failed .beforeProviderRequest)
    | none => setState { state with providerRequestStarted := true }

/-- `fetch` and `readJsonBody` -/
def fetch (request : Request) : Call Body (Response Body) := do
  let answer ← ask (Event.request request)
  match answer with
  | .failed => fail (.failed .network)
  | .complete response => pure response

def submitAudio (config : VolcanoAsrConfig) : Call Body (ℕ × Response Body) := do
  let requestId ← drawId
  let submitUrl ← ofOption (.failed .endpoint) (resolveVolcanoRuntimeEndpoint platform (submitUrlOf platform config))
  beforeProviderRequest input
  let response ← fetch { kind := .submit, url := submitUrl, resourceId := resolveResourceId platform config, requestId }
  if !response.ok || response.statusCode ≠ some "20000000".toList then
    if isDefinitiveVolcanoRejectionResponse response then
      fail (.rejected .submit response.httpStatus response.statusCode)
    else fail (.failed .ambiguous)
  else pure (requestId, response)

/-- The queries from an attempt on; each takes one answer, so there are no more than answers (`pollFrom_fuel`). -/
def pollFrom (config : VolcanoAsrConfig) (requestId : ℕ) : ℕ → ℕ → Call Body (Response Body)
  | 0, _ => fun w => (.pending, w)
  | fuel + 1, attempt =>
    if (queryMaxAttempts platform).atLeast attempt then do
      let queryUrl ← ofOption (.failed .endpoint) (resolveVolcanoRuntimeEndpoint platform (queryUrlOf platform config))
      let response ← fetch
        { kind := .query, url := queryUrl, resourceId := resolveResourceId platform config, requestId,
          sequence := some attempt }
      if !response.ok then fail (.failed .queryFailed)
      else
        match response.statusCode with
        | some statusCode =>
          if isCompleteStatus statusCode then pure response
          else if statusCode ≠ [] ∧ !isPendingStatus statusCode then fail (.failed .terminalStatus)
          else pollFrom config requestId fuel (attempt + 1)
        | none => pollFrom config requestId fuel (attempt + 1)
    else fail (.failed .queryTimedOut)

/-- A request that is answered takes one of the answers. -/
theorem fetch_answers {request : Request} {response : Response Body} {w w' : World (Answer Body) (Event Body) CallState}
    (h : (fetch request : Call Body (Response Body)) w = (.returned response, w')) :
    w.answers.length = w'.answers.length + 1 := by
  have hends : Ends (fetch request : Call Body (Response Body)) w
      (fun _ w' => w.answers.length = w'.answers.length + 1) (fun _ _ => True) fun _ => True := by
    unfold fetch
    rw [ends_bind]
    refine ends_ask (fun answer rest hanswers => ?_) trivial
    cases answer with
    | failed => trivial
    | complete response =>
      rw [ends_pure, hanswers]
      rfl
  unfold Ends at hends
  rw [h] at hends
  exact hends

/-- **The queries do not run out.** With more fuel than answers, more fuel changes nothing. -/
theorem pollFrom_fuel (config : VolcanoAsrConfig) (requestId fuel : ℕ) :
    ∀ (attempt : ℕ) (w : World (Answer Body) (Event Body) CallState), w.answers.length < fuel →
      pollFrom platform config requestId fuel attempt w = pollFrom platform config requestId (fuel + 1) attempt w := by
  induction fuel with
  | zero => exact fun _ _ h => absurd h (Nat.not_lt_zero _)
  | succ fuel ih =>
    intro attempt w hlength
    rw [pollFrom, pollFrom]
    split_ifs
    · refine bind_congr_at fun queryUrl w₁ hurl => bind_congr_at fun response w₂ hfetch => ?_
      have hw₁ : w₁ = w := by
        cases hresolved : resolveVolcanoRuntimeEndpoint platform (queryUrlOf platform config) <;>
          rw [hresolved] at hurl <;> cases hurl
        rfl
      have htaken := fetch_answers hfetch
      rw [hw₁] at htaken
      have hrest := ih (attempt + 1) w₂ (by omega)
      split_ifs
      · rfl
      · cases response.statusCode with
        | none => exact hrest
        | some statusCode =>
          dsimp only
          split_ifs
          · rfl
          · rfl
          · exact hrest
    · rfl

def pollAudioResult (config : VolcanoAsrConfig) (requestId : ℕ) : Call Body (Response Body) := fun w =>
  pollFrom platform config requestId (w.answers.length + 2) 1 w

def recognizeStandardAudio (config : VolcanoAsrConfig) : Call Body (ℕ × Response Body) := do
  let (requestId, _) ← submitAudio platform input config
  let queried ← pollAudioResult platform config requestId
  pure (requestId, queried)

/-- The recognitions from an attempt on, where so many may follow it. -/
def recognizeFrom (config : VolcanoAsrConfig) : ℕ → ℕ → Call Body (ℕ × ℕ × Response Body)
  | remaining, attempt => do
    let requestId ← drawId
    let recognizeUrl ← ofOption (.failed .endpoint)
      (resolveVolcanoRuntimeEndpoint platform (recognizeUrlOf platform config))
    beforeProviderRequest input
    let response ← fetch
      { kind := .recognize, url := recognizeUrl, resourceId := resolveResourceId platform config, requestId }
    if response.ok && response.statusCode.any isCompleteStatus then pure (requestId, attempt, response)
    else if isRetryableVolcanoFlashResponse response then
      match remaining with
      | remaining + 1 => recognizeFrom config remaining (attempt + 1)
      | 0 =>
        if isDefinitiveVolcanoRejectionResponse response then
          fail (.rejected .recognize response.httpStatus response.statusCode)
        else fail (.failed .ambiguous)
    else if isDefinitiveVolcanoRejectionResponse response then
      fail (.rejected .recognize response.httpStatus response.statusCode)
    else fail (.failed .ambiguous)

def recognizeAudio (config : VolcanoAsrConfig) : Call Body (ℕ × ℕ × Response Body) :=
  recognizeFrom platform input config (flashRecognitionMaxAttempts platform config - 1) 1

/-! ### Strategies -/

def recognizeSingle : Call Body (VolcanoRecognitionRouteResult Body) := do
  let mode := resolveMode platform input.config
  let resourceId := resolveResourceId platform input.config
  let routeConfig := { input.config with mode := some mode, resourceId := some resourceId }
  match mode with
  | .flash => do
    let (requestId, attempts, response) ← recognizeAudio platform input routeConfig
    pure { response, requestId, attempts := some attempts, mode, resourceId, fallbackReason := none }
  | .standard => do
    let (requestId, response) ← recognizeStandardAudio platform input routeConfig
    pure { response, requestId, attempts := none, mode, resourceId, fallbackReason := none }

/-- The handler of a failed standard recognition. -/
def fallBack (error : AsrError) : Call Body (VolcanoRecognitionRouteResult Body) :=
  match classifyTurboFallbackReason error with
  | none => fail error
  | some fallbackReason =>
    if isTurboFallbackEnabled platform input.config &&
        isWithinTurboFallbackDurationCap platform input.config input.durationMs then do
      let turboResourceId ← ofOption (.failed .turboResource) (resolveTurboResourceId platform input.config)
      let turboConfig :=
        { input.config with
          mode := some .flash
          resourceId := some turboResourceId
          recognizeUrl := some (resolveTurboRecognizeUrl platform input.config)
          maxAttempts := some (.finite 1) }
      let (requestId, attempts, response) ← recognizeAudio platform input turboConfig
      pure { response, requestId, attempts := some attempts, mode := .flash, resourceId := turboResourceId,
             fallbackReason := some fallbackReason }
    else fail error

def recognizeStandardThenTurbo : Call Body (VolcanoRecognitionRouteResult Body) := do
  let standardResourceId ← ofOption (.failed .turboPrimary) (resolveStandardResourceId platform input.config)
  let standardConfig := { input.config with mode := some .standard, resourceId := some standardResourceId }
  handle
    (do
      let (requestId, response) ← recognizeStandardAudio platform input standardConfig
      pure { response, requestId, attempts := none, mode := .standard, resourceId := standardResourceId,
             fallbackReason := none })
    (fallBack platform input)

def recognizeWithConfiguredStrategy : Call Body (VolcanoRecognitionRouteResult Body) :=
  match resolveStrategy platform input.config with
  | .single => recognizeSingle platform input
  | .standardThenTurbo => recognizeStandardThenTurbo platform input

/-- Whether `assertVolcanoAudioSource` passes. -/
def assertVolcanoAudioSource : Bool :=
  match input.audioUrl.filter (· ≠ []) with
  | none => input.hasBuffer
  | some audioUrl =>
    !input.hasBuffer &&
      match platform.parseUrl audioUrl with
      | none => false
      | some url =>
        (url.protocol = "https:".toList || (url.protocol = "http:".toList &&
            ["127.0.0.1".toList, "localhost".toList, "::1".toList].contains url.hostname)) &&
          url.username = [] && url.password = [] && url.hash = []

/-- The failure that `validateConfiguredStrategyBeforeDispatch` throws, if any. -/
def validateConfiguredStrategyBeforeDispatch (config : VolcanoAsrConfig) (durationMs : Number) : Option Failure :=
  let resolves (value : Text) : Bool := (resolveVolcanoRuntimeEndpoint platform value).isSome
  match resolveStrategy platform config with
  | .single =>
    if resolveMode platform config = .flash then
      if resolves (recognizeUrlOf platform config) then none else some .endpoint
    else if isTurboResourceId platform config (resolveResourceId platform config) then some .turboPrimary
    else if resolves (submitUrlOf platform config) && resolves (queryUrlOf platform config) then none
    else some .endpoint
  | .standardThenTurbo =>
    if (resolveStandardResourceId platform config).isNone then some .turboPrimary
    else if !(resolves (submitUrlOf platform config) && resolves (queryUrlOf platform config)) then some .endpoint
    else if isTurboFallbackEnabled platform config && isWithinTurboFallbackDurationCap platform config durationMs then
      if (resolveTurboResourceId platform config).isNone then some .turboResource
      else if resolves (resolveTurboRecognizeUrl platform config) then none
      else some .endpoint
    else none

def transcribeWithVolcanoFileAsr : Call Body (VolcanoRecognitionRouteResult Body) := do
  if ready platform input.config ≠ some true then fail (.failed .configuration)
  else if !assertVolcanoAudioSource platform input then fail (.failed .audioSource)
  else if (input.audioUrl.filter (· ≠ [])).isNone && !input.normalizes then fail (.failed .normalization)
  else
    match validateConfiguredStrategyBeforeDispatch platform input.config input.durationMs with
    | some failure => fail (.failed failure)
    | none => recognizeWithConfiguredStrategy platform input

end OwnMinutes.VolcanoAsr.Recognition
