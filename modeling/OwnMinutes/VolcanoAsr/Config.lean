import OwnMinutes.Lib.JsText
import OwnMinutes.Auth.ProcessingRoute

/-! # Configuration of the file recognition

What the functions of `volcano-asr.ts` take from the configuration, the environment and their defaults. The parts
of JavaScript that they use on texts and URLs are parameters (`Platform`). -/

namespace OwnMinutes.VolcanoAsr.Config

open OwnMinutes.Lib.JsText

abbrev Text := List Char

/-- A number of JavaScript. -/
inductive Number
  | finite (value : ℚ)
  | infinite (negative : Bool)
  | nan
  deriving DecidableEq

/-- `n <= number` -/
def Number.atLeast (n : ℕ) : Number → Bool
  | .finite value => (n : ℚ) ≤ value
  | .infinite negative => !negative
  | .nan => false

/-- `new URL(value)` -/
structure Url where
  protocol : Text
  hostname : Text
  port : Text
  username : Text
  password : Text
  hash : Text
  /-- `url.toString()` -/
  text : Text

structure Platform where
  /-- `process.env` -/
  env : String → Option Text
  /-- `Number(text)` -/
  number : Text → Number
  /-- `new URL(text)`, nothing where it throws. -/
  parseUrl : Text → Option Url
  toLowerCase : Text → Text

inductive Mode
  | flash
  | standard
  deriving DecidableEq, Repr

inductive VolcanoAsrStrategy
  | single
  | standardThenTurbo
  deriving DecidableEq, Repr

/-- The fields of the configuration. -/
structure VolcanoAsrConfig where
  apiKey : Option Text := none
  appId : Option Text := none
  token : Option Text := none
  mode : Option Mode := none
  recognizeUrl : Option Text := none
  turboRecognizeUrl : Option Text := none
  submitUrl : Option Text := none
  queryUrl : Option Text := none
  resourceId : Option Text := none
  maxAttempts : Option Number := none
  strategy : Option VolcanoAsrStrategy := none
  standardResourceId : Option Text := none
  turboResourceId : Option Text := none
  turboFallbackEnabled : Option Bool := none
  turboFallbackMaxAudioMinutes : Option Number := none

def defaultSubmitUrl : Text := "https://openspeech.bytedance.com/api/v3/auc/bigmodel/submit".toList

def defaultQueryUrl : Text := "https://openspeech.bytedance.com/api/v3/auc/bigmodel/query".toList

def defaultRecognizeUrl : Text := "https://openspeech.bytedance.com/api/v3/auc/bigmodel/recognize/flash".toList

def defaultStandardResourceId : Text := "volc.seedasr.auc".toList

def defaultFlashResourceId : Text := "volc.bigasr.auc_turbo".toList

def officialVolcanoRuntimeHost : Text := "openspeech.bytedance.com".toList

/-- `a || b || …`: the first text that is there and not empty, or else the default. -/
def firstText (values : List (Option Text)) (default : Text) : Text :=
  match values.filterMap id |>.find? (· ≠ []) with
  | some value => value
  | none => default

variable (platform : Platform) (config : VolcanoAsrConfig)

/-- Nothing where it throws. -/
def resolveVolcanoRuntimeEndpoint (value : Text) : Option Text :=
  match platform.parseUrl value with
  | none => none
  | some url =>
    if url.username ≠ [] ∨ url.password ≠ [] ∨ url.hash ≠ [] then none
    else if ["127.0.0.1".toList, "localhost".toList, "::1".toList].contains url.hostname ∧
        platform.env "NODE_ENV" ≠ some "production".toList ∧
        platform.env "OWNMINUTES_ALLOW_LOCAL_PROVIDER_ENDPOINTS" = some "1".toList then some url.text
    else if url.protocol ≠ "https:".toList ∨ url.hostname ≠ officialVolcanoRuntimeHost ∨ url.port ≠ [] then none
    else some url.text

def resolveMode : Mode :=
  match config.mode with
  | some mode => mode
  | none => if platform.env "VOLCANO_ASR_MODE" = some "standard".toList then .standard else .flash

def resolveStrategy : VolcanoAsrStrategy :=
  match config.strategy with
  | some strategy => strategy
  | none =>
    if platform.env "OWNMINUTES_ASR_FILE_STRATEGY" = some "standard_then_turbo".toList then .standardThenTurbo
    else .single

def resolveResourceId : Text :=
  firstText [config.resourceId, platform.env "VOLCANO_ASR_RESOURCE_ID"]
    (if resolveMode platform config = .flash then defaultFlashResourceId else defaultStandardResourceId)

/-- `text.includes(part)` -/
def includes (text part : Text) : Bool := text.tails.any part.isPrefixOf

def isTurboResourceId (resourceId : Text) : Bool :=
  let normalized := platform.toLowerCase (trim resourceId)
  let configuredTurboResourceId := platform.toLowerCase (trim
    (firstText [config.turboResourceId, platform.env "VOLCANO_ASR_TURBO_RESOURCE_ID"] defaultFlashResourceId))
  includes normalized "turbo".toList ||
    (configuredTurboResourceId ≠ [] && normalized = configuredTurboResourceId)

/-- Nothing where it throws. -/
def resolveTurboResourceId : Option Text :=
  let resourceId := trim
    (firstText [config.turboResourceId, platform.env "VOLCANO_ASR_TURBO_RESOURCE_ID"] defaultFlashResourceId)
  if resourceId = [] ∨ includes (platform.toLowerCase resourceId) "turbo".toList = false then none else some resourceId

/-- Nothing where it throws. -/
def resolveStandardResourceId : Option Text := do
  let resourceId := trim (firstText
    [config.standardResourceId, config.resourceId, platform.env "VOLCANO_ASR_RESOURCE_ID"] defaultStandardResourceId)
  let turboResourceId ← resolveTurboResourceId platform config
  if resourceId = [] ∨ isTurboResourceId platform config resourceId = true ∨
      platform.toLowerCase resourceId = platform.toLowerCase turboResourceId then none
  else some resourceId

def resolvePrimaryResourceId : Option Text :=
  if resolveStrategy platform config = .standardThenTurbo then resolveStandardResourceId platform config
  else some (resolveResourceId platform config)

def recognizeUrlOf : Text :=
  firstText [config.recognizeUrl, platform.env "VOLCANO_ASR_RECOGNIZE_URL"] defaultRecognizeUrl

def submitUrlOf : Text := firstText [config.submitUrl, platform.env "VOLCANO_ASR_SUBMIT_URL"] defaultSubmitUrl

def queryUrlOf : Text := firstText [config.queryUrl, platform.env "VOLCANO_ASR_QUERY_URL"] defaultQueryUrl

def resolveTurboRecognizeUrl : Text :=
  firstText [config.turboRecognizeUrl, platform.env "VOLCANO_ASR_TURBO_RECOGNIZE_URL"] defaultRecognizeUrl

def isTurboFallbackEnabled : Bool :=
  match config.turboFallbackEnabled with
  | some enabled => enabled
  | none => (platform.env "OWNMINUTES_ASR_TURBO_FALLBACK_ENABLED").any fun value => trim value = "1".toList

/-- `a ?? Number(b) ?? default`, where the configuration has the number. -/
def numberOr (value : Option Number) (name : String) (default : ℚ) : Number :=
  match value with
  | some number => number
  | none =>
    match platform.env name with
    | some text => platform.number text
    | none => .finite default

/-- The cap in minutes, where it is a whole number from 1 to 30. -/
def configuredMinutes : Option ℕ :=
  match numberOr platform config.turboFallbackMaxAudioMinutes "OWNMINUTES_ASR_TURBO_FALLBACK_MAX_AUDIO_MINUTES" 30 with
  | .finite value => if value.den = 1 ∧ 1 ≤ value ∧ value ≤ 30 then some value.num.toNat else none
  | _ => none

def isWithinTurboFallbackDurationCap (durationMs : Number) : Bool :=
  match configuredMinutes platform config, durationMs with
  | some minutes, .finite durationMs => 0 < durationMs && durationMs ≤ (minutes : ℚ) * 60000
  | _, _ => false

def flashRecognitionMaxAttempts : ℕ :=
  match numberOr platform config.maxAttempts "VOLCANO_ASR_FLASH_ATTEMPTS" 3 with
  | .finite value => (min 5 (max 1 (Auth.ProcessingRoute.mathRound value))).toNat
  | _ => 3

/-- The attempts at a query. -/
def queryMaxAttempts : Number :=
  match firstText [platform.env "VOLCANO_ASR_QUERY_ATTEMPTS"] [] with
  | [] => .finite 40
  | text => platform.number text

def getVolcanoAppKey : Text :=
  firstText [config.appId, platform.env "VOLCANO_ASR_APP_ID", platform.env "VOLCANO_ASR_APP_KEY",
    platform.env "VOLCANO_APP_ID"] []

def getVolcanoAccessToken : Text :=
  firstText [config.token, platform.env "VOLCANO_ASR_TOKEN", platform.env "VOLCANO_ASR_ACCESS_KEY"] []

/-- `diagnostic.ready`; nothing where the diagnostic throws. -/
def ready : Option Bool := do
  let _ ← resolvePrimaryResourceId platform config
  some (firstText [config.apiKey, platform.env "VOLCANO_ASR_API_KEY"] [] ≠ [] ||
    (getVolcanoAppKey platform config ≠ [] && getVolcanoAccessToken platform config ≠ []))

end OwnMinutes.VolcanoAsr.Config
