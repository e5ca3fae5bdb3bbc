import OwnMinutes.Lib.JsText
import Mathlib.Data.Rat.Floor

/-! # The resumable upload of a recording

Both sides of the protocol: `uploadMeetingAudio` of the mobile app (`api.ts`), the metadata that the server reads
off its headers (`recording-upload-protocol.ts`), and the parts and the receipt that the server keeps of one
upload (`recording-upload-store.ts`). A header with a number is given as the number that is read from it. -/

namespace OwnMinutes.Uploads.Protocol

open OwnMinutes.Lib

abbrev Text := List Char

abbrev Bytes := List UInt8

def recordingUploadPartBytes : ℕ := 4 * 1024 * 1024

/-! ### Numbers and texts -/

inductive JsNumber
  | finite (value : ℚ)
  | nan
  | positiveInfinity
  | negativeInfinity
  deriving DecidableEq

/-- `Math.max(1, Math.round(value))` -/
def JsNumber.rounded : JsNumber → JsNumber
  | .finite value => .finite (max 1 ⌊value + 1 / 2⌋)
  | .nan => .nan
  | .positiveInfinity => .positiveInfinity
  | .negativeInfinity => .finite 1

/-- `parseIntegerHeader` of the number: a positive safe integer. -/
def JsNumber.toSafeInteger : JsNumber → Option ℕ
  | .finite value =>
    if value.den = 1 ∧ 0 < value.num ∧ value.num ≤ 9007199254740991 then some value.num.toNat else none
  | .nan => none
  | .positiveInfinity => none
  | .negativeInfinity => none

/-- Lower case of a character that a header can carry. -/
def lowerChar (c : Char) : Char :=
  if 'A' ≤ c ∧ c ≤ 'Z' ∨ 0xc0 ≤ c.toNat ∧ c.toNat ≤ 0xde ∧ c.toNat ≠ 0xd7 then Char.ofNat (c.toNat + 32) else c

def toLowerCase (text : Text) : Text := text.map lowerChar

/-- `/^\d{4}-\d{2}-\d{2}$/` -/
def isPolicyVersion : Text → Bool
  | [a, b, c, d, '-', e, f, '-', g, h] => [a, b, c, d, e, f, g, h].all Char.isDigit
  | _ => false

/-- `/^[a-f0-9]{64}$/` -/
def isDigest (text : Text) : Bool :=
  text.length == 64 && text.all fun c => c.isDigit || 'a' ≤ c && c ≤ 'f'

/-- `/^[a-zA-Z0-9_-]{16,80}$/` -/
def isUploadId (text : Text) : Bool :=
  decide (16 ≤ text.length) && decide (text.length ≤ 80) && text.all fun c => c.isAlphanum || c == '_' || c == '-'

/-- What both sides use of the platform, and the limit that the server is configured with. -/
structure Rules where
  dateParse : Text → Option ℤ
  toISOString : ℤ → Text
  parse_iso : ∀ text time, dateParse text = some time → dateParse (toISOString time) = some time
  sha256 : Bytes → Text
  sha256_digest : ∀ bytes, isDigest (sha256 bytes) = true
  fullRecordingMaxBytes : ℕ

/-! ### Metadata -/

inductive ConsentMethod
  | inAppConfirmation
  | legacyUnknown
  deriving DecidableEq, Repr

def ConsentMethod.text : ConsentMethod → Text
  | .inAppConfirmation => "in_app_confirmation".toList
  | .legacyUnknown => "legacy_unknown".toList

structure RecordingConsentMetadata where
  consentConfirmedAt : Option Text := none
  consentMethod : ConsentMethod
  consentPolicyVersion : Option Text := none
  deriving DecidableEq

structure RecordingUploadMetadata extends RecordingConsentMetadata where
  durationMs : ℕ
  mimeType : Text
  recordedAt : ℕ
  totalBytes : ℕ
  totalParts : ℕ
  uploadId : Text
  deriving DecidableEq

inductive UploadError
  | emptyRecording
  | invalidUploadId
  | invalidConsentMetadata
  | invalidMetadata
  | emptyAudioUpload
  | unsupportedAudioType
  | audioUploadTooLarge
  | invalidPartCount
  | invalidPartIndex
  | partLengthMismatch
  | invalidPartDigest
  | partDigestMismatch
  | metadataConflict
  | partConflict
  | uploadNotFound
  | uploadIncomplete
  deriving DecidableEq, Repr

/-! ### The client's headers -/

/-- What an upload is called with: the consent texts as the app has stored them. -/
structure UploadParams where
  mimeType : Text
  durationMs : JsNumber
  recordedAt : JsNumber
  consentConfirmedAt : Option Text := none
  consentMethod : Option ConsentMethod := none
  consentPolicyVersion : Option Text := none
  uploadId : Text

structure MetadataHeaders where
  consentConfirmedAt : Option Text
  consentMethod : Option Text
  consentPolicyVersion : Option Text
  durationMs : JsNumber
  mimeType : Option Text
  recordedAt : JsNumber
  totalBytes : JsNumber
  totalParts : JsNumber

def partCount (totalBytes : ℕ) : ℕ := (totalBytes + recordingUploadPartBytes - 1) / recordingUploadPartBytes

/-- A header is left out for a text that is missing or empty. -/
def givenHeader (text : Option Text) : Option Text := text.filter fun text => text ≠ []

def UploadParams.method (params : UploadParams) : ConsentMethod := params.consentMethod.getD .legacyUnknown

def metadataHeaders (params : UploadParams) (totalBytes : ℕ) : MetadataHeaders where
  consentConfirmedAt := givenHeader params.consentConfirmedAt
  consentMethod := some params.method.text
  consentPolicyVersion := givenHeader params.consentPolicyVersion
  durationMs := params.durationMs.rounded
  mimeType := some params.mimeType
  recordedAt := params.recordedAt.rounded
  totalBytes := .finite totalBytes
  totalParts := .finite (partCount totalBytes)

/-! ### The server's metadata -/

section Server

variable (rules : Rules)

def parseRecordingConsentMetadata (headers : MetadataHeaders) : Except UploadError RecordingConsentMetadata :=
  let rawMethod := JsText.trim ((givenHeader headers.consentMethod).getD ConsentMethod.legacyUnknown.text)
  let consentConfirmedAt := JsText.trim (headers.consentConfirmedAt.getD [])
  let consentPolicyVersion := JsText.trim (headers.consentPolicyVersion.getD [])
  if rawMethod = ConsentMethod.legacyUnknown.text then
    if consentConfirmedAt = [] ∧ consentPolicyVersion = [] then .ok { consentMethod := .legacyUnknown }
    else .error .invalidConsentMetadata
  else if rawMethod = ConsentMethod.inAppConfirmation.text then
    match rules.dateParse consentConfirmedAt with
    | none => .error .invalidConsentMetadata
    | some time =>
      if consentConfirmedAt = [] ∨ isPolicyVersion consentPolicyVersion = false then
        .error .invalidConsentMetadata
      else
        .ok
          { consentConfirmedAt := some (rules.toISOString time)
            consentMethod := .inAppConfirmation
            consentPolicyVersion := some consentPolicyVersion }
  else .error .invalidConsentMetadata

def normalizeStoredRecordingConsentMetadata (stored : RecordingConsentMetadata) : RecordingConsentMetadata :=
  match stored with
  | ⟨some consentConfirmedAt, .inAppConfirmation, some consentPolicyVersion⟩ =>
    match rules.dateParse consentConfirmedAt with
    | some time =>
      if isPolicyVersion consentPolicyVersion then
        ⟨some (rules.toISOString time), .inAppConfirmation, some consentPolicyVersion⟩
      else { consentMethod := .legacyUnknown }
    | none => { consentMethod := .legacyUnknown }
  | _ => { consentMethod := .legacyUnknown }

def allowedAudioMimeTypes : List Text :=
  ["audio/aac".toList, "audio/caf".toList, "audio/mp4".toList, "audio/m4a".toList, "audio/mpeg".toList,
    "audio/mp3".toList, "audio/ogg".toList, "audio/opus".toList, "audio/wav".toList, "audio/webm".toList,
    "audio/x-caf".toList, "audio/x-m4a".toList, "audio/x-wav".toList]

def validateUploadedAudio (mimeType : Text) (size : ℕ) : Except UploadError Unit :=
  let normalizedMimeType := toLowerCase (JsText.trim (mimeType.takeWhile (· ≠ ';')))
  if size = 0 then .error .emptyAudioUpload
  else if allowedAudioMimeTypes.contains normalizedMimeType = false then .error .unsupportedAudioType
  else if rules.fullRecordingMaxBytes < size then .error .audioUploadTooLarge
  else .ok ()

def parseIntegerHeader (value : JsNumber) : Except UploadError ℕ :=
  match value.toSafeInteger with
  | some value => .ok value
  | none => .error .invalidMetadata

def parseRecordingUploadMetadata (headers : MetadataHeaders) (uploadId : Text) :
    Except UploadError RecordingUploadMetadata :=
  if isUploadId uploadId = false then .error .invalidUploadId
  else do
    let consent ← parseRecordingConsentMetadata rules headers
    let totalBytes ← parseIntegerHeader headers.totalBytes
    let totalParts ← parseIntegerHeader headers.totalParts
    let durationMs ← parseIntegerHeader headers.durationMs
    let recordedAt ← parseIntegerHeader headers.recordedAt
    let mimeType := toLowerCase (JsText.trim (headers.mimeType.getD []))
    validateUploadedAudio rules mimeType totalBytes
    if totalParts ≠ partCount totalBytes ∨ totalParts < 1 ∨ 256 < totalParts then .error .invalidPartCount
    else .ok ⟨consent, durationMs, mimeType, recordedAt, totalBytes, totalParts, uploadId⟩

def expectedRecordingPartBytes (metadata : RecordingUploadMetadata) (partIndex : ℕ) : Except UploadError ℕ :=
  if metadata.totalParts ≤ partIndex then .error .invalidPartIndex
  else .ok (min recordingUploadPartBytes (metadata.totalBytes - partIndex * recordingUploadPartBytes))

/-- `parseRecordingPartUpload` of a request with these headers, this digest and this body. -/
def parseRecordingPartUpload (headers : MetadataHeaders) (uploadId : Text) (partIndex : ℕ) (digest : Text)
    (body : Bytes) : Except UploadError RecordingUploadMetadata := do
  let metadata ← parseRecordingUploadMetadata rules headers uploadId
  let expectedBytes ← expectedRecordingPartBytes metadata partIndex
  let clientSha256 := toLowerCase (JsText.trim digest)
  if body.length ≠ expectedBytes then .error .partLengthMismatch
  else if isDigest clientSha256 = false then .error .invalidPartDigest
  else if rules.sha256 body ≠ clientSha256 then .error .partDigestMismatch
  else .ok metadata

/-! ### The server's store of one upload -/

structure RecordingUploadPart where
  index : ℕ
  bytes : ℕ
  sha256 : Text
  deriving DecidableEq

structure RecordingUploadManifest extends RecordingUploadMetadata where
  parts : List RecordingUploadPart
  deriving DecidableEq

/-- The parts of an upload, and its receipt once it is committed. -/
structure UploadStore where
  manifest : Option RecordingUploadManifest
  receipt : Option RecordingUploadMetadata
  deriving DecidableEq

def UploadStore.empty : UploadStore := ⟨none, none⟩

/-- `{ ...stored, ...normalizeStoredRecordingConsentMetadata(stored) }`: a text that is left out stays. -/
def normalizedMetadata (metadata : RecordingUploadMetadata) : RecordingUploadMetadata :=
  let consent := normalizeStoredRecordingConsentMetadata rules metadata.toRecordingConsentMetadata
  ⟨⟨consent.consentConfirmedAt <|> metadata.consentConfirmedAt, consent.consentMethod,
      consent.consentPolicyVersion <|> metadata.consentPolicyVersion⟩,
    metadata.durationMs, metadata.mimeType, metadata.recordedAt, metadata.totalBytes, metadata.totalParts,
    metadata.uploadId⟩

/-- `readRecordingUploadState` -/
def readRecordingUploadState (store : UploadStore) : UploadStore :=
  match store.receipt with
  | some receipt => ⟨none, some (normalizedMetadata rules receipt)⟩
  | none =>
    ⟨store.manifest.map fun manifest =>
      ⟨normalizedMetadata rules manifest.toRecordingUploadMetadata, manifest.parts⟩, none⟩

def receivedParts (store : UploadStore) : List ℕ :=
  match store.manifest with
  | some manifest => (manifest.parts.map (·.index)).mergeSort
  | none => []

/-- `putRecordingUploadPart`: the store after it. -/
def putRecordingUploadPart (store : UploadStore) (metadata : RecordingUploadMetadata) (partIndex : ℕ)
    (body : Bytes) : Except UploadError UploadStore :=
  let state := readRecordingUploadState rules store
  if state.receipt.isSome then .ok store
  else
    let manifest := state.manifest.getD ⟨metadata, []⟩
    if manifest.toRecordingUploadMetadata ≠ metadata then .error .metadataConflict
    else
      match manifest.parts.find? fun part => part.index = partIndex with
      | some existing =>
        if existing.bytes ≠ body.length ∨ existing.sha256 ≠ rules.sha256 body then .error .partConflict
        else .ok store
      | none =>
        let part : RecordingUploadPart := ⟨partIndex, body.length, rules.sha256 body⟩
        .ok ⟨some ⟨manifest.toRecordingUploadMetadata, manifest.parts ++ [part]⟩, none⟩

/-- `commitMeetingRecordingUpload`, where the assembly and the publication succeed. -/
def commitMeetingRecordingUpload (store : UploadStore) : Except UploadError UploadStore :=
  let state := readRecordingUploadState rules store
  if state.receipt.isSome then .ok store
  else
    match state.manifest with
    | none => .error .uploadNotFound
    | some manifest =>
      if manifest.parts.length ≠ manifest.totalParts then .error .uploadIncomplete
      else .ok ⟨none, some manifest.toRecordingUploadMetadata⟩

/-! ### The client -/

/-- What the client holds the server's progress against, where its numbers are integers. -/
def expectedMetadata (params : UploadParams) (totalBytes : ℕ) : Option RecordingUploadMetadata := do
  let durationMs ← params.durationMs.rounded.toSafeInteger
  let recordedAt ← params.recordedAt.rounded.toSafeInteger
  return {
    consentConfirmedAt := params.consentConfirmedAt
    consentMethod := params.method
    consentPolicyVersion := params.consentPolicyVersion
    durationMs := durationMs
    mimeType := toLowerCase params.mimeType
    recordedAt := recordedAt
    totalBytes := totalBytes
    totalParts := partCount totalBytes
    uploadId := params.uploadId }

/-- The metadata of the status: of the parts, or of the receipt. -/
def statusMetadata (store : UploadStore) : Option RecordingUploadMetadata :=
  let state := readRecordingUploadState rules store
  match state.manifest with
  | some manifest => some manifest.toRecordingUploadMetadata
  | none => state.receipt

def assertRecordingUploadMatches (status : Option RecordingUploadMetadata)
    (expected : Option RecordingUploadMetadata) : Except UploadError Unit :=
  match status with
  | none => .ok ()
  | some metadata => if some metadata = expected then .ok () else .error .metadataConflict

/-- Part `index` of the file. -/
def clientPart (file : Bytes) (index : ℕ) : Bytes :=
  let start := index * recordingUploadPartBytes
  let stop := min file.length (start + recordingUploadPartBytes)
  (file.drop start).take (stop - start)

/-- The parts in turn, those received left out, until `acks` more were acknowledged. -/
def sendParts (params : UploadParams) (file : Bytes) :
    ℕ → List ℕ → List ℕ → UploadStore → Except UploadError (UploadStore × Bool)
  | _, [], _, store => .ok (store, true)
  | acks, index :: indexes, received, store =>
    if index ∈ received then sendParts params file acks indexes received store
    else
      match acks with
      | 0 => .ok (store, false)
      | acks + 1 => do
        let body := clientPart file index
        let metadata ← parseRecordingPartUpload rules (metadataHeaders params file.length) params.uploadId index
          (rules.sha256 body) body
        let store ← putRecordingUploadPart rules store metadata index body
        sendParts params file acks indexes (received ++ receivedParts (readRecordingUploadState rules store)) store

/-- Where a call is cut off: after some acknowledged parts, or before the commit. -/
structure Interruption where
  acks : ℕ
  commits : Bool

/-- `uploadMeetingAudio`, cut off: the server's store after it. -/
def uploadMeetingAudio (params : UploadParams) (file : Bytes) (interruption : Interruption) (store : UploadStore) :
    Except UploadError UploadStore :=
  if file = [] then .error .emptyRecording
  else do
    assertRecordingUploadMatches (statusMetadata rules store) (expectedMetadata params file.length)
    if (readRecordingUploadState rules store).receipt.isSome then .ok store
    else do
      let (store, completed) ← sendParts rules params file interruption.acks (List.range (partCount file.length))
        (receivedParts (readRecordingUploadState rules store)) store
      if completed && interruption.commits then commitMeetingRecordingUpload rules store else .ok store

/-- The same recording uploaded again and again. -/
def uploadAgain (params : UploadParams) (file : Bytes) :
    List Interruption → UploadStore → Except UploadError UploadStore
  | [], store => .ok store
  | interruption :: interruptions, store => do
    let store ← uploadMeetingAudio rules params file interruption store
    uploadAgain params file interruptions store

end Server

end OwnMinutes.Uploads.Protocol
