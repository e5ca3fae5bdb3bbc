import Mathlib.Data.List.Infix
import Mathlib.Data.Nat.Digits.Defs

/-! # The paths of recordings

What `recording-store.ts` reads off the text of a URI: which file of the app it names after the documents
directory has moved (`currentManagedRecordingUri`), whether it may be deleted (`isControlledRecordingUri`),
and the id of an isolated file (`isolatedRecoveryMeetingId`). Texts are lists of characters; the patterns
ignore the case of ASCII letters. -/

namespace OwnMinutes.Mobile.RecordingPaths

abbrev Text := List Char

/-- A text that is not empty. -/
abbrev Truthy := { text : Text // text ≠ [] }

def Truthy.append (text : Truthy) (rest : Text) : Truthy :=
  ⟨text.1 ++ rest, List.append_ne_nil_of_left_ne_nil text.2 rest⟩

def lower (text : Text) : Text := text.map Char.toLower

/-! ### Parts of a text -/

/-- What follows the last occurrence of `marker`. -/
def afterLast (marker : Text) : Text → Option Text
  | [] => if marker = [] then some [] else none
  | c :: text =>
    match afterLast marker text with
    | some rest => some rest
    | none => if marker.isPrefixOf (c :: text) then some ((c :: text).drop marker.length) else none

def includes (text marker : Text) : Bool := (afterLast marker text).isSome

/-- The code units of a character. -/
def codeUnits (c : Char) : List ℕ :=
  if c.toNat < 0x10000 then [c.toNat]
  else [0xd800 + (c.toNat - 0x10000) / 0x400, 0xdc00 + (c.toNat - 0x10000) % 0x400]

def decimal (n : ℕ) : Text := Nat.toDigits 10 n

/-! ### Names -/

def recordingDirectoryName : Text := "ownminutes-recordings".toList

def audioExtensions : List Text :=
  ["caf".toList, "wav".toList, "mp3".toList, "ogg".toList, "opus".toList, "webm".toList, "aac".toList,
    "m4a".toList]

/-- What stands before the extension of an audio file. -/
def audioStem (name : Text) : Option Text :=
  audioExtensions.findSome? fun extension =>
    if ('.' :: extension).isSuffixOf (lower name) then some (name.take (name.length - (extension.length + 1)))
    else none

/-- `orphanRecordingNamePattern` -/
def isOrphanRecordingName (name : Text) : Bool :=
  match audioStem name with
  | some stem => "recording-".toList.isPrefixOf (lower stem) && decide (10 < stem.length) && !stem.contains '/'
  | none => false

/-- `[a-zA-Z0-9_-]` -/
def isNameChar (c : Char) : Bool := c.isAlphanum || c == '_' || c == '-'

/-- `managedRecordingNamePattern` -/
def isManagedRecordingName (name : Text) : Bool :=
  match audioStem name with
  | some stem => stem.all isNameChar && decide (1 ≤ stem.length) && decide (stem.length ≤ 192)
  | none => false

/-! ### Hashes and ids -/

def hexDigits (n : ℕ) : Text := Nat.toDigits 16 n

/-- `stableRecordingHash`, in 32 bits. -/
def stableRecordingHash (value : Text) : Text :=
  let hash := (value.flatMap codeUnits).foldl (fun hash unit => (hash ^^^ unit) * 0x01000193 % 2 ^ 32) 0x811c9dc5
  let digits := hexDigits hash
  List.replicate (8 - digits.length) '0' ++ digits

def sanitizeManagedRecordingName (value : Text) : Text :=
  let normalized := (value.flatMap fun c => if isNameChar c then [c] else (codeUnits c).map fun _ => '_').take 96
  if normalized = [] then "recording-".toList ++ stableRecordingHash value else normalized

/-- `isolatedRecoveryMeetingId` of a file. -/
def isolatedRecoveryMeetingId (uri : Text) (size modificationTimeMs : ℕ) : Truthy :=
  Truthy.append ⟨"local-recovery-".toList, by decide⟩
    (stableRecordingHash (uri ++ ':' :: decimal size ++ ':' :: decimal modificationTimeMs))

/-! ### URIs -/

section Documents

variable (documentDirectory : Truthy)

def recordingDirectory : Truthy := documentDirectory.append (recordingDirectoryName ++ ['/'])

def expoAudioDirectory : Truthy := documentDirectory.append "ExpoAudio/".toList

/-- The file of the present documents directory that the URI named when it was written. -/
def currentManagedRecordingUri (uri : Text) : Option Truthy :=
  match afterLast ('/' :: recordingDirectoryName ++ ['/']) uri with
  | some name =>
    if isManagedRecordingName name then some ((recordingDirectory documentDirectory).append name) else none
  | none =>
    match afterLast "/ExpoAudio/".toList uri with
    | some name =>
      if isOrphanRecordingName name then some ((expoAudioDirectory documentDirectory).append name) else none
    | none => none

end Documents

def destinationMatchesRecordingIdentity (meetingId destination : Text) : Bool :=
  if includes destination ('/' :: recordingDirectoryName ++ ['/']) then
    let fileName := (afterLast ['/'] destination).getD destination
    let stem := (audioStem fileName).getD fileName
    let meetingStem := sanitizeManagedRecordingName meetingId
    stem == meetingStem || (meetingStem ++ "-recovered-".toList).isPrefixOf stem
  else
    includes destination "/ExpoAudio/".toList

/-- `/%(2f|5c)/i` -/
def hasEncodedSeparator : Text → Bool
  | [] => false
  | c :: text =>
    "%2f".toList.isPrefixOf (lower (c :: text)) || "%5c".toList.isPrefixOf (lower (c :: text)) ||
      hasEncodedSeparator text

/-- What stands before a query or a fragment. -/
def pathOf (uri : Text) : Text := uri.takeWhile fun c => c != '?' && c != '#'

def isLineTerminator (c : Char) : Bool := c == '\n' || c == '\r' || c.toNat == 0x2028 || c.toNat == 0x2029

/-- The match of `/\/Containers\/Data\/Application\/[^/]+\/Documents\/(.+)$/i` at the start of a text. -/
def containerPathHere (text : Text) : Option Text :=
  let prefixText := "/containers/data/application/".toList
  if prefixText.isPrefixOf (lower text) then
    let rest := text.drop prefixText.length
    let container := rest.takeWhile (· != '/')
    let tail := rest.drop container.length
    let documents := "/documents/".toList
    let relative := tail.drop documents.length
    if container ≠ [] && documents.isPrefixOf (lower tail) && relative ≠ [] && !relative.any isLineTerminator then
      some relative
    else none
  else none

def containerPath : Text → Option Text
  | [] => none
  | c :: text => (containerPathHere (c :: text)).orElse fun _ => containerPath text

/-- The place under a documents directory, the present one or that of an earlier container. -/
def relativePath (documentDirectory : Option Truthy) (uri : Text) : Option Text :=
  let path := pathOf uri
  match documentDirectory.map fun directory => pathOf directory.1 with
  | some currentDocuments =>
    if currentDocuments ≠ [] && (lower currentDocuments).isPrefixOf (lower path) then
      some (path.drop currentDocuments.length)
    else containerPath path
  | none => containerPath path

/-- Whether the app may delete the file. -/
def isControlledRecordingUri (documentDirectory : Option Truthy) (uri : Text) : Bool :=
  if !"file:///".toList.isPrefixOf uri || hasEncodedSeparator uri then false
  else
    match relativePath documentDirectory uri with
    | none => false
    | some relative =>
      if (recordingDirectoryName ++ ['/']).isPrefixOf (lower relative) then
        isManagedRecordingName (relative.drop (recordingDirectoryName.length + 1))
      else if "expoaudio/".toList.isPrefixOf (lower relative) then
        isOrphanRecordingName (relative.drop "ExpoAudio/".toList.length)
      else isOrphanRecordingName relative

/-! ### Places of the realtime journal -/

/-- `encodeURIComponent` -/
def encodeURIComponent (value : Text) : Text :=
  value.flatMap fun c =>
    if c.isAlphanum || "-_.!~*'()".toList.contains c then [c]
    else (String.utf8EncodeChar c).flatMap fun byte =>
      '%' :: (hexDigits (byte.toNat / 16) ++ hexDigits (byte.toNat % 16)).map Char.toUpper

def realtimeJournalScheme : Text := "ownminutes-realtime-journal://".toList

def realtimeJournalPlaceholderUri (meetingId : Text) : Truthy :=
  Truthy.append ⟨realtimeJournalScheme, by decide⟩ (encodeURIComponent meetingId)

def isRealtimeJournalPlaceholder (uri : Text) : Bool := realtimeJournalScheme.isPrefixOf uri

end OwnMinutes.Mobile.RecordingPaths
