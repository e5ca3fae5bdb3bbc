import Mathlib.Data.List.Sort
import OwnMinutes.Auth.Records
import OwnMinutes.Lib.JsText
import OwnMinutes.Lib.Mentions

/-! # New names for speakers

`updateMeetingSpeakers`: the map of a request is normalised, the labels of the result are looked up in it, and its
texts get one replacement of a label after the other. The map is an object of JavaScript: a label that is not a key
of it may still be the name of a property that every object inherits. -/

namespace OwnMinutes.Speakers.Names

open OwnMinutes.Auth.Records OwnMinutes.Lib.JsText OwnMinutes.Lib.Mentions

abbrev Text := List Char

/-! ### Results -/

structure TranscriptSegment (L : Type) where
  id : Text
  speaker : L
  timestamp : Text
  text : Text
  deriving DecidableEq

structure SpeakerView (L : Type) where
  speaker : L
  view : Text
  deriving DecidableEq

structure Decision where
  id : Text
  title : Text
  detail : Text
  confirmed : Bool
  deriving DecidableEq

structure ActionItem (L : Type) where
  id : Text
  owner : L
  task : Text
  due : Text
  confirmed : Bool
  deriving DecidableEq

structure MeetingSummary (L : Type) where
  summary : Text
  topics : List Text
  speakerViews : List (SpeakerView L)
  decisions : List Decision
  actionItems : List (ActionItem L)
  risks : List Text
  openQuestions : List Text
  knowledgePoints : List Text
  deriving DecidableEq

/-- A result, with labels of speakers of a type. -/
structure MeetingResult (L : Type) where
  meetingId : Text
  title : Text
  transcript : List (TranscriptSegment L)
  summary : MeetingSummary L
  obsidianMarkdown : Text
  contentLocale : Option Text
  deriving DecidableEq

/-- The arguments of `buildMeetingMarkdown`. -/
structure MarkdownInput (L : Type) where
  title : Text
  meetingId : Text
  shareUrl : Text
  transcript : List (TranscriptSegment L)
  summary : MeetingSummary L
  contentLocale : Option Text
  deriving DecidableEq

namespace MeetingResult

variable {L M : Type}

/-- A result with something done to each label and to each text of the transcript and the summary. -/
def mapSpeakers (label : L → M) (replace : Text → Text) (result : MeetingResult L) : MeetingResult M where
  meetingId := result.meetingId
  title := result.title
  transcript := result.transcript.map fun segment =>
    ⟨segment.id, label segment.speaker, segment.timestamp, replace segment.text⟩
  summary :=
    { summary := replace result.summary.summary
      topics := result.summary.topics.map replace
      speakerViews := result.summary.speakerViews.map fun item => ⟨label item.speaker, replace item.view⟩
      decisions := result.summary.decisions.map fun item =>
        ⟨item.id, replace item.title, replace item.detail, item.confirmed⟩
      actionItems := result.summary.actionItems.map fun item =>
        ⟨item.id, label item.owner, replace item.task, replace item.due, item.confirmed⟩
      risks := result.summary.risks.map replace
      openQuestions := result.summary.openQuestions.map replace
      knowledgePoints := result.summary.knowledgePoints.map replace }
  obsidianMarkdown := result.obsidianMarkdown
  contentLocale := result.contentLocale

/-- The labels of a result. -/
def labels (result : MeetingResult L) : List L :=
  result.transcript.map TranscriptSegment.speaker ++ result.summary.speakerViews.map SpeakerView.speaker ++
    result.summary.actionItems.map ActionItem.owner

/-- The texts of the transcript and the summary. -/
def texts (result : MeetingResult L) : List Text :=
  result.transcript.map TranscriptSegment.text ++ [result.summary.summary] ++ result.summary.topics ++
    result.summary.speakerViews.map SpeakerView.view ++
    (result.summary.decisions.flatMap fun item => [item.title, item.detail]) ++
    (result.summary.actionItems.flatMap fun item => [item.task, item.due]) ++
    result.summary.risks ++ result.summary.openQuestions ++ result.summary.knowledgePoints

/-- The result with the Markdown of its present labels and texts. -/
def withMarkdown (buildMeetingMarkdown : MarkdownInput L → Text) (result : MeetingResult L) : MeetingResult L :=
  { result with
    obsidianMarkdown := buildMeetingMarkdown ⟨result.title, result.meetingId, "/share/".toList ++ result.meetingId,
      result.transcript, result.summary, result.contentLocale⟩ }

end MeetingResult

/-! ### The map of names -/

/-- The properties of `Object.prototype`. -/
def objectPrototype : List Text :=
  ["constructor".toList, "__defineGetter__".toList, "__defineSetter__".toList, "hasOwnProperty".toList,
    "__lookupGetter__".toList, "__lookupSetter__".toList, "isPrototypeOf".toList, "propertyIsEnumerable".toList,
    "toString".toList, "valueOf".toList, "__proto__".toList, "toLocaleString".toList]

/-- An object with texts, its keys in the order of their assignment. -/
structure SpeakerNames where
  assigned : List (Text × Text)
  nodup : (assigned.map Prod.fst).Nodup

namespace SpeakerNames

def empty : SpeakerNames := ⟨[], List.nodup_nil⟩

def get (names : SpeakerNames) (key : Text) : Option Text :=
  (names.assigned.find? fun entry => entry.1 = key).map Prod.snd

/-- `output[key] = value`; a text is no prototype, so `__proto__` stays as it is. -/
def assign (names : SpeakerNames) (key value : Text) : SpeakerNames :=
  if key = "__proto__".toList then names
  else if h : key ∈ names.assigned.map Prod.fst then
    ⟨names.assigned.map fun entry => if entry.1 = key then (key, value) else entry, by
      have hkeys : (names.assigned.map fun entry => if entry.1 = key then (key, value) else entry).map Prod.fst =
          names.assigned.map Prod.fst := by
        rw [List.map_map]
        refine List.map_congr_left fun entry _ => ?_
        by_cases hentry : entry.1 = key <;> simp [hentry]
      rw [hkeys]
      exact names.nodup⟩
  else ⟨names.assigned ++ [(key, value)], by
    rw [List.map_append, List.nodup_append]
    refine ⟨names.nodup, by simp, ?_⟩
    rintro a ha b hb rfl
    simp only [List.map_cons, List.map_nil, List.mem_singleton] at hb
    exact h (hb ▸ ha)⟩

end SpeakerNames

/-- The value of an array index in canonical form. -/
def arrayIndex (key : Text) : Option ℕ :=
  match key with
  | [] => none
  | ['0'] => some 0
  | first :: rest =>
    if first ≠ '0' && (first :: rest).all Char.isDigit then
      let value := (first :: rest).foldl (fun value digit => 10 * value + (digit.toNat - '0'.toNat)) 0
      if value < 4294967295 then some value else none
    else none

/-- `Object.entries`: the array indices in ascending order, then the other keys in the order of their assignment. -/
def objectEntries (names : SpeakerNames) : List (Text × Text) :=
  (names.assigned.filter fun entry => (arrayIndex entry.1).isSome).insertionSort
      (fun left right => (arrayIndex left.1).getD 0 ≤ (arrayIndex right.1).getD 0) ++
    names.assigned.filter fun entry => !(arrayIndex entry.1).isSome

/-- The entries in the order in which `replaceSpeakerLabels` takes them: the longest label first. -/
def sortedEntries (names : SpeakerNames) : List (Text × Text) :=
  (objectEntries names).insertionSort fun left right => utf16Length right.1 ≤ utf16Length left.1

def normalizeSpeakerLabelInput (value : Text) : Text := slice 48 (trim (collapseWhiteSpace false value))

def systemSpeaker : Text := "System".toList

/-- The labels that can get a new name. -/
def knownSpeakers (result : MeetingResult Text) : List Text :=
  result.labels.filter fun speaker => speaker ≠ [] && speaker ≠ systemSpeaker

/-- The entries of a request, in the order of the object. -/
def normalizeSpeakerNames (input : List (Text × Text)) (known : List Text) : SpeakerNames :=
  input.foldl
    (fun output entry =>
      let speaker := normalizeSpeakerLabelInput entry.1
      let name := normalizeSpeakerLabelInput entry.2
      if speaker = [] || name = [] || speaker = systemSpeaker || speaker ∉ known then output
      else if speaker = name then output
      else output.assign speaker name)
    .empty

/-- What a label becomes: a text, or the value that an object inherits for it. -/
inductive SpeakerName
  | text (value : Text)
  | inherited (property : Text)
  deriving DecidableEq

/-- `speakerNames[label] || label` -/
def SpeakerNames.label (names : SpeakerNames) (label : Text) : SpeakerName :=
  match names.get label with
  | some name => if name = [] then .text label else .text name
  | none => if label ∈ objectPrototype then .inherited label else .text label

def replaceSpeakerLabels (text : Text) (names : SpeakerNames) : Text := replaceEach (sortedEntries names) text

def applySpeakerNames (result : MeetingResult Text) (names : SpeakerNames) : MeetingResult SpeakerName :=
  if names.assigned = [] then result.mapSpeakers .text fun text => text
  else result.mapSpeakers names.label fun text => replaceSpeakerLabels text names

/-! ### The operation -/

/-- What the operation reads of the manifest. -/
structure AudioManifest where
  chunks : ℕ
  ownerUserId : Option UserId
  deriving DecidableEq

inductive SpeakersError
  | access (message : String) (status : ℕ)
  deriving DecidableEq

/-- `result` is what `currentMeetingResultForManifest` found. -/
def updateMeetingSpeakers (buildMeetingMarkdown : MarkdownInput SpeakerName → Text) (manifest : AudioManifest)
    (ownerUserId : UserId) (result : Option (MeetingResult Text)) (speakerNames : List (Text × Text)) :
    Except SpeakersError (MeetingResult SpeakerName) :=
  if manifest.chunks = 0 then .error (.access "Meeting audio was not found." 404)
  else if manifest.ownerUserId ≠ some ownerUserId || manifest.ownerUserId = some "" then
    .error (.access "You do not have access to this meeting." 403)
  else
    match result with
    | none => .error (.access "Meeting result was not found." 404)
    | some result =>
      let names := normalizeSpeakerNames speakerNames (knownSpeakers result)
      .ok ((applySpeakerNames result names).withMarkdown buildMeetingMarkdown)

end OwnMinutes.Speakers.Names
