import OwnMinutes.Lib.JsValues

/-! # The transcript of a file recognition

`normalizeVolcanoTranscript` looks for the utterances anywhere in the answer and labels each with a speaker. Ids
that are numbers are written as numbers (all one more where some id is `0`), an id that begins with the word
`speaker` keeps its rest, other ids follow that word, and an utterance without id is of `Speaker 1`. Two ids share
a label in the ways of `SharesWith`. -/

namespace OwnMinutes.VolcanoAsr.Transcript

open OwnMinutes.Lib.JsText OwnMinutes.Lib.JsValues

variable {Num : Type*} (numbers : Numbers Num)

structure TranscriptSegment where
  id : Text
  speaker : Text
  timestamp : Text
  text : Text
  deriving DecidableEq, Repr

/-! ### Reading the answer -/

/-- The first of the keys that holds an array. -/
def arrayOf (fields : List (Text × Json Num)) : List Text → Option (List (Json Num))
  | [] => none
  | key :: keys =>
    match Json.fieldOf fields key with
    | some (.array items) => some items
    | _ => arrayOf fields keys

mutual

def findArray (keys : List Text) : Json Num → List (Json Num)
  | .object fields =>
    match arrayOf fields keys with
    | some items => items
    | none => findInFields keys fields
  | .array items => findInItems keys items
  | _ => []

def findInFields (keys : List Text) : List (Text × Json Num) → List (Json Num)
  | [] => []
  | (_, value) :: rest =>
    match findArray keys value with
    | [] => findInFields keys rest
    | nested => nested

def findInItems (keys : List Text) : List (Json Num) → List (Json Num)
  | [] => []
  | value :: rest =>
    match findArray keys value with
    | [] => findInItems keys rest
    | nested => nested

end

def asRecord (value : Value Num) : List (Text × Json Num) := (Json.record? value).getD []

/-- `row.a ?? row.b ?? …` -/
def firstOf (row : List (Text × Json Num)) (keys : List String) : Value Num :=
  coalesce (keys.map fun key => Json.fieldOf row key.toList)

def readSpeaker (row : List (Text × Json Num)) : Option Text :=
  let additions := asRecord (Json.fieldOf row "additions".toList)
  let value := coalesce
    ((["speaker", "spk", "spk_id", "speaker_id", "speakerId", "speakerID", "user_id", "userId"].map fun key =>
        Json.fieldOf row key.toList) ++
      ["speaker", "speaker_id", "spk_id", "channel_id"].map fun key => Json.fieldOf additions key.toList)
  match value with
  | none | some .null | some (.string []) => none
  | some value => some (trim (value.toText numbers))

def toNumber (value : Value Num) : Num :=
  match value with
  | none => numbers.ofNat 0
  | some value => if numbers.isFinite (value.toNumber numbers) then value.toNumber numbers else numbers.ofNat 0

def readStartMs (row : List (Text × Json Num)) : Num :=
  let msValue := firstOf row
    ["start_time", "startTime", "start_ms", "startMs", "begin_time", "beginTime", "begin_ms", "beginMs"]
  let secondsValue := firstOf row ["start_sec", "startSec", "begin_sec", "beginSec"]
  if msValue.isSome then toNumber numbers msValue
  else if secondsValue.isSome then numbers.mul (toNumber numbers secondsValue) (numbers.ofNat 1000)
  else toNumber numbers
    (coalesce (["start", "begin", "offset"].map (fun key => Json.fieldOf row key.toList) ++
      [some (.number (numbers.ofNat 0))]))

/-- `padStart(2, "0")` -/
def padStart (text : Text) : Text := List.replicate (2 - utf16Length text) '0' ++ text

def formatMs (ms : Num) : Text :=
  let totalSeconds := numbers.max (numbers.ofNat 0) (numbers.floor (numbers.div ms (numbers.ofNat 1000)))
  let minutes := numbers.floor (numbers.div totalSeconds (numbers.ofNat 60))
  let seconds := numbers.rem totalSeconds (numbers.ofNat 60)
  padStart (numbers.text minutes) ++ ':' :: padStart (numbers.text seconds)

/-- The text of one word of a word list. -/
def wordText (word : Json Num) : Text :=
  let value := coalesce ((["text", "word", "result", "content"].map fun key =>
    Json.fieldOf (asRecord (some word)) key.toList) ++ [some (.string [])])
  match value with
  | none => []
  | some value => trim (value.toText numbers)

/-- What `readText` finds in a row, given what it finds in the record that the row has for its result. -/
def textOf (row : List (Text × Json Num)) (nestedText : Text) : Text :=
  let wordList := findArray ["words".toList, "word_list".toList, "wordList".toList] (.object row)
  let rest := if nestedText ≠ [] then nestedText else (wordList.map (wordText numbers)).flatten
  match firstOf row ["text", "result", "transcript", "sentence", "content", "utterance"] with
  | some (.string direct) => if trim direct ≠ [] then trim direct else rest
  | _ => rest

mutual

def readText : Json Num → Text
  | .object fields => textOf numbers fields (readNested fields)
  | _ => textOf numbers [] []

/-- `readText` of the result, where it is a record. -/
def readNested : List (Text × Json Num) → Text
  | [] => []
  | (key, value) :: rest =>
    if key = "result".toList then
      match value with
      | .object fields => readText (.object fields)
      | _ => []
    else readNested rest

end

/-! ### Labels -/

/-- `/^speaker\s+/i` -/
def isNamed (raw : Text) : Bool :=
  (raw.take 7).map Char.toLower = "speaker".toList && (raw.drop 7).head?.any isWhiteSpace

/-- The number of an id as it is written in the label. -/
def numeral (shiftZeroBasedSpeakerIds : Bool) (raw : Text) : Option Text :=
  let numeric := numbers.parse raw
  if numbers.isFinite numeric then
    some (numbers.text (if shiftZeroBasedSpeakerIds then numbers.add numeric (numbers.ofNat 1) else numeric))
  else none

def normalizeSpeakerLabel (raw : Option Text) (shiftZeroBasedSpeakerIds : Bool) : Text :=
  match raw with
  | none | some [] => "Speaker 1".toList
  | some raw =>
    if isNamed raw then trim ("Speaker".toList ++ raw.drop 7)
    else
      match numeral numbers shiftZeroBasedSpeakerIds raw with
      | some numeric => "Speaker ".toList ++ numeric
      | none => "Speaker ".toList ++ raw

def utterancesOf (raw : Json Num) : List (Json Num) :=
  findArray (["utterances", "utterance", "segments", "sentences", "utterance_list"].map String.toList)
    (.object (asRecord (some raw)))

def rawSpeakers (raw : Json Num) : List (Option Text) :=
  (utterancesOf raw).map fun item => readSpeaker numbers (asRecord (some item))

/-- Some id is `0`. -/
def shiftsIds (raw : Json Num) : Bool := (rawSpeakers numbers raw).any fun speaker => speaker = some ['0']

def segmentOf (shiftZeroBasedSpeakerIds : Bool) (item : Json Num) (index : ℕ) : TranscriptSegment :=
  let row := asRecord (some item)
  let text := readText numbers (.object row)
  { id := "final-".toList ++ Nat.toDigits 10 (index + 1)
    speaker := normalizeSpeakerLabel numbers (readSpeaker numbers row) shiftZeroBasedSpeakerIds
    timestamp := formatMs numbers (readStartMs numbers row)
    text := if text ≠ [] then text else "该发言段没有返回可解析文本。".toList }

/-- The text of an answer without utterances. -/
def plainText (raw : Json Num) : Text :=
  let root := asRecord (some raw)
  let result := (Json.record? (Json.fieldOf root "result".toList)).getD root
  let ofResult := readText numbers (.object result)
  let ofRoot := readText numbers (.object root)
  if ofResult ≠ [] then ofResult
  else if ofRoot ≠ [] then ofRoot
  else
    match Json.fieldOf root "result".toList with
    | some (.string text) => trim text
    | _ => []

def normalizeVolcanoTranscript (raw : Json Num) : List TranscriptSegment :=
  if utterancesOf raw ≠ [] then
    (utterancesOf raw).mapIdx fun index item => segmentOf numbers (shiftsIds numbers raw) item index
  else
    [{ id := "final-1".toList
       speaker := "Speaker 1".toList
       timestamp := "00:00".toList
       text :=
        if plainText numbers raw ≠ [] then plainText numbers raw
        else "火山识别已完成，但返回结果中没有可解析的逐字稿文本。".toList }]

end OwnMinutes.VolcanoAsr.Transcript
