import Mathlib.Data.Rat.Floor
import OwnMinutes.Auth.QuotaTypes
import OwnMinutes.Realtime.Sessions

/-! # Reusing a realtime transcript

`selectReusableRealtimeTranscript` takes the transcript of a realtime session in the place of a recognition of the whole
recording, where the session is clean and covers nine tenths of the recording, and its text is good enough. -/

namespace OwnMinutes.Realtime.Reuse

open OwnMinutes.Lib.JsText OwnMinutes.Auth.ProcessingRoute OwnMinutes.Auth.QuotaTypes
open OwnMinutes.Finalizer.Records (Provider)
open OwnMinutes.Realtime.Sessions

/-! ### The quality of a transcript -/

inductive TranscriptQualityStatus
  | usable | lowConfidence | empty
  deriving DecidableEq, Repr

structure TranscriptQualityReport where
  status : TranscriptQualityStatus
  usableSegments : ℕ
  totalSegments : ℕ
  totalCharacters : ℕ
  reasons : List String
  deriving DecidableEq, Repr

def cleanupSentence (text : Text) : Text := trim (collapseWhiteSpace false text)

/-- The phrases of `isPlaceholderTranscriptText`. -/
def placeholderPhrases : List String :=
  ["正式识别尚未完成", "等待正式识别配置完成", "没有可解析", "没有可用逐字稿", "音频已保存", "fallback transcript",
   "using fallback", "未完成"]

/-- A test that ignores the case of the letters of ASCII. -/
def includesIgnoringCase (text phrase : Text) : Bool := decide (phrase.map Char.toLower <:+: text.map Char.toLower)

def isPlaceholderTranscriptText (text : Text) : Bool :=
  placeholderPhrases.any fun phrase => includesIgnoringCase text phrase.toList

/-- A segment that is somebody's speech. -/
def isSpeech (segment : TranscriptSegment) : Bool :=
  let text := cleanupSentence segment.text
  !text.isEmpty && segment.speaker != "System".toList && !isPlaceholderTranscriptText text

def diagnoseTranscriptQuality (transcript : List TranscriptSegment) : TranscriptQualityReport :=
  let totalSegments := transcript.length
  let usable := transcript.filter isSpeech
  let totalCharacters : ℕ := (usable.map fun segment => utf16Length (cleanupSentence segment.text)).foldl (· + ·) 0
  let placeholder := transcript.any fun segment => isPlaceholderTranscriptText segment.text
  let reasons :=
    (if totalSegments = 0 then ["no transcript segments"] else []) ++
    (if usable.length = 0 ∧ 0 < totalSegments then ["no human speech segments"] else []) ++
    (if placeholder then ["placeholder transcript text"] else []) ++
    (if 0 < totalCharacters ∧ totalCharacters < 8 then ["too little transcript text"] else [])
  let report (status : TranscriptQualityStatus) (reasons : List String) : TranscriptQualityReport :=
    { status, usableSegments := usable.length, totalSegments, totalCharacters, reasons }
  if totalSegments = 0 ∨ totalCharacters = 0 then
    report .empty (if reasons.isEmpty then ["empty transcript"] else reasons)
  else if usable.length = 0 ∨ totalCharacters < 8 ∨ placeholder then report .lowConfidence reasons
  else report .usable []

/-! ### The decision -/

structure RealtimeTranscriptReuseDecision where
  reusable : Bool
  transcript : List TranscriptSegment
  reason : String
  coverageRatio : ℚ
  deriving DecidableEq, Repr

def reject (reason : String) (coverageRatio : ℚ := 0) : RealtimeTranscriptReuseDecision :=
  { reusable := false, transcript := [], reason, coverageRatio }

def deduplicateSegments (segments : List TranscriptSegment) : List TranscriptSegment :=
  segments.foldl (fun unique segment =>
    if segment.id = "" ∨ isBlank segment.text then unique else putSegment unique segment) []

/-- No error of format, order or provider is counted. -/
def isClean (session : RealtimeSessionSummary) : Bool :=
  session.formatMismatchCount == 0 && session.outOfOrderCount == 0 && session.statusCounts .providerError == 0

def selectReusableRealtimeTranscript (audioDurationMs : ℚ) (session : Option RealtimeSessionSummary) :
    RealtimeTranscriptReuseDecision :=
  match session with
  | none => reject "realtime session is missing"
  | some session =>
    if session.provider ≠ .volcano ∨ !textIncludes session.adapter "volcano" then
      reject "realtime provider is not Volcano"
    else if session.lastProviderStatus ≠ some .completed then
      reject "realtime provider session did not complete cleanly"
    else if !isClean session then
      reject "realtime session contains format, ordering, or provider errors"
    else
      let audioDurationMs := max 1 (mathRound audioDurationMs)
      let coverageRatio := max 0 session.totalDurationMs / audioDurationMs
      if coverageRatio < 9 / 10 then reject "realtime audio coverage is below 90 percent" coverageRatio
      else
        let transcript := deduplicateSegments session.transcriptSegments
        let quality := diagnoseTranscriptQuality transcript
        if quality.status ≠ .usable then reject "realtime transcript quality is not usable" coverageRatio
        else
          let meetingMinutes := max 1 ((audioDurationMs : ℚ) / 60000).ceil
          let minimumCharacters := max 12 (meetingMinutes * 20)
          if quality.totalCharacters < minimumCharacters then
            reject "realtime transcript is too sparse for the recorded duration" coverageRatio
          else
            { reusable := true
              transcript
              reason := "clean realtime transcript covers the complete recording"
              coverageRatio }

/-- What a session is that is reused. -/
structure Reused (audioDurationMs : ℚ) (session : RealtimeSessionSummary)
    (transcript : List TranscriptSegment) : Prop where
  clean : session.formatMismatchCount = 0 ∧ session.outOfOrderCount = 0 ∧ session.statusCounts .providerError = 0
  covers : 9 / 10 * (max 1 (mathRound audioDurationMs) : ℤ) ≤ max 0 session.totalDurationMs
  segments : transcript = deduplicateSegments session.transcriptSegments
  usable : (diagnoseTranscriptQuality transcript).status = .usable

theorem reused_of_reusable {audioDurationMs : ℚ} {session : Option RealtimeSessionSummary}
    (h : (selectReusableRealtimeTranscript audioDurationMs session).reusable = true) :
    ∃ s, session = some s ∧
      Reused audioDurationMs s (selectReusableRealtimeTranscript audioDurationMs session).transcript := by
  have hreject : ∀ {reason : String} {ratio : ℚ}, (reject reason ratio).reusable ≠ true := Bool.false_ne_true
  cases session with
  | none => exact absurd h hreject
  | some s =>
    refine ⟨s, rfl, ?_⟩
    unfold selectReusableRealtimeTranscript at h ⊢
    dsimp only at h ⊢
    split_ifs at h ⊢ with h1 h2 h3 h4 h5 h6
    · exact absurd h hreject
    · exact absurd h hreject
    · exact absurd h hreject
    · exact absurd h hreject
    · exact absurd h hreject
    · exact absurd h hreject
    · rw [Bool.not_eq_true', Bool.not_eq_false, isClean, Bool.and_eq_true, Bool.and_eq_true, beq_iff_eq, beq_iff_eq,
        beq_iff_eq] at h3
      have hpos : (0 : ℚ) < (max 1 (mathRound audioDurationMs) : ℤ) :=
        Int.cast_pos.mpr (lt_of_lt_of_le one_pos (le_max_left _ _))
      exact ⟨⟨h3.1.1, h3.1.2, h3.2⟩, (le_div_iff₀ hpos).mp (not_lt.mp h4), rfl, not_not.mp h5⟩

theorem mem_deduplicateSegments {segments : List TranscriptSegment} {x : TranscriptSegment}
    (h : x ∈ deduplicateSegments segments) : x ∈ segments := by
  have hfold : ∀ {items unique : List TranscriptSegment}, x ∈ items.foldl (fun unique segment =>
      if segment.id = "" ∨ isBlank segment.text then unique else putSegment unique segment) unique →
        x ∈ unique ∨ x ∈ items := by
    intro items
    induction items with
    | nil => exact fun h => .inl h
    | cons item items ih =>
      intro unique h
      rw [List.foldl_cons] at h
      rcases ih h with hunique | hitem
      · split_ifs at hunique
        · exact .inl hunique
        · rcases mem_putSegment hunique with hold | rfl
          · exact .inl hold
          · exact .inr List.mem_cons_self
      · exact .inr (List.mem_cons_of_mem _ hitem)
  exact (hfold h).resolve_left (by simp)

end OwnMinutes.Realtime.Reuse
