import OwnMinutes.Auth.QuotaTypes
import OwnMinutes.Finalization.Records
import OwnMinutes.Lib.JsText

/-! # Results and checkpoints

What `runMeetingFinalization` reads and writes besides the ledger: the manifest of the audio, the result
of a meeting and the processing checkpoint of an operation. Of a transcript and a summary only what
decides the steps of a run is kept. -/

namespace OwnMinutes.Finalizer.Records

open OwnMinutes.Lib OwnMinutes.Auth.ProcessingRoute OwnMinutes.Auth.Records
open OwnMinutes.Finalization.Records

/-! ### Transcripts and results -/

/-- `MeetingProviderStage` of `meeting-processing.ts`. -/
inductive PaidStage
  | asr | summary
  deriving DecidableEq, Repr

/-- The stage of the ledger: `{ type: "finalization_asr" }` or `{ type: "finalization_summary" }`. -/
def PaidStage.ledger : PaidStage → MeetingProviderStage
  | .asr => .finalizationAsr
  | .summary => .finalizationSummary

def PaidStage.key : PaidStage → String
  | .asr => "finalization:asr"
  | .summary => "finalization:summary"

inductive Provider
  | mock | openai | volcano
  deriving DecidableEq, Repr

structure TranscriptSegment where
  id : String
  text : String
  deriving DecidableEq, Repr

structure MeetingSummary where
  summary : String
  deriving DecidableEq, Repr

/-- `preferredTranscript`, or what a provider answers. -/
structure Transcript where
  adapter : String
  noSpeech : Bool := false
  transcript : List TranscriptSegment
  deriving DecidableEq, Repr

/-- The preferred transcript that `processMeetingAudio` takes. -/
def Transcript.taken (t : Transcript) : Bool := !t.transcript.isEmpty || t.noSpeech

/-- `Boolean(item?.id && item?.text?.trim())`. -/
def TranscriptSegment.kept (segment : TranscriptSegment) : Bool :=
  segment.id ≠ "" && !(JsText.trim segment.text.toList).isEmpty

/-- A transcript that file recognition returns: without speech it is empty, and otherwise every segment
has a text. -/
def Transcript.wellFormed (t : Transcript) : Bool :=
  t.adapter ≠ "" && t.transcript.all TranscriptSegment.kept && (t.noSpeech || !t.transcript.isEmpty)

structure MeetingResult where
  generatedAt : Timestamp
  provider : Provider
  adapter : String
  transcript : List TranscriptSegment
  summary : MeetingSummary
  audioRevision : Option String := none
  audioSha256 : Option String := none
  processingRoute : Option MeetingProcessingRoute := none
  processedMinutes : Option ℤ := none
  officialMinutesCharged : Option ℤ := none
  processingOperationKey : Option String := none
  deriving DecidableEq, Repr

/-- `meetingAudioMetadataFromManifest`. -/
structure ManifestAudio where
  audioRevision : String
  audioUpdatedAt : Timestamp
  durationMs : ℚ
  isSealed : Bool
  deriving DecidableEq, Repr

/-- The decoded recording of a run. -/
structure AudioSnapshot where
  audioRevision : String
  audioSha256 : String
  durationMs : ℚ
  deriving DecidableEq, Repr

def isMeetingResultFreshForAudio (result : Option MeetingResult) (audio : ManifestAudio) : Bool :=
  result.any fun result =>
    match result.audioRevision.filter (· ≠ "") with
    | some revision => revision == audio.audioRevision
    | none => decide (audio.audioUpdatedAt ≤ result.generatedAt)

/-! ### Errors -/

/-- The error a run ends with; `meetingDeleted` is a `MeetingAccessError` of code `meeting_deleted`. -/
structure MeetingFinalizationError where
  code : String
  retryable : Bool
  meetingDeleted : Bool := false
  deriving DecidableEq, Repr

/-- `normalizeFinalizationError` on an `AuthError`. -/
def normalizeAuthError (error : AuthError) : MeetingFinalizationError where
  code := (error.code.filter (· ≠ "")).getD "processing_entitlement_required"
  retryable := 500 ≤ error.status

def meetingAudioNotSealed : MeetingFinalizationError := ⟨"meeting_audio_not_sealed", true, false⟩
def processingInProgress : MeetingFinalizationError := ⟨"processing_in_progress", true, false⟩
def processingModeUnavailable : MeetingFinalizationError :=
  ⟨"legacy_meeting_processing_mode_unavailable", false, false⟩
def processingModeConflict : MeetingFinalizationError := ⟨"meeting_processing_mode_conflict", false, false⟩
def byokConfigurationIncomplete : MeetingFinalizationError := ⟨"byok_configuration_incomplete", false, false⟩
def providerStepCheckpointPending : MeetingFinalizationError :=
  ⟨"provider_step_checkpoint_pending", true, false⟩
def providerStepCheckpointMismatch : MeetingFinalizationError :=
  ⟨"provider_step_checkpoint_mismatch", false, false⟩
def providerStepRejectionPending : MeetingFinalizationError :=
  ⟨"provider_step_rejection_pending", false, false⟩
def providerStepBusy : MeetingFinalizationError := ⟨"provider_step_busy", true, false⟩
def providerStepOutcomeUncertain : MeetingFinalizationError :=
  ⟨"provider_step_outcome_uncertain", false, false⟩

/-! ### The route of a run -/

def resolveMeetingProcessingMode (accountMode : UserProcessingMode)
    (frozenRoute : Option MeetingProcessingRoute) (requestedMode : Option UserProcessingMode) :
    Except MeetingFinalizationError UserProcessingMode :=
  match frozenRoute with
  | some .hybrid => .error processingModeUnavailable
  | some .byok => if requestedMode = some .officialQuota then .error processingModeConflict else .ok .byok
  | some .officialQuota =>
    if requestedMode = some .byok then .error processingModeConflict else .ok .officialQuota
  | none => .ok (requestedMode.getD accountMode)

def routeOf : UserProcessingMode → MeetingProcessingRoute
  | .officialQuota => .officialQuota
  | .byok => .byok

/-! ### Checkpoints -/

/-- What the key of a checkpoint is the digest of. -/
structure CheckpointIdentity where
  audioSha256 : String
  meetingId : MeetingId
  operationKey : String
  ownerUserId : UserId
  deriving DecidableEq, Repr

structure MeetingProcessingCheckpoint extends CheckpointIdentity where
  adapter : String
  noSpeech : Bool
  providerStages : List PaidStage
  summary : Option MeetingSummary := none
  transcript : List TranscriptSegment
  deriving DecidableEq, Repr

/-- `readMeetingProcessingCheckpoint` of the object stored under the digest of `identity`. -/
def readMeetingProcessingCheckpoint (identity : CheckpointIdentity)
    (stored : Option MeetingProcessingCheckpoint) : Option MeetingProcessingCheckpoint :=
  match stored.filter (·.toCheckpointIdentity == identity) with
  | none => none
  | some checkpoint =>
    let transcript := checkpoint.transcript.filter TranscriptSegment.kept
    if checkpoint.adapter = "" ∨ checkpoint.providerStages = [] ∨
        (!checkpoint.noSpeech ∧ transcript = []) then none
    else some { checkpoint with
      transcript
      providerStages := checkpoint.providerStages.dedup }

/-- What is read is what is stored, for the right identity. -/
theorem readMeetingProcessingCheckpoint_some {identity : CheckpointIdentity}
    {stored : Option MeetingProcessingCheckpoint} {checkpoint : MeetingProcessingCheckpoint}
    (h : readMeetingProcessingCheckpoint identity stored = some checkpoint) :
    ∃ c, stored = some c ∧ c.toCheckpointIdentity = identity ∧
      checkpoint.toCheckpointIdentity = identity ∧ checkpoint.summary = c.summary ∧
      checkpoint.providerStages = c.providerStages.dedup ∧
      (checkpoint.noSpeech ∨ checkpoint.transcript ≠ []) := by
  unfold readMeetingProcessingCheckpoint at h
  split at h
  · cases h
  · rename_i c hc
    obtain ⟨hstored, hidentity⟩ := Option.filter_eq_some_iff.mp hc
    have hidentity : c.toCheckpointIdentity = identity := by simpa using hidentity
    dsimp only at h
    split_ifs at h with hbad
    cases h
    refine ⟨c, hstored, hidentity, hidentity, rfl, rfl, ?_⟩
    by_cases hspeech : c.noSpeech = true
    · exact .inl hspeech
    · exact .inr fun hempty => hbad (.inr (.inr ⟨by simpa using hspeech, hempty⟩))

def MeetingProcessingCheckpoint.toTranscript (checkpoint : MeetingProcessingCheckpoint) : Transcript where
  adapter := checkpoint.adapter
  noSpeech := checkpoint.noSpeech
  transcript := checkpoint.transcript

/-- `saveMeetingProcessingCheckpoint` accepts the checkpoint. -/
def MeetingProcessingCheckpoint.valid (checkpoint : MeetingProcessingCheckpoint) : Bool :=
  checkpoint.audioSha256.length == 64 &&
    (checkpoint.audioSha256.toList.all fun c => ('a' ≤ c && c ≤ 'f') || c.isDigit) &&
    !checkpoint.providerStages.isEmpty

end OwnMinutes.Finalizer.Records
