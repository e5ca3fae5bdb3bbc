import OwnMinutes.Audio.Runs
import OwnMinutes.Share.Sections

/-! # Runs of a shared meeting, and what its readers are shown

The calls that publish meetings and change their results, among all the calls on their audio. A section under
the fence of a meeting is one step, which may stop after any of its writes. Anyone may take a snapshot of the
share of a meeting, between any two steps: it is read under the lock of the meeting, and looked at later. -/

namespace OwnMinutes.Share.Runs

open OwnMinutes.Auth.ProcessingRoute OwnMinutes.Auth.Records OwnMinutes.Lib.Crash OwnMinutes.Lib.Runs
open OwnMinutes.Audio.Records OwnMinutes.Audio.Store OwnMinutes.Audio.Runs
open OwnMinutes.Share.Results OwnMinutes.Share.Sections

variable {C : Type}

structure ShareWorld (C : Type) where
  audio : AudioWorld := {}
  stored : MeetingId → StoredResult C := fun _ => {}

namespace ShareWorld

variable (s : ShareWorld C) (meetingId : MeetingId)

def objects : SharedObjects C := ⟨s.audio.meetings meetingId, s.stored meetingId⟩

def setObjects (o : SharedObjects C) : ShareWorld C where
  audio := s.audio.setObjects meetingId o.objects
  stored := Function.update s.stored meetingId o.stored

end ShareWorld

/-! ### Events -/

inductive ShareEvent (C : Type)
  /-- a step of a call on audio, the clock, or a deletion -/
  | audio (event : AudioEvent)
  /-- `backfilled` is what `ensureMeetingCatalogBackfilled` answers before a publication -/
  | updateShare (input : ShareInput) (backfilled : Bool) (preparation : Preparation) (stop : Option ℕ)
  | updateHumanReview (input : ReviewInput) (stop : Option ℕ)
  | updateMetadata (input : MetadataInput) (stop : Option ℕ)
  | updateSpeakers (input : EditInput) (speakerNames : List (String × String)) (stop : Option ℕ)
  | updateTranscriptSpeakers (input : EditInput) (speakerAssignments : List (String × String)) (stop : Option ℕ)
  | updateSummary (input : EditInput) (summaryPatch : C) (stop : Option ℕ)
  | saveResult (meetingId : MeetingId) (result : MeetingResult C) (expectedAudioRevision : Option AudioRevision)
      (stop : Option ℕ)
  | recordShareView (meetingId : MeetingId) (stop : Option ℕ)

inductive ShareAnswer (C : Type)
  | error (error : AudioError)
  | audio (answer : Answer)
  | share (share : MeetingShare)
  | review (review : MeetingHumanReview)
  /-- with the result, where it was replaced -/
  | edited (result : Option (MeetingResult C))
  | saved
  | viewed (recorded : Bool)

section Steps

variable (H : Hashing) (F : ResultFunctions C) (policy : RecordingUploadResourcePolicy)

/-- `withMeetingWriteFence`. -/
def fencedShare {α : Type} (s : ShareWorld C) (meetingId : MeetingId) (stop : Option ℕ) (answer : α → ShareAnswer C)
    (x : Shared C α) : ShareWorld C × Option (ShareAnswer C) :=
  if s.audio.deletedMeetings meetingId then (s, some (.error meetingDeleted))
  else
    (s.setObjects meetingId (x.run stop (s.objects meetingId)).1,
      (x.run stop (s.objects meetingId)).2.map fun
        | .error error => .error error
        | .ok a => answer a)

/-- The removal of the prefix of a meeting takes its result as well. -/
def removeStored (stored : MeetingId → StoredResult C) : AudioEvent → MeetingId → StoredResult C
  | .removeMeeting meetingId => Function.update stored meetingId {}
  | _ => stored

def stepAudio (s : ShareWorld C) (event : AudioEvent) : Option (ShareWorld C × Option (ShareAnswer C)) :=
  (Audio.Runs.step H policy s.audio event).map fun r =>
    ({ audio := r.1, stored := removeStored s.stored event }, r.2.map .audio)

def stepUpdateShare (s : ShareWorld C) (input : ShareInput) (backfilled : Bool) (preparation : Preparation)
    (stop : Option ℕ) : ShareWorld C × Option (ShareAnswer C) :=
  if input.visibility = .public ∧ backfilled = false then (s, some (.error publicationNotCommitted))
  else fencedShare s input.meetingId stop .share (updateMeetingShare H F s.audio.now input preparation)

/-- A step, and what the call answers with it; `none` where the event is not next. -/
def step (s : ShareWorld C) : ShareEvent C → Option (ShareWorld C × Option (ShareAnswer C))
  | .audio event => stepAudio H policy s event
  | .updateShare input backfilled preparation stop => some (stepUpdateShare H F s input backfilled preparation stop)
  | .updateHumanReview input stop =>
    some (fencedShare s input.meetingId stop .review (updateMeetingHumanReview H F s.audio.now input))
  | .updateMetadata input stop =>
    some (fencedShare s input.meetingId stop .edited (updateMeetingMetadata H F s.audio.now input))
  | .updateSpeakers input speakerNames stop =>
    some (fencedShare s input.meetingId stop (fun result => .edited (some result))
      (updateMeetingSpeakers H F s.audio.now input speakerNames))
  | .updateTranscriptSpeakers input speakerAssignments stop =>
    some (fencedShare s input.meetingId stop (fun result => .edited (some result))
      (updateMeetingTranscriptSpeakers H F s.audio.now input speakerAssignments))
  | .updateSummary input summaryPatch stop =>
    some (fencedShare s input.meetingId stop (fun result => .edited (some result))
      (updateMeetingSummary H F s.audio.now input summaryPatch))
  | .saveResult meetingId result expectedAudioRevision stop =>
    some (fencedShare s meetingId stop (fun _ => .saved)
      (saveMeetingResult H F s.audio.now meetingId result expectedAudioRevision))
  | .recordShareView meetingId stop =>
    some (fencedShare s meetingId stop .viewed (recordMeetingShareView H F s.audio.now meetingId))

/-- A step with its event and its answer. -/
def ShareStep (s : ShareWorld C) (e : ShareEvent C × Option (ShareAnswer C)) (t : ShareWorld C) : Prop :=
  step H F policy s e.1 = some (t, e.2)

/-- The events as they come, with their answers and the state they lead to. -/
def play : ShareWorld C → List (ShareEvent C) → Option (List (ShareEvent C × Option (ShareAnswer C)) × ShareWorld C)
  | s, [] => some ([], s)
  | s, event :: events => do
    let (t, answer) ← step H F policy s event
    let (es, u) ← play t events
    some ((event, answer) :: es, u)

theorem run_play {events : List (ShareEvent C)} {s t : ShareWorld C} {es : List (ShareEvent C × Option (ShareAnswer C))}
    (h : play H F policy s events = some (es, t)) : Run (ShareStep H F policy) s es t := by
  induction events generalizing s es with
  | nil =>
    cases h
    exact Run.nil _
  | cons event events ih =>
    obtain ⟨⟨u, answer⟩, hstep, h⟩ := Option.bind_eq_some_iff.mp h
    obtain ⟨⟨rest, w⟩, hrest, h⟩ := Option.bind_eq_some_iff.mp h
    cases h
    exact Run.cons hstep (ih hrest)

end Steps

/-! ### Snapshots of a share -/

structure MeetingAccessSnapshot where
  meetingId : MeetingId
  existing : Bool
  ownerUserId : Option UserId
  share : MeetingShare
  hasChunks : Bool
  humanReview : MeetingHumanReview
  deriving DecidableEq, Repr

structure MeetingShareSnapshot (C : Type) where
  access : MeetingAccessSnapshot
  durationMs : ℚ
  result : Option (MeetingResult C)

section Readers

variable (H : Hashing) (F : ResultFunctions C)

def emptySnapshot (meetingId : MeetingId) : MeetingShareSnapshot C where
  access :=
    { meetingId
      existing := false
      ownerUserId := none
      share := {}
      hasChunks := false
      humanReview := resolveMeetingHumanReview F none none }
  durationMs := 0
  result := none

def readMeetingShareSnapshot (s : ShareWorld C) (meetingId : MeetingId) : MeetingShareSnapshot C :=
  if s.audio.deletedMeetings meetingId then emptySnapshot F meetingId
  else
    match (s.audio.meetings meetingId).manifest.map normalizeManifest with
    | none => emptySnapshot F meetingId
    | some manifest =>
      let result := currentMeetingResultForManifest H (s.stored meetingId).result manifest
      { access :=
          { meetingId
            existing := true
            ownerUserId := manifest.ownerUserId
            share := manifest.share
            hasChunks := !manifest.chunks.isEmpty
            humanReview := resolveMeetingHumanReview F manifest.reviewConfirmation result }
        durationMs := (manifest.chunks.map (·.durationMs)).sum
        result }

end Readers

/-! ### The pages -/

/-- What a page is made of: a result, and whether its transcript is shown. -/
structure SharedPage (C : Type) where
  result : MeetingResult C
  transcript : Bool
  deriving DecidableEq, Repr

/-- The export as Markdown; `none` is the answer 404. -/
def markdownPage (now : Timestamp) (snapshot : MeetingShareSnapshot C) : Option (SharedPage C) :=
  if !snapshot.access.existing || !isMeetingShareActive snapshot.access.share now ||
      snapshot.access.humanReview.status != .confirmed then none
  else snapshot.result.map fun result => ⟨result, snapshot.access.share.includeTranscript⟩

/-- The title and the summary of a share that `generateMetadata` describes. -/
def metadataPage (now : Timestamp) (snapshot : MeetingShareSnapshot C) : Option (SharedPage C) :=
  let isDemo := snapshot.access.meetingId == "demo-meeting"
  if (!snapshot.access.existing && !isDemo) || (snapshot.access.existing &&
      (!isMeetingShareActive snapshot.access.share now || snapshot.access.humanReview.status != .confirmed)) then none
  else if isDemo then none
  else snapshot.result.map fun result => ⟨result, false⟩

/-- The result that the page of a share shows to a user, or to nobody; the demo shows none. -/
def sharePage (now : Timestamp) (user : Option UserId) (snapshot : MeetingShareSnapshot C) : Option (SharedPage C) :=
  let canViewPrivate := snapshot.access.ownerUserId.isSome && user == snapshot.access.ownerUserId
  let isPublic := isMeetingShareActive snapshot.access.share now && snapshot.access.humanReview.status == .confirmed
  let isDemo := snapshot.access.meetingId == "demo-meeting"
  if !snapshot.access.existing && !isDemo then none
  else if !isPublic && !canViewPrivate && snapshot.access.hasChunks then none
  else if isDemo then none
  else snapshot.result.map fun result => ⟨result, snapshot.access.share.includeTranscript || canViewPrivate⟩

end OwnMinutes.Share.Runs
