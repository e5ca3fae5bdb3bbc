import OwnMinutes.Audio.Changes
import OwnMinutes.Lib.Locks

/-! # What a step does to the calls

An event moves one call at most (`callOf`), from a phase to the next (`PhaseMove`), which takes a lock, gives
one back or keeps what it has. -/

namespace OwnMinutes.Audio.Phases

open OwnMinutes.Auth.ProcessingRoute OwnMinutes.Auth.Records OwnMinutes.Lib.Crash OwnMinutes.Lib.Runs
open OwnMinutes.Lib.Locks OwnMinutes.Audio.Records OwnMinutes.Audio.Store OwnMinutes.Audio.Runs
open OwnMinutes.Audio.Changes

/-- The call that an event moves. -/
def callOf : AudioEvent → Option CallId
  | .tick _ | .deleteMeeting _ | .deleteUser _ | .removeMeeting _ | .saveChunk _ _ | .sealAudio _ _ => none
  | .readStatus callId _ _ | .beginPart callId _ _ | .sweepNext callId | .sweepLease callId _
  | .reserve callId _ | .stage callId | .putPart callId | .putPartManifest callId | .publishPart callId _
  | .beginCommit callId _ _ | .assemble callId _ | .answerReceipt callId _ | .intend callId
  | .putRecording callId | .publishCommit callId _ | .putReceipt callId | .recheck callId _
  | .list callId _ | .remove callId _ | .endDeletion callId | .crash callId => some callId

section Moves

variable (H : Hashing) (policy : RecordingUploadResourcePolicy) (s : AudioWorld) (callId : CallId)

/-- The phases between which an event moves a call. -/
inductive PhaseMove : AudioEvent → Phase → Phase → Prop
  | stays {e : AudioEvent} : PhaseMove e .idle .idle
  | ends {e : AudioEvent} {phase : Phase} (h : phase.deletion? = none) : PhaseMove e phase .idle
  | crashes {phase : Phase} : PhaseMove (.crash callId) phase .idle
  | cleans {input : UploadInput} {stop : Option ℕ} {uploadId : UploadId} :
      PhaseMove (.readStatus callId input stop) .idle
        (.deleting { meetingId := input.meetingId, uploadId } none)
  | sweeping {input : PartInput} {meetingIds : List MeetingId} :
      PhaseMove (.beginPart callId input meetingIds) .idle (.sweeping input meetingIds [])
  | reserving {input : PartInput} {meetingIds : List MeetingId} :
      PhaseMove (.beginPart callId input meetingIds) .idle (.reserving input none)
  | looks {input : PartInput} {meetingIds : List MeetingId} {usage : UploadUsage} :
      PhaseMove (.sweepNext callId) (.sweeping input meetingIds usage)
        ((stepSweepNext policy s callId input usage meetingIds).calls callId)
  | swept {input : PartInput} {meetingId : MeetingId} {meetingIds : List MeetingId}
      {usage : UploadUsage} {stop : Option ℕ} :
      PhaseMove (.sweepLease callId stop) (.sweepingLease input meetingId meetingIds usage)
        (.sweeping input meetingIds usage)
  | sweepsStaged {input : PartInput} {meetingId : MeetingId} {meetingIds : List MeetingId}
      {usage : UploadUsage} {stop : Option ℕ} {uploadId : UploadId} :
      PhaseMove (.sweepLease callId stop) (.sweepingLease input meetingId meetingIds usage)
        (.sweepingStaged input { meetingId, uploadId } meetingIds usage)
  | reserved {input : PartInput} {usage : Option UploadUsage} {stop : Option ℕ} :
      PhaseMove (.reserve callId stop) (.reserving input usage) (.staging input)
  | answers {input : PartInput} {result : PartResult}
      (h : planRecordingUploadPart s.now input (s.meetings input.meetingId) = .ok (.answer result)) :
      PhaseMove (.stage callId) (.staging input) (.publishingPart input result)
  | stores {input : PartInput} {manifest : RecordingUploadManifest}
      (h : planRecordingUploadPart s.now input (s.meetings input.meetingId) = .ok (.store manifest)) :
      PhaseMove (.stage callId) (.staging input) (.storingPart input manifest)
  | storedPart {input : PartInput} {manifest : RecordingUploadManifest} :
      PhaseMove (.putPart callId) (.storingPart input manifest) (.storingManifest input manifest)
  | storedManifest {input : PartInput} {manifest : RecordingUploadManifest} :
      PhaseMove (.putPartManifest callId) (.storingManifest input manifest)
        (.publishingPart input (partStored manifest false))
  | assembling {input : UploadInput} {stop : Option ℕ} :
      PhaseMove (.beginCommit callId input stop) .idle (.assembling input)
  | committed {input : UploadInput} {durationMs : ℚ} {receipt : RecordingUploadReceipt}
      (h : assembleRecordingUpload H input.ownerUserId input.uploadId (s.meetings input.meetingId) =
        .ok (.alreadyCommitted receipt)) :
      PhaseMove (.assemble callId durationMs) (.assembling input) (.answeringReceipt input receipt)
  | assembled {input : UploadInput} {durationMs : ℚ} {manifest : RecordingUploadManifest}
      {content : Bytes} {maxBufferedBytes : ℕ}
      (h : assembleRecordingUpload H input.ownerUserId input.uploadId (s.meetings input.meetingId) =
        .ok (.prepared manifest content maxBufferedBytes)) :
      PhaseMove (.assemble callId durationMs) (.assembling input)
        (.intending input { manifest, content, durationMs, maxBufferedBytes })
  | intends {input : UploadInput} {prepared : PreparedCommit} :
      PhaseMove (.intend callId) (.intending input prepared) (.putting input prepared)
  | puts {input : UploadInput} {prepared : PreparedCommit} :
      PhaseMove (.putRecording callId) (.putting input prepared) (.publishing input prepared)
  | publishes {input : UploadInput} {prepared : PreparedCommit} {stop : Option ℕ}
      {published : Published} {o : MeetingObjects}
      (h : Returns (publishCommitUnsafe H s.now input prepared) (s.meetings input.meetingId) published o) :
      PhaseMove (.publishCommit callId stop) (.publishing input prepared)
        (.storingReceipt input (receiptOf input prepared published))
  | storedReceipt {input : UploadInput} {receipt : RecordingUploadReceipt} :
      PhaseMove (.putReceipt callId) (.storingReceipt input receipt) (.rechecking input receipt)
  | rechecks {input : UploadInput} {receipt receipt' : RecordingUploadReceipt} {stop : Option ℕ}
      {o : MeetingObjects}
      (h : Returns (recheckCommitUnsafe H s.now input receipt) (s.meetings input.meetingId) receipt' o) :
      PhaseMove (.recheck callId stop) (.rechecking input receipt)
        (.deleting { meetingId := input.meetingId, uploadId := input.uploadId } (some receipt'))
  | lists {phase : Phase} {deletion : Deletion} {listed : List StagingKey}
      (h : phase.deletion? = some deletion) : PhaseMove (.list callId listed) phase
        (phase.withDeletion { deletion with listed := some listed })
  | removes {phase : Phase} {deletion : Deletion} {key : StagingKey}
      (h : phase.deletion? = some deletion) (hlisted : deletion.listed.any (·.contains key) = true) :
      PhaseMove (.remove callId key) phase
        (phase.withDeletion { deletion with listed := deletion.listed.map (·.erase key) })
  | leaves {input : PartInput} {deletion : Deletion} {meetingIds : List MeetingId}
      {usage : UploadUsage} : PhaseMove (.endDeletion callId)
        (.sweepingStaged input deletion meetingIds usage) (.sweeping input meetingIds usage)
  | deleted {deletion : Deletion} {receipt : Option RecordingUploadReceipt} :
      PhaseMove (.endDeletion callId) (.deleting deletion receipt) .idle

/-- A step of a call, next to the others. -/
structure CallMove (e : AudioEvent) (t : AudioWorld) : Prop where
  others : ∀ other ≠ callId, t.calls other = s.calls other
  phase : PhaseMove H policy s callId e (s.calls callId) (t.calls callId)
  user : LockStep callId s.userLocks t.userLocks (s.calls callId).user? (t.calls callId).user?
  upload : LockStep callId s.uploadLocks t.uploadLocks (s.calls callId).upload? (t.calls callId).upload?

end Moves

/-- The calls and the locks are those of another world. -/
structure SameCalls (s t : AudioWorld) : Prop where
  calls : t.calls = s.calls
  users : t.userLocks = s.userLocks
  uploads : t.uploadLocks = s.uploadLocks

variable {H : Hashing} {policy : RecordingUploadResourcePolicy} {s t : AudioWorld} {callId : CallId}
  {e : AudioEvent}

theorem SameCalls.refl (s : AudioWorld) : SameCalls s s := ⟨rfl, rfl, rfl⟩

theorem SameCalls.stays (h : SameCalls s t) (hidle : s.calls callId = .idle) :
    CallMove H policy s callId e t := by
  refine ⟨fun _ _ => by rw [h.calls], ?_, ?_, ?_⟩
  · rw [h.calls, hidle]
    exact .stays
  · rw [h.calls]
    exact .keeps h.users
  · rw [h.calls]
    exact .keeps h.uploads

/-- A call moves on with what it holds. -/
theorem SameCalls.setPhase {phase phase' : Phase} (h : SameCalls s t) (hphase : s.calls callId = phase)
    (hmove : PhaseMove H policy s callId e phase phase') (huser : phase'.user? = phase.user?)
    (hupload : phase'.upload? = phase.upload?) : CallMove H policy s callId e (t.setPhase callId phase') := by
  have hcalls : (t.setPhase callId phase').calls = Function.update s.calls callId phase' := by
    rw [AudioWorld.setPhase_calls, h.calls]
  refine ⟨fun other hne => ?_, ?_, ?_, ?_⟩
  · rw [hcalls, Function.update_of_ne hne]
  · rw [hcalls, Function.update_self, hphase]
    exact hmove
  · rw [hcalls, Function.update_self, hphase, huser]
    exact .keeps h.users
  · rw [hcalls, Function.update_self, hphase, hupload]
    exact .keeps h.uploads

/-- A call that ends gives back what it holds. -/
theorem SameCalls.finish (h : SameCalls s t)
    (hphase : PhaseMove H policy s callId e (s.calls callId) .idle) :
    CallMove H policy s callId e (t.finish callId) := by
  have hcalls : (t.finish callId).calls = Function.update s.calls callId .idle := by
    rw [← h.calls]
    unfold AudioWorld.finish
    cases (t.calls callId).user? <;> cases (t.calls callId).upload? <;> rfl
  refine ⟨fun other hne => ?_, ?_, ?_, ?_⟩
  · rw [hcalls, Function.update_of_ne hne]
  · rw [hcalls, Function.update_self]
    exact hphase
  · rw [hcalls, Function.update_self]
    unfold AudioWorld.finish
    rw [h.calls]
    cases huser : (s.calls callId).user? with
    | none => cases (s.calls callId).upload? <;> exact .keeps h.users
    | some userId =>
      have hlocks := congrArg (Function.update · userId none) h.users
      cases (s.calls callId).upload? <;> exact .gives hlocks
  · rw [hcalls, Function.update_self]
    unfold AudioWorld.finish
    rw [h.calls]
    cases hupload : (s.calls callId).upload? with
    | none => cases (s.calls callId).user? <;> exact .keeps h.uploads
    | some key =>
      have hlocks := congrArg (Function.update · key none) h.uploads
      cases (s.calls callId).user? <;> exact .gives hlocks

section Sections

variable {α : Type} {x : Fenced α} {meetingId : MeetingId} {stop : Option ℕ} {userId : UserId}

/-- Where a call goes after a section, by what the section returns. -/
theorem continueWith_ind {p : AudioWorld → Prop} {r : AudioWorld × Option (Except AudioError α)}
    {leave : AudioWorld → AudioWorld} {next : AudioWorld → α → AudioWorld × Option Answer}
    (hleave : p (leave r.1)) (hnext : ∀ a, r.2 = some (.ok a) → p (next r.1 a).1) :
    p (continueWith r leave next).1 := by
  unfold continueWith
  split
  · exact hleave
  · exact hleave
  · rename_i a h
    exact hnext a h

theorem sameCalls_fenced : SameCalls s (fenced s meetingId stop x).1 := by
  unfold fenced
  split_ifs <;> exact ⟨rfl, rfl, rfl⟩

theorem sameCalls_section : SameCalls s (userSection s userId meetingId stop x).1 := by
  unfold userSection
  split_ifs
  · exact .refl s
  · exact sameCalls_fenced

/-- A call without a lock, whose section ends it or moves it on. -/
theorem move_section {leave : AudioWorld → AudioWorld} {next : AudioWorld → α → AudioWorld × Option Answer}
    (hleave : CallMove H policy s callId e (leave (userSection s userId meetingId stop x).1))
    (hnext : ∀ a o, Returns x (s.meetings meetingId) a o →
      CallMove H policy s callId e (next (userSection s userId meetingId stop x).1 a).1) :
    CallMove H policy s callId e
      (continueWith (userSection s userId meetingId stop x) leave next).1 := by
  refine continueWith_ind hleave fun a ha => ?_
  obtain ⟨-, o, hreturns, -⟩ := userSection_ok ha
  exact hnext a o hreturns

end Sections

theorem user?_withDeletion (phase : Phase) (deletion : Deletion) :
    (phase.withDeletion deletion).user? = phase.user? := by
  cases phase <;> rfl

theorem upload?_withDeletion (phase : Phase) (deletion : Deletion) :
    (phase.withDeletion deletion).upload? = phase.upload? := by
  cases phase <;> rfl

theorem sweepNext_eq (policy : RecordingUploadResourcePolicy) (s : AudioWorld) (callId : CallId)
    (input : PartInput) (usage : UploadUsage) (meetingIds : List MeetingId) :
    ∃ phase : Phase, stepSweepNext policy s callId input usage meetingIds = s.setPhase callId phase ∧
      phase.user? = some input.ownerUserId ∧ phase.upload? = none := by
  unfold stepSweepNext
  cases meetingIds with
  | nil => exact ⟨_, rfl, rfl, rfl⟩
  | cons meetingId meetingIds =>
    dsimp only
    split
    · split_ifs <;> exact ⟨_, rfl, rfl, rfl⟩
    · exact ⟨_, rfl, rfl, rfl⟩

theorem sweepNext_locks (callId : CallId) (input : PartInput) (usage : UploadUsage)
    (meetingIds : List MeetingId) :
    ((stepSweepNext policy s callId input usage meetingIds).calls callId).user? = some input.ownerUserId ∧
      ((stepSweepNext policy s callId input usage meetingIds).calls callId).upload? = none := by
  obtain ⟨phase, heq, huser, hupload⟩ := sweepNext_eq policy s callId input usage meetingIds
  rw [heq, AudioWorld.setPhase_calls, Function.update_self]
  exact ⟨huser, hupload⟩

/-- **What a step does to the calls and the locks.** -/
theorem step_calls {e : AudioEvent × Option Answer} (hstep : AudioStep H policy s e t) :
    callOf e.1 = none ∧ SameCalls s t ∨
      ∃ callId, callOf e.1 = some callId ∧ CallMove H policy s callId e.1 t := by
  obtain ⟨event, answer⟩ := e
  have hstep := hstep.2
  dsimp only at hstep ⊢
  have hsame := SameCalls.refl s
  cases event with
  | tick | deleteMeeting | deleteUser =>
    cases hstep
    exact .inl ⟨rfl, ⟨rfl, rfl, rfl⟩⟩
  | removeMeeting id =>
    simp only [step] at hstep
    split_ifs at hstep
    cases hstep
    exact .inl ⟨rfl, ⟨rfl, rfl, rfl⟩⟩
  | saveChunk input stop =>
    simp only [step] at hstep
    split_ifs at hstep
    rw [world_of_some hstep]
    exact .inl ⟨rfl, continueWith_ind sameCalls_section fun _ _ => sameCalls_section⟩
  | sealAudio input stop =>
    simp only [step] at hstep
    split_ifs at hstep
    rw [world_of_some hstep]
    unfold stepSealAudio
    refine .inl ⟨rfl, ?_⟩
    split_ifs
    · exact hsame
    · exact continueWith_ind sameCalls_fenced fun _ _ => sameCalls_fenced
  | readStatus callId input stop =>
    simp only [step] at hstep
    split_ifs at hstep with hfree
    rw [world_of_some hstep]
    refine .inr ⟨callId, rfl, continueWith_ind (sameCalls_fenced.stays hfree.1) fun status _ => ?_⟩
    split
    · exact sameCalls_fenced.stays hfree.1
    · exact sameCalls_fenced.setPhase hfree.1 .cleans rfl rfl
  | beginPart callId input meetingIds =>
    simp only [step] at hstep
    split_ifs at hstep with hfree
    rw [world_of_some hstep]
    have hlocked : ∀ phase : Phase, PhaseMove H policy s callId (.beginPart callId input meetingIds)
        .idle phase → phase.user? = some input.ownerUserId → phase.upload? = none →
        CallMove H policy s callId (.beginPart callId input meetingIds)
          ((s.lockUser input.ownerUserId callId).setPhase callId phase) := by
      intro phase hphase huser hupload
      have hcalls : ((s.lockUser input.ownerUserId callId).setPhase callId phase).calls callId = phase :=
        Function.update_self _ _ _
      refine ⟨fun other hne => Function.update_of_ne hne _ _, ?_, ?_, ?_⟩
      · rw [hcalls, hfree.1]
        exact hphase
      · rw [hcalls, hfree.1, huser]
        exact .takes hfree.2 rfl
      · rw [hcalls, hfree.1, hupload]
        exact .keeps rfl
    refine .inr ⟨callId, rfl, ?_⟩
    unfold stepBeginPart
    split_ifs
    · exact hsame.stays hfree.1
    · exact hlocked _ .sweeping rfl rfl
    · exact hlocked _ .reserving rfl rfl
  | sweepNext callId =>
    simp only [step] at hstep
    split at hstep
    · rename_i input meetingIds usage hphase
      rw [world_of_some hstep]
      obtain ⟨phase, heq, huser, hupload⟩ := sweepNext_eq policy s callId input usage meetingIds
      have hmove : PhaseMove H policy s callId (.sweepNext callId) (.sweeping input meetingIds usage)
          ((stepSweepNext policy s callId input usage meetingIds).calls callId) := .looks
      rw [heq] at hmove ⊢
      rw [AudioWorld.setPhase_calls, Function.update_self] at hmove
      exact .inr ⟨callId, rfl, hsame.setPhase hphase hmove huser hupload⟩
    · cases hstep
  | sweepLease callId stop =>
    simp only [step] at hstep
    split at hstep
    · rename_i input meetingId meetingIds usage hphase
      rw [world_of_some hstep]
      refine .inr ⟨callId, rfl, continueWith_ind (sameCalls_fenced.finish (.ends ?_)) fun swept _ => ?_⟩
      · rw [hphase]
        rfl
      · cases swept with
        | none => exact sameCalls_fenced.setPhase hphase .swept rfl rfl
        | some uploadId => exact sameCalls_fenced.setPhase hphase .sweepsStaged rfl rfl
    · cases hstep
  | reserve callId stop =>
    simp only [step] at hstep
    split at hstep
    · rename_i input usage hphase
      rw [world_of_some hstep]
      refine .inr ⟨callId, rfl, continueWith_ind (sameCalls_fenced.finish (.ends ?_)) fun _ _ => ?_⟩
      · rw [hphase]
        rfl
      · have hfenced : SameCalls s (fenced s input.meetingId stop
            (reservePartUnsafe policy s.now usage input)).1 := sameCalls_fenced
        refine ⟨fun other hne => ?_, ?_, ?_, ?_⟩
        · exact (Function.update_of_ne hne _ _).trans (congrFun hfenced.calls other)
        · rw [AudioWorld.setPhase_calls, Function.update_self, hphase]
          exact .reserved
        · rw [AudioWorld.setPhase_calls, Function.update_self, hphase]
          exact .gives (congrArg (fun locks : UserId → Option CallId =>
            Function.update locks input.ownerUserId none) hfenced.users)
        · rw [AudioWorld.setPhase_calls, Function.update_self, hphase]
          exact .keeps hfenced.uploads
    · cases hstep
  | stage callId =>
    simp only [step] at hstep
    split at hstep
    · rename_i input hphase
      split_ifs at hstep with hfree
      rw [world_of_some hstep]
      refine .inr ⟨callId, rfl, ?_⟩
      unfold stepStage
      split
      · exact hsame.setPhase hphase (.ends rfl) rfl rfl
      · rename_i hplan
        exact hsame.setPhase hphase (.answers hplan) rfl rfl
      · rename_i manifest hplan
        refine ⟨fun other hne => Function.update_of_ne hne _ _, ?_, ?_, ?_⟩
        · rw [AudioWorld.setPhase_calls, Function.update_self, hphase]
          exact .stores hplan
        · rw [AudioWorld.setPhase_calls, Function.update_self, hphase]
          exact .keeps rfl
        · rw [AudioWorld.setPhase_calls, Function.update_self, hphase]
          exact .takes hfree rfl
    · cases hstep
  | putPart callId =>
    simp only [step] at hstep
    split at hstep
    · rename_i hphase
      rw [world_of_some hstep]
      have hput : ∀ {meetingId o}, SameCalls s (s.setObjects meetingId o) := ⟨rfl, rfl, rfl⟩
      exact .inr ⟨callId, rfl, hput.setPhase hphase .storedPart rfl rfl⟩
    · cases hstep
  | putPartManifest callId =>
    simp only [step] at hstep
    split at hstep
    · rename_i input manifest hphase
      rw [world_of_some hstep]
      refine .inr ⟨callId, rfl, fun other hne => Function.update_of_ne hne _ _, ?_, ?_, ?_⟩
      · unfold stepPutPartManifest
        rw [AudioWorld.setPhase_calls, Function.update_self, hphase]
        exact .storedManifest
      · unfold stepPutPartManifest
        rw [AudioWorld.setPhase_calls, Function.update_self, hphase]
        exact .keeps rfl
      · unfold stepPutPartManifest
        rw [AudioWorld.setPhase_calls, Function.update_self, hphase]
        exact .gives rfl
    · cases hstep
  | publishPart callId stop =>
    simp only [step] at hstep
    split at hstep
    · rename_i hphase
      split_ifs at hstep
      rw [world_of_some hstep]
      have hidle : ∀ {u}, SameCalls s u →
          CallMove H policy s callId (.publishPart callId stop) (u.setPhase callId .idle) :=
        fun hu => hu.setPhase hphase (.ends rfl) rfl rfl
      exact .inr ⟨callId, rfl, continueWith_ind (hidle sameCalls_section) fun _ _ =>
        hidle sameCalls_section⟩
    · cases hstep
  | beginCommit callId input stop =>
    simp only [step] at hstep
    split_ifs at hstep with hfree
    rw [world_of_some hstep]
    refine .inr ⟨callId, rfl, continueWith_ind (sameCalls_section.stays hfree.1) fun receipt _ => ?_⟩
    cases receipt with
    | some receipt => exact sameCalls_section.stays hfree.1
    | none =>
      exact sameCalls_section.setPhase hfree.1 .assembling rfl rfl
  | assemble callId durationMs =>
    simp only [step] at hstep
    split at hstep
    · rename_i input hphase
      split_ifs at hstep
      rw [world_of_some hstep]
      refine .inr ⟨callId, rfl, ?_⟩
      unfold stepAssemble
      split
      · exact hsame.setPhase hphase (.ends rfl) rfl rfl
      · rename_i hassembled
        exact hsame.setPhase hphase (.committed hassembled) rfl rfl
      · rename_i hassembled
        exact hsame.setPhase hphase (.assembled hassembled) rfl rfl
    · cases hstep
  | answerReceipt callId stop =>
    simp only [step] at hstep
    split at hstep
    · rename_i hphase
      split_ifs at hstep
      rw [world_of_some hstep]
      have hidle : ∀ {u}, SameCalls s u →
          CallMove H policy s callId (.answerReceipt callId stop) (u.setPhase callId .idle) :=
        fun hu => hu.setPhase hphase (.ends rfl) rfl rfl
      exact .inr ⟨callId, rfl, continueWith_ind (hidle sameCalls_section) fun _ _ =>
        hidle sameCalls_section⟩
    · cases hstep
  | intend callId =>
    simp only [step] at hstep
    split at hstep
    · rename_i hphase
      split_ifs at hstep
      rw [world_of_some hstep]
      refine .inr ⟨callId, rfl, continueWith_ind ?_ fun _ _ => ?_⟩
      · exact sameCalls_section.setPhase hphase (.ends rfl) rfl rfl
      · exact sameCalls_section.setPhase hphase .intends rfl rfl
    · cases hstep
  | putRecording callId =>
    simp only [step] at hstep
    split at hstep
    · rename_i hphase
      rw [world_of_some hstep]
      have hput : ∀ {meetingId o}, SameCalls s (s.setObjects meetingId o) := ⟨rfl, rfl, rfl⟩
      exact .inr ⟨callId, rfl, hput.setPhase hphase .puts rfl rfl⟩
    · cases hstep
  | publishCommit callId stop =>
    simp only [step] at hstep
    split at hstep
    · rename_i hphase
      split_ifs at hstep
      rw [world_of_some hstep]
      refine .inr ⟨callId, rfl, move_section ?_ fun published o hreturns => ?_⟩
      · exact sameCalls_section.setPhase hphase (.ends rfl) rfl rfl
      · exact sameCalls_section.setPhase hphase (.publishes hreturns) rfl rfl
    · cases hstep
  | putReceipt callId =>
    simp only [step] at hstep
    split at hstep
    · rename_i hphase
      rw [world_of_some hstep]
      have hput : ∀ {meetingId o}, SameCalls s (s.setObjects meetingId o) := ⟨rfl, rfl, rfl⟩
      exact .inr ⟨callId, rfl, hput.setPhase hphase .storedReceipt rfl rfl⟩
    · cases hstep
  | recheck callId stop =>
    simp only [step] at hstep
    split at hstep
    · rename_i hphase
      split_ifs at hstep
      rw [world_of_some hstep]
      refine .inr ⟨callId, rfl, move_section ?_ fun receipt o hreturns => ?_⟩
      · exact sameCalls_section.setPhase hphase (.ends rfl) rfl rfl
      · exact sameCalls_section.setPhase hphase (.rechecks hreturns) rfl rfl
    · cases hstep
  | list callId listed =>
    simp only [step] at hstep
    split at hstep
    · rename_i deletion hdeletion
      rw [world_of_some hstep]
      exact .inr ⟨callId, rfl, hsame.setPhase rfl (.lists hdeletion) (user?_withDeletion _ _)
        (upload?_withDeletion _ _)⟩
    · cases hstep
  | remove callId key =>
    simp only [step] at hstep
    split at hstep
    · rename_i deletion hdeletion
      split_ifs at hstep with hlisted
      rw [world_of_some hstep]
      have hremoved : ∀ {meetingId o}, SameCalls s (s.setObjects meetingId o) := ⟨rfl, rfl, rfl⟩
      exact .inr ⟨callId, rfl, hremoved.setPhase rfl (.removes hdeletion hlisted) (user?_withDeletion _ _)
        (upload?_withDeletion _ _)⟩
    · cases hstep
  | endDeletion callId =>
    simp only [step, stepEndDeletion] at hstep
    split at hstep
    · rename_i hphase
      rw [world_of_some hstep]
      exact .inr ⟨callId, rfl, hsame.setPhase hphase .leaves rfl rfl⟩
    · rename_i hphase
      rw [world_of_some hstep]
      exact .inr ⟨callId, rfl, hsame.setPhase hphase .deleted rfl rfl⟩
    · cases hstep
  | crash callId =>
    rw [world_of_some hstep]
    exact .inr ⟨callId, rfl, hsame.finish .crashes⟩

/-- The locks of users are held by the calls that say so, and those of uploads. -/
def UsersHeld (s : AudioWorld) : Prop := Held (fun callId => (s.calls callId).user?) s.userLocks

def UploadsHeld (s : AudioWorld) : Prop := Held (fun callId => (s.calls callId).upload?) s.uploadLocks

theorem usersHeld_step {e : AudioEvent × Option Answer} (hstep : AudioStep H policy s e t)
    (h : UsersHeld s) : UsersHeld t := by
  rcases step_calls hstep with ⟨-, hsame⟩ | ⟨callId, -, hmove⟩
  · unfold UsersHeld
    rw [hsame.calls, hsame.users]
    exact h
  · exact Held.step h (fun other hne => congrArg Phase.user? (hmove.others other hne)) hmove.user

theorem uploadsHeld_step {e : AudioEvent × Option Answer} (hstep : AudioStep H policy s e t)
    (h : UploadsHeld s) : UploadsHeld t := by
  rcases step_calls hstep with ⟨-, hsame⟩ | ⟨callId, -, hmove⟩
  · unfold UploadsHeld
    rw [hsame.calls, hsame.uploads]
    exact h
  · exact Held.step h (fun other hne => congrArg Phase.upload? (hmove.others other hne)) hmove.upload

/-- No call is under way. -/
structure Quiet (s : AudioWorld) : Prop where
  idle : ∀ callId, s.calls callId = .idle
  users : ∀ userId, s.userLocks userId = none
  uploads : ∀ key, s.uploadLocks key = none

theorem Quiet.usersHeld (h : Quiet s) : UsersHeld s := by
  intro callId userId
  dsimp only
  rw [h.idle callId, h.users userId]
  exact ⟨fun heq => (by cases heq), fun heq => (by cases heq)⟩

theorem Quiet.uploadsHeld (h : Quiet s) : UploadsHeld s := by
  intro callId key
  dsimp only
  rw [h.idle callId, h.uploads key]
  exact ⟨fun heq => (by cases heq), fun heq => (by cases heq)⟩

theorem quiet_empty : Quiet {} := ⟨fun _ => rfl, fun _ => rfl, fun _ => rfl⟩

/-- Only the first step of a part takes the lock of a user. -/
theorem user?_of_move {phase phase' : Phase} {userId : UserId}
    (h : PhaseMove H policy s callId e phase phase')
    (hevent : ∀ callId input meetingIds, e ≠ .beginPart callId input meetingIds)
    (huser : phase'.user? = some userId) : phase.user? = some userId := by
  cases h with
  | stays | swept | sweepsStaged | leaves => exact huser
  | sweeping | reserving => exact absurd rfl (hevent _ _ _)
  | looks =>
    rw [(sweepNext_locks _ _ _ _).1] at huser
    exact huser
  | lists | removes =>
    rw [user?_withDeletion] at huser
    exact huser
  | _ => cases huser

/-- The recording that a commit has assembled and is to publish. -/
def Phase.prepared? : Phase → Option (UploadInput × PreparedCommit)
  | .intending input prepared | .putting input prepared | .publishing input prepared =>
    some (input, prepared)
  | _ => none

/-- A recording was assembled in the step, or before it. -/
theorem prepared_step {e : AudioEvent × Option Answer} {input : UploadInput} {prepared : PreparedCommit}
    (hstep : AudioStep H policy s e t) (h : Phase.prepared? (t.calls callId) = some (input, prepared)) :
    Phase.prepared? (s.calls callId) = some (input, prepared) ∨
      ∃ durationMs, e.1 = .assemble callId durationMs ∧ s.calls callId = .assembling input ∧
        assembleRecordingUpload H input.ownerUserId input.uploadId (s.meetings input.meetingId) =
          .ok (.prepared prepared.manifest prepared.content prepared.maxBufferedBytes) := by
  rcases step_calls hstep with ⟨-, hsame⟩ | ⟨moved, -, hmove⟩
  · exact .inl (hsame.calls ▸ h)
  by_cases hid : callId = moved
  swap
  · exact .inl (hmove.others callId hid ▸ h)
  subst hid
  obtain ⟨event, answer⟩ := e
  have hphase := hmove.phase
  dsimp only at hphase ⊢
  generalize s.calls callId = phase at hphase
  generalize t.calls callId = phase' at hphase h
  cases hphase with
  | assembled hassembled =>
    cases h
    exact .inr ⟨_, rfl, rfl, hassembled⟩
  | intends | puts => exact .inl h
  | @lists phase deletion listed hdeletion | @removes phase deletion key hdeletion =>
    cases phase with
    | sweepingStaged | deleting => cases h
    | _ => cases hdeletion
  | @looks input meetingIds usage =>
    obtain ⟨phase, heq, huser, -⟩ := sweepNext_eq policy s callId input usage meetingIds
    rw [heq, AudioWorld.setPhase_calls, Function.update_self] at h
    cases phase with
    | intending | putting | publishing => cases huser
    | _ => cases h
  | _ => cases h

/-- The receipt that a call carries along, for an upload of a meeting. -/
def Phase.receipt? : Phase → Option ((MeetingId × UploadId) × RecordingUploadReceipt)
  | .answeringReceipt input receipt | .storingReceipt input receipt | .rechecking input receipt =>
    some ((input.meetingId, input.uploadId), receipt)
  | .deleting deletion (some receipt) => some ((deletion.meetingId, deletion.uploadId), receipt)
  | _ => none

theorem recheck_returns {now : Timestamp} {input : UploadInput} {receipt receipt' : RecordingUploadReceipt}
    {o o' : MeetingObjects} (h : Returns (recheckCommitUnsafe H now input receipt) o receipt' o') :
    receipt' = receipt := by
  unfold recheckCommitUnsafe readManifest at h
  simp only [returns_bind, returns_read, returns_pure] at h
  obtain ⟨m, o₁, -, h⟩ := h
  split at h
  · exact absurd h returns_fail
  · simp only [returns_bind, returns_require, returns_pure] at h
    obtain ⟨-, -, -, heq, -⟩ := h
    exact heq.symm

/-- How a call comes by the receipt that it carries after a step. -/
inductive ReceiptStep (H : Hashing) (s t : AudioWorld) (e : AudioEvent) (callId : CallId)
    (key : MeetingId × UploadId) (receipt : RecordingUploadReceipt) : Prop
  | stays (h : t.calls callId = s.calls callId) : ReceiptStep H s t e callId key receipt
  | carries (h : Phase.receipt? (s.calls callId) = some (key, receipt))
      (hstored : ∀ input receipt, s.calls callId ≠ .storingReceipt input receipt) :
      ReceiptStep H s t e callId key receipt
  | puts {input : UploadInput} (hevent : e = .putReceipt callId)
      (hphase : s.calls callId = .storingReceipt input receipt)
      (hkey : key = (input.meetingId, input.uploadId)) : ReceiptStep H s t e callId key receipt
  | finds {input : UploadInput} {durationMs : ℚ} (hevent : e = .assemble callId durationMs)
      (hphase : s.calls callId = .assembling input) (hkey : key = (input.meetingId, input.uploadId))
      (h : assembleRecordingUpload H input.ownerUserId input.uploadId (s.meetings input.meetingId) =
        .ok (.alreadyCommitted receipt)) : ReceiptStep H s t e callId key receipt
  | publishes {input : UploadInput} {prepared : PreparedCommit} {stop : Option ℕ}
      (hevent : e = .publishCommit callId stop) (hphase : s.calls callId = .publishing input prepared)
      (hnext : t.calls callId = .storingReceipt input receipt)
      (hkey : key = (input.meetingId, input.uploadId)) : ReceiptStep H s t e callId key receipt

theorem receiptStep {e : AudioEvent × Option Answer} {key : MeetingId × UploadId}
    {receipt : RecordingUploadReceipt} (hstep : AudioStep H policy s e t)
    (h : Phase.receipt? (t.calls callId) = some (key, receipt)) :
    ReceiptStep H s t e.1 callId key receipt := by
  rcases step_calls hstep with ⟨-, hsame⟩ | ⟨moved, -, hmove⟩
  · exact .stays (congrFun hsame.calls callId)
  by_cases hid : callId = moved
  swap
  · exact .stays (hmove.others callId hid)
  subst hid
  obtain ⟨event, answer⟩ := e
  have hphase := hmove.phase
  dsimp only at hphase ⊢
  generalize hbefore : s.calls callId = phase at hphase
  generalize hafter : t.calls callId = phase' at hphase h
  cases hphase with
  | committed hassembled =>
    cases h
    exact .finds rfl hbefore rfl hassembled
  | publishes =>
    cases h
    exact .publishes rfl hbefore hafter rfl
  | storedReceipt =>
    cases h
    exact .puts rfl hbefore rfl
  | rechecks hreturns =>
    cases recheck_returns hreturns
    refine .carries (hbefore ▸ h) fun input receipt heq => ?_
    rw [hbefore] at heq
    cases heq
  | @lists phase deletion listed hdeletion | @removes phase deletion key hdeletion =>
    cases phase with
    | sweepingStaged => cases h
    | deleting deletion' receipt' =>
      cases hdeletion
      refine .carries ?_ fun input receipt heq => ?_
      · rw [hbefore]
        cases receipt' with
        | none => cases h
        | some receipt' => exact h
      · rw [hbefore] at heq
        cases heq
    | _ => cases hdeletion
  | @looks input meetingIds usage =>
    obtain ⟨phase, heq, huser, -⟩ := sweepNext_eq policy s callId input usage meetingIds
    rw [heq, AudioWorld.setPhase_calls, Function.update_self] at h
    cases phase with
    | answeringReceipt | storingReceipt | rechecking | deleting => cases huser
    | _ => cases h
  | _ => cases h

/-- What is published when a call goes on to store its receipt. -/
theorem publishCommit_returns {input : UploadInput} {prepared : PreparedCommit}
    {receipt : RecordingUploadReceipt} {stop : Option ℕ} {answer : Option Answer}
    (hstep : AudioStep H policy s (.publishCommit callId stop, answer) t)
    (hphase : s.calls callId = .publishing input prepared)
    (hnext : t.calls callId = .storingReceipt input receipt) : ∃ published,
      receipt = receiptOf input prepared published ∧ Returns (publishCommitUnsafe H s.now input prepared)
        (s.meetings input.meetingId) published (t.meetings input.meetingId) := by
  have hpublish := hstep.2
  simp only [step, hphase] at hpublish
  split_ifs at hpublish
  have heq := world_of_some hpublish
  unfold stepPublishCommit continueWith at heq
  split at heq
  · rw [heq, AudioWorld.setPhase_calls, Function.update_self] at hnext
    cases hnext
  · rw [heq, AudioWorld.setPhase_calls, Function.update_self] at hnext
    cases hnext
  · rename_i published hok
    obtain ⟨-, o, hreturns, ho⟩ := userSection_ok hok
    rw [heq, AudioWorld.setPhase_calls, Function.update_self] at hnext
    cases hnext
    refine ⟨published, rfl, ?_⟩
    rw [heq, ho, AudioWorld.setPhase_meetings, AudioWorld.setObjects_meetings, Function.update_self]
    exact hreturns

/-- A call that no event of a run names stays as it is. -/
theorem calls_run {R : AudioWorld → AudioEvent × Option Answer → AudioWorld → Prop}
    (hR : ∀ s e t, R s e t → AudioStep H policy s e t) {es : List (AudioEvent × Option Answer)}
    (hrun : Run R s es t) (hcall : ∀ e ∈ es, callOf e.1 ≠ some callId) :
    t.calls callId = s.calls callId := by
  induction hrun with
  | nil => rfl
  | cons hstep _ ih =>
    rw [ih fun e he => hcall e (List.mem_cons_of_mem _ he)]
    rcases step_calls (hR _ _ _ hstep) with ⟨-, hsame⟩ | ⟨moved, hevent, hmove⟩
    · rw [hsame.calls]
    · refine hmove.others callId fun heq => ?_
      exact hcall _ List.mem_cons_self (by rw [hevent, heq])

end OwnMinutes.Audio.Phases
