import OwnMinutes.Audio.Runs
import OwnMinutes.Audio.Sections

/-! # What a step does to the objects of a meeting

An event touches one meeting at most (`touched`). Its objects change by what a section writes, by one object
that a call puts or removes outside of the fence, or by the cleanup of a deleted meeting
(`ObjectsChange`). -/

namespace OwnMinutes.Audio.Changes

open OwnMinutes.Auth.ProcessingRoute OwnMinutes.Auth.Records OwnMinutes.Lib.Crash OwnMinutes.Lib.Runs
open OwnMinutes.Audio.Records OwnMinutes.Audio.Store OwnMinutes.Audio.Runs OwnMinutes.Audio.Sections

variable {H : Hashing} {policy : RecordingUploadResourcePolicy} {s t : AudioWorld}

/-! ### Sections in a step -/

variable {leave : AudioWorld → AudioWorld}

section Sections

variable {α : Type} {x : Fenced α} {meetingId : MeetingId} {stop : Option ℕ}

/-- A section that returns a value ran to its end. -/
theorem fenced_ok {a : α} (h : (fenced s meetingId stop x).2 = some (.ok a)) :
    s.deletedMeetings meetingId = false ∧ ∃ o, Returns x (s.meetings meetingId) a o ∧
      (fenced s meetingId stop x).1 = s.setObjects meetingId o := by
  unfold fenced at h ⊢
  split_ifs at h with hdeleted
  · cases h
  · rw [if_neg hdeleted]
    exact ⟨Bool.not_eq_true _ ▸ hdeleted, _, returns_of_run h, rfl⟩

theorem userSection_ok {userId : UserId} {a : α}
    (h : (userSection s userId meetingId stop x).2 = some (.ok a)) :
    s.deletedMeetings meetingId = false ∧ ∃ o, Returns x (s.meetings meetingId) a o ∧
      (userSection s userId meetingId stop x).1 = s.setObjects meetingId o := by
  unfold userSection at h ⊢
  split_ifs at h with hdeleted
  · cases h
  · rw [if_neg hdeleted]
    exact fenced_ok h

theorem continueWith_field {β : Type*} (f : AudioWorld → β) {r : AudioWorld × Option (Except AudioError α)}
    {next : AudioWorld → α → AudioWorld × Option Answer} (hleave : ∀ s, f (leave s) = f s)
    (hnext : ∀ s a, f (next s a).1 = f s) : f (continueWith r leave next).1 = f r.1 := by
  unfold continueWith
  split
  · exact hleave _
  · exact hleave _
  · exact hnext _ _

end Sections

@[simp] theorem finish_meetings (callId : CallId) : (s.finish callId).meetings = s.meetings := by
  unfold AudioWorld.finish
  cases (s.calls callId).user? <;> cases (s.calls callId).upload? <;> rfl

@[simp] theorem finish_now (callId : CallId) : (s.finish callId).now = s.now := by
  unfold AudioWorld.finish
  cases (s.calls callId).user? <;> cases (s.calls callId).upload? <;> rfl

/-! ### The objects after a step -/

/-- The meeting whose objects an event may change. -/
def touched (s : AudioWorld) : AudioEvent → Option MeetingId
  | .removeMeeting meetingId => some meetingId
  | .saveChunk input _ => some input.meetingId
  | .sealAudio input _ => some input.meetingId
  | .readStatus _ input _ | .beginCommit _ input _ => some input.meetingId
  | .sweepLease callId _ =>
    match s.calls callId with
    | .sweepingLease _ meetingId _ _ => some meetingId
    | _ => none
  | .reserve callId _ =>
    match s.calls callId with
    | .reserving input _ => some input.meetingId
    | _ => none
  | .putPart callId =>
    match s.calls callId with
    | .storingPart input _ => some input.meetingId
    | _ => none
  | .putPartManifest callId =>
    match s.calls callId with
    | .storingManifest input _ => some input.meetingId
    | _ => none
  | .publishPart callId _ =>
    match s.calls callId with
    | .publishingPart input _ => some input.meetingId
    | _ => none
  | .answerReceipt callId _ =>
    match s.calls callId with
    | .answeringReceipt input _ => some input.meetingId
    | _ => none
  | .intend callId =>
    match s.calls callId with
    | .intending input _ => some input.meetingId
    | _ => none
  | .putRecording callId =>
    match s.calls callId with
    | .putting input _ => some input.meetingId
    | _ => none
  | .publishCommit callId _ =>
    match s.calls callId with
    | .publishing input _ => some input.meetingId
    | _ => none
  | .putReceipt callId =>
    match s.calls callId with
    | .storingReceipt input _ => some input.meetingId
    | _ => none
  | .recheck callId _ =>
    match s.calls callId with
    | .rechecking input _ => some input.meetingId
    | _ => none
  | .remove callId _ => (s.calls callId).deletion?.map (·.meetingId)
  | _ => none

def writerOf (s : AudioWorld) : AudioEvent → Writer
  | .saveChunk _ _ => .chunks
  | .sealAudio input _ => .seals input.expectedLastSequence input.totalBytes
  | .readStatus _ input _ =>
    receiptWriter .leases ((s.meetings input.meetingId).uploadReceipts input.uploadId)
  | .beginCommit _ input _ =>
    receiptWriter .others ((s.meetings input.meetingId).uploadReceipts input.uploadId)
  | .answerReceipt callId _ =>
    match s.calls callId with
    | .answeringReceipt _ receipt => receiptWriter .others (some receipt)
    | _ => .others
  | .publishCommit _ _ => .recordings
  | .reserve _ _ | .publishPart _ _ => .leases
  | _ => .others

inductive ObjectsChange (H : Hashing) (e : AudioEvent) (s : AudioWorld) (meetingId : MeetingId) :
    MeetingObjects → Prop
  | written {o : MeetingObjects} (h : Written H (writerOf s e) (s.meetings meetingId) o) :
      ObjectsChange H e s meetingId o
  | part {callId : CallId} {input : PartInput} {manifest : RecordingUploadManifest}
      (hevent : e = .putPart callId) (hphase : s.calls callId = .storingPart input manifest) :
      ObjectsChange H e s meetingId ((s.meetings meetingId).putUploadPart input.metadata.uploadId
        input.partIndex input.buffer)
  | partManifest {callId : CallId} {input : PartInput} {manifest : RecordingUploadManifest}
      (hevent : e = .putPartManifest callId)
      (hphase : s.calls callId = .storingManifest input manifest) :
      ObjectsChange H e s meetingId ((s.meetings meetingId).putUploadManifest manifest)
  | recording {callId : CallId} {input : UploadInput} {prepared : PreparedCommit}
      (hevent : e = .putRecording callId) (hphase : s.calls callId = .putting input prepared) :
      ObjectsChange H e s meetingId ((s.meetings meetingId).putChunk prepared.fileName prepared.content)
  | receipt {callId : CallId} {input : UploadInput} {receipt : RecordingUploadReceipt}
      (hevent : e = .putReceipt callId) (hphase : s.calls callId = .storingReceipt input receipt) :
      ObjectsChange H e s meetingId ((s.meetings meetingId).putReceipt receipt)
  | unstaged {callId : CallId} {deletion : Deletion} {key : StagingKey}
      (hevent : e = .remove callId key) (hdeletion : (s.calls callId).deletion? = some deletion)
      (hlisted : deletion.listed.any (·.contains key) = true) :
      ObjectsChange H e s meetingId (removeStaged deletion.uploadId key (s.meetings meetingId))
  | removed (hevent : e = .removeMeeting meetingId) (hdeleted : s.deletedMeetings meetingId = true) :
      ObjectsChange H e s meetingId {}

/-- The objects of the meeting that an event touches change, those of no other. -/
structure ObjectsStep (H : Hashing) (e : AudioEvent) (s t : AudioWorld) : Prop where
  others {meetingId : MeetingId} (h : touched s e ≠ some meetingId) :
    t.meetings meetingId = s.meetings meetingId
  touched {meetingId : MeetingId} (h : touched s e = some meetingId) :
    ObjectsChange H e s meetingId (t.meetings meetingId)
  now : s.now ≤ t.now

variable {e : AudioEvent}

theorem objectsStep_same (h : t.meetings = s.meetings) (hnow : s.now ≤ t.now) : ObjectsStep H e s t :=
  ⟨fun _ => congrFun h _, fun _ => by
    rw [h]
    exact .written .refl, hnow⟩

theorem objectsStep_update {meetingId : MeetingId} {o : MeetingObjects} (htouched : touched s e = some meetingId)
    (h : t.meetings = Function.update s.meetings meetingId o) (hnow : t.now = s.now)
    (ho : ObjectsChange H e s meetingId o) : ObjectsStep H e s t := by
  refine ⟨fun hother => ?_, fun hid => ?_, hnow.ge⟩
  · rw [h]
    exact Function.update_of_ne (fun heq => hother (by rw [heq]; exact htouched)) _ _
  · rw [htouched] at hid
    cases hid
    rw [h, Function.update_self]
    exact ho

@[simp] theorem fenced_now {α : Type} (s : AudioWorld) (meetingId : MeetingId) (stop : Option ℕ)
    (x : Fenced α) : (fenced s meetingId stop x).1.now = s.now := by
  unfold fenced
  split_ifs <;> rfl

theorem fenced_meetings {α : Type} (s : AudioWorld) (meetingId : MeetingId) (stop : Option ℕ)
    (x : Fenced α) : (fenced s meetingId stop x).1.meetings = s.meetings ∨
      (fenced s meetingId stop x).1.meetings =
        Function.update s.meetings meetingId (x.run stop (s.meetings meetingId)).1 := by
  unfold fenced
  split_ifs
  · exact .inl rfl
  · exact .inr rfl

/-- A function between worlds that leaves the meetings and the time as they are. -/
def Passes (f : AudioWorld → AudioWorld) : Prop :=
  ∀ s, (f s).meetings = s.meetings ∧ (f s).now = s.now

theorem passes_id : Passes id := fun _ => ⟨rfl, rfl⟩

theorem passes_finish (callId : CallId) : Passes (·.finish callId) :=
  fun _ => ⟨finish_meetings callId, finish_now callId⟩

theorem passes_setPhase (callId : CallId) (phase : Phase) : Passes (·.setPhase callId phase) :=
  fun _ => ⟨rfl, rfl⟩

/-- A section of a call, which goes on with what it returns. -/
theorem objectsStep_fenced {α : Type} {x : Fenced α} {meetingId : MeetingId} {stop : Option ℕ}
    {next : AudioWorld → α → AudioWorld × Option Answer} (htouched : touched s e = some meetingId)
    (hx : Wp (Written H (writerOf s e) (s.meetings meetingId)) x
      (fun _ t => Written H (writerOf s e) (s.meetings meetingId) t) (s.meetings meetingId)) (hleave : Passes leave)
    (hnext : ∀ a, Passes fun s => (next s a).1) :
    ObjectsStep H e s (continueWith (fenced s meetingId stop x) leave next).1 := by
  have hmeetings := continueWith_field AudioWorld.meetings (r := fenced s meetingId stop x)
    (fun s => (hleave s).1) fun s a => (hnext a s).1
  have hnow : (continueWith (fenced s meetingId stop x) leave next).1.now = s.now :=
    (continueWith_field AudioWorld.now (fun s => (hleave s).2) fun s a => (hnext a s).2).trans
      (fenced_now s meetingId stop x)
  rcases fenced_meetings s meetingId stop x with h | h
  · exact objectsStep_same (hmeetings.trans h) hnow.ge
  · exact objectsStep_update htouched (hmeetings.trans h) hnow
      (.written (hx.crash (visits_run x stop _)))

theorem objectsStep_section {α : Type} {x : Fenced α} {meetingId : MeetingId} {userId : UserId} {stop : Option ℕ}
    {next : AudioWorld → α → AudioWorld × Option Answer} (htouched : touched s e = some meetingId)
    (hx : Wp (Written H (writerOf s e) (s.meetings meetingId)) x
      (fun _ t => Written H (writerOf s e) (s.meetings meetingId) t) (s.meetings meetingId)) (hleave : Passes leave)
    (hnext : ∀ a, Passes fun s => (next s a).1) :
    ObjectsStep H e s (continueWith (userSection s userId meetingId stop x) leave next).1 := by
  unfold userSection
  split_ifs
  · exact objectsStep_same (hleave s).1 (hleave s).2.ge
  · exact objectsStep_fenced htouched hx hleave hnext

/-- The objects after a step of a call that runs a section. -/
theorem meetings_section {α : Type} {x : Fenced α} {meetingId : MeetingId} {userId : UserId} {stop : Option ℕ}
    {next : AudioWorld → α → AudioWorld × Option Answer} (hleave : Passes leave)
    (hnext : ∀ a, Passes fun s => (next s a).1) :
    (continueWith (userSection s userId meetingId stop x) leave next).1.meetings = s.meetings ∨
      ∃ o, Visits x (s.meetings meetingId) o ∧
        (continueWith (userSection s userId meetingId stop x) leave next).1.meetings =
          Function.update s.meetings meetingId o := by
  rw [continueWith_field AudioWorld.meetings (fun s => (hleave s).1) fun s a => (hnext a s).1]
  unfold userSection
  split_ifs
  · exact .inl rfl
  · rcases fenced_meetings s meetingId stop x with h | h
    · exact .inl h
    · exact .inr ⟨_, visits_run x stop _, h⟩

theorem sweepNext_meetings (callId : CallId) (input : PartInput) (usage : UploadUsage)
    (meetingIds : List MeetingId) :
    (stepSweepNext policy s callId input usage meetingIds).meetings = s.meetings := by
  unfold stepSweepNext
  cases meetingIds with
  | nil => rfl
  | cons meetingId meetingIds =>
    dsimp only
    split
    · split_ifs <;> rfl
    · rfl

theorem sweepNext_now (callId : CallId) (input : PartInput) (usage : UploadUsage)
    (meetingIds : List MeetingId) :
    (stepSweepNext policy s callId input usage meetingIds).now = s.now := by
  unfold stepSweepNext
  cases meetingIds with
  | nil => rfl
  | cons meetingId meetingIds =>
    dsimp only
    split
    · split_ifs <;> rfl
    · rfl

theorem world_of_some {r : AudioWorld × Option Answer} {answer : Option Answer}
    (h : some r = some (t, answer)) : t = r.1 := by
  rw [Option.some.inj h]

/-- **What a step does to the objects of the meetings.** -/
theorem step_objects {e : AudioEvent × Option Answer} (hstep : AudioStep H policy s e t) :
    ObjectsStep H e.1 s t := by
  obtain ⟨event, answer⟩ := e
  obtain ⟨hadmissible, hstep⟩ := hstep
  dsimp only at hadmissible hstep ⊢
  cases event with
  | tick elapsedMs =>
    cases hstep
    exact objectsStep_same rfl (Nat.le_add_right _ _)
  | deleteMeeting | deleteUser =>
    cases hstep
    exact objectsStep_same rfl le_rfl
  | removeMeeting id =>
    simp only [step] at hstep
    split_ifs at hstep with hdeleted
    cases hstep
    exact objectsStep_update rfl rfl rfl (.removed rfl hdeleted)
  | saveChunk input stop =>
    simp only [step] at hstep
    split_ifs at hstep
    rw [world_of_some hstep]
    exact objectsStep_section rfl (written_saveChunk hadmissible) passes_id fun _ => passes_id
  | sealAudio input stop =>
    simp only [step] at hstep
    split_ifs at hstep
    rw [world_of_some hstep]
    unfold stepSealAudio
    split_ifs
    · exact objectsStep_same rfl le_rfl
    · exact objectsStep_fenced rfl written_seal passes_id fun _ => passes_id
  | readStatus callId input stop =>
    simp only [step] at hstep
    split_ifs at hstep
    rw [world_of_some hstep]
    refine objectsStep_fenced rfl written_readStatus passes_id fun status s => ?_
    dsimp only
    split <;> exact ⟨rfl, rfl⟩
  | beginPart callId input meetingIds =>
    simp only [step] at hstep
    split_ifs at hstep
    rw [world_of_some hstep]
    unfold stepBeginPart
    split_ifs <;> exact objectsStep_same rfl le_rfl
  | sweepNext callId =>
    simp only [step] at hstep
    split at hstep
    · rw [world_of_some hstep]
      exact objectsStep_same (sweepNext_meetings _ _ _ _) (sweepNext_now _ _ _ _).ge
    · cases hstep
  | sweepLease callId stop =>
    simp only [step] at hstep
    split at hstep
    · rename_i hphase
      rw [world_of_some hstep]
      refine objectsStep_fenced (by simp only [touched, hphase]) written_sweepLease
        (passes_finish _) fun swept s => ?_
      cases swept <;> exact ⟨rfl, rfl⟩
    · cases hstep
  | reserve callId stop =>
    simp only [step] at hstep
    split at hstep
    · rename_i hphase
      rw [world_of_some hstep]
      exact objectsStep_fenced (by simp only [touched, hphase]) written_reservePart
        (passes_finish _) fun _ _ => ⟨rfl, rfl⟩
    · cases hstep
  | stage callId =>
    simp only [step] at hstep
    split at hstep
    · split_ifs at hstep
      rw [world_of_some hstep]
      unfold stepStage
      split <;> exact objectsStep_same rfl le_rfl
    · cases hstep
  | putPart callId =>
    simp only [step] at hstep
    split at hstep
    · rename_i input manifest hphase
      rw [world_of_some hstep]
      exact objectsStep_update (by simp only [touched, hphase]) rfl rfl (.part rfl hphase)
    · cases hstep
  | putPartManifest callId =>
    simp only [step] at hstep
    split at hstep
    · rename_i input manifest hphase
      rw [world_of_some hstep]
      exact objectsStep_update (by simp only [touched, hphase]) rfl rfl (.partManifest rfl hphase)
    · cases hstep
  | publishPart callId stop =>
    simp only [step] at hstep
    split at hstep
    · rename_i hphase
      split_ifs at hstep
      rw [world_of_some hstep]
      exact objectsStep_section (by simp only [touched, hphase]) written_publishPart
        (passes_setPhase _ _) fun _ => passes_setPhase _ _
    · cases hstep
  | beginCommit callId input stop =>
    simp only [step] at hstep
    split_ifs at hstep
    rw [world_of_some hstep]
    refine objectsStep_section rfl written_preflightCommit passes_id fun receipt s => ?_
    cases receipt <;> exact ⟨rfl, rfl⟩
  | assemble callId durationMs =>
    simp only [step] at hstep
    split at hstep
    · split_ifs at hstep
      rw [world_of_some hstep]
      unfold stepAssemble
      split <;> exact objectsStep_same rfl le_rfl
    · cases hstep
  | answerReceipt callId stop =>
    simp only [step] at hstep
    split at hstep
    · rename_i hphase
      split_ifs at hstep
      rw [world_of_some hstep]
      exact objectsStep_section (by simp only [touched, hphase]) (by simpa only [writerOf, hphase] using written_answerReceipt)
        (passes_setPhase _ _) fun _ => passes_setPhase _ _
    · cases hstep
  | intend callId =>
    simp only [step] at hstep
    split at hstep
    · rename_i hphase
      split_ifs at hstep
      rw [world_of_some hstep]
      exact objectsStep_section (by simp only [touched, hphase])
        (wp_pure.mpr ⟨.refl, .refl⟩) (passes_setPhase _ _) fun _ => passes_setPhase _ _
    · cases hstep
  | putRecording callId =>
    simp only [step] at hstep
    split at hstep
    · rename_i input prepared hphase
      rw [world_of_some hstep]
      exact objectsStep_update (by simp only [touched, hphase]) rfl rfl (.recording rfl hphase)
    · cases hstep
  | publishCommit callId stop =>
    simp only [step] at hstep
    split at hstep
    · rename_i hphase
      split_ifs at hstep
      rw [world_of_some hstep]
      exact objectsStep_section (by simp only [touched, hphase]) written_publishCommit
        (passes_setPhase _ _) fun _ => passes_setPhase _ _
    · cases hstep
  | putReceipt callId =>
    simp only [step] at hstep
    split at hstep
    · rename_i input receipt hphase
      rw [world_of_some hstep]
      exact objectsStep_update (by simp only [touched, hphase]) rfl rfl (.receipt rfl hphase)
    · cases hstep
  | recheck callId stop =>
    simp only [step] at hstep
    split at hstep
    · rename_i hphase
      split_ifs at hstep
      rw [world_of_some hstep]
      exact objectsStep_section (by simp only [touched, hphase]) written_recheckCommit
        (passes_setPhase _ _) fun _ => passes_setPhase _ _
    · cases hstep
  | list callId listed =>
    simp only [step] at hstep
    split at hstep
    · rw [world_of_some hstep]
      exact objectsStep_same rfl le_rfl
    · cases hstep
  | remove callId key =>
    simp only [step] at hstep
    split at hstep
    · rename_i deletion hdeletion
      split_ifs at hstep with hlisted
      rw [world_of_some hstep]
      exact objectsStep_update (by simp only [touched, hdeletion, Option.map_some]) rfl rfl
        (.unstaged rfl hdeletion hlisted)
    · cases hstep
  | endDeletion callId =>
    simp only [step, stepEndDeletion] at hstep
    split at hstep
    · rw [world_of_some hstep]
      exact objectsStep_same rfl le_rfl
    · rw [world_of_some hstep]
      exact objectsStep_same rfl le_rfl
    · cases hstep
  | crash callId =>
    rw [world_of_some hstep]
    exact objectsStep_same (finish_meetings callId) (finish_now callId).ge

/-- The objects of any meeting after a step. -/
theorem step_meeting {e : AudioEvent × Option Answer} (hstep : AudioStep H policy s e t)
    (meetingId : MeetingId) : ObjectsChange H e.1 s meetingId (t.meetings meetingId) := by
  by_cases h : touched s e.1 = some meetingId
  · exact (step_objects hstep).touched h
  · rw [(step_objects hstep).others h]
    exact .written .refl

theorem removeStaged_manifest (uploadId : UploadId) (key : StagingKey) (o : MeetingObjects) :
    (removeStaged uploadId key o).manifest = o.manifest := by
  cases key <;> rfl

theorem removeStaged_uploadParts (uploadId uploadId' : UploadId) (key : StagingKey) (index : ℕ)
    (o : MeetingObjects) : (removeStaged uploadId key o).uploadParts uploadId' index =
      if uploadId' = uploadId ∧ key = .part index then none else o.uploadParts uploadId' index := by
  cases key with
  | manifest => rw [if_neg fun h => by cases h.2]; rfl
  | part removed =>
    unfold removeStaged
    dsimp only
    by_cases hid : uploadId' = uploadId
    · subst hid
      rw [Function.update_self]
      by_cases hindex : index = removed
      · subst hindex
        rw [Function.update_self, if_pos ⟨rfl, rfl⟩]
      · rw [Function.update_of_ne hindex, if_neg]
        rintro ⟨-, h⟩
        cases h
        exact hindex rfl
    · rw [Function.update_of_ne hid, if_neg fun h => hid h.1]

theorem removeStaged_chunks (uploadId : UploadId) (key : StagingKey) (o : MeetingObjects) :
    (removeStaged uploadId key o).chunks = o.chunks := by
  cases key <;> rfl

end OwnMinutes.Audio.Changes
