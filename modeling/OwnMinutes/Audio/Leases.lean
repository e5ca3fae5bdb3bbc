import OwnMinutes.Audio.Replays

/-! # Leases that are left behind

A meeting with a stale lease takes no other upload: the first phase of a part does not sweep for an upload
other than the leased one, and the fence after it refuses the part; the status of another upload is refused
before the lease is looked at. -/

namespace OwnMinutes.Audio.Leases

open OwnMinutes.Auth.ProcessingRoute OwnMinutes.Auth.Records OwnMinutes.Lib.Crash OwnMinutes.Lib.Runs
open OwnMinutes.Audio.Records OwnMinutes.Audio.Store OwnMinutes.Audio.Runs OwnMinutes.Audio.Sections
open OwnMinutes.Audio.Changes OwnMinutes.Audio.Replays

variable {H : Hashing} {policy : RecordingUploadResourcePolicy} {s t : AudioWorld}

variable {meetingId : MeetingId}

/-- The lease of a meeting, with the user it is for. -/
theorem leaseOf_eq_some {userId : UserId} {lease : RecordingUploadLease} :
    leaseOf s userId meetingId = some lease ↔
      ∃ m, (s.meetings meetingId).manifest.map normalizeManifest = some m ∧
        m.ownerUserId = some userId ∧ m.recordingUpload = some lease := by
  unfold leaseOf
  rw [Option.bind_eq_some_iff]
  constructor
  · rintro ⟨m, hm, hlease⟩
    obtain ⟨hm, howner⟩ := Option.filter_eq_some_iff.mp hm
    exact ⟨m, hm, eq_of_beq howner, hlease⟩
  · rintro ⟨m, hm, howner, hlease⟩
    exact ⟨m, Option.filter_eq_some_iff.mpr ⟨hm, beq_iff_eq.mpr howner⟩, hlease⟩

theorem returns_readManifest {now : Timestamp} {o o' : MeetingObjects} {m : AudioManifest} :
    Returns (readManifest meetingId now) o m o' ↔ m = currentManifest meetingId now o ∧ o' = o := by
  unfold readManifest
  rw [returns_bind]
  simp only [returns_read, returns_pure]
  constructor
  · rintro ⟨_, _, ⟨rfl, rfl⟩, rfl, rfl⟩
    exact ⟨rfl, rfl⟩
  · rintro ⟨rfl, rfl⟩
    exact ⟨_, _, ⟨rfl, rfl⟩, rfl, rfl⟩

section Blocked

variable {o : MeetingObjects} {m : AudioManifest} {lease : RecordingUploadLease} {now : Timestamp}

theorem leasedToOther_of_ne {uploadId : UploadId} (hlease : m.recordingUpload = some lease)
    (hother : lease.uploadId ≠ uploadId) : leasedToOther m uploadId = true := by
  unfold leasedToOther
  rw [hlease, Option.any_some]
  exact bne_iff_ne.mpr hother

theorem ownedBy_of_some {userId : UserId} (h : m.ownerUserId = some userId) : ownedBy m userId = true := by
  unfold ownedBy
  rw [h, Option.all_some, beq_self_eq_true]

theorem currentManifest_of_some (h : o.manifest.map normalizeManifest = some m) :
    currentManifest meetingId now o = m := by
  unfold currentManifest
  rw [h, Option.getD_some]

/-- The fence of the first phase refuses a part of another upload. -/
theorem reservePart_blocked {usage : Option UploadUsage} {input : PartInput}
    (hm : o.manifest.map normalizeManifest = some m) (howner : m.ownerUserId = some input.ownerUserId)
    (hlease : m.recordingUpload = some lease) (hother : lease.uploadId ≠ input.metadata.uploadId) :
    Fails (reservePartUnsafe policy now usage input) o uploadAlreadyActive o := by
  have hblocked := leasedToOther_of_ne hlease hother
  unfold reservePartUnsafe
  refine fails_bind.mpr (.inr ⟨m, o, ?_, ?_⟩)
  · exact returns_readManifest.mpr ⟨(currentManifest_of_some hm).symm, rfl⟩
  refine fails_bind.mpr (.inr ⟨(), o, returns_require.mpr ⟨ownedBy_of_some howner, rfl⟩, ?_⟩)
  refine fails_bind.mpr (.inl (fails_require.mpr ⟨?_, rfl, rfl⟩))
  rw [hblocked]
  exact Bool.false_ne_true

/-- So does the status of another upload that is staged. -/
theorem readStatus_blocked {input : UploadInput} {upload : RecordingUploadManifest}
    (hm : o.manifest.map normalizeManifest = some m) (howner : m.ownerUserId = some input.ownerUserId)
    (hlease : m.recordingUpload = some lease) (hother : lease.uploadId ≠ input.uploadId)
    (hreceipt : o.uploadReceipts input.uploadId = none)
    (hupload : o.uploadManifests input.uploadId = some upload)
    (huploader : upload.ownerUserId = input.ownerUserId) :
    Fails (readMeetingRecordingUploadStatusUnsafe H policy now input) o uploadAlreadyActiveStatus o := by
  have hblocked := leasedToOther_of_ne hlease hother
  have hstate : readRecordingUploadState o input.uploadId = ⟨some upload, none⟩ := by
    rw [readState_of_no_receipt hreceipt, hupload]
  unfold readMeetingRecordingUploadStatusUnsafe
  refine fails_bind.mpr (.inr ⟨some m, o, ?_, ?_⟩)
  · unfold readExistingManifest
    exact returns_bind.mpr ⟨o, o, returns_read.mpr ⟨rfl, rfl⟩, returns_pure.mpr ⟨hm, rfl⟩⟩
  refine fails_bind.mpr (.inr ⟨(), o, returns_require.mpr ⟨ownedBy_of_some howner, rfl⟩, ?_⟩)
  refine fails_bind.mpr (.inr ⟨o, o, returns_read.mpr ⟨rfl, rfl⟩, ?_⟩)
  rw [hstate]
  refine fails_bind.mpr (.inr ⟨(), o, returns_require.mpr ⟨?_, rfl⟩, ?_⟩)
  · exact beq_iff_eq.mpr huploader
  · refine fails_bind.mpr (.inl (fails_require.mpr ⟨?_, rfl, rfl⟩))
    rw [hblocked]
    exact Bool.false_ne_true

end Blocked

/-! ### Calls on a meeting with a stale lease -/

/-- The meeting is leased to an upload that nobody has continued for too long. -/
structure StaleLease (policy : RecordingUploadResourcePolicy) (s : AudioWorld) (userId : UserId)
    (meetingId : MeetingId) (lease : RecordingUploadLease) : Prop where
  leased : leaseOf s userId meetingId = some lease
  stale : isRecordingUploadStale policy s.now lease.updatedAt = true

theorem fenced_of_fails {α : Type} {x : Fenced α} {e : AudioError} (hmeeting : s.deletedMeetings meetingId = false)
    (h : Fails x (s.meetings meetingId) e (s.meetings meetingId)) :
    (fenced s meetingId none x).2 = some (.error e) := by
  unfold fenced
  rw [hmeeting, run_of_fails h]
  rfl

theorem continueWith_error {α : Type} {r : AudioWorld × Option (Except AudioError α)} {e : AudioError}
    {leave : AudioWorld → AudioWorld} {next : AudioWorld → α → AudioWorld × Option Answer}
    (h : r.2 = some (.error e)) : continueWith r leave next = (leave r.1, some (.error e)) := by
  unfold continueWith
  rw [h]

/-- The first look finds a lease and takes no stock of the others. -/
theorem beginPart_of_other {callId : CallId} {input : PartInput} {meetingIds : List MeetingId}
    {answer : Option Answer} {lease : RecordingUploadLease}
    (hlease : leaseOf s input.ownerUserId input.meetingId = some lease)
    (hother : lease.uploadId ≠ input.metadata.uploadId) (huser : s.deletedUsers input.ownerUserId = false)
    (hstep : AudioStep H policy s (.beginPart callId input meetingIds, answer) t) :
    t = (s.lockUser input.ownerUserId callId).setPhase callId (.reserving input none) := by
  have hstep := hstep.2
  simp only [step] at hstep
  split_ifs at hstep
  have hbudget : needsNewLeaseBudget policy s.now input (s.meetings input.meetingId) = false := by
    have hobserved : (((s.meetings input.meetingId).manifest.map normalizeManifest).filter fun manifest =>
        manifest.ownerUserId == some input.ownerUserId).bind (·.recordingUpload) = some lease := hlease
    unfold needsNewLeaseBudget
    rw [hobserved]
    dsimp only
    rw [beq_eq_false_iff_ne.mpr hother, Bool.false_and]
  unfold stepBeginPart at hstep
  rw [huser, hbudget] at hstep
  cases hstep
  rfl

/-- A step of others, which leaves the meeting and the call as they are. -/
def Waits (H : Hashing) (policy : RecordingUploadResourcePolicy) (callId : CallId)
    (meetingId : MeetingId) (s : AudioWorld) (e : AudioEvent × Option Answer) (t : AudioWorld) : Prop :=
  AudioStep H policy s e t ∧ t.calls callId = s.calls callId ∧
    t.meetings meetingId = s.meetings meetingId

theorem waits_run {callId : CallId} {es : List (AudioEvent × Option Answer)}
    (hrun : Run (Waits H policy callId meetingId) s es t) :
    t.calls callId = s.calls callId ∧ t.meetings meetingId = s.meetings meetingId := by
  induction hrun with
  | nil => exact ⟨rfl, rfl⟩
  | cons hstep _ ih => exact ⟨ih.1.trans hstep.2.1, ih.2.trans hstep.2.2⟩

theorem reserve_blocked {callId : CallId} {input : PartInput} {usage : Option UploadUsage}
    {lease : RecordingUploadLease} (hphase : s.calls callId = .reserving input usage)
    (hlease : leaseOf s input.ownerUserId input.meetingId = some lease)
    (hother : lease.uploadId ≠ input.metadata.uploadId)
    (hmeeting : s.deletedMeetings input.meetingId = false) :
    ∃ t, AudioStep H policy s (.reserve callId none, some (.error uploadAlreadyActive)) t := by
  obtain ⟨m, hm, howner, hupload⟩ := leaseOf_eq_some.mp hlease
  have hfails : Fails (reservePartUnsafe policy s.now usage input) (s.meetings input.meetingId)
      uploadAlreadyActive (s.meetings input.meetingId) := reservePart_blocked hm howner hupload hother
  refine ⟨(stepReserve policy s callId input usage none).1, trivial, ?_⟩
  simp only [step, hphase]
  unfold stepReserve
  rw [continueWith_error (fenced_of_fails hmeeting hfails)]

/-- **An abandoned upload blocks its meeting**: whatever the state, while the lease of a meeting is a stale
one of another upload, a part of a new upload is refused when its call reaches the fence, and so is the
status of any other upload that is staged. -/
theorem stale_lease_blocks {userId : UserId} {meetingId : MeetingId} {lease : RecordingUploadLease}
    (hstale : StaleLease policy s userId meetingId lease) (huser : s.deletedUsers userId = false) :
    (∀ callId input meetingIds t answer es u, input.ownerUserId = userId →
      input.meetingId = meetingId → lease.uploadId ≠ input.metadata.uploadId →
      AudioStep H policy s (.beginPart callId input meetingIds, answer) t →
      Run (Waits H policy callId meetingId) t es u → u.deletedMeetings meetingId = false →
      ∃ v, AudioStep H policy u (.reserve callId none, some (.error uploadAlreadyActive)) v) ∧
    ∀ callId uploadId upload answer t, lease.uploadId ≠ uploadId →
      (s.meetings meetingId).uploadReceipts uploadId = none →
      (s.meetings meetingId).uploadManifests uploadId = some upload → upload.ownerUserId = userId →
      s.deletedMeetings meetingId = false →
      AudioStep H policy s (.readStatus callId ⟨meetingId, userId, uploadId⟩ none, answer) t →
      answer = some (.error uploadAlreadyActiveStatus) := by
  constructor
  · rintro callId input meetingIds t answer es u rfl rfl hother hbegin hrun hmeeting
    have ht := beginPart_of_other hstale.leased hother huser hbegin
    obtain ⟨hcall, hobjects⟩ := waits_run hrun
    have hphase : u.calls callId = .reserving input none := by
      rw [hcall, ht, AudioWorld.setPhase_calls, Function.update_self]
    have hleased : leaseOf u input.ownerUserId input.meetingId = some lease := by
      have hbefore := hstale.leased
      unfold leaseOf at hbefore ⊢
      rw [hobjects, ht]
      exact hbefore
    exact reserve_blocked hphase hleased hother hmeeting
  · rintro callId uploadId upload answer t hother hreceipt hupload huploader hmeeting hstep
    obtain ⟨m, hm, howner, hlease⟩ := leaseOf_eq_some.mp hstale.leased
    have hfails : Fails (readMeetingRecordingUploadStatusUnsafe H policy s.now
        ⟨meetingId, userId, uploadId⟩) (s.meetings meetingId) uploadAlreadyActiveStatus
        (s.meetings meetingId) := readStatus_blocked hm howner hlease hother hreceipt hupload huploader
    have hstep := hstep.2
    simp only [step] at hstep
    split_ifs at hstep
    unfold stepReadStatus at hstep
    rw [continueWith_error (fenced_of_fails hmeeting hfails)] at hstep
    cases hstep
    rfl

/-- The call of an upload ends before its part is stored; another begins three days later. -/
def abandonedUpload : List AudioEvent :=
  [.beginPart "first" (onePart "abandoned") [], .sweepNext "first", .reserve "first" none,
   .crash "first", .tick 259200000, .beginPart "second" (onePart "new") ["meeting"],
   .reserve "second" none]

/-- The lease is stale before the second call begins, and the call is refused. -/
theorem abandoned_upload_blocks : ∃ es t, es.map Prod.fst = abandonedUpload ∧
    Run (AudioStep textHashing {}) {} es t ∧
    (∃ lease, StaleLease {} t "user" "meeting" lease ∧ lease.uploadId = "abandoned") ∧
    es.getLast?.map Prod.snd = some (some (.error uploadAlreadyActive)) := by
  obtain ⟨es, t, hes, hrun, hend⟩ :=
    exists_run textHashing {} (fun _ _ _ => True) ["meeting"] 1 {} abandonedUpload
      (fun es t => (leaseOf t "user" "meeting").any (fun lease =>
          isRecordingUploadStale {} t.now lease.updatedAt && lease.uploadId == "abandoned") &&
        es.getLast?.map Prod.snd == some (some (.error uploadAlreadyActive)))
      (within_empty _ _) (by decide)
  rw [Bool.and_eq_true] at hend
  obtain ⟨lease, hlease, hstale⟩ := (Option.any_eq_true _ _).mp hend.1
  rw [Bool.and_eq_true] at hstale
  exact ⟨es, t, hes, hrun.mono fun _ _ _ h => h.1,
    ⟨lease, ⟨hlease, hstale.1⟩, eq_of_beq hstale.2⟩, eq_of_beq hend.2⟩

def leasedObjects : MeetingObjects where
  manifest := some
    { meetingId := "meeting"
      ownerUserId := some "user"
      recordingUpload := some
        { stagedBytes := 0, totalBytes := 1, updatedAt := 0, uploadId := "abandoned" }
      updatedAt := 0 }

/-- A meeting with a stale lease. -/
def leasedMeeting : AudioWorld where
  meetings := (oneMeeting leasedObjects).meetings
  now := 259200000

theorem stale_lease_blocks_new : ∃ t v,
    AudioStep textHashing {} leasedMeeting (.beginPart "second" (onePart "new") ["meeting"], none) t ∧
    AudioStep textHashing {} t (.reserve "second" none, some (.error uploadAlreadyActive)) v := by
  have hwithin : Within ["meeting"] 1 (oneMeeting leasedObjects) := within_oneMeeting fun _ _ _ => rfl
  have hadmissible : Admissible textHashing leasedMeeting
      (.beginPart "second" (onePart "new") ["meeting"]) :=
    admissible_of_here (s := leasedMeeting) ⟨hwithin.others, hwithin.parts⟩ (by decide)
  obtain ⟨t, ht, hmeeting⟩ : ∃ t, step textHashing {} leasedMeeting
      (.beginPart "second" (onePart "new") ["meeting"]) = some (t, none) ∧
      t.deletedMeetings "meeting" = false := ⟨_, rfl, rfl⟩
  have hstep : AudioStep textHashing {} leasedMeeting
    (.beginPart "second" (onePart "new") ["meeting"], none) t := ⟨hadmissible, ht⟩
  have hstale : StaleLease {} leasedMeeting "user" "meeting"
    { stagedBytes := 0, totalBytes := 1, updatedAt := 0, uploadId := "abandoned" } := ⟨rfl, by decide⟩
  have hblocks := stale_lease_blocks (H := textHashing) hstale rfl
  obtain ⟨v, hv⟩ := hblocks.1 "second" (onePart "new") ["meeting"] t none [] t rfl rfl (by decide) hstep
    (Run.nil t) hmeeting
  exact ⟨t, v, hstep, hv⟩

end OwnMinutes.Audio.Leases
