import OwnMinutes.Audio.Leases

/-! # What a step does to leases

Only three sections write a lease, each for the user of its call: the first phase of a part, the publication
of a part, the status of an upload. Every other step keeps a lease or removes it. -/

namespace OwnMinutes.Audio.LeaseSteps

open OwnMinutes.Auth.ProcessingRoute OwnMinutes.Auth.Records OwnMinutes.Lib.Crash OwnMinutes.Lib.Runs
open OwnMinutes.Lib.Outcome OwnMinutes.Audio.Records OwnMinutes.Audio.Store OwnMinutes.Audio.Runs
open OwnMinutes.Audio.Sections OwnMinutes.Audio.Changes OwnMinutes.Audio.Leases

/-! ### The lease of a manifest -/

/-- The lease that a manifest holds for a user. -/
def leaseFor (userId : UserId) (m : AudioManifest) : Option RecordingUploadLease :=
  if m.ownerUserId = some userId then m.recordingUpload else none

/-- A lease has an owner. -/
def Owned (m : AudioManifest) : Prop := m.ownerUserId = none → m.recordingUpload = none

variable {H : Hashing} {policy : RecordingUploadResourcePolicy} {s t : AudioWorld} {userId : UserId}
  {m m' : AudioManifest} {o o' : MeetingObjects}

theorem leaseOf_eq (s : AudioWorld) (userId : UserId) (meetingId : MeetingId) :
    leaseOf s userId meetingId = leaseFor userId (listing (s.meetings meetingId)) := by
  unfold leaseOf leaseFor listing currentManifest
  cases (s.meetings meetingId).manifest with
  | none => rfl
  | some m =>
    rw [Option.map_some, Option.getD_some, Option.filter_some]
    by_cases h : (normalizeManifest m).ownerUserId = some userId
    · rw [if_pos h, if_pos (beq_iff_eq.mpr h), Option.bind_some]
    · rw [if_neg h, if_neg fun hbeq => h (beq_iff_eq.mp hbeq), Option.bind_none]

theorem lease_addChunk (H : Hashing) (now : Timestamp) (input : AudioChunkInput) (m : AudioManifest) :
    (addChunk H now input m).ownerUserId = m.ownerUserId ∧
      (addChunk H now input m).recordingUpload = m.recordingUpload := by
  unfold addChunk
  obtain ⟨share, hshare⟩ := revokeMeetingShare_eq now { m with
    chunks := pushChunk m.chunks (newChunk H now input)
    totalBytes := chunkBytes (pushChunk m.chunks (newChunk H now input))
    audioSeal := none
    reviewConfirmation := none }
  dsimp only
  have howner := congrArg AudioManifest.ownerUserId hshare
  have hlease := congrArg AudioManifest.recordingUpload hshare
  exact ⟨howner, hlease⟩

theorem lease_publishManifest (H : Hashing) (now : Timestamp) (input : UploadInput)
    (prepared : PreparedCommit) (existing : Option AudioChunk) (m : AudioManifest) :
    (publishManifest H now input prepared existing m).ownerUserId = some input.ownerUserId ∧
      (publishManifest H now input prepared existing m).recordingUpload =
        m.recordingUpload.filter (·.uploadId ≠ input.uploadId) := by
  unfold publishManifest
  obtain ⟨share, hshare⟩ := revokeMeetingShare_eq now { m with
    chunks := publishChunks H now prepared m.chunks existing
    ownerUserId := some input.ownerUserId
    totalBytes := chunkBytes (publishChunks H now prepared m.chunks existing)
    reviewConfirmation := none
    recordingUpload := m.recordingUpload.filter (·.uploadId ≠ input.uploadId) }
  dsimp only
  have howner := congrArg AudioManifest.ownerUserId hshare
  have hlease := congrArg AudioManifest.recordingUpload hshare
  exact ⟨howner, hlease⟩

theorem filter_or (lease : Option RecordingUploadLease) (p : RecordingUploadLease → Bool) :
    lease.filter p = none ∨ lease.filter p = lease := by
  cases lease with
  | none => exact .inl rfl
  | some lease =>
    rw [Option.filter_some]
    split_ifs
    · exact .inr rfl
    · exact .inl rfl

/-- The owner of a manifest that a user may write. -/
theorem owner_of_ownedBy (h : ownedBy m userId = true) :
    m.ownerUserId = none ∨ some userId = m.ownerUserId := by
  unfold ownedBy at h
  cases howner : m.ownerUserId with
  | none => exact .inl rfl
  | some owner =>
    rw [howner, Option.all_some, beq_iff_eq] at h
    exact .inr (congrArg some h.symm)

/-! ### Writes that write no lease -/

/-- The leases of a meeting are kept or removed. -/
structure LeaseKept (o o' : MeetingObjects) : Prop where
  owned : Owned (listing o')
  leases : ∀ userId, leaseFor userId (listing o') = none ∨
    leaseFor userId (listing o') = leaseFor userId (listing o)

theorem LeaseKept.refl (h : Owned (listing o)) : LeaseKept o o := ⟨h, fun _ => .inr rfl⟩

theorem LeaseKept.trans {o'' : MeetingObjects} (h : LeaseKept o o') (h' : LeaseKept o' o'') :
    LeaseKept o o'' := by
  refine ⟨h'.owned, fun userId => ?_⟩
  rcases h'.leases userId with hnone | heq
  · exact .inl hnone
  · rw [heq]
    exact h.leases userId

/-- What is stored holds no other lease than what was read, for the same owner if there was one. -/
theorem leaseKept_of_fields (ho : Owned (listing o))
    (hlease : m.recordingUpload = none ∨ m.recordingUpload = (listing o).recordingUpload)
    (howner : (listing o).ownerUserId = none ∨ m.ownerUserId = (listing o).ownerUserId) :
    LeaseKept o (o.putManifest m) := by
  have hnormal := keeps_normalize m
  have hstored : (normalizeManifest m).recordingUpload = none ∨
      (normalizeManifest m).recordingUpload = (listing o).recordingUpload := by
    rcases hnormal.lease with hnone | heq
    · exact .inl hnone
    · rw [heq]
      exact hlease
  have howner' : (normalizeManifest m).ownerUserId = m.ownerUserId := rfl
  constructor
  · intro hnone
    rw [listing_putManifest] at hnone ⊢
    rcases hstored with hstored | hstored
    · exact hstored
    · rw [hstored]
      rcases howner with hnot | hsame
      · exact ho hnot
      · exact ho (hsame ▸ howner' ▸ hnone)
  · intro userId
    rw [listing_putManifest]
    unfold leaseFor
    rcases hstored with hstored | hstored
    · rw [hstored, ite_self]
      exact .inl rfl
    · rw [hstored, howner']
      rcases howner with hnot | hsame
      · rw [ho hnot, ite_self]
        exact .inl rfl
      · rw [hsame]
        exact .inr rfl

theorem leaseKept_write {w : Writer} (h : AudioWrite H o w o') (hw : w ≠ .leases)
    (ho : Owned (listing o)) : LeaseKept o o' := by
  cases h with
  | keep hm => exact leaseKept_of_fields ho hm.lease hm.owner
  | lease => exact absurd rfl hw
  | rewrite | putNew => exact ⟨ho, fun _ => .inr rfl⟩
  | @add now input m hpos hfind hput hm =>
    obtain ⟨howner, hlease⟩ := lease_addChunk H now input m
    refine leaseKept_of_fields ho ?_ ?_
    · rw [hlease]
      exact hm.lease
    · rw [howner]
      exact hm.owner
  | @«sealed» now last total m m' hlast hm hcomplete hback htotal =>
    obtain ⟨chunks, -, hm'⟩ := bind_eq_ok.mp hback
    cases hm'
    exact leaseKept_of_fields ho hm.lease hm.owner
  | @publish now input prepared m hm hown hsha =>
    obtain ⟨howner, hlease⟩ := lease_publishManifest H now input prepared (findChunk m 1) m
    refine leaseKept_of_fields ho ?_ ?_
    · rw [hlease]
      rcases filter_or m.recordingUpload (·.uploadId ≠ input.uploadId) with hnone | heq
      · exact .inl hnone
      · rw [heq]
        exact hm.lease
    · rw [howner]
      rcases hm.owner with hnone | heq
      · exact .inl hnone
      · rcases owner_of_ownedBy hown with hnone | hsame
        · exact .inl (heq ▸ hnone)
        · exact .inr (hsame.trans heq)

theorem leaseKept_written {w : Writer} (h : Written H w o o') (hw : w ≠ .leases)
    (ho : Owned (listing o)) : LeaseKept o o' := by
  induction h with
  | refl => exact .refl ho
  | tail _ hwrite ih => exact ih.trans (leaseKept_write hwrite hw ih.owned)

/-! ### Sections that write a lease -/

/-- A lease with `P` is written for a user, or none is. -/
def LeaseFrom (userId : UserId) (P : RecordingUploadLease → Prop) (o o' : MeetingObjects) : Prop :=
  LeaseKept o o' ∨ (listing o').ownerUserId = some userId ∧
    ∃ lease, (listing o').recordingUpload = some lease ∧ P lease

variable {P : RecordingUploadLease → Prop} {lease : RecordingUploadLease}

theorem LeaseFrom.owned (h : LeaseFrom userId P o o') : Owned (listing o') := by
  rcases h with hkept | ⟨howner, -⟩
  · exact hkept.owned
  · intro hnone
    rw [howner] at hnone
    cases hnone

theorem LeaseKept.from {o'' : MeetingObjects} (h : LeaseKept o o') (h' : LeaseFrom userId P o' o'') :
    LeaseFrom userId P o o'' := by
  rcases h' with hkept | hwritten
  · exact .inl (h.trans hkept)
  · exact .inr hwritten

theorem leaseFrom_put (howner : m.ownerUserId = some userId) (hlease : m.recordingUpload = some lease)
    (hP : P lease) : LeaseFrom userId P o (o.putManifest m) := by
  have hstored : (normalizeManifest m).recordingUpload = none ∨
      (normalizeManifest m).recordingUpload = some lease := by
    rw [← hlease]
    exact (keeps_normalize m).lease
  rcases hstored with hnone | hsome
  · refine .inl ⟨fun _ => hnone, fun user => .inl ?_⟩
    rw [listing_putManifest]
    unfold leaseFor
    rw [hnone, ite_self]
  · exact .inr ⟨howner, lease, hsome, hP⟩

/-- The fields that a section reads of the manifest. -/
theorem currentManifest_fields (meetingId : MeetingId) (now : Timestamp) (o : MeetingObjects) :
    (currentManifest meetingId now o).ownerUserId = (listing o).ownerUserId ∧
      (currentManifest meetingId now o).recordingUpload = (listing o).recordingUpload := by
  unfold listing currentManifest
  cases o.manifest with
  | none | some m => exact ⟨rfl, rfl⟩

theorem LeaseFrom.refl (ho : Owned (listing o)) : LeaseFrom userId P o o := .inl (.refl ho)

/-- The lease of a first phase, written where there was none. -/
structure NewLease (policy : RecordingUploadResourcePolicy) (usage : Option UploadUsage)
    (input : PartInput) (o : MeetingObjects) (lease : RecordingUploadLease) : Prop where
  uploadId : lease.uploadId = input.metadata.uploadId
  totalBytes : lease.totalBytes = input.metadata.totalBytes
  owner : ownedBy (listing o) input.ownerUserId = true
  unleased : (listing o).recordingUpload = none
  budget : assertRecordingUploadBudget policy usage input = .ok ()

theorem leaseFrom_reserve {now : Timestamp} {usage : Option UploadUsage} {input : PartInput}
    (ho : Owned (listing o)) :
    Wp (LeaseFrom input.ownerUserId (NewLease policy usage input o) o)
      (reservePartUnsafe policy now usage input) (fun _ _ => True) o := by
  have hsame := currentManifest_fields input.meetingId now o
  have hkept : LeaseFrom input.ownerUserId (NewLease policy usage input o) o o := .refl ho
  unfold reservePartUnsafe
  simp only [wp_bind, wp_readManifest, wp_require, wp_lift, wp_persistIf, wp_pure]
  refine ⟨hkept, hkept, fun howner => ⟨hkept, fun _ => ⟨hkept, fun _ hbudget => ⟨hkept, ?_⟩⟩⟩⟩
  split_ifs with hnone
  · have hwritten : LeaseFrom input.ownerUserId (NewLease policy usage input o) o
        (o.putManifest (withLease now input 0 (currentManifest input.meetingId now o))) := by
      refine leaseFrom_put rfl rfl ⟨rfl, rfl, ?_, ?_, hbudget⟩
      · unfold ownedBy at howner ⊢
        rwa [← hsame.1]
      · rw [← hsame.2]
        exact Option.isNone_iff_eq_none.mp hnone
    exact ⟨hwritten, hwritten, trivial⟩
  · exact ⟨hkept, trivial⟩

/-- The lease of a part that is stored. -/
structure PartLease (input : PartInput) (result : PartResult) (o : MeetingObjects)
    (lease : RecordingUploadLease) : Prop where
  totalBytes : lease.totalBytes = input.metadata.totalBytes
  uncommitted : result.committed = false
  owner : ownedBy (listing o) input.ownerUserId = true
  unleased : leasedToOther (listing o) input.metadata.uploadId = false

theorem leaseFrom_publishPart {now : Timestamp} {input : PartInput} {result : PartResult}
    (ho : Owned (listing o)) :
    Wp (LeaseFrom input.ownerUserId (PartLease input result o) o)
      (publishPartUnsafe now input result) (fun _ _ => True) o := by
  have hsame := currentManifest_fields input.meetingId now o
  have hkept : LeaseFrom input.ownerUserId (PartLease input result o) o o := .refl ho
  unfold publishPartUnsafe
  simp only [wp_bind, wp_readManifest, wp_require]
  refine ⟨hkept, hkept, fun howner => ⟨hkept, fun hother => ?_⟩⟩
  refine (written_claimOwner (H := ⟨fun _ => "", fun _ => ""⟩) (w := .others)).mono (fun t ht => ?_)
    fun _ t ht => ?_
  · exact .inl (leaseKept_written ht (by decide) ho)
  · have hclaimed : LeaseKept o t := leaseKept_written ht.1 (by decide) ho
    simp only [wp_bind, wp_persistIf, wp_pure]
    refine ⟨.inl hclaimed, ?_⟩
    split_ifs with hcommitted
    · have hwritten : LeaseFrom input.ownerUserId (PartLease input result o) o
          (t.putManifest (withLease now input result.stagedBytes
            (currentManifest input.meetingId now o))) := by
        refine hclaimed.from (leaseFrom_put rfl rfl ⟨rfl, ?_, ?_, ?_⟩)
        · rwa [Bool.not_eq_true'] at hcommitted
        · unfold ownedBy at howner ⊢
          rwa [← hsame.1]
        · unfold leasedToOther at hother ⊢
          rwa [Bool.not_eq_true', hsame.2] at hother
      exact ⟨hwritten, hwritten, trivial⟩
    · exact ⟨.inl hclaimed, trivial⟩

/-- An upload whose status writes the lease. -/
structure Continued (policy : RecordingUploadResourcePolicy) (now : Timestamp) (input : UploadInput)
    (o : MeetingObjects) (upload : RecordingUploadManifest) : Prop where
  stored : o.manifest.isSome
  receipt : o.uploadReceipts input.uploadId = none
  staged : o.uploadManifests input.uploadId = some upload
  owner : ownedBy (listing o) input.ownerUserId = true
  unleased : leasedToOther (listing o) input.uploadId = false
  live : isRecordingUploadStale policy now
    (((listing o).recordingUpload.map (·.updatedAt)).getD upload.updatedAt) = false

theorem leaseKept_withoutLease {now : Timestamp} (ho : Owned (listing o)) (hm : listing o = m) :
    LeaseKept o (o.putManifest (withoutLease now m)) := by
  refine leaseKept_of_fields ho (.inl rfl) (.inr ?_)
  rw [hm]
  rfl

theorem renewedLease_totalBytes {upload : RecordingUploadManifest} {uploadId : UploadId}
    {updatedAt : Timestamp} (h : renewedLease m upload uploadId updatedAt = some lease) :
    lease.totalBytes = upload.totalBytes := by
  unfold renewedLease at h
  dsimp only at h
  split_ifs at h
  cases h
  rfl

theorem leaseFrom_readStatus {now : Timestamp} {input : UploadInput} (ho : Owned (listing o))
    (howner : ∀ upload, Continued policy now input o upload →
      (listing o).ownerUserId = some input.ownerUserId) :
    Wp (LeaseFrom input.ownerUserId (fun lease => ∃ upload, Continued policy now input o upload ∧
        lease.totalBytes = upload.totalBytes) o)
      (readMeetingRecordingUploadStatusUnsafe H policy now input) (fun _ _ => True) o := by
  cases hreceipt : o.uploadReceipts input.uploadId with
  | some receipt =>
    refine written_readStatus.mono (fun t ht => ?_) fun _ _ _ => trivial
    rw [hreceipt] at ht
    exact .inl (leaseKept_written ht (fun h => by cases h) ho)
  | none =>
    have hstate := readState_of_no_receipt hreceipt
    have hkept : ∀ {P}, LeaseFrom input.ownerUserId P o o := .refl ho
    unfold readMeetingRecordingUploadStatusUnsafe
    simp only [wp_bind, wp_readExistingManifest, wp_require, wp_read]
    refine ⟨hkept, hkept, fun hown => ⟨hkept, hkept, fun _ => ?_⟩⟩
    cases hm : o.manifest.map normalizeManifest with
    | none => exact wp_pure.mpr ⟨hkept, trivial⟩
    | some m =>
      have hlisting : listing o = m := currentManifest_of_some hm
      have hrelease : LeaseKept o (o.putManifest (withoutLease now m)) := leaseKept_withoutLease ho hlisting
      rw [hm, Option.all_some] at hown
      dsimp only
      rw [hstate]
      unfold uploadStatusOf
      dsimp only
      cases hupload : o.uploadManifests input.uploadId with
      | none =>
        simp only [wp_bind, wp_persistIf, wp_pure]
        refine ⟨hkept, ?_⟩
        split_ifs
        · exact ⟨.inl hrelease, .inl hrelease, trivial⟩
        · exact ⟨hkept, trivial⟩
      | some upload =>
        simp only [wp_bind, wp_require]
        refine ⟨hkept, fun hother => ?_⟩
        split_ifs with hstale
        · simp only [wp_bind, wp_persistMeetingManifest, wp_pure]
          exact ⟨hkept, .inl hrelease, .inl hrelease, trivial⟩
        · split
          · exact wp_pure.mpr ⟨hkept, trivial⟩
          · rename_i lease hlease
            rw [Bool.not_eq_true'] at hother
            have hcontinued : Continued policy now input o upload := by
              refine ⟨?_, hreceipt, hupload, hlisting ▸ hown, hlisting ▸ hother, ?_⟩
              · rw [← Option.isSome_map, hm]
                rfl
              · rw [hlisting]
                exact Bool.not_eq_true _ ▸ hstale
            have hwritten := leaseFrom_put (o := o) (P := fun lease => ∃ upload,
                Continued policy now input o upload ∧ lease.totalBytes = upload.totalBytes)
              (m := { m with recordingUpload := some lease, updatedAt := now })
              (hlisting ▸ howner upload hcontinued) rfl
              ⟨upload, hcontinued, renewedLease_totalBytes hlease⟩
            simp only [wp_bind, wp_persistMeetingManifest, wp_pure]
            exact ⟨hkept, hwritten, hwritten, trivial⟩

/-! ### Leases after a step -/

/-- A lease that counts. -/
def liveLease (policy : RecordingUploadResourcePolicy) (s : AudioWorld) (userId : UserId)
    (meetingId : MeetingId) : Option RecordingUploadLease :=
  (leaseOf s userId meetingId).filter fun lease => !isRecordingUploadStale policy s.now lease.updatedAt

/-- The stored lease counts and is for so many bytes. -/
def Covers (policy : RecordingUploadResourcePolicy) (s : AudioWorld) (userId : UserId)
    (meetingId : MeetingId) (totalBytes : ℕ) : Prop :=
  ∃ lease, liveLease policy s userId meetingId = some lease ∧ totalBytes ≤ lease.totalBytes

/-- A lease is written after a look at the budget, or it renews one that counts and is as large. -/
def LeaseChecked (policy : RecordingUploadResourcePolicy) (s : AudioWorld) : AudioEvent → Prop
  | .reserve callId _ => ∀ input, s.calls callId = .reserving input none →
    s.deletedMeetings input.meetingId = false →
    ownedBy (listing (s.meetings input.meetingId)) input.ownerUserId = true →
    (listing (s.meetings input.meetingId)).recordingUpload ≠ none
  | .publishPart callId _ => ∀ input result, s.calls callId = .publishingPart input result →
    result.committed = false → s.deletedUsers input.ownerUserId = false →
    s.deletedMeetings input.meetingId = false →
    ownedBy (listing (s.meetings input.meetingId)) input.ownerUserId = true →
    leasedToOther (listing (s.meetings input.meetingId)) input.metadata.uploadId = false →
    Covers policy s input.ownerUserId input.meetingId input.metadata.totalBytes
  | .readStatus _ input _ => s.deletedMeetings input.meetingId = false →
    ∀ upload, Continued policy s.now input (s.meetings input.meetingId) upload →
      Covers policy s input.ownerUserId input.meetingId upload.totalBytes
  | _ => True

/-- What a step does to the leases of a user. -/
inductive LeaseEffect (policy : RecordingUploadResourcePolicy) (s : AudioWorld) (e : AudioEvent)
    (t : AudioWorld) (userId : UserId) : Prop
  | kept (h : ∀ meetingId, leaseOf t userId meetingId = none ∨
      leaseOf t userId meetingId = leaseOf s userId meetingId) : LeaseEffect policy s e t userId
  | reserved {callId : CallId} {input : PartInput} {usage : UploadUsage} {lease : RecordingUploadLease}
      (hphase : s.calls callId = .reserving input (some usage)) (howner : input.ownerUserId = userId)
      (hnew : NewLease policy (some usage) input (s.meetings input.meetingId) lease)
      (hlease : leaseOf t userId input.meetingId = some lease)
      (hothers : ∀ meetingId ≠ input.meetingId, leaseOf t userId meetingId = leaseOf s userId meetingId)
      (hdone : (t.calls callId).user? = none) : LeaseEffect policy s e t userId
  | renewed {meetingId : MeetingId} {lease : RecordingUploadLease} (hfree : s.userLocks userId = none)
      (hevent : ∀ callId input meetingIds, e ≠ .beginPart callId input meetingIds)
      (hlease : leaseOf t userId meetingId = some lease)
      (hcovers : Covers policy s userId meetingId lease.totalBytes)
      (hothers : ∀ other ≠ meetingId, leaseOf t userId other = leaseOf s userId other) :
      LeaseEffect policy s e t userId

/-- The leases of a world are owned. -/
def AllOwned (s : AudioWorld) : Prop := ∀ meetingId, Owned (listing (s.meetings meetingId))

/-- What a section does to the leases of the meetings. -/
structure LeaseStep (userId : UserId) (P : RecordingUploadLease → Prop) (meetingId : MeetingId)
    (s t : AudioWorld) : Prop where
  others : ∀ other ≠ meetingId, t.meetings other = s.meetings other
  leased : LeaseFrom userId P (s.meetings meetingId) (t.meetings meetingId)

section Steps

variable {meetingId : MeetingId} {α : Type} {x : Fenced α} {stop : Option ℕ}
  {leave : AudioWorld → AudioWorld} {next : AudioWorld → α → AudioWorld × Option Answer}

theorem leaseStep_same (ho : AllOwned s) (h : t.meetings = s.meetings) :
    LeaseStep userId P meetingId s t := by
  refine ⟨fun _ _ => by rw [h], ?_⟩
  rw [h]
  exact .refl (ho meetingId)

theorem leaseStep_fenced (ho : AllOwned s)
    (hx : s.deletedMeetings meetingId = false →
      Wp (LeaseFrom userId P (s.meetings meetingId)) x (fun _ _ => True) (s.meetings meetingId))
    (hleave : Passes leave) (hnext : ∀ a, Passes fun s => (next s a).1) :
    LeaseStep userId P meetingId s (continueWith (fenced s meetingId stop x) leave next).1 := by
  have hmeetings := continueWith_field AudioWorld.meetings (r := fenced s meetingId stop x)
    (fun s => (hleave s).1) fun s a => (hnext a s).1
  cases hdeleted : s.deletedMeetings meetingId with
  | true =>
    refine leaseStep_same ho (hmeetings.trans ?_)
    unfold fenced
    rw [hdeleted]
    rfl
  | false =>
    have hsection : (fenced s meetingId stop x).1 =
        s.setObjects meetingId (x.run stop (s.meetings meetingId)).1 := by
      unfold fenced
      rw [hdeleted]
      rfl
    rw [hsection] at hmeetings
    constructor
    · intro other hne
      rw [hmeetings, AudioWorld.setObjects_meetings, Function.update_of_ne hne]
    · rw [hmeetings, AudioWorld.setObjects_meetings, Function.update_self]
      exact (hx hdeleted).crash (visits_run x stop _)

theorem leaseStep_section {user : UserId} (ho : AllOwned s)
    (hx : s.deletedUsers user = false → s.deletedMeetings meetingId = false →
      Wp (LeaseFrom userId P (s.meetings meetingId)) x (fun _ _ => True) (s.meetings meetingId))
    (hleave : Passes leave) (hnext : ∀ a, Passes fun s => (next s a).1) :
    LeaseStep userId P meetingId s (continueWith (userSection s user meetingId stop x) leave next).1 := by
  cases hdeleted : s.deletedUsers user with
  | true =>
    refine leaseStep_same ho ?_
    rw [continueWith_field AudioWorld.meetings (fun s => (hleave s).1) fun s a => (hnext a s).1]
    unfold userSection
    rw [hdeleted]
    rfl
  | false =>
    have hsection : userSection s user meetingId stop x = fenced s meetingId stop x := by
      unfold userSection
      rw [hdeleted]
      rfl
    rw [hsection]
    exact leaseStep_fenced ho (hx hdeleted) hleave hnext

theorem LeaseStep.allOwned (h : LeaseStep userId P meetingId s t) (ho : AllOwned s) : AllOwned t := by
  intro other
  by_cases hid : other = meetingId
  · rw [hid]
    exact h.leased.owned
  · rw [h.others other hid]
    exact ho other

/-- The leases of other users are kept or removed, and so are those of the user, or one is written. -/
theorem LeaseStep.kept (h : LeaseStep userId P meetingId s t) (user : UserId) :
    (∀ other, leaseOf t user other = none ∨ leaseOf t user other = leaseOf s user other) ∨
      user = userId ∧ (∀ other ≠ meetingId, leaseOf t user other = leaseOf s user other) ∧
        ∃ lease, leaseOf t user meetingId = some lease ∧ P lease := by
  have hothers : ∀ other ≠ meetingId, leaseOf t user other = leaseOf s user other := by
    intro other hne
    unfold leaseOf
    rw [h.others other hne]
  have hkept : (leaseOf t user meetingId = none ∨ leaseOf t user meetingId = leaseOf s user meetingId) →
      ∀ other, leaseOf t user other = none ∨ leaseOf t user other = leaseOf s user other := by
    intro hself other
    by_cases hid : other = meetingId
    · rw [hid]
      exact hself
    · exact .inr (hothers other hid)
  rcases h.leased with hsame | ⟨howner, lease, hlease, hP⟩
  · refine .inl (hkept ?_)
    rw [leaseOf_eq, leaseOf_eq]
    exact hsame.leases user
  · by_cases huser : user = userId
    · refine .inr ⟨huser, hothers, lease, ?_, hP⟩
      rw [leaseOf_eq]
      unfold leaseFor
      rw [huser, if_pos howner, hlease]
    · refine .inl (hkept (.inl ?_))
      rw [leaseOf_eq]
      unfold leaseFor
      rw [howner, if_neg fun heq => huser (Option.some.inj heq).symm]

end Steps

theorem kept_of_change {e : AudioEvent} {meetingId : MeetingId} (hw : writerOf s e ≠ .leases)
    (h : ObjectsChange H e s meetingId o) (ho : Owned (listing (s.meetings meetingId))) :
    LeaseKept (s.meetings meetingId) o := by
  cases h with
  | written h => exact leaseKept_written h hw ho
  | part | partManifest | recording | receipt => exact ⟨ho, fun _ => .inr rfl⟩
  | @unstaged callId deletion key =>
    have hlisting := listing_of_manifest
      (removeStaged_manifest deletion.uploadId key (s.meetings meetingId))
    refine ⟨?_, fun _ => .inr ?_⟩
    · rw [hlisting]
      exact ho
    · rw [hlisting]
  | removed => exact ⟨fun _ => rfl, fun _ => .inl (ite_self _)⟩

theorem user?_reserve (callId : CallId) (input : PartInput) (usage : Option UploadUsage)
    (stop : Option ℕ) : ((stepReserve policy s callId input usage stop).1.calls callId).user? = none := by
  have hset : ∀ (u : AudioWorld) (phase : Phase), phase.user? = none →
      ((u.setPhase callId phase).calls callId).user? = none := by
    intro u phase hnone
    rw [AudioWorld.setPhase_calls, Function.update_self]
    exact hnone
  have hfinish : ∀ u : AudioWorld, ((u.finish callId).calls callId).user? = none := by
    intro u
    unfold AudioWorld.finish
    exact hset _ .idle rfl
  unfold stepReserve continueWith
  split
  · exact hfinish _
  · exact hfinish _
  · exact hset _ (.staging input) rfl

/-- **What a step does to leases**, where it writes none without a look at the budget. -/
theorem step_leases {e : AudioEvent × Option Answer} (hstep : AudioStep H policy s e t)
    (ho : AllOwned s) (hchecked : LeaseChecked policy s e.1) :
    AllOwned t ∧ ∀ userId, LeaseEffect policy s e.1 t userId := by
  by_cases hw : writerOf s e.1 = .leases
  · obtain ⟨event, answer⟩ := e
    have hadmissible := hstep.1
    have hstep := hstep.2
    dsimp only at hstep hw hchecked hadmissible ⊢
    cases event with
    | readStatus callId input stop =>
      simp only [step] at hstep
      split_ifs at hstep with hfree
      have hlease : LeaseStep input.ownerUserId (fun lease => ∃ upload,
          s.deletedMeetings input.meetingId = false ∧
          Continued policy s.now input (s.meetings input.meetingId) upload ∧
          lease.totalBytes = upload.totalBytes) input.meetingId s t := by
        rw [world_of_some hstep]
        refine leaseStep_fenced ho (fun hdeleted => ?_) passes_id fun status s => ?_
        · refine (leaseFrom_readStatus (ho input.meetingId) fun upload hcontinued => ?_).mono
            (fun o h => ?_) fun _ _ h => h
          · obtain ⟨lease, hlive, -⟩ := hchecked hdeleted upload hcontinued
            obtain ⟨hlive, -⟩ := Option.filter_eq_some_iff.mp hlive
            rw [leaseOf_eq] at hlive
            unfold leaseFor at hlive
            split_ifs at hlive with howner
            exact howner
          · rcases h with hkept | ⟨howner, lease, hlease, upload, hcontinued, hbytes⟩
            · exact .inl hkept
            · exact .inr ⟨howner, lease, hlease, upload, hdeleted, hcontinued, hbytes⟩
        · dsimp only
          split <;> exact ⟨rfl, rfl⟩
      refine ⟨hlease.allOwned ho, fun userId => ?_⟩
      rcases hlease.kept userId with hkept | ⟨rfl, hothers, lease, hsome, upload, hdeleted, hcont, hbytes⟩
      · exact .kept hkept
      · exact .renewed hfree.2 (fun _ _ _ h => by cases h) hsome
          (hbytes ▸ hchecked hdeleted upload hcont) hothers
    | reserve callId stop =>
      simp only [step] at hstep
      split at hstep
      · rename_i input usage hphase
        have hlease : LeaseStep input.ownerUserId (fun lease =>
            s.deletedMeetings input.meetingId = false ∧
            NewLease policy usage input (s.meetings input.meetingId) lease) input.meetingId s t := by
          rw [world_of_some hstep]
          refine leaseStep_fenced ho (fun hdeleted => ?_) (passes_finish _) fun _ _ => ⟨rfl, rfl⟩
          refine (leaseFrom_reserve (ho input.meetingId)).mono (fun o h => ?_) fun _ _ h => h
          rcases h with hkept | ⟨howner, lease, hlease, hnew⟩
          · exact .inl hkept
          · exact .inr ⟨howner, lease, hlease, hdeleted, hnew⟩
        refine ⟨hlease.allOwned ho, fun userId => ?_⟩
        rcases hlease.kept userId with hkept | ⟨rfl, hothers, lease, hsome, hdeleted, hnew⟩
        · exact .kept hkept
        · cases usage with
          | none => exact absurd hnew.unleased (hchecked input hphase hdeleted hnew.owner)
          | some usage =>
            refine .reserved hphase rfl hnew hsome hothers ?_
            rw [world_of_some hstep]
            exact user?_reserve callId input _ stop
      · cases hstep
    | publishPart callId stop =>
      simp only [step] at hstep
      split at hstep
      · rename_i input result hphase
        split_ifs at hstep with hfree
        have hlease : LeaseStep input.ownerUserId (fun lease =>
            s.deletedUsers input.ownerUserId = false ∧ s.deletedMeetings input.meetingId = false ∧
            PartLease input result (s.meetings input.meetingId) lease) input.meetingId s t := by
          rw [world_of_some hstep]
          refine leaseStep_section ho (fun huser hdeleted => ?_) (passes_setPhase _ _)
            fun _ => passes_setPhase _ _
          refine (leaseFrom_publishPart (ho input.meetingId)).mono (fun o h => ?_) fun _ _ h => h
          rcases h with hkept | ⟨howner, lease, hlease, hpart⟩
          · exact .inl hkept
          · exact .inr ⟨howner, lease, hlease, huser, hdeleted, hpart⟩
        refine ⟨hlease.allOwned ho, fun userId => ?_⟩
        rcases hlease.kept userId with hkept | ⟨rfl, hothers, lease, hsome, huser, hdeleted, hpart⟩
        · exact .kept hkept
        · have hcovers := hchecked input result hphase hpart.uncommitted huser hdeleted hpart.owner
            hpart.unleased
          exact .renewed hfree (fun _ _ _ h => by cases h) hsome (hpart.totalBytes ▸ hcovers) hothers
      · cases hstep
    | answerReceipt callId stop =>
      simp only [writerOf] at hw
      split at hw <;> cases hw
    | beginCommit callId input stop =>
      simp only [writerOf, receiptWriter] at hw
      split at hw <;> cases hw
    | _ => cases hw
  · have hkept : ∀ meetingId, LeaseKept (s.meetings meetingId) (t.meetings meetingId) :=
      fun meetingId => kept_of_change hw (step_meeting hstep meetingId) (ho meetingId)
    refine ⟨fun meetingId => (hkept meetingId).owned, fun userId => .kept fun meetingId => ?_⟩
    rw [leaseOf_eq, leaseOf_eq]
    exact (hkept meetingId).leases userId

end OwnMinutes.Audio.LeaseSteps
