import OwnMinutes.Audio.Records

/-! # Results, reviews and the expiry of a share

The pure functions that decide what of a meeting may be read without an account: `meeting-share-policy.ts`,
`meeting-human-review.ts`, and those of `meeting-audio-store.ts` on a stored result. Of a result the title, the
time and the audio revision are fields; the rest of it is of any type, and what is done with the rest is a
`ResultFunctions`. -/

namespace OwnMinutes.Share.Results

open OwnMinutes.Auth.ProcessingRoute OwnMinutes.Auth.Records OwnMinutes.Finalizer.Records
open OwnMinutes.Audio.Records

variable {C : Type}

/-! ### Results -/

/-- A result, with its transcript, summary, diagnostics and Markdown as the content. -/
structure MeetingResult (C : Type) where
  title : String
  generatedAt : Timestamp
  audioRevision : Option AudioRevision := none
  content : C
  deriving DecidableEq, Repr

/-- What is done with the content of a result. -/
structure ResultFunctions (C : Type) where
  /-- the digest of the JSON text of a result, without its audio revision -/
  fingerprint : String → Timestamp → C → Digest
  obsidianMarkdown : C → String
  /-- the content with the `buildMeetingMarkdown` of a title -/
  rebuildMarkdown : String → C → C
  applySpeakerNames : List (String × String) → C → C
  /-- `normalizeTranscriptSpeakerAssignments`, and the transcript with the new speakers -/
  assignTranscriptSpeakers : List (String × String) → C → Except AudioError C
  /-- `normalizeMeetingSummaryPatch` with a patch as the second content -/
  patchSummary : C → C → C

def fingerprintMeetingResult (F : ResultFunctions C) (result : MeetingResult C) : Digest :=
  F.fingerprint result.title result.generatedAt result.content

def isMeetingResultFreshForAudio (result : Option (MeetingResult C)) (audio : ManifestAudio) : Bool :=
  result.any fun result =>
    match result.audioRevision.filter (· ≠ "") with
    | some revision => revision == audio.audioRevision
    | none => decide (audio.audioUpdatedAt ≤ result.generatedAt)

/-- The stored result, where it is that of the audio as it is. -/
def currentMeetingResultForManifest (H : Hashing) (result : Option (MeetingResult C)) (manifest : AudioManifest) :
    Option (MeetingResult C) :=
  match meetingAudioMetadataFromManifest H manifest with
  | none => none
  | some audio => if isMeetingResultFreshForAudio result audio then result else none

theorem currentMeetingResult_eq_some {H : Hashing} {stored : Option (MeetingResult C)} {manifest : AudioManifest}
    {result : MeetingResult C} (h : currentMeetingResultForManifest H stored manifest = some result) :
    stored = some result ∧ manifest.chunks ≠ [] := by
  unfold currentMeetingResultForManifest meetingAudioMetadataFromManifest at h
  by_cases hchunks : manifest.chunks = []
  · rw [if_pos hchunks] at h
    cases h
  · rw [if_neg hchunks] at h
    dsimp only at h
    split_ifs at h
    exact ⟨h, hchunks⟩

/-! ### Reviews -/

inductive ReviewStatus
  | pending | confirmed
  deriving DecidableEq, Repr

structure MeetingHumanReview where
  status : ReviewStatus
  confirmedAt : Option Timestamp := none
  needsReconfirmation : Bool
  deriving DecidableEq, Repr

def createMeetingReviewConfirmation (F : ResultFunctions C) (confirmedAt : Timestamp) (result : MeetingResult C) :
    MeetingReviewConfirmation where
  confirmedAt
  resultFingerprint := fingerprintMeetingResult F result

def resolveMeetingHumanReview (F : ResultFunctions C) :
    Option MeetingReviewConfirmation → Option (MeetingResult C) → MeetingHumanReview
  | some confirmation, some result =>
    if confirmation.resultFingerprint ≠ fingerprintMeetingResult F result then
      { status := .pending, confirmedAt := some confirmation.confirmedAt, needsReconfirmation := true }
    else { status := .confirmed, confirmedAt := some confirmation.confirmedAt, needsReconfirmation := false }
  | _, _ => { status := .pending, needsReconfirmation := false }

/-- A review is confirmed where the fingerprint of the result is the one that was confirmed. -/
theorem resolveMeetingHumanReview_confirmed {F : ResultFunctions C} {confirmation : Option MeetingReviewConfirmation}
    {result : Option (MeetingResult C)} :
    (resolveMeetingHumanReview F confirmation result).status = .confirmed ↔
      ∃ c r, confirmation = some c ∧ result = some r ∧ c.resultFingerprint = fingerprintMeetingResult F r := by
  rcases confirmation with _ | c
  · simp [resolveMeetingHumanReview]
  · rcases result with _ | r
    · simp [resolveMeetingHumanReview]
    · simp only [resolveMeetingHumanReview]
      split_ifs with h
      · simp [h]
      · simpa using h

/-! ### The expiry of a share -/

def DAY_MS : ℕ := 24 * 60 * 60 * 1000
def meetingShareLifetimeDays : ℕ := 7
def meetingShareLifetimeMs : ℕ := meetingShareLifetimeDays * DAY_MS
def meetingShareClockSkewAllowanceMs : ℕ := 5 * 60 * 1000

/-- The `expiresAt` of a request: not there or empty, a text that is no date, or the time of a date. -/
inductive ShareExpiry
  | unset
  | invalid
  | date (expiresAtMs : ℤ)
  deriving DecidableEq, Repr

def shareExpiryInvalid : AudioError :=
  { status := 400, code := some "share_expiry_invalid", message := "分享有效期格式无效。" }
def shareExpiryOutOfRange : AudioError :=
  { status := 400, code := some "share_expiry_out_of_range", message := "分享链接必须在未来 7 天内到期。" }

/-- The errors are those that `updateMeetingShare` makes of a `MeetingSharePolicyError`. -/
def resolveMeetingShareExpiresAt (value : ShareExpiry) (now : Timestamp) : Except AudioError Timestamp :=
  match value with
  | .unset => .ok (now + meetingShareLifetimeMs)
  | .invalid => .error shareExpiryInvalid
  | .date expiresAtMs =>
    if expiresAtMs ≤ now ∨ now + meetingShareLifetimeMs + meetingShareClockSkewAllowanceMs < expiresAtMs then
      .error shareExpiryOutOfRange
    else .ok expiresAtMs.toNat

/-- A share expires after it is made, and within the lifetime and the allowance. -/
theorem resolveMeetingShareExpiresAt_bounds {value : ShareExpiry} {now expiresAt : Timestamp}
    (h : resolveMeetingShareExpiresAt value now = .ok expiresAt) :
    now < expiresAt ∧ expiresAt ≤ now + meetingShareLifetimeMs + meetingShareClockSkewAllowanceMs := by
  have hlifetime : 0 < meetingShareLifetimeMs := by decide
  cases value with
  | unset =>
    obtain rfl : now + meetingShareLifetimeMs = expiresAt := Except.ok.inj h
    exact ⟨Nat.lt_add_of_pos_right hlifetime, Nat.le_add_right _ _⟩
  | invalid => cases h
  | date expiresAtMs =>
    simp only [resolveMeetingShareExpiresAt] at h
    split_ifs at h with hrange
    obtain rfl : expiresAtMs.toNat = expiresAt := Except.ok.inj h
    rw [not_or, not_le, not_lt] at hrange
    exact ⟨Int.lt_toNat.mpr hrange.1, Int.toNat_le.mpr (by exact_mod_cast hrange.2)⟩

def isMeetingShareActive (share : MeetingShare) (now : Timestamp) : Bool :=
  share.visibility == .public && share.expiresAt.any fun expiresAt => decide (now < expiresAt)

theorem isMeetingShareActive_iff {share : MeetingShare} {now : Timestamp} :
    isMeetingShareActive share now = true ↔
      share.visibility = .public ∧ ∃ expiresAt, share.expiresAt = some expiresAt ∧ now < expiresAt := by
  unfold isMeetingShareActive
  cases share.expiresAt with
  | none | some expiresAt => simp

end OwnMinutes.Share.Results
