import OwnMinutes.Uploads.Protocol
import OwnMinutes.Lib.Outcome

/-! # Resuming an upload

The parts that the client cuts are those that the server asks for. The metadata that the server answers with is
what the client expects exactly where neither side rewrites a text: the server trims the type and the policy
version and writes the time of the consent as an ISO date, the client compares what it has stored. -/

namespace OwnMinutes.Uploads.Resumption

open OwnMinutes.Lib
open OwnMinutes.Uploads.Protocol

/-! ### The parts of the file -/

theorem partCount_spec (total : ℕ) :
    (∀ index < partCount total, index * recordingUploadPartBytes < total) ∧
      total ≤ partCount total * recordingUploadPartBytes := by
  unfold partCount recordingUploadPartBytes
  constructor
  · intro index hindex
    omega
  · omega

theorem clientPart_eq (file : Bytes) (index : ℕ) :
    clientPart file index = (file.drop (index * recordingUploadPartBytes)).take recordingUploadPartBytes := by
  unfold clientPart
  dsimp only
  rcases Nat.le_total (index * recordingUploadPartBytes + recordingUploadPartBytes) file.length with h | h
  · rw [min_eq_right h, Nat.add_sub_cancel_left]
  · rw [min_eq_left h, List.take_of_length_le (by simp), List.take_of_length_le (by rw [List.length_drop]; omega)]

theorem length_clientPart (file : Bytes) (index : ℕ) :
    (clientPart file index).length =
      min recordingUploadPartBytes (file.length - index * recordingUploadPartBytes) := by
  rw [clientPart_eq, List.length_take, List.length_drop]

theorem flatMap_clientPart (file : Bytes) (count : ℕ) :
    (List.range count).flatMap (clientPart file) = file.take (count * recordingUploadPartBytes) := by
  induction count with
  | zero => simp
  | succ count ih =>
    rw [List.range_succ, List.flatMap_append, ih, List.flatMap_singleton, clientPart_eq, Nat.succ_mul,
      List.take_add]

theorem parts_cover (file : Bytes) : (List.range (partCount file.length)).flatMap (clientPart file) = file := by
  rw [flatMap_clientPart, List.take_of_length_le (partCount_spec file.length).2]

/-! ### What the server reads off the headers -/

theorem toSafeInteger_natCast {n m : ℕ} (h : JsNumber.toSafeInteger (.finite n) = some m) : m = n := by
  dsimp only [JsNumber.toSafeInteger] at h
  split_ifs at h
  simpa [eq_comm] using h

theorem parseIntegerHeader_ok {value : JsNumber} {n : ℕ} (h : parseIntegerHeader value = .ok n) :
    value.toSafeInteger = some n := by
  unfold parseIntegerHeader at h
  split at h
  · injection h with h
    rw [← h]
    assumption
  · cases h

section Rules

variable {rules : Rules} {params : UploadParams} {file : Bytes} {metadata : RecordingUploadMetadata}

/-- The metadata of an upload whose headers the server accepts. -/
theorem accepted_spec
    (h : parseRecordingUploadMetadata rules (metadataHeaders params file.length) params.uploadId = .ok metadata) :
    parseRecordingConsentMetadata rules (metadataHeaders params file.length) =
        .ok metadata.toRecordingConsentMetadata ∧
      metadata.totalBytes = file.length ∧ metadata.totalParts = partCount file.length ∧
      params.durationMs.rounded.toSafeInteger = some metadata.durationMs ∧
      params.recordedAt.rounded.toSafeInteger = some metadata.recordedAt ∧
      metadata.mimeType = toLowerCase (JsText.trim params.mimeType) ∧ metadata.uploadId = params.uploadId ∧
      file ≠ [] := by
  unfold parseRecordingUploadMetadata at h
  obtain ⟨-, h⟩ := Outcome.guard_eq_ok.mp h
  obtain ⟨consent, hconsent, h⟩ := Outcome.bind_eq_ok.mp h
  obtain ⟨totalBytes, hbytes, h⟩ := Outcome.bind_eq_ok.mp h
  obtain ⟨totalParts, hparts, h⟩ := Outcome.bind_eq_ok.mp h
  obtain ⟨durationMs, hduration, h⟩ := Outcome.bind_eq_ok.mp h
  obtain ⟨recordedAt, hrecorded, h⟩ := Outcome.bind_eq_ok.mp h
  obtain ⟨_, haudio, h⟩ := Outcome.bind_eq_ok.mp h
  obtain ⟨hcount, h⟩ := Outcome.guard_eq_ok.mp h
  have hlength : totalBytes = file.length := toSafeInteger_natCast (parseIntegerHeader_ok hbytes)
  injection h with h
  subst h
  refine ⟨hconsent, hlength, ?_, parseIntegerHeader_ok hduration, parseIntegerHeader_ok hrecorded, rfl, rfl, ?_⟩
  · dsimp only
    rw [← hlength]
    omega
  · rintro rfl
    unfold validateUploadedAudio at haudio
    rw [hlength] at haudio
    simp at haudio

/-! ### The consent on both sides -/

theorem getD_givenHeader (text : Option Text) : (givenHeader text).getD [] = text.getD [] := by
  rcases text with _ | _ | ⟨c, text⟩ <;> rfl

theorem trim_method (method : ConsentMethod) :
    JsText.trim ((givenHeader (some method.text)).getD ConsentMethod.legacyUnknown.text) = method.text := by
  cases method <;> decide

theorem inApp_ne_legacy : ConsentMethod.inAppConfirmation.text ≠ ConsentMethod.legacyUnknown.text := by decide

/-- The texts of the consent are as the server writes them. -/
def SameConsent (rules : Rules) (params : UploadParams) : Prop :=
  match params.method with
  | .inAppConfirmation =>
    (∃ confirmedAt time, params.consentConfirmedAt = some confirmedAt ∧
        rules.dateParse (JsText.trim confirmedAt) = some time ∧ rules.toISOString time = confirmedAt) ∧
      params.consentPolicyVersion.map JsText.trim = params.consentPolicyVersion
  | .legacyUnknown => params.consentConfirmedAt = none ∧ params.consentPolicyVersion = none

def expectedConsent (params : UploadParams) : RecordingConsentMetadata :=
  ⟨params.consentConfirmedAt, params.method, params.consentPolicyVersion⟩

/-- What the server makes of the consent that the client sends. -/
theorem consent_spec {total : ℕ} {consent : RecordingConsentMetadata}
    (h : parseRecordingConsentMetadata rules (metadataHeaders params total) = .ok consent) :
    params.method = .legacyUnknown ∧ consent = ⟨none, .legacyUnknown, none⟩ ∨
      params.method = .inAppConfirmation ∧ ∃ time,
        rules.dateParse (JsText.trim (params.consentConfirmedAt.getD [])) = some time ∧
        JsText.trim (params.consentConfirmedAt.getD []) ≠ [] ∧
        isPolicyVersion (JsText.trim (params.consentPolicyVersion.getD [])) = true ∧
        consent = ⟨some (rules.toISOString time), .inAppConfirmation,
          some (JsText.trim (params.consentPolicyVersion.getD []))⟩ := by
  dsimp only [parseRecordingConsentMetadata, metadataHeaders] at h
  rw [trim_method, getD_givenHeader, getD_givenHeader] at h
  rcases hmethod : params.method with _ | _
  · rw [hmethod, if_neg inApp_ne_legacy, if_pos rfl] at h
    split at h
    · cases h
    · rename_i time htime
      obtain ⟨hgiven, h⟩ := Outcome.guard_eq_ok.mp h
      injection h with h
      rw [not_or, Bool.not_eq_false] at hgiven
      exact .inr ⟨rfl, time, htime, hgiven.1, hgiven.2, h.symm⟩
  · rw [hmethod, if_pos rfl] at h
    split_ifs at h
    injection h with h
    exact .inl ⟨rfl, h.symm⟩

theorem consent_eq_iff {total : ℕ} {consent : RecordingConsentMetadata}
    (h : parseRecordingConsentMetadata rules (metadataHeaders params total) = .ok consent) :
    consent = expectedConsent params ↔ SameConsent rules params := by
  unfold SameConsent expectedConsent
  rcases consent_spec h with ⟨hmethod, rfl⟩ | ⟨hmethod, time, htime, -, hpolicy, rfl⟩
  · rw [hmethod]
    simp [eq_comm]
  · rw [hmethod]
    simp only [RecordingConsentMetadata.mk.injEq, true_and]
    refine and_congr ⟨fun hiso => ?_, ?_⟩ ?_
    · rw [← hiso, Option.getD_some] at htime
      exact ⟨_, time, hiso.symm, htime, rfl⟩
    · rintro ⟨confirmedAt, time', hgiven, htime', hiso⟩
      rw [hgiven, Option.getD_some, htime'] at htime
      injection htime with htime
      rw [hgiven, ← htime, hiso]
    · rcases hgiven : params.consentPolicyVersion with _ | policy
      · rw [hgiven] at hpolicy
        exact absurd hpolicy (by decide)
      · simp

/-- What the server has read is kept as it is. -/
theorem normalized_accepted
    (h : parseRecordingUploadMetadata rules (metadataHeaders params file.length) params.uploadId = .ok metadata) :
    normalizedMetadata rules metadata = metadata := by
  obtain ⟨hconsent, -⟩ := accepted_spec h
  have hsame : normalizeStoredRecordingConsentMetadata rules metadata.toRecordingConsentMetadata =
      metadata.toRecordingConsentMetadata := by
    rcases consent_spec hconsent with ⟨-, hc⟩ | ⟨-, time, htime, -, hpolicy, hc⟩
    · rw [hc]
      rfl
    · rw [hc]
      simp only [normalizeStoredRecordingConsentMetadata, rules.parse_iso _ _ htime, hpolicy, if_true]
  unfold normalizedMetadata
  rw [hsame]
  rcases metadata with ⟨⟨confirmedAt, method, policy⟩⟩
  cases confirmedAt <;> cases policy <;> rfl

theorem toLowerCase_trim_iff (text : Text) :
    toLowerCase (JsText.trim text) = toLowerCase text ↔ JsText.trim text = text := by
  refine ⟨fun h => ?_, fun h => by rw [h]⟩
  have hinside : JsText.trim text <:+: text :=
    (List.rdropWhile_prefix _ _).isInfix.trans (List.dropWhile_suffix _).isInfix
  have hlength := congrArg List.length h
  simp only [toLowerCase, List.length_map] at hlength
  exact hinside.eq_of_length hlength

/-- Neither side rewrites a text of the recording. -/
def SameOnBothSides (rules : Rules) (params : UploadParams) : Prop :=
  JsText.trim params.mimeType = params.mimeType ∧ SameConsent rules params

theorem expected_iff
    (h : parseRecordingUploadMetadata rules (metadataHeaders params file.length) params.uploadId = .ok metadata) :
    some metadata = expectedMetadata params file.length ↔ SameOnBothSides rules params := by
  obtain ⟨hconsent, hbytes, hparts, hduration, hrecorded, hmime, hid, -⟩ := accepted_spec h
  have hexpected : expectedMetadata params file.length =
      some ⟨expectedConsent params, metadata.durationMs, toLowerCase params.mimeType, metadata.recordedAt,
        file.length, partCount file.length, params.uploadId⟩ := by
    unfold expectedMetadata
    rw [hduration, hrecorded]
    rfl
  rw [hexpected, SameOnBothSides, ← consent_eq_iff hconsent, ← toLowerCase_trim_iff]
  rcases metadata with ⟨consent, durationMs, mimeType, recordedAt, totalBytes, totalParts, uploadId⟩
  dsimp only at hbytes hparts hmime hid
  subst hbytes hparts hmime hid
  simp [and_comm]

/-! ### The server's side of a resumed upload -/

/-- No metadata conflict, and what holds of the answer otherwise. -/
def NoConflict {α : Type} (x : Except UploadError α) (Q : α → Prop) : Prop :=
  match x with
  | .ok a => Q a
  | .error e => e ≠ .metadataConflict

theorem noConflict_bind {α β : Type} {x : Except UploadError α} {f : α → Except UploadError β} {Q : α → Prop}
    {R : β → Prop} (hx : NoConflict x Q) (hf : ∀ a, Q a → NoConflict (f a) R) : NoConflict (x >>= f) R := by
  rcases x with e | a
  · exact hx
  · exact hf a hx

theorem ne_of_noConflict {α : Type} {x : Except UploadError α} {Q : α → Prop} (h : NoConflict x Q) :
    x ≠ .error .metadataConflict := by
  rintro rfl
  exact h rfl

/-- All that the server keeps of the upload has this metadata. -/
def Holds (metadata : RecordingUploadMetadata) (store : UploadStore) : Prop :=
  (∀ manifest ∈ store.manifest, manifest.toRecordingUploadMetadata = metadata) ∧
    ∀ receipt ∈ store.receipt, receipt = metadata

theorem holds_empty : Holds metadata .empty := by
  constructor <;> intro _ h <;> cases h

variable (hnormal : normalizedMetadata rules metadata = metadata)
include hnormal

theorem holds_read {store : UploadStore} (h : Holds metadata store) :
    Holds metadata (readRecordingUploadState rules store) := by
  rcases store with ⟨manifest, _ | receipt⟩
  · constructor
    · intro read hread
      obtain ⟨stored, hstored, rfl⟩ := Option.map_eq_some_iff.mp hread
      dsimp only
      rw [h.1 stored hstored, hnormal]
    · rintro _ ⟨⟩
  · constructor
    · rintro _ ⟨⟩
    · rintro _ ⟨⟩
      rw [h.2 receipt rfl, hnormal]

theorem holds_status {store : UploadStore} (h : Holds metadata store) :
    ∀ status ∈ statusMetadata rules store, status = metadata := by
  intro status hstatus
  have hread := holds_read hnormal h
  unfold statusMetadata at hstatus
  dsimp only at hstatus
  split at hstatus
  · rename_i manifest hmanifest
    rw [← Option.some.inj hstatus]
    exact hread.1 manifest hmanifest
  · exact hread.2 status hstatus

theorem noConflict_put {store : UploadStore} (h : Holds metadata store) (partIndex : ℕ) (body : Bytes) :
    NoConflict (putRecordingUploadPart rules store metadata partIndex body) (Holds metadata) := by
  have hread := holds_read hnormal h
  have hsame : ((readRecordingUploadState rules store).manifest.getD ⟨metadata, []⟩).toRecordingUploadMetadata =
      metadata := by
    rcases hmanifest : (readRecordingUploadState rules store).manifest with _ | manifest
    · rfl
    · exact hread.1 manifest hmanifest
  unfold putRecordingUploadPart
  dsimp only
  rw [if_neg (not_not.mpr hsame)]
  split_ifs
  · exact h
  · split
    · split_ifs
      · exact UploadError.noConfusion
      · exact h
    · constructor
      · rintro _ ⟨⟩
        exact hsame
      · rintro _ ⟨⟩

theorem noConflict_commit {store : UploadStore} (h : Holds metadata store) :
    NoConflict (commitMeetingRecordingUpload rules store) (Holds metadata) := by
  have hread := holds_read hnormal h
  unfold commitMeetingRecordingUpload
  dsimp only
  split_ifs
  · exact h
  · split
    · exact UploadError.noConfusion
    · rename_i manifest hmanifest
      split_ifs
      · exact UploadError.noConfusion
      · constructor
        · rintro _ ⟨⟩
        · rintro _ ⟨⟩
          exact hread.1 manifest hmanifest

omit hnormal

/-! ### The client against the server -/

variable (haccepted :
  parseRecordingUploadMetadata rules (metadataHeaders params file.length) params.uploadId = .ok metadata)
include haccepted

theorem noConflict_parsePart (index : ℕ) (digest : Text) (body : Bytes) :
    NoConflict (parseRecordingPartUpload rules (metadataHeaders params file.length) params.uploadId index digest body)
      (· = metadata) := by
  unfold parseRecordingPartUpload expectedRecordingPartBytes
  rw [haccepted, Outcome.ok_bind]
  rcases Nat.lt_or_ge index metadata.totalParts with hindex | hindex
  · rw [if_neg (not_le.mpr hindex), Outcome.ok_bind]
    dsimp only
    split_ifs
    · exact UploadError.noConfusion
    · exact UploadError.noConfusion
    · exact UploadError.noConfusion
    · rfl
  · rw [if_pos hindex]
    exact UploadError.noConfusion

theorem noConflict_sendParts {store : UploadStore} (h : Holds metadata store) (indexes received : List ℕ)
    (acks : ℕ) :
    NoConflict (sendParts rules params file acks indexes received store) (fun sent => Holds metadata sent.1) := by
  have hnormal := normalized_accepted haccepted
  induction indexes generalizing acks received store with
  | nil => exact h
  | cons index indexes ih =>
    unfold sendParts
    split_ifs
    · exact ih h received acks
    · rcases acks with _ | acks
      · exact h
      · refine noConflict_bind (noConflict_parsePart haccepted index _ _) ?_
        rintro _ rfl
        exact noConflict_bind (noConflict_put hnormal h index _) fun store' hstore' => ih hstore' _ acks

theorem noConflict_upload {store : UploadStore} (hexpected : some metadata = expectedMetadata params file.length)
    (h : Holds metadata store) (interruption : Interruption) :
    NoConflict (uploadMeetingAudio rules params file interruption store) (Holds metadata) := by
  have hnormal := normalized_accepted haccepted
  have hmatch : assertRecordingUploadMatches (statusMetadata rules store) (expectedMetadata params file.length) =
      .ok () := by
    rcases hstatus : statusMetadata rules store with _ | status
    · rfl
    · have hsame := holds_status hnormal h status hstatus
      rw [← hexpected, hsame]
      exact if_pos rfl
  unfold uploadMeetingAudio
  rw [hmatch, Outcome.ok_bind]
  split_ifs
  · exact UploadError.noConfusion
  · exact h
  · refine noConflict_bind (noConflict_sendParts haccepted h _ _ _) ?_
    rintro ⟨store', completed⟩ hstore'
    dsimp only
    split_ifs
    · exact noConflict_commit hnormal hstore'
    · exact hstore'

theorem noConflict_uploadAgain (hexpected : some metadata = expectedMetadata params file.length)
    (interruptions : List Interruption) {store : UploadStore} (h : Holds metadata store) :
    NoConflict (uploadAgain rules params file interruptions store) (Holds metadata) := by
  induction interruptions generalizing store with
  | nil => exact h
  | cons interruption interruptions ih =>
    exact noConflict_bind (noConflict_upload haccepted hexpected h interruption) fun store' hstore' => ih hstore'

/-! ### A refused resumption -/

omit haccepted in
theorem digest_canonical {digest : Text} (h : isDigest digest = true) :
    toLowerCase (JsText.trim digest) = digest := by
  unfold isDigest at h
  rw [Bool.and_eq_true, List.all_eq_true] at h
  have hrange : ∀ c ∈ digest, 48 ≤ c.toNat ∧ c.toNat ≤ 57 ∨ 97 ≤ c.toNat ∧ c.toNat ≤ 102 := by
    intro c hc
    have hdigit := h.2 c hc
    simp only [Bool.or_eq_true, Char.isDigit, Bool.and_eq_true, decide_eq_true_eq] at hdigit
    exact hdigit
  have htrim : JsText.trim digest = digest := by
    refine JsText.trim_eq_self fun c hc => ?_
    have hc := hrange c hc
    have hval : c.toNat = c.val.toNat := rfl
    exact JsText.isWhiteSpace_of_ascii (by omega) (by omega)
  rw [htrim, toLowerCase]
  conv_rhs => rw [← List.map_id digest]
  refine List.map_congr_left fun c hc => if_neg ?_
  have hc := hrange c hc
  simp only [Char.le_def, UInt32.le_iff_toNat_le]
  have hval : c.toNat = c.val.toNat := rfl
  simp
  omega

theorem parsePart_clientPart {index : ℕ} (hindex : index < partCount file.length) :
    parseRecordingPartUpload rules (metadataHeaders params file.length) params.uploadId index
      (rules.sha256 (clientPart file index)) (clientPart file index) = .ok metadata := by
  obtain ⟨-, hbytes, hparts, -⟩ := accepted_spec haccepted
  unfold parseRecordingPartUpload expectedRecordingPartBytes
  rw [haccepted, Outcome.ok_bind, if_neg (by omega), Outcome.ok_bind]
  dsimp only
  rw [hbytes, length_clientPart, digest_canonical (rules.sha256_digest _), rules.sha256_digest]
  simp

omit haccepted in
theorem sendParts_cut (indexes received : List ℕ) (store : UploadStore) :
    ∃ completed, sendParts rules params file 0 indexes received store = .ok (store, completed) := by
  induction indexes with
  | nil => exact ⟨true, rfl⟩
  | cons index indexes ih =>
    unfold sendParts
    split_ifs
    · exact ih
    · exact ⟨false, rfl⟩

/-- Cut off after its first part, the upload has left the server's metadata there. -/
theorem upload_first :
    ∃ store, uploadMeetingAudio rules params file ⟨1, false⟩ .empty = .ok store ∧
      statusMetadata rules store = some metadata := by
  obtain ⟨-, -, -, -, -, -, -, hfile⟩ := accepted_spec haccepted
  have hnormal := normalized_accepted haccepted
  have hlength : 0 < file.length := List.length_pos_of_ne_nil hfile
  obtain ⟨rest, hrest⟩ : ∃ rest, List.range (partCount file.length) = 0 :: rest := by
    have hcount : partCount file.length = partCount file.length - 1 + 1 := by
      unfold partCount recordingUploadPartBytes
      omega
    rw [hcount, List.range_succ_eq_map]
    exact ⟨_, rfl⟩
  have hfirst : 0 < partCount file.length := by
    rw [← List.length_range (n := partCount file.length), hrest]
    exact Nat.succ_pos _
  let stored : UploadStore :=
    ⟨some ⟨metadata, [⟨0, (clientPart file 0).length, rules.sha256 (clientPart file 0)⟩]⟩, none⟩
  have hput : putRecordingUploadPart rules .empty metadata 0 (clientPart file 0) = .ok stored := by
    unfold putRecordingUploadPart
    simp [readRecordingUploadState, UploadStore.empty, stored]
  have hcut : ∃ completed, sendParts rules params file 0 rest
      ([] ++ receivedParts (readRecordingUploadState rules stored)) stored = .ok (stored, completed) :=
    sendParts_cut rest _ stored
  obtain ⟨completed, hcut⟩ := hcut
  refine ⟨stored, ?_, ?_⟩
  · unfold uploadMeetingAudio
    rw [if_neg hfile]
    have hmatch : assertRecordingUploadMatches (statusMetadata rules .empty)
        (expectedMetadata params file.length) = .ok () := rfl
    have hsend : sendParts rules params file 1 (0 :: rest) [] .empty = .ok (stored, completed) := by
      unfold sendParts
      rw [if_neg (by simp)]
      dsimp only
      rw [parsePart_clientPart haccepted hfirst, Outcome.ok_bind, hput, Outcome.ok_bind, hcut]
    have hreceived : receivedParts (readRecordingUploadState rules .empty) = [] := rfl
    rw [hmatch, Outcome.ok_bind, hrest, hreceived, hsend]
    simp [readRecordingUploadState, UploadStore.empty]
  · change some (normalizedMetadata rules metadata) = some metadata
    rw [hnormal]

/-- Uploaded again after its first part, a recording whose texts the server rewrites is refused. -/
theorem uploadAgain_conflict (hexpected : some metadata ≠ expectedMetadata params file.length) :
    uploadAgain rules params file [⟨1, false⟩, ⟨0, false⟩] .empty = .error .metadataConflict := by
  obtain ⟨-, -, -, -, -, -, -, hfile⟩ := accepted_spec haccepted
  obtain ⟨store, hstore, hstatus⟩ := upload_first haccepted
  have hagain : uploadMeetingAudio rules params file ⟨0, false⟩ store = .error .metadataConflict := by
    unfold uploadMeetingAudio
    rw [if_neg hfile, hstatus]
    dsimp only [assertRecordingUploadMatches]
    rw [if_neg hexpected, Outcome.error_bind]
  unfold uploadAgain
  rw [hstore, Outcome.ok_bind]
  unfold uploadAgain
  rw [hagain, Outcome.error_bind]

end Rules

/-! ### Resumed uploads match -/

/-- What is promised of a recording whose headers the server reads as `metadata`. -/
def ResumesMatch (rules : Rules) (params : UploadParams) (file : Bytes) (metadata : RecordingUploadMetadata) :
    Prop :=
  (∀ index < metadata.totalParts,
      expectedRecordingPartBytes metadata index = .ok (clientPart file index).length) ∧
    (List.range metadata.totalParts).flatMap (clientPart file) = file ∧
    ∀ interruptions, uploadAgain rules params file interruptions .empty ≠ .error .metadataConflict

/-- A recording is resumed, however often it is cut off, exactly where neither side rewrites its texts. -/
theorem resumesMatch_iff (rules : Rules) (params : UploadParams) (file : Bytes) (metadata : RecordingUploadMetadata)
    (haccepted :
      parseRecordingUploadMetadata rules (metadataHeaders params file.length) params.uploadId = .ok metadata) :
    ResumesMatch rules params file metadata ↔ SameOnBothSides rules params := by
  obtain ⟨-, hbytes, hparts, -⟩ := accepted_spec haccepted
  rw [← expected_iff haccepted]
  constructor
  · rintro ⟨-, -, hresumes⟩
    by_contra hexpected
    exact hresumes _ (uploadAgain_conflict haccepted hexpected)
  · intro hexpected
    refine ⟨fun index hindex => ?_, ?_, fun interruptions => ?_⟩
    · unfold expectedRecordingPartBytes
      rw [if_neg (not_le.mpr hindex), hbytes, length_clientPart]
    · rw [hparts, parts_cover]
    · exact ne_of_noConflict (noConflict_uploadAgain haccepted hexpected interruptions holds_empty)

/-- The platform on the date and the file below. -/
def sampleRules : Rules where
  dateParse text :=
    if text = "2024-01-01T00:00:00Z".toList ∨ text = "2024-01-01T00:00:00.000Z".toList then some 1704067200000
    else none
  toISOString _ := "2024-01-01T00:00:00.000Z".toList
  parse_iso text time h := by
    split_ifs at h
    injection h with h
    rw [if_pos (Or.inr rfl), h]
  sha256 _ := "6e340b9cffb37a989ca544e6bb780a2c78901d3fb33738768511a30617afa01d".toList
  sha256_digest _ := by
    rw [String.toList_ofList]
    decide
  fullRecordingMaxBytes := 1073741824

def sampleParams (consentConfirmedAt : Text) : UploadParams where
  mimeType := "audio/mp4".toList
  durationMs := .finite 1200
  recordedAt := .finite 1704067200000
  consentConfirmedAt := some consentConfirmedAt
  consentMethod := some .inAppConfirmation
  consentPolicyVersion := some "2026-07-11".toList
  uploadId := "recording-00000000-0000-4000-8000-000000000000".toList

def sampleMetadata : RecordingUploadMetadata where
  consentConfirmedAt := some "2024-01-01T00:00:00.000Z".toList
  consentMethod := .inAppConfirmation
  consentPolicyVersion := some "2026-07-11".toList
  durationMs := 1200
  mimeType := "audio/mp4".toList
  recordedAt := 1704067200000
  totalBytes := 1
  totalParts := 1
  uploadId := "recording-00000000-0000-4000-8000-000000000000".toList

theorem sample_accepted (consentConfirmedAt : Text)
    (h : consentConfirmedAt = "2024-01-01T00:00:00Z".toList ∨
      consentConfirmedAt = "2024-01-01T00:00:00.000Z".toList) :
    parseRecordingUploadMetadata sampleRules (metadataHeaders (sampleParams consentConfirmedAt) 1)
      (sampleParams consentConfirmedAt).uploadId = .ok sampleMetadata := by
  have hid : isUploadId "recording-00000000-0000-4000-8000-000000000000".toList = true := by
    rw [String.toList_ofList]
    decide
  have hconsent : parseRecordingConsentMetadata sampleRules (metadataHeaders (sampleParams consentConfirmedAt) 1) =
      .ok sampleMetadata.toRecordingConsentMetadata := by
    rcases h with rfl | rfl <;> decide
  have hduration : parseIntegerHeader (JsNumber.finite 1200).rounded = .ok 1200 := by decide +kernel
  have hrecorded : parseIntegerHeader (JsNumber.finite 1704067200000).rounded = .ok 1704067200000 := by decide +kernel
  have hmime : toLowerCase (JsText.trim ((some "audio/mp4".toList).getD [])) = "audio/mp4".toList := by
    rw [String.toList_ofList]
    decide
  have haudio : validateUploadedAudio sampleRules "audio/mp4".toList 1 = .ok () := by decide
  refine (if_neg fun h => Bool.noConfusion (hid.symm.trans h)).trans (Outcome.bind_eq_ok.mpr ⟨_, hconsent,
    Outcome.bind_eq_ok.mpr ⟨1, rfl, Outcome.bind_eq_ok.mpr ⟨1, rfl, Outcome.bind_eq_ok.mpr ⟨_, hduration,
      Outcome.bind_eq_ok.mpr ⟨_, hrecorded, ?_⟩⟩⟩⟩⟩)
  dsimp only [metadataHeaders, sampleParams]
  rw [hmime]
  exact Outcome.bind_eq_ok.mpr ⟨_, haudio, rfl⟩

theorem resumesMatch_iff_iso :
    ResumesMatch sampleRules (sampleParams "2024-01-01T00:00:00.000Z".toList) [0] sampleMetadata ↔
      SameOnBothSides sampleRules (sampleParams "2024-01-01T00:00:00.000Z".toList) :=
  resumesMatch_iff sampleRules (sampleParams "2024-01-01T00:00:00.000Z".toList) [0] sampleMetadata
    (sample_accepted _ (.inr rfl))

/-- A time of consent without milliseconds blocks the recording after its first part. -/
theorem short_date_conflict :
    parseRecordingUploadMetadata sampleRules (metadataHeaders (sampleParams "2024-01-01T00:00:00Z".toList) 1)
        (sampleParams "2024-01-01T00:00:00Z".toList).uploadId = .ok sampleMetadata ∧
      ¬ ResumesMatch sampleRules (sampleParams "2024-01-01T00:00:00Z".toList) [0] sampleMetadata := by
  refine ⟨sample_accepted _ (.inl rfl), fun h => ?_⟩
  have hexpected : some sampleMetadata ≠ expectedMetadata (sampleParams "2024-01-01T00:00:00Z".toList) 1 := by
    decide +kernel
  have hconflict : uploadAgain sampleRules (sampleParams "2024-01-01T00:00:00Z".toList) [0]
      [⟨1, false⟩, ⟨0, false⟩] .empty = .error .metadataConflict :=
    uploadAgain_conflict (sample_accepted _ (.inl rfl)) hexpected
  exact h.2.2 _ hconflict

end OwnMinutes.Uploads.Resumption
