import OwnMinutes.Realtime.Protocol

/-! # The codec of realtime frames

What `buildVolcanoProtocolFrame` writes is read back, a frame that is cut short is rejected, and no read leaves the
message or takes what stands after the payload. -/

namespace OwnMinutes.Realtime.Codec

open OwnMinutes.Lib.BigEndian OwnMinutes.Lib.Outcome OwnMinutes.Realtime.Protocol

variable {J : Type} (codec : Codec J)

/-- Decompression undoes compression, whose output has at least its header; an empty text is no JSON. -/
structure Lawful : Prop where
  gunzip_gzip : ∀ payload, codec.gunzip (codec.gzip payload) = some payload
  gzip_ne_nil : ∀ payload, codec.gzip payload ≠ []
  parseJson_nil : codec.parseJson [] = none

/-! ### Errors -/

/-- The errors of the parser's own checks. -/
def IsCheck (e : ProtocolError) : Prop := e = .headerIncomplete ∨ e = .headerSizeInvalid ∨ e = .truncated

variable {m : Bytes} {offset length : ℕ} {e : ProtocolError}

theorem ensureReadable_error (h : ensureReadable m offset length = .error e) : IsCheck e := by
  unfold ensureReadable at h
  split_ifs at h with hlength
  exact Or.inr (Or.inr (Except.error.inj h).symm)

theorem readUInt32BE_error (h : readUInt32BE m offset = .error e) : m.length < offset + 4 := by
  unfold readUInt32BE at h
  split_ifs at h with hlength
  omega

theorem readInt32BE_error (h : readInt32BE m offset = .error e) : m.length < offset + 4 := by
  rcases bind_eq_error.mp h with h | ⟨n, -, h⟩
  · exact readUInt32BE_error h
  · cases h

theorem readOptional_error {present : Bool} (h : readOptional present m offset = .error e) : IsCheck e := by
  unfold readOptional at h
  split_ifs at h
  rcases bind_eq_error.mp h with h | ⟨_, hreadable, h⟩
  · exact ensureReadable_error h
  · have hlength := ensureReadable_ok.mp hreadable
    rcases bind_eq_error.mp h with h | ⟨z, -, h⟩
    · exact absurd (readInt32BE_error h) (by omega)
    · cases h

theorem readSize_error {messageType : ℕ} (h : readSize messageType m offset = .error e) : IsCheck e := by
  unfold readSize at h
  split_ifs at h
  · rcases bind_eq_error.mp h with h | ⟨_, hreadable, h⟩
    · exact ensureReadable_error h
    · have hlength := ensureReadable_ok.mp hreadable
      rcases bind_eq_error.mp h with h | ⟨code, -, h⟩
      · exact absurd (readInt32BE_error h) (by omega)
      · rcases bind_eq_error.mp h with h | ⟨size, -, h⟩
        · exact absurd (readUInt32BE_error h) (by omega)
        · cases h
  · rcases bind_eq_error.mp h with h | ⟨_, hreadable, h⟩
    · exact ensureReadable_error h
    · have hlength := ensureReadable_ok.mp hreadable
      rcases bind_eq_error.mp h with h | ⟨size, -, h⟩
      · exact absurd (readUInt32BE_error h) (by omega)
      · cases h

theorem readByte_error {index : ℕ} (h : readByte m index = .error e) : m.length ≤ index := by
  unfold readByte at h
  split at h
  · cases h
  · rename_i hnone
    exact List.getElem?_eq_none_iff.mp hnone

/-- **No read leaves the message.** -/
theorem readHead_error (h : readHead m = .error e) : IsCheck e := by
  unfold readHead at h
  split_ifs at h with hlength
  · exact Or.inl (Except.error.inj h).symm
  rcases bind_eq_error.mp h with h | ⟨first, -, h⟩
  · exact absurd (readByte_error h) (by omega)
  rcases bind_eq_error.mp h with h | ⟨second, -, h⟩
  · exact absurd (readByte_error h) (by omega)
  rcases bind_eq_error.mp h with h | ⟨third, -, h⟩
  · exact absurd (readByte_error h) (by omega)
  dsimp only at h
  split_ifs at h with hsize
  · exact Or.inr (Or.inl (Except.error.inj h).symm)
  rcases bind_eq_error.mp h with h | ⟨sequence, -, h⟩
  · exact readOptional_error h
  rcases bind_eq_error.mp h with h | ⟨event, -, h⟩
  · exact readOptional_error h
  rcases bind_eq_error.mp h with h | ⟨code, -, h⟩
  · exact readSize_error h
  rcases bind_eq_error.mp h with h | ⟨_, -, h⟩
  · exact ensureReadable_error h
  · cases h

theorem gunzipPayload_error {head : Head} {payload : Bytes} (h : gunzipPayload codec head payload = .error e) :
    e = .gunzip := by
  unfold gunzipPayload at h
  split_ifs at h
  split at h
  · cases h
  · exact (Except.error.inj h).symm

theorem parsePayload_error {head : Head} {payload : Bytes} (h : parsePayload codec head payload = .error e) :
    e = .json := by
  unfold parsePayload at h
  split_ifs at h
  split at h
  · cases h
  · exact (Except.error.inj h).symm

theorem parse_error (h : parseVolcanoProtocolResponse codec m = .error e) : e ≠ .outOfRange := by
  rintro rfl
  rcases bind_eq_error.mp h with h | ⟨head, -, h⟩
  · rcases readHead_error h with h | h | h <;> cases h
  rcases bind_eq_error.mp h with h | ⟨payload, -, h⟩
  · cases gunzipPayload_error codec h
  rcases bind_eq_error.mp h with h | ⟨json, -, h⟩
  · cases parsePayload_error codec h
  · cases h

/-! ### Frames that are cut short or followed by more -/

/-- A response frame: it has a head, and ends with the payload. -/
def IsFrame (m : Bytes) : Prop := ∃ head, readHead m = .ok head ∧ head.frameEnd = m.length

theorem parse_prefix (h : IsFrame m) {k : ℕ} (hk : k < m.length) :
    ∃ e, parseVolcanoProtocolResponse codec (m.take k) = .error e := by
  obtain ⟨head, hhead, hend⟩ := h
  cases hbegins : readHead (m.take k) with
  | ok head' => exact absurd hbegins (readHead_cut hhead hend hk head')
  | error e =>
    refine ⟨e, ?_⟩
    unfold parseVolcanoProtocolResponse
    rw [hbegins]
    rfl

/-- What stands after the payload is not read. -/
theorem parse_frame {head : Head} (h : readHead m = .ok head) (rest : Bytes) :
    parseVolcanoProtocolResponse codec (m.take head.frameEnd ++ rest) = parseVolcanoProtocolResponse codec m := by
  have hle := frameEnd_le h
  have hlength : (m.take head.frameEnd).length = head.frameEnd := List.length_take_of_le hle
  have hagree : Agree head.frameEnd m (m.take head.frameEnd ++ rest) :=
    { take := by rw [List.take_left' hlength]
      left := hle
      right := by rw [List.length_append]; omega }
  have hend : head.offset + head.payloadSize ≤ head.frameEnd := le_rfl
  have hpayload : payloadBuffer head (m.take head.frameEnd ++ rest) = payloadBuffer head m :=
    (hagree.slice hend).symm
  unfold parseVolcanoProtocolResponse
  rw [readHead_agree h hagree, h, ok_bind, ok_bind, hpayload]

/-! ### The round trip -/

section RoundTrip

variable {input : FrameInput} {frame : Bytes}

/-- The sequence as it is written. -/
def sequenceOf (input : FrameInput) : Option ℤ := if input.flags.testBit 0 then some (input.sequence.getD 0) else none

theorem readOptional_written {present : Bool} {z : ℤ} {before word rest : Bytes}
    (hword : (if present = true then int32 z else some []) = some word) :
    readOptional present (before ++ (word ++ rest)) before.length =
      .ok (if present then some z else none, (before ++ word).length) := by
  rw [readOptional_ok]
  cases present with
  | false =>
    obtain rfl : [] = word := Option.some.inj hword
    exact Or.inr ⟨rfl, rfl, by rw [List.append_nil]⟩
  | true =>
    unfold int32 at hword
    rw [if_pos rfl] at hword
    split_ifs at hword with hrange
    obtain rfl := Option.some.inj hword
    have hlength : (bytesOf 4 (unsigned 32 z)).length = 4 := length_bytesOf 4 _
    refine Or.inl ⟨rfl, ?_, ?_, ?_⟩
    · rw [List.length_append, List.length_append, hlength]
      omega
    · have hslice : (bytesOf 4 (unsigned 32 z) ++ rest).take 4 = bytesOf 4 (unsigned 32 z) := List.take_left' hlength
      rw [List.drop_left, hslice, value_bytesOf (unsigned_lt 32 z), signed_unsigned (by omega) hrange.1 hrange.2]
      rfl
    · rw [List.length_append, hlength]

theorem header_second (hmessage : input.messageType = serverFullResponse) :
    (UInt8.ofNat (input.messageType % 16 * 16 + input.flags % 16)).toNat = 144 + input.flags % 16 := by
  rw [hmessage, UInt8.toNat_ofNat']
  have := Nat.mod_lt input.flags (show 0 < 16 by omega)
  change (9 % 16 * 16 + input.flags % 16) % 256 = _
  omega

theorem header_third : (UInt8.ofNat (input.serialization.toNat * 16 + input.compression.toNat)).toNat =
    input.serialization.toNat * 16 + input.compression.toNat := by
  cases input.serialization <;> cases input.compression <;> rfl

theorem testBit_flags (i : ℕ) (hi : i < 4) : (input.flags % 16).testBit i = input.flags.testBit i := by
  have h := Nat.testBit_mod_two_pow input.flags 4 i
  rw [show (2 : ℕ) ^ 4 = 16 from rfl, decide_eq_true hi, Bool.true_and] at h
  exact h

/-- The head of a frame that was written. -/
def headOf (input : FrameInput) (offset : ℕ) : Head where
  messageType := serverFullResponse
  flags := input.flags % 16
  serialization := input.serialization.toNat
  compression := input.compression.toNat
  sequence := sequenceOf input
  event := none
  code := 0
  payloadSize := (encodedPayload codec input).length
  offset := offset

theorem readHead_written (hmessage : input.messageType = serverFullResponse) (hevent : input.flags.testBit 2 = false)
    (hframe : buildVolcanoProtocolFrame codec input = some frame) :
    ∃ before : Bytes, frame = before ++ encodedPayload codec input ∧
      readHead frame = .ok (headOf codec input before.length) := by
  unfold buildVolcanoProtocolFrame at hframe
  obtain ⟨sequence, hsequence, h⟩ := Option.bind_eq_some_iff.mp hframe
  obtain ⟨size, hsize, h⟩ := Option.bind_eq_some_iff.mp h
  obtain rfl := Option.some.inj h
  refine ⟨header input ++ sequence ++ size, by simp only [List.append_assoc], ?_⟩
  unfold uint32 at hsize
  split_ifs at hsize with hrange
  obtain rfl := Option.some.inj hsize
  have hthird := @header_third input
  have hsecond := header_second hmessage
  have hflags := Nat.mod_lt input.flags (show 0 < 16 by omega)
  have hlength : (bytesOf 4 (encodedPayload codec input).length).length = 4 := length_bytesOf 4 _
  rw [readHead_ok]
  refine ⟨0x11, UInt8.ofNat (input.messageType % 16 * 16 + input.flags % 16),
    UInt8.ofNat (input.serialization.toNat * 16 + input.compression.toNat), (header input ++ sequence).length,
    (header input ++ sequence).length, ?_⟩
  refine ⟨rfl, rfl, rfl, ?_, ?_, ?_, ?_, ?_, ?_, ?_, ?_, ?_, ?_⟩
  · simp [header]
  · refine ⟨by decide, ?_⟩
    simp [header]
  · rw [hsecond]
    change 9 = _
    omega
  · rw [hsecond]
    change input.flags % 16 = _
    omega
  · rw [hthird]
    change input.serialization.toNat = _
    cases input.serialization <;> cases input.compression <;> rfl
  · rw [hthird]
    change input.compression.toNat = _
    cases input.serialization <;> cases input.compression <;> rfl
  · change readOptional ((input.flags % 16).testBit 0) _ (header input).length = _
    rw [testBit_flags 0 (by omega)]
    exact readOptional_written hsequence
  · change readOptional ((input.flags % 16).testBit 2) _ _ = _
    rw [testBit_flags 2 (by omega), hevent]
    rfl
  · rw [readSize_ok]
    refine Or.inr (Or.inl ⟨by change serverFullResponse ≠ _; decide, rfl, ?_, rfl, ?_, ?_⟩)
    · simp only [List.length_append, hlength]
      omega
    · change (encodedPayload codec input).length = _
      rw [← List.append_assoc, List.drop_left, List.take_left' hlength, value_bytesOf]
      exact hrange
    · change (header input ++ sequence ++ bytesOf 4 _).length = _
      rw [List.length_append, hlength]
  · change (header input ++ sequence ++ bytesOf 4 _).length + _ ≤ _
    simp only [List.length_append]
    change _ + (encodedPayload codec input).length ≤ _
    omega

theorem payload_read (h : Lawful codec) (hjson : input.serialization = true → (codec.parseJson input.payload).isSome) (offset : ℕ) :
    ∃ payload, gunzipPayload codec (headOf codec input offset) (encodedPayload codec input) = .ok payload ∧
      parsePayload codec (headOf codec input offset) payload =
        .ok (if input.serialization then codec.parseJson input.payload else none) := by
  have hgunzip : gunzipPayload codec (headOf codec input offset) (encodedPayload codec input) = .ok input.payload := by
    unfold gunzipPayload headOf encodedPayload
    cases input.compression with
    | false => rfl
    | true =>
      have hlength : 0 < (codec.gzip input.payload).length := List.length_pos_iff.mpr (h.gzip_ne_nil _)
      simp only [Bool.toNat_true, if_true, hlength, and_self, h.gunzip_gzip]
  refine ⟨input.payload, hgunzip, ?_⟩
  unfold parsePayload headOf
  cases hserialization : input.serialization with
  | false => rfl
  | true =>
    obtain ⟨json, hjson⟩ := Option.isSome_iff_exists.mp (hjson hserialization)
    have hlength : 0 < input.payload.length := by
      refine List.length_pos_iff.mpr fun hnil => ?_
      rw [hnil, h.parseJson_nil] at hjson
      cases hjson
    simp only [Bool.toNat_true, if_true, hlength, and_self, hjson]

/-- The response to a frame that was written. -/
def responseOf (input : FrameInput) : VolcanoProtocolResponse J where
  code := 0
  event := none
  isLast := input.flags.testBit 1
  messageType := serverFullResponse
  payload := if input.serialization then codec.parseJson input.payload else none
  payloadSize := (encodedPayload codec input).length
  sequence := sequenceOf input

theorem parse_written (h : Lawful codec) (hmessage : input.messageType = serverFullResponse)
    (hevent : input.flags.testBit 2 = false)
    (hjson : input.serialization = true → (codec.parseJson input.payload).isSome)
    (hframe : buildVolcanoProtocolFrame codec input = some frame) :
    parseVolcanoProtocolResponse codec frame = .ok (responseOf codec input) ∧ IsFrame frame := by
  obtain ⟨before, rfl, hhead⟩ := readHead_written codec hmessage hevent hframe
  have hend : (headOf codec input before.length).frameEnd = (before ++ encodedPayload codec input).length := by
    rw [List.length_append]
    rfl
  refine ⟨?_, _, hhead, hend⟩
  have hbuffer : payloadBuffer (headOf codec input before.length) (before ++ encodedPayload codec input) =
      encodedPayload codec input := by
    change ((before ++ encodedPayload codec input).drop before.length).take (encodedPayload codec input).length = _
    rw [List.drop_left, List.take_length]
  obtain ⟨payload, hgunzip, hparse⟩ := payload_read codec h hjson before.length
  unfold parseVolcanoProtocolResponse
  rw [hhead, ok_bind, hbuffer, hgunzip, ok_bind, hparse, ok_bind]
  unfold responseOf
  rw [← testBit_flags 1 (by omega)]
  rfl

/-- A frame is written for every sequence of 32 bits and every payload whose size has 32 bits. -/
theorem build_isSome (hsequence : -2 ^ 31 ≤ input.sequence.getD 0 ∧ input.sequence.getD 0 < 2 ^ 31)
    (hsize : (encodedPayload codec input).length < 2 ^ 32) : ∃ frame, buildVolcanoProtocolFrame codec input = some frame := by
  unfold buildVolcanoProtocolFrame sequenceBytes int32 uint32
  rw [if_pos hsequence, if_pos hsize]
  split_ifs
  · exact ⟨_, rfl⟩
  · exact ⟨_, rfl⟩

end RoundTrip

/-- **The codec of realtime frames.** -/
theorem realtime_frame_codec (h : Lawful codec) :
    (∀ input : FrameInput, input.messageType = serverFullResponse → input.flags.testBit 2 = false →
        (input.serialization = true → (codec.parseJson input.payload).isSome) →
        -2 ^ 31 ≤ input.sequence.getD 0 ∧ input.sequence.getD 0 < 2 ^ 31 → (encodedPayload codec input).length < 2 ^ 32 →
        ∃ frame, buildVolcanoProtocolFrame codec input = some frame ∧
          parseVolcanoProtocolResponse codec frame = .ok (responseOf codec input) ∧ IsFrame frame) ∧
      (∀ m : Bytes, IsFrame m → ∀ k < m.length, ∃ e, parseVolcanoProtocolResponse codec (m.take k) = .error e) ∧
      (∀ m : Bytes, (∃ response, parseVolcanoProtocolResponse codec m = .ok response) ∨
        ∃ e, parseVolcanoProtocolResponse codec m = .error e ∧ e ≠ .outOfRange) ∧
      ∀ (m : Bytes) (head : Head), readHead m = .ok head → head.frameEnd ≤ m.length ∧
        ∀ rest, parseVolcanoProtocolResponse codec (m.take head.frameEnd ++ rest) =
          parseVolcanoProtocolResponse codec m := by
  refine ⟨fun input hmessage hevent hjson hsequence hsize => ?_, fun m hm k hk => parse_prefix codec hm hk, fun m => ?_,
    fun m head hhead => ⟨frameEnd_le hhead, parse_frame codec hhead⟩⟩
  · obtain ⟨frame, hframe⟩ := build_isSome codec hsequence hsize
    exact ⟨frame, hframe, parse_written codec h hmessage hevent hjson hframe⟩
  · cases hparse : parseVolcanoProtocolResponse codec m with
    | ok response => exact Or.inl ⟨response, rfl⟩
    | error e => exact Or.inr ⟨e, rfl, parse_error codec hparse⟩

def utf8 (text : String) : Bytes := text.toList.map fun c => UInt8.ofNat c.toNat

/-- Compression by one byte before the payload, and the JSON texts `true` and `false`. -/
def plainCodec : Codec Bool where
  gzip payload := 0x1f :: payload
  gunzip
    | [] => none
    | _ :: payload => some payload
  parseJson payload :=
    if payload = utf8 "true" then some true else if payload = utf8 "false" then some false else none

theorem lawful_plainCodec : Lawful plainCodec where
  gunzip_gzip _ := rfl
  gzip_ne_nil _ := List.cons_ne_nil _ _
  parseJson_nil := by decide

/-- A last response with the sequence `-2`, not compressed, and the same frame cut short. -/
theorem realtime_frame_codec_last :
    ∃ frame, buildVolcanoProtocolFrame plainCodec
        { compression := false, flags := 3, messageType := serverFullResponse, payload := utf8 "true"
          sequence := some (-2), serialization := true } = some frame ∧
      (∃ response, parseVolcanoProtocolResponse plainCodec frame = .ok response ∧ response.sequence = some (-2) ∧
        response.isLast = true ∧ response.payload = some true) ∧
      ∃ e, parseVolcanoProtocolResponse plainCodec (frame.take 9) = .error e := by
  obtain ⟨hbuild, hbegins, -⟩ := realtime_frame_codec plainCodec lawful_plainCodec
  obtain ⟨frame, hframe, hparse, hwhole⟩ := hbuild
    { compression := false, flags := 3, messageType := serverFullResponse, payload := utf8 "true"
      sequence := some (-2), serialization := true } rfl rfl (fun _ => by decide) (by decide) (by decide)
  have hlength : frame.length = 16 := by
    have h := hframe.symm.trans (show _ = some _ from rfl)
    rw [Option.some.inj h]
    rfl
  exact ⟨frame, hframe, ⟨_, hparse, rfl, rfl, by decide⟩, hbegins frame hwhole 9 (by omega)⟩

end OwnMinutes.Realtime.Codec
