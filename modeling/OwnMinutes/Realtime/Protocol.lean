import OwnMinutes.Lib.BigEndian
import OwnMinutes.Lib.Outcome

/-! # Frames of the realtime protocol

A frame has a header of four-byte words, a sequence and an event where the flags say so, the size of the payload
and the payload. `readHead` reads everything before the payload. Compression and the decoder of JSON are
parameters. -/

namespace OwnMinutes.Realtime.Protocol

open OwnMinutes.Lib.BigEndian OwnMinutes.Lib.Outcome

def serverFullResponse : ℕ := 0x9

def serverError : ℕ := 0xf

/-- `gzipSync`, `gunzipSync` and `JSON.parse` of the UTF-8 text; nothing where they throw. -/
structure Codec (J : Type) where
  gzip : Bytes → Bytes
  gunzip : Bytes → Option Bytes
  parseJson : Bytes → Option J

variable {J : Type} (codec : Codec J)

/-! ### Writing -/

structure FrameInput where
  /-- `1` or `0` -/
  compression : Bool := true
  flags : ℕ
  messageType : ℕ
  payload : Bytes
  sequence : Option ℤ := none
  /-- `1` or `0` -/
  serialization : Bool := false

/-- `writeInt32BE`, which throws outside the range. -/
def int32 (value : ℤ) : Option Bytes :=
  if -2 ^ 31 ≤ value ∧ value < 2 ^ 31 then some (bytesOf 4 (unsigned 32 value)) else none

/-- `writeUInt32BE` -/
def uint32 (value : ℕ) : Option Bytes := if value < 2 ^ 32 then some (bytesOf 4 value) else none

def encodedPayload (input : FrameInput) : Bytes :=
  if input.compression then codec.gzip input.payload else input.payload

def header (input : FrameInput) : Bytes :=
  [0x11, UInt8.ofNat (input.messageType % 16 * 16 + input.flags % 16),
    UInt8.ofNat (input.serialization.toNat * 16 + input.compression.toNat), 0x00]

/-- The flags say whether the frame includes a sequence. -/
def sequenceBytes (input : FrameInput) : Option Bytes :=
  if input.flags.testBit 0 then int32 (input.sequence.getD 0) else some []

def buildVolcanoProtocolFrame (input : FrameInput) : Option Bytes := do
  let sequence ← sequenceBytes input
  let size ← uint32 (encodedPayload codec input).length
  some (header input ++ (sequence ++ (size ++ encodedPayload codec input)))

/-! ### Reading -/

inductive ProtocolError
  | headerIncomplete
  | headerSizeInvalid
  | truncated
  /-- A read outside the message. -/
  | outOfRange
  | gunzip
  | json
  deriving DecidableEq, Repr

/-- `message[index]` -/
def readByte (message : Bytes) (index : ℕ) : Except ProtocolError ℕ :=
  match message[index]? with
  | some byte => .ok byte.toNat
  | none => .error .outOfRange

def readUInt32BE (message : Bytes) (offset : ℕ) : Except ProtocolError ℕ :=
  if offset + 4 ≤ message.length then .ok (value ((message.drop offset).take 4)) else .error .outOfRange

def readInt32BE (message : Bytes) (offset : ℕ) : Except ProtocolError ℤ := do
  let n ← readUInt32BE message offset
  .ok (signed 32 n)

def ensureReadable (message : Bytes) (offset length : ℕ) : Except ProtocolError Unit :=
  if offset + length > message.length then .error .truncated else .ok ()

/-- A word that is there where the flag is set, and the offset after it. -/
def readOptional (present : Bool) (message : Bytes) (offset : ℕ) : Except ProtocolError (Option ℤ × ℕ) :=
  if present then do
    ensureReadable message offset 4
    let word ← readInt32BE message offset
    .ok (some word, offset + 4)
  else .ok (none, offset)

/-- The code, the size of the payload and the offset of the payload. -/
def readSize (messageType : ℕ) (message : Bytes) (offset : ℕ) : Except ProtocolError (ℤ × ℕ × ℕ) :=
  if messageType = serverError then do
    ensureReadable message offset 8
    let code ← readInt32BE message offset
    let payloadSize ← readUInt32BE message (offset + 4)
    .ok (code, payloadSize, offset + 8)
  else if messageType = serverFullResponse then do
    ensureReadable message offset 4
    let payloadSize ← readUInt32BE message offset
    .ok (0, payloadSize, offset + 4)
  else .ok (0, 0, offset)

/-- What is read before the payload, and where the payload is. -/
structure Head where
  messageType : ℕ
  flags : ℕ
  serialization : ℕ
  compression : ℕ
  sequence : Option ℤ
  event : Option ℤ
  code : ℤ
  payloadSize : ℕ
  offset : ℕ
  deriving DecidableEq, Repr

/-- The end of the payload. -/
def Head.frameEnd (head : Head) : ℕ := head.offset + head.payloadSize

def readHead (message : Bytes) : Except ProtocolError Head :=
  if message.length < 4 then .error .headerIncomplete
  else do
    let first ← readByte message 0
    let second ← readByte message 1
    let third ← readByte message 2
    let headerSize := first % 16 * 4
    let messageType := second / 16
    let flags := second % 16
    if headerSize < 4 ∨ message.length < headerSize then .error .headerSizeInvalid
    else do
      let (sequence, offset) ← readOptional (flags.testBit 0) message headerSize
      let (event, offset) ← readOptional (flags.testBit 2) message offset
      let (code, payloadSize, offset) ← readSize messageType message offset
      ensureReadable message offset payloadSize
      .ok { messageType, flags, serialization := third / 16, compression := third % 16, sequence, event, code,
            payloadSize, offset }

def payloadBuffer (head : Head) (message : Bytes) : Bytes := (message.drop head.offset).take head.payloadSize

def gunzipPayload (head : Head) (payload : Bytes) : Except ProtocolError Bytes :=
  if head.compression = 1 ∧ 0 < payload.length then
    match codec.gunzip payload with
    | some payload => .ok payload
    | none => .error .gunzip
  else .ok payload

def parsePayload (head : Head) (payload : Bytes) : Except ProtocolError (Option J) :=
  if head.serialization = 1 ∧ 0 < payload.length then
    match codec.parseJson payload with
    | some json => .ok (some json)
    | none => .error .json
  else .ok none

structure VolcanoProtocolResponse (J : Type) where
  code : ℤ
  event : Option ℤ
  isLast : Bool
  messageType : ℕ
  payload : Option J
  payloadSize : ℕ
  sequence : Option ℤ

def parseVolcanoProtocolResponse (message : Bytes) : Except ProtocolError (VolcanoProtocolResponse J) := do
  let head ← readHead message
  let payload ← gunzipPayload codec head (payloadBuffer head message)
  let payload ← parsePayload codec head payload
  .ok { code := head.code
        event := head.event
        isLast := head.flags.testBit 1
        messageType := head.messageType
        payload
        payloadSize := head.payloadSize
        sequence := head.sequence }

/-! ### What is read -/

variable {message : Bytes} {offset : ℕ}

theorem ensureReadable_ok {length : ℕ} :
    ensureReadable message offset length = .ok () ↔ offset + length ≤ message.length := by
  unfold ensureReadable
  split_ifs with h
  · simp only [false_iff]
    omega
  · simp only [true_iff]
    omega

theorem readByte_ok {index n : ℕ} :
    readByte message index = .ok n ↔ ∃ byte, message[index]? = some byte ∧ byte.toNat = n := by
  unfold readByte
  cases message[index]? with
  | none | some byte => simp

theorem readUInt32BE_ok {n : ℕ} :
    readUInt32BE message offset = .ok n ↔
      offset + 4 ≤ message.length ∧ value ((message.drop offset).take 4) = n := by
  unfold readUInt32BE
  split_ifs with h
  · simp [h]
  · simp [h]

theorem readInt32BE_ok {z : ℤ} :
    readInt32BE message offset = .ok z ↔
      offset + 4 ≤ message.length ∧ signed 32 (value ((message.drop offset).take 4)) = z := by
  unfold readInt32BE
  rw [bind_eq_ok]
  constructor
  · rintro ⟨n, hn, hz⟩
    obtain ⟨hlength, rfl⟩ := readUInt32BE_ok.mp hn
    exact ⟨hlength, Except.ok.inj hz⟩
  · rintro ⟨hlength, rfl⟩
    exact ⟨_, readUInt32BE_ok.mpr ⟨hlength, rfl⟩, rfl⟩

theorem readOptional_ok {present : Bool} {next : ℕ} {word : Option ℤ} :
    readOptional present message offset = .ok (word, next) ↔
      (present = true ∧ offset + 4 ≤ message.length ∧
          word = some (signed 32 (value ((message.drop offset).take 4))) ∧ next = offset + 4) ∨
        (present = false ∧ word = none ∧ next = offset) := by
  unfold readOptional
  cases present with
  | false =>
    simp only [Bool.false_eq_true, if_false, Except.ok.injEq, Prod.mk.injEq, false_and, true_and, false_or]
    exact and_congr eq_comm eq_comm
  | true =>
    simp only [if_true, bind_eq_ok, readInt32BE_ok, Except.ok.injEq, Prod.mk.injEq, true_and, reduceCtorEq, false_and,
      or_false]
    constructor
    · rintro ⟨_, hreadable, z, ⟨hlength, rfl⟩, rfl, rfl⟩
      exact ⟨hlength, rfl, rfl⟩
    · rintro ⟨hlength, rfl, rfl⟩
      exact ⟨(), ensureReadable_ok.mpr hlength, _, ⟨hlength, rfl⟩, rfl, rfl⟩

theorem readSize_ok {messageType : ℕ} {size next : ℕ} {code : ℤ} :
    readSize messageType message offset = .ok (code, size, next) ↔
      (messageType = serverError ∧ offset + 8 ≤ message.length ∧
          code = signed 32 (value ((message.drop offset).take 4)) ∧
          size = value ((message.drop (offset + 4)).take 4) ∧ next = offset + 8) ∨
        (messageType ≠ serverError ∧ messageType = serverFullResponse ∧ offset + 4 ≤ message.length ∧ code = 0 ∧
          size = value ((message.drop offset).take 4) ∧ next = offset + 4) ∨
        (messageType ≠ serverError ∧ messageType ≠ serverFullResponse ∧ code = 0 ∧ size = 0 ∧ next = offset) := by
  unfold readSize
  by_cases herror : messageType = serverError
  · simp only [herror, if_true, bind_eq_ok, readInt32BE_ok, readUInt32BE_ok, Except.ok.injEq, Prod.mk.injEq, true_and,
      ne_eq, not_true_eq_false, false_and, or_false]
    constructor
    · rintro ⟨_, hreadable, z, ⟨-, rfl⟩, n, ⟨hlength, rfl⟩, rfl, rfl, rfl⟩
      exact ⟨by omega, rfl, rfl, rfl⟩
    · rintro ⟨hlength, rfl, rfl, rfl⟩
      exact ⟨(), ensureReadable_ok.mpr hlength, _, ⟨by omega, rfl⟩, _, ⟨by omega, rfl⟩, rfl, rfl, rfl⟩
  · by_cases hfull : messageType = serverFullResponse
    · rw [if_neg herror, if_pos hfull]
      simp only [bind_eq_ok, readUInt32BE_ok, Except.ok.injEq, Prod.mk.injEq]
      constructor
      · rintro ⟨_, hreadable, n, ⟨hlength, rfl⟩, rfl, rfl, rfl⟩
        exact Or.inr (Or.inl ⟨herror, hfull, hlength, rfl, rfl, rfl⟩)
      · rintro (⟨habsurd, -⟩ | ⟨-, -, hlength, rfl, rfl, rfl⟩ | ⟨-, habsurd, -⟩)
        · exact absurd habsurd herror
        · exact ⟨(), ensureReadable_ok.mpr hlength, _, ⟨hlength, rfl⟩, rfl, rfl, rfl⟩
        · exact absurd hfull habsurd
    · rw [if_neg herror, if_neg hfull]
      simp only [Except.ok.injEq, Prod.mk.injEq]
      constructor
      · rintro ⟨rfl, rfl, rfl⟩
        exact Or.inr (Or.inr ⟨herror, hfull, rfl, rfl, rfl⟩)
      · rintro (⟨habsurd, -⟩ | ⟨-, habsurd, -⟩ | ⟨-, -, rfl, rfl, rfl⟩)
        · exact absurd habsurd herror
        · exact absurd habsurd hfull
        · exact ⟨rfl, rfl, rfl⟩

/-- The head of a message, with what is read on the way. -/
structure HeadAt (message : Bytes) (head : Head) (first second third : UInt8) (afterSequence afterEvent : ℕ) :
    Prop where
  firstByte : message[0]? = some first
  secondByte : message[1]? = some second
  thirdByte : message[2]? = some third
  length : 4 ≤ message.length
  headerSize : 4 ≤ first.toNat % 16 * 4 ∧ first.toNat % 16 * 4 ≤ message.length
  messageType : head.messageType = second.toNat / 16
  flags : head.flags = second.toNat % 16
  serialization : head.serialization = third.toNat / 16
  compression : head.compression = third.toNat % 16
  sequence : readOptional (head.flags.testBit 0) message (first.toNat % 16 * 4) = .ok (head.sequence, afterSequence)
  event : readOptional (head.flags.testBit 2) message afterSequence = .ok (head.event, afterEvent)
  size : readSize head.messageType message afterEvent = .ok (head.code, head.payloadSize, head.offset)
  payload : head.frameEnd ≤ message.length

theorem readHead_ok {head : Head} : readHead message = .ok head ↔
    ∃ first second third afterSequence afterEvent,
      HeadAt message head first second third afterSequence afterEvent := by
  unfold readHead
  rw [guard_eq_ok]
  simp only [bind_eq_ok, guard_eq_ok]
  constructor
  · rintro ⟨hlength, _, hfirst, _, hsecond, _, hthird, hsize, ⟨sequence, o1⟩, hsequence, ⟨event, o2⟩, hevent,
      ⟨code, payloadSize, o3⟩, hcode, _, hreadable, hhead⟩
    obtain ⟨first, hbyte0, rfl⟩ := readByte_ok.mp hfirst
    obtain ⟨second, hbyte1, rfl⟩ := readByte_ok.mp hsecond
    obtain ⟨third, hbyte2, rfl⟩ := readByte_ok.mp hthird
    cases hhead
    exact ⟨first, second, third, o1, o2, hbyte0, hbyte1, hbyte2, by omega, by omega, rfl, rfl, rfl, rfl, hsequence,
      hevent, hcode, ensureReadable_ok.mp hreadable⟩
  · rintro ⟨first, second, third, o1, o2, h⟩
    have hhead := h.headerSize
    refine ⟨by have := h.length; omega, _, readByte_ok.mpr ⟨first, h.firstByte, rfl⟩, _,
      readByte_ok.mpr ⟨second, h.secondByte, rfl⟩, _, readByte_ok.mpr ⟨third, h.thirdByte, rfl⟩, by omega, (head.sequence, o1),
      ?_, (head.event, o2), ?_, (head.code, head.payloadSize, head.offset), ?_, (), ensureReadable_ok.mpr h.payload, ?_⟩
    · rw [← h.flags]
      exact h.sequence
    · rw [← h.flags]
      exact h.event
    · rw [← h.messageType]
      exact h.size
    · rw [← h.messageType, ← h.flags, ← h.serialization, ← h.compression]

/-! ### Bytes after the frame are not read -/

theorem le_readOptional {present : Bool} {next : ℕ} {word : Option ℤ}
    (h : readOptional present message offset = .ok (word, next)) : offset ≤ next := by
  rcases readOptional_ok.mp h with ⟨-, -, -, rfl⟩ | ⟨-, -, rfl⟩ <;> omega

theorem le_readSize {messageType : ℕ} {size next : ℕ} {code : ℤ}
    (h : readSize messageType message offset = .ok (code, size, next)) : offset ≤ next := by
  rcases readSize_ok.mp h with ⟨-, -, -, -, rfl⟩ | ⟨-, -, -, -, -, rfl⟩ | ⟨-, -, -, -, rfl⟩ <;> omega

section Agree

variable {n : ℕ} {m m' : Bytes} (hagree : Agree n m m')
include hagree

theorem readOptional_agree {present : Bool} {next : ℕ} {word : Option ℤ}
    (h : readOptional present m offset = .ok (word, next)) (hnext : next ≤ n) :
    readOptional present m' offset = .ok (word, next) := by
  rcases readOptional_ok.mp h with ⟨hp, hlength, hword, rfl⟩ | hnone
  · rw [hagree.slice hnext] at hword
    exact readOptional_ok.mpr (Or.inl ⟨hp, hnext.trans hagree.right, hword, rfl⟩)
  · exact readOptional_ok.mpr (Or.inr hnone)

theorem readSize_agree {messageType size next : ℕ} {code : ℤ}
    (h : readSize messageType m offset = .ok (code, size, next)) (hnext : next ≤ n) :
    readSize messageType m' offset = .ok (code, size, next) := by
  rcases readSize_ok.mp h with ⟨ht, hlength, hcode, hsize, rfl⟩ | ⟨ht, hf, hlength, hcode, hsize, rfl⟩ | hnone
  · rw [hagree.slice (by omega)] at hcode hsize
    exact readSize_ok.mpr (Or.inl ⟨ht, hnext.trans hagree.right, hcode, hsize, rfl⟩)
  · rw [hagree.slice hnext] at hsize
    exact readSize_ok.mpr (Or.inr (Or.inl ⟨ht, hf, hnext.trans hagree.right, hcode, hsize, rfl⟩))
  · exact readSize_ok.mpr (Or.inr (Or.inr hnone))

end Agree

/-- A head is read from the bytes of its frame. -/
theorem readHead_agree {m m' : Bytes} {head : Head} (h : readHead m = .ok head) (hagree : Agree head.frameEnd m m') :
    readHead m' = .ok head := by
  obtain ⟨first, second, third, o1, o2, h⟩ := readHead_ok.mp h
  have hsize := h.headerSize
  have h1 := le_readOptional h.sequence
  have h2 := le_readOptional h.event
  have h3 := le_readSize h.size
  have hend : head.offset ≤ head.frameEnd := Nat.le_add_right _ _
  refine readHead_ok.mpr ⟨first, second, third, o1, o2, ?_⟩
  exact
    { firstByte := (hagree.getElem? (by omega)).symm.trans h.firstByte
      secondByte := (hagree.getElem? (by omega)).symm.trans h.secondByte
      thirdByte := (hagree.getElem? (by omega)).symm.trans h.thirdByte
      length := le_trans (by omega) hagree.right
      headerSize := ⟨hsize.1, le_trans (by omega) hagree.right⟩
      messageType := h.messageType
      flags := h.flags
      serialization := h.serialization
      compression := h.compression
      sequence := readOptional_agree hagree h.sequence (by omega)
      event := readOptional_agree hagree h.event (by omega)
      size := readSize_agree hagree h.size (by omega)
      payload := hagree.right }

theorem frameEnd_le {m : Bytes} {head : Head} (h : readHead m = .ok head) : head.frameEnd ≤ m.length := by
  obtain ⟨_, _, _, _, _, h⟩ := readHead_ok.mp h
  exact h.payload

/-- No strict prefix of a frame has a head. -/
theorem readHead_cut {m : Bytes} {head : Head} (h : readHead m = .ok head) (hend : head.frameEnd = m.length) {k : ℕ}
    (hk : k < m.length) (head' : Head) : readHead (m.take k) ≠ .ok head' := by
  intro h'
  have hle := frameEnd_le h'
  have hlength : (m.take k).length = k := List.length_take_of_le hk.le
  have hagree : Agree head'.frameEnd (m.take k) m :=
    { take := by rw [List.take_take, Nat.min_eq_left (by omega)]
      left := hle
      right := by omega }
  have hsame := (readHead_agree h' hagree).symm.trans h
  cases hsame
  omega

end OwnMinutes.Realtime.Protocol
