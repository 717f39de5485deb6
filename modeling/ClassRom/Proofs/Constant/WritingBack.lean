import ClassRom.Proofs.Constant.Spelling
import ClassRom.Proofs.Text.Groups
import ClassRom.Proofs.Text.Surrogates

/-!
# Writing back what was read

A constant that was read can be written, and is read as itself again, with one exception. The
decoder of texts accepts a zero byte, for which the encoder writes two. So a text with zero bytes
that was short enough when it was read may be too long to be written.
-/

namespace ClassRom.Constant

set_option autoImplicit false

open ModifiedUtf8 (Group)

variable {index : UInt16} {input rest bytes payload : Bytes} {constant : Constant} {text : Text}

/-- Writes each reference as the raw index that it has. -/
def writeRaw (constant : Constant) : Output Fault := constant.write fun ref => .ok ref.raw

theorem writeRaw_utf8 (text : Text) :
    (Constant.utf8 text).writeRaw =
      if text.encode.length ≤ 65535 then ⟨(Constant.utf8 text).wire, none⟩
      else ⟨[1], some (.format (.utf8TooLong text.encode.length))⟩ := by
  unfold writeRaw write chunks payload
  dsimp only
  split
  next =>
    refine Output.ofChunks_eq_iff.mpr ⟨[[1], _], rfl, ?_⟩
    simp [wire]
  next => rfl

theorem fault_writeRaw_utf8 {fault : Fault} :
    (Constant.utf8 text).writeRaw.fault = some fault ↔
      65535 < text.encode.length ∧ fault = .format (.utf8TooLong text.encode.length) := by
  rw [writeRaw_utf8]
  split
  next hFits => simp [Nat.not_lt.mpr hFits]
  next hLong => simp [Nat.lt_of_not_le hLong, eq_comm]

theorem fault_writeRaw_utf8_eq_none :
    (Constant.utf8 text).writeRaw.fault = none ↔ text.encode.length ≤ 65535 := by
  rw [writeRaw_utf8]
  split
  next hFits => simp [hFits]
  next hLong => simp [hLong]

/-! ### Spellings -/

/-- A constant with no text in its spelling is written as it was read. -/
theorem SpelledBy.writeRaw_eq (h : constant.SpelledBy bytes)
    (hText : textBytes? (bytes ++ rest) = none) : constant.writeRaw = ⟨bytes, none⟩ := by
  cases h with
  | utf8 hLength _ =>
    rw [textBytes?_append hLength] at hText
    cases hText
  | integer _ | float _ | long _ | double _ | classRef _ | string _ | nameAndType _ _
  | member _ _ _ => rfl

theorem SpelledBy.eq_utf8 (h : constant.SpelledBy bytes)
    (hText : textBytes? (bytes ++ rest) = some payload) :
    payload.length ≤ 65535 ∧ ∃ text, constant = .utf8 text ∧ Text.decode? payload = some text := by
  cases h with
  | @utf8 payload' text hLength hDecode =>
    rw [textBytes?_append hLength] at hText
    cases hText
    exact ⟨hLength, text, rfl, hDecode⟩
  | integer _ | float _ | long _ | double _ | classRef _ | string _ | nameAndType _ _ => cases hText
  | member kind _ _ => cases kind <;> cases hText

/-! ### Lengths -/

/-- The number of bytes that a text takes when it is read from the payload and written again: one
more for each zero byte, and fewer for groups that are longer than they need to be. -/
def LengthAgain (payload : Bytes) (length : Nat) : Prop :=
  ∃ groups : List Group, payload = groups.flatMap Group.bytes ∧
    length + (groups.map Group.waste).sum = payload.length + payload.count 0

theorem lengthAgain_iff (h : Text.decode? payload = some text) {length : Nat} :
    LengthAgain payload length ↔ length = text.encode.length := by
  constructor
  · rintro ⟨groups, rfl, hLength⟩
    have hEncode := Text.length_encode_of_groups h
    omega
  · rintro rfl
    obtain ⟨groups, rfl, _⟩ := Text.decode?_eq_some_iff.mp h
    exact ⟨groups, rfl, Text.length_encode_of_groups h⟩

theorem LengthAgain.le {length : Nat} (h : LengthAgain payload length) (hZero : 0 ∉ payload) :
    length ≤ payload.length := by
  obtain ⟨groups, _, hLength⟩ := h
  rw [List.count_eq_zero_of_not_mem hZero] at hLength
  omega

theorem read_writeRaw_utf8 (h : Text.decode? payload = some text)
    (hFault : (Constant.utf8 text).writeRaw.fault = none) :
    read index ((Constant.utf8 text).writeRaw.bytes ++ rest) = .ok (.utf8 text, rest) := by
  have hFits := fault_writeRaw_utf8_eq_none.mp hFault
  rw [writeRaw_utf8, if_pos hFits]
  exact (read_reads index _ _ _).mpr
    ⟨_, spelledBy_wire hFits (Text.normal_of_decode? h) (by simp [refs]), rfl⟩

/-- A constant that was read can be written unless its text is too long by then, which takes a zero
byte. What is written is read as the same constant, and is what was read if there is no text in it.
-/
theorem writeRaw_of_read (h : read index input = .ok (constant, rest)) :
    (constant.writeRaw.fault = none ↔
      ∀ payload ∈ textBytes? input, ∃ length ≤ 65535, LengthAgain payload length) ∧
    (constant.writeRaw.fault = none →
      read index (constant.writeRaw.bytes ++ rest) = .ok (constant, rest)) ∧
    (∀ fault, constant.writeRaw.fault = some fault →
      ∃ payload ∈ textBytes? input, 0 ∈ payload ∧
        ∃ length, 65535 < length ∧ LengthAgain payload length ∧
          fault = .format (.utf8TooLong length)) ∧
    (textBytes? input = none → constant.writeRaw.bytes ++ rest = input) := by
  obtain ⟨bytes, hSpelled, rfl⟩ := (read_reads index _ _ _).mp h
  cases hText : textBytes? (bytes ++ rest) with
  | none =>
    rw [hSpelled.writeRaw_eq hText]
    exact ⟨by simp, fun _ => h, by simp, fun _ => rfl⟩
  | some payload =>
    obtain ⟨hLength, text, rfl, hDecode⟩ := hSpelled.eq_utf8 hText
    refine ⟨?_, read_writeRaw_utf8 hDecode, ?_, by simp⟩
    · rw [fault_writeRaw_utf8_eq_none]
      constructor
      · intro hFits payload' hPayload
        cases hPayload
        exact ⟨_, hFits, (lengthAgain_iff hDecode).mpr rfl⟩
      · intro hAll
        obtain ⟨length, hFits, hAgain⟩ := hAll payload rfl
        rwa [(lengthAgain_iff hDecode).mp hAgain] at hFits
    · intro fault hFault
      obtain ⟨hLong, rfl⟩ := fault_writeRaw_utf8.mp hFault
      have hAgain := (lengthAgain_iff hDecode).mpr rfl
      refine ⟨payload, rfl, ?_, _, hLong, hAgain, rfl⟩
      by_contra hZero
      have hShort := hAgain.le hZero
      omega

/-- An `a`, a zero byte and an `A` in a group that is longer than it needs to be, with one more byte
behind the constant. -/
def paddedText : Bytes := [1, 0, 4, 0x61, 0, 0xC1, 0x81, 0xFF]

theorem writeRaw_of_read_padded :
    read 1 paddedText = .ok (.utf8 (.unicode "a\x00A"), [0xFF]) ∧
      ((Constant.utf8 (.unicode "a\x00A")).writeRaw.fault = none ↔
        ∀ payload ∈ textBytes? paddedText, ∃ length ≤ 65535, LengthAgain payload length) ∧
      read 1 ((Constant.utf8 (.unicode "a\x00A")).writeRaw.bytes ++ [0xFF]) =
        .ok (.utf8 (.unicode "a\x00A"), [0xFF]) := by
  have hRead : read 1 paddedText = .ok (.utf8 (.unicode "a\x00A"), [0xFF]) := by decide +kernel
  obtain ⟨hIff, hAgain, _, _⟩ := writeRaw_of_read hRead
  exact ⟨hRead, hIff, hAgain (by decide +kernel)⟩

/-! ### Texts that cannot be written back -/

/-- Letters and one zero byte. -/
def zeroEnded (n : Nat) : Bytes := List.replicate n 0x61 ++ [0]

theorem lengthAgain_zeroEnded (n : Nat) : LengthAgain (zeroEnded n) (n + 2) := by
  refine ⟨List.replicate n (.one 0x61) ++ [.one 0], ?_, ?_⟩
  · have hLetter : Group.bytes (.one 0x61) = [0x61] := by decide
    have hZero : Group.bytes (.one 0) = [0] := by decide
    rw [List.flatMap_append, List.flatMap_replicate]
    simp [zeroEnded, hLetter, hZero]
  · have hLetter : Group.waste (.one 0x61) = 0 := by decide
    have hZero : Group.waste (.one 0) = 0 := by decide
    simp [zeroEnded, hLetter, hZero, List.count_replicate]

theorem fault_writeRaw_zeroEnded {n : Nat} (hFits : n + 1 ≤ 65535) (hLong : 65535 < n + 2) :
    ∃ constant, read index (1 :: (Wire.u16 (UInt16.ofNat (n + 1)) ++ zeroEnded n)) =
        .ok (constant, []) ∧
      constant.writeRaw.fault = some (.format (.utf8TooLong (n + 2))) := by
  have hLength : (zeroEnded n).length = n + 1 := by simp [zeroEnded]
  obtain ⟨groups, hGroups, _⟩ := lengthAgain_zeroEnded n
  have hDecode := Text.decode?_eq_some_iff.mpr ⟨groups, hGroups, rfl⟩
  have hAgain := (lengthAgain_iff hDecode).mp (lengthAgain_zeroEnded n)
  refine ⟨_, (read_reads index _ _ _).mpr ⟨_, .utf8 (by omega) hDecode, ?_⟩,
    fault_writeRaw_utf8.mpr ⟨by omega, by rw [← hAgain]⟩⟩
  rw [hLength, List.append_nil]

/-- The longest text that can be read cannot be written if it has a zero byte. -/
theorem longest_text_with_zero_not_written :
    ∃ constant, read 1 (1 :: (Wire.u16 65535 ++ zeroEnded 65534)) = .ok (constant, []) ∧
      constant.writeRaw.fault = some (.format (.utf8TooLong 65536)) :=
  fault_writeRaw_zeroEnded (by omega) (by omega)

end ClassRom.Constant
