import ClassRom.Proofs.Bytecode.Instructions
import ClassRom.Proofs.Wire

/-!
# The grammar of code

Code is well-formed if it is a sequence of complete instructions, and which bytes make up an
instruction is said by the layout of its form. Scanning accepts well-formed code and no other, finds
the one way to split it, and otherwise stops where the first bytes are that begin no instruction.
-/

namespace ClassRom

set_option autoImplicit false

variable {code : Array UInt8} {opcode : UInt8} {offset place length count : Nat}
  {bytes first rest padding : Bytes} {word : Int32}

/-! ### Words in code -/

/-- A signed word as it stands in code. -/
def Wire.i32 (n : Int32) : Bytes := Wire.u32 n.toUInt32

@[simp] theorem Wire.length_i32 (n : Int32) : (Wire.i32 n).length = 4 := rfl

theorem exists_i32 (h : bytes.length = 4) : ∃ word, bytes = Wire.i32 word := by
  match bytes, h with
  | [a, b, c, d], _ =>
    obtain ⟨value, hValue⟩ : ∃ value, Reader.u32 [a, b, c, d] = .ok (value, []) := ⟨_, rfl⟩
    obtain ⟨_, rfl, hBytes⟩ := (Reader.reads_u32 _ _ _).mp hValue
    refine ⟨value.toInt32, ?_⟩
    unfold Wire.i32
    rw [UInt32.toUInt32_toInt32, hBytes, List.append_nil]

theorem exists_i32_append (h : 4 ≤ bytes.length) : ∃ word rest, bytes = Wire.i32 word ++ rest := by
  obtain ⟨word, hWord⟩ : ∃ word, bytes.take 4 = Wire.i32 word := exists_i32 (by simp; omega)
  exact ⟨word, bytes.drop 4, by rw [← hWord, List.take_append_drop]⟩

theorem exists_row (chunk : Bytes) (h : chunk.length = 8) :
    ∃ row : Int32 × Int32, chunk = Wire.i32 row.1 ++ Wire.i32 row.2 := by
  obtain ⟨word, rest, rfl⟩ := exists_i32_append (show 4 ≤ chunk.length by omega)
  rw [List.length_append, Wire.length_i32] at h
  obtain ⟨second, rfl⟩ := exists_i32 (show rest.length = 4 by omega)
  exact ⟨(word, second), rfl⟩

/-- Bytes are a sequence of items if their number is a multiple of the width of an item. -/
theorem exists_flatMap {α : Type} {wire : α → Bytes} {width : Nat}
    (hWire : ∀ chunk : Bytes, chunk.length = width → ∃ item, chunk = wire item)
    (h : bytes.length = width * count) :
    ∃ items : List α, items.length = count ∧ bytes = items.flatMap wire := by
  induction count generalizing bytes with
  | zero => exact ⟨[], rfl, List.eq_nil_of_length_eq_zero h⟩
  | succ count ih =>
    rw [Nat.mul_succ] at h
    obtain ⟨item, hItem⟩ := hWire (bytes.take width) (by simp; omega)
    obtain ⟨items, rfl, hItems⟩ := ih (show (bytes.drop width).length = width * count by simp; omega)
    refine ⟨item :: items, rfl, ?_⟩
    rw [List.flatMap_cons, ← hItem, ← hItems, List.take_append_drop]

theorem getElem?_of_drop_eq (h : code.toList.drop place = bytes) (i : Nat) :
    code[place + i]? = bytes[i]? := by
  rw [← h, List.getElem?_drop, Array.getElem?_toList]

theorem drop_past (h : code.toList.drop place = first ++ rest) :
    code.toList.drop (place + first.length) = rest := by
  rw [← List.drop_drop, h, List.drop_left]

theorem int32At?_eq (h : code.toList.drop place = Wire.i32 word ++ rest) :
    int32At? code place = some word.toInt := by
  have hAt (i : Nat) : code[place + i]? = (Wire.i32 word ++ rest)[i]? := getElem?_of_drop_eq h i
  have hWord : ((word.toUInt32.toNat / 65536 % 65536 / 256 % 256 * 256 +
      word.toUInt32.toNat / 65536 % 65536 % 256) * 256 +
      word.toUInt32.toNat % 65536 / 256 % 256) * 256 + word.toUInt32.toNat % 65536 % 256 =
      word.toBitVec.toNat := by
    have hLt := word.toUInt32.toNat_lt
    change _ = word.toUInt32.toNat
    omega
  unfold int32At?
  rw [hAt 1, hAt 2, hAt 3, ← Nat.add_zero place, hAt 0]
  simp only [Wire.i32, Wire.u32, Wire.u16, List.cons_append, List.nil_append,
    List.getElem?_cons_zero, List.getElem?_cons_succ, UInt8.toNat_ofNat', UInt16.toNat_ofNat',
    Nat.reducePow, hWord]
  rw [← Int32.toInt_toBitVec, BitVec.toInt_eq_toNat_cond, Option.some_inj]
  split <;> split <;> omega

/-! ### Instructions -/

/-- The bytes fill up to the next multiple of four behind an opcode at the offset. -/
def Pads (offset : Nat) (padding : Bytes) : Prop :=
  padding.length < 4 ∧ (offset + 1 + padding.length) % 4 = 0

/-- The bytes of one complete instruction that starts at the offset. A switch has as many rows as it
says, and none if that number is negative. -/
inductive Instruction (offset : Nat) : Bytes → Prop where
  | plain {opcode : UInt8} {operands : Bytes} :
      Opcode.length? opcode = some (1 + operands.length) →
      Instruction offset ([opcode] ++ operands)
  | widened {opcode : UInt8} {operands : Bytes} :
      Opcode.wideLength? opcode = some (2 + operands.length) →
      Instruction offset ([Opcode.wide, opcode] ++ operands)
  | tableswitch {padding : Bytes} {fallback low high : Int32} {jumps : List Int32} :
      Pads offset padding → jumps.length = (high.toInt - low.toInt + 1).toNat →
      Instruction offset ([Opcode.tableswitch] ++ (padding ++ (Wire.i32 fallback ++
        (Wire.i32 low ++ (Wire.i32 high ++ jumps.flatMap Wire.i32)))))
  | lookupswitch {padding : Bytes} {fallback pairs : Int32} {rows : List (Int32 × Int32)} :
      Pads offset padding → rows.length = pairs.toInt.toNat →
      Instruction offset ([Opcode.lookupswitch] ++ (padding ++ (Wire.i32 fallback ++
        (Wire.i32 pairs ++ rows.flatMap fun row => Wire.i32 row.1 ++ Wire.i32 row.2))))

theorem Pads.switchOperands_eq (h : Pads offset padding) :
    switchOperands offset = offset + 1 + padding.length := by
  obtain ⟨hLt, hMod⟩ := h
  unfold switchOperands
  omega

theorem Instruction.length_eq_ok (h : Instruction offset bytes)
    (hCode : code.toList.drop offset = bytes ++ rest) : ∃ opcode, code[offset]? = some opcode ∧
      instructionLength code offset opcode = .ok bytes.length := by
  have hAt (i : Nat) : code[offset + i]? = (bytes ++ rest)[i]? := getElem?_of_drop_eq hCode i
  cases h with
  | @plain opcode operands hLength =>
    refine ⟨opcode, hAt 0, instructionLength_eq_ok.mpr (.inl ?_)⟩
    rw [hLength, List.length_append]
    rfl
  | @widened opcode operands hLength =>
    refine ⟨Opcode.wide, hAt 0, instructionLength_eq_ok.mpr (.inr (.inl ⟨rfl, opcode, hAt 1, ?_⟩))⟩
    rw [hLength, List.length_append]
    rfl
  | @tableswitch padding fallback low high jumps hPads hJumps =>
    simp only [List.append_assoc] at hCode
    have hFallback := drop_past (drop_past hCode)
    have hLow := drop_past hFallback
    have hHigh := drop_past hLow
    simp only [List.length_singleton, Wire.length_i32, ← hPads.switchOperands_eq] at hLow hHigh
    refine ⟨Opcode.tableswitch, hAt 0, instructionLength_eq_ok.mpr (.inr (.inr (.inl ⟨rfl, low.toInt,
      high.toInt, int32At?_eq hLow, int32At?_eq hHigh, ?_⟩)))⟩
    simp only [hPads.switchOperands_eq, List.length_append, List.length_singleton,
      List.length_flatMap, Wire.length_i32, List.map_const', List.sum_replicate_nat, hJumps]
    omega
  | @lookupswitch padding fallback pairs rows hPads hRows =>
    simp only [List.append_assoc] at hCode
    have hPairs := drop_past (drop_past (drop_past hCode))
    simp only [List.length_singleton, Wire.length_i32, ← hPads.switchOperands_eq] at hPairs
    refine ⟨Opcode.lookupswitch, hAt 0, instructionLength_eq_ok.mpr (.inr (.inr (.inr ⟨rfl,
      pairs.toInt, int32At?_eq hPairs, ?_⟩)))⟩
    simp only [hPads.switchOperands_eq, List.length_append, List.length_singleton,
      List.length_flatMap, Wire.length_i32, List.map_const', List.sum_replicate_nat, hRows]
    omega

theorem exists_switchOperands_eq (offset : Nat) : ∃ count, count < 4 ∧
    switchOperands offset = offset + 1 + count ∧ (offset + 1 + count) % 4 = 0 := by
  refine ⟨switchOperands offset - (offset + 1), ?_⟩
  unfold switchOperands
  omega

/-- What the two switches have in common. -/
theorem exists_switch (hCode : code.toList.drop offset = bytes ++ rest)
    (hOpcode : code[offset]? = some opcode)
    (hLength : switchOperands offset + 8 ≤ offset + bytes.length) :
    ∃ padding fallback word tail, Pads offset padding ∧
      bytes = [opcode] ++ (padding ++ (Wire.i32 fallback ++ (Wire.i32 word ++ tail))) ∧
      int32At? code (switchOperands offset + 4) = some word.toInt ∧
      code.toList.drop (switchOperands offset + 8) = tail ++ rest := by
  obtain ⟨count, hCount, hSwitch, hAligned⟩ := exists_switchOperands_eq offset
  obtain ⟨head, operands, rfl⟩ := List.exists_cons_of_length_pos (show 0 < bytes.length by omega)
  obtain rfl : head = opcode := by
    have hHead := getElem?_of_drop_eq hCode 0
    rw [Nat.add_zero, hOpcode] at hHead
    exact (Option.some.inj hHead).symm
  rw [List.length_cons] at hLength
  have hPadding : (operands.take count).length = count := by
    rw [List.length_take]
    omega
  have hPads : Pads offset (operands.take count) := by
    unfold Pads
    rw [hPadding]
    exact ⟨hCount, hAligned⟩
  have hBehind : (operands.drop count).length + count = operands.length := by
    rw [List.length_drop]
    omega
  obtain ⟨fallback, behind, hFallback⟩ :=
    exists_i32_append (show 4 ≤ (operands.drop count).length by omega)
  rw [hFallback, List.length_append, Wire.length_i32] at hBehind
  obtain ⟨word, tail, rfl⟩ := exists_i32_append (show 4 ≤ behind.length by omega)
  have hBytes : head :: operands = [head] ++
      (operands.take count ++ (Wire.i32 fallback ++ (Wire.i32 word ++ tail))) := by
    rw [← hFallback, List.take_append_drop]
    rfl
  rw [hBytes] at hCode
  simp only [List.append_assoc] at hCode
  have hWord := drop_past (drop_past (drop_past hCode))
  have hTail := drop_past hWord
  simp only [List.length_singleton, Wire.length_i32, ← hPads.switchOperands_eq] at hWord hTail
  exact ⟨_, fallback, word, tail, hPads, hBytes, int32At?_eq hWord, hTail⟩

theorem instruction_of_length (hCode : code.toList.drop offset = bytes ++ rest)
    (hOpcode : code[offset]? = some opcode)
    (h : instructionLength code offset opcode = .ok bytes.length) : Instruction offset bytes := by
  have hAt (i : Nat) : code[offset + i]? = (bytes ++ rest)[i]? := getElem?_of_drop_eq hCode i
  have hHead := hAt 0
  rw [Nat.add_zero, hOpcode] at hHead
  have hPos := instructionLength_pos h
  rcases instructionLength_eq_ok.mp h with hLength | ⟨rfl, widened, hNext, hLength⟩ |
    ⟨rfl, low, high, hLow, hHigh, hLength⟩ | ⟨rfl, pairs, hPairs, hLength⟩
  · obtain ⟨head, operands, rfl⟩ := List.exists_cons_of_length_pos hPos
    cases hHead
    rw [List.length_cons, Nat.add_comm] at hLength
    exact .plain hLength
  · have hTwo := Opcode.two_lt_of_wideLength? hLength
    match bytes, hTwo with
    | first :: second :: operands, _ =>
      cases hHead
      rw [hAt 1] at hNext
      cases hNext
      rw [List.length_cons, List.length_cons, Nat.add_assoc, Nat.add_comm] at hLength
      exact .widened hLength
  · have hSwitch := lt_switchOperands offset
    obtain ⟨padding, fallback, first, tail, hPads, rfl, hFirst, hTail⟩ :=
      exists_switch hCode hOpcode (by omega)
    rw [hFirst] at hLow
    cases hLow
    have hLengths := hPads.switchOperands_eq
    simp only [List.length_append, List.length_singleton, Wire.length_i32] at hLength
    obtain ⟨last, jumps, rfl⟩ := exists_i32_append (show 4 ≤ tail.length by omega)
    rw [List.append_assoc] at hTail
    rw [int32At?_eq hTail] at hHigh
    cases hHigh
    rw [List.length_append, Wire.length_i32] at hLength
    obtain ⟨words, hWords, rfl⟩ := exists_flatMap (fun _ => exists_i32)
      (show jumps.length = 4 * (last.toInt - first.toInt + 1).toNat by omega)
    exact .tableswitch hPads hWords
  · have hSwitch := lt_switchOperands offset
    obtain ⟨padding, fallback, number, tail, hPads, rfl, hNumber, _⟩ :=
      exists_switch hCode hOpcode (by omega)
    rw [hNumber] at hPairs
    cases hPairs
    have hLengths := hPads.switchOperands_eq
    simp only [List.length_append, List.length_singleton, Wire.length_i32] at hLength
    obtain ⟨rows, hRows, rfl⟩ := exists_flatMap exists_row
      (show tail.length = 8 * number.toInt.toNat by omega)
    exact .lookupswitch hPads hRows

/-! ### Sequences of instructions -/

/-- The pieces are instructions that follow each other from the offset on. -/
inductive Instructions : Nat → List Bytes → Prop where
  | nil {offset : Nat} : Instructions offset []
  | cons {offset : Nat} {piece : Bytes} {pieces : List Bytes} : Instruction offset piece →
      Instructions (offset + piece.length) pieces → Instructions offset (piece :: pieces)

/-- The pieces are instructions and make up the code. -/
def Splits (code : Bytes) (pieces : List Bytes) : Prop :=
  Instructions 0 pieces ∧ code = pieces.flatten

/-- The offsets of pieces that follow each other from the offset on. -/
def startsFrom : Nat → List Bytes → List Nat
  | _, [] => []
  | offset, piece :: pieces => offset :: startsFrom (offset + piece.length) pieces

variable {piece piece' rest' : Bytes} {pieces pieces' : List Bytes} {boundaries done : List Nat}
  {start stop : Nat} {cause : ScanCause}

theorem Instruction.eq_of_append_eq (h : Instruction offset piece) (h' : Instruction offset piece')
    (hEq : piece ++ rest = piece' ++ rest') : piece = piece' := by
  -- code that holds the bytes at the offset, whatever stands before them
  have hCode : (List.replicate offset 0 ++ (piece ++ rest)).toArray.toList.drop offset =
      piece ++ rest := by
    simp
  obtain ⟨opcode, hOpcode, hLength⟩ := h.length_eq_ok hCode
  obtain ⟨opcode', hOpcode', hLength'⟩ := h'.length_eq_ok (hCode.trans hEq)
  rw [hOpcode] at hOpcode'
  cases hOpcode'
  rw [hLength] at hLength'
  exact List.append_inj_left hEq (Except.ok.inj hLength')

theorem Instruction.length_pos (h : Instruction offset piece) : 0 < piece.length := by
  cases h <;> simp

theorem Instruction.append_ne_nil (h : Instruction offset piece) (rest : Bytes) :
    piece ++ rest ≠ [] := by
  have hPos := h.length_pos
  intro hNil
  rw [List.append_eq_nil_iff.mp hNil |>.1] at hPos
  exact Nat.lt_irrefl 0 hPos

theorem Instructions.eq_of_flatten_eq (h : Instructions offset pieces)
    (h' : Instructions offset pieces') (hEq : pieces.flatten = pieces'.flatten) :
    pieces = pieces' := by
  induction h generalizing pieces' with
  | nil =>
    cases h' with
    | nil => rfl
    | cons hPiece' _ => exact absurd hEq.symm (hPiece'.append_ne_nil _)
  | cons hPiece _ ih =>
    cases h' with
    | nil => exact absurd hEq (hPiece.append_ne_nil _)
    | cons hPiece' hRest' =>
      rw [List.flatten_cons, List.flatten_cons] at hEq
      obtain rfl := hPiece.eq_of_append_eq hPiece' hEq
      rw [ih hRest' (List.append_cancel_left hEq)]

theorem Splits.unique {code : Bytes} (h : Splits code pieces) (h' : Splits code pieces') :
    pieces = pieces' :=
  h.1.eq_of_flatten_eq h'.1 (h.2.symm.trans h'.2)

theorem Instructions.tiles (h : Instructions offset pieces) (hOffset : offset ≤ code.size)
    (hCode : code.toList.drop offset = pieces.flatten) :
    Tiles code offset (startsFrom offset pieces) := by
  induction h with
  | @nil offset =>
    have hLength := congrArg List.length hCode
    rw [List.length_drop, Array.length_toList] at hLength
    obtain rfl : offset = code.size := Nat.le_antisymm hOffset (Nat.le_of_sub_eq_zero hLength)
    exact .done
  | @cons offset piece pieces hPiece _ ih =>
    rw [List.flatten_cons] at hCode
    obtain ⟨opcode, hOpcode, hLength⟩ := hPiece.length_eq_ok hCode
    have hLengths := congrArg List.length hCode
    rw [List.length_drop, Array.length_toList, List.length_append] at hLengths
    exact .step hOpcode hLength (ih (by omega) (drop_past hCode))

theorem length_take_drop (h : offset + length ≤ code.size) :
    ((code.toList.drop offset).take length).length = length := by
  simp
  omega

theorem instruction_take (hOpcode : code[offset]? = some opcode)
    (hLength : instructionLength code offset opcode = .ok length)
    (h : offset + length ≤ code.size) :
    Instruction offset ((code.toList.drop offset).take length) := by
  refine instruction_of_length (List.take_append_drop length _).symm hOpcode ?_
  rw [hLength, length_take_drop h]

theorem Tiles.instructions (h : Tiles code offset boundaries) :
    ∃ pieces, Instructions offset pieces ∧ code.toList.drop offset = pieces.flatten ∧
      boundaries = startsFrom offset pieces := by
  induction h with
  | done => exact ⟨[], .nil, by simp, rfl⟩
  | @step offset length opcode boundaries hOpcode hLength hRest ih =>
    obtain ⟨pieces, hPieces, hDrop, rfl⟩ := ih
    have hTake := length_take_drop hRest.le_size
    refine ⟨(code.toList.drop offset).take length :: pieces, ?_, ?_, ?_⟩
    · exact .cons (instruction_take hOpcode hLength hRest.le_size) (by rw [hTake]; exact hPieces)
    · rw [List.flatten_cons, ← hDrop, ← List.drop_drop, List.take_append_drop]
    · rw [startsFrom, hTake]

theorem Instructions.width_lt (h : Instructions offset pieces)
    (hCode : code.toList.drop offset = pieces.flatten)
    (hMem : (start, piece) ∈ (startsFrom offset pieces).zip pieces) :
    (operandAt code start).width < piece.length := by
  induction h with
  | nil => cases hMem
  | @cons offset head pieces hHead _ ih =>
    rw [List.flatten_cons] at hCode
    rcases List.mem_cons.mp hMem with hEq | hRest
    · cases hEq
      obtain ⟨opcode, hOpcode, hLength⟩ := hHead.length_eq_ok hCode
      by_contra hLe
      have hPlace : start + piece.length ∈ operandPlaces code start := by
        have hPos := hHead.length_pos
        rw [mem_operandPlaces]
        omega
      have := (operandPlaces_within hOpcode hLength hPlace).2
      omega
    · exact ih (drop_past hCode) hRest

/-! ### Splitting -/

theorem splitFrom_of_tiles (h : Tiles code offset boundaries) (done : List Nat) :
    splitFrom code offset done = .ok (done.reverse ++ boundaries) := by
  induction h generalizing done with
  | done =>
    rw [splitFrom, dif_neg (Nat.lt_irrefl _), List.append_nil]
  | @step offset length opcode rest hOpcode hLength hRest ih =>
    obtain ⟨hLt, rfl⟩ := Array.getElem?_eq_some_iff.mp hOpcode
    rw [splitFrom, dif_pos hLt]
    split
    next cause hCause => cases hLength.symm.trans hCause
    next other hOther =>
      cases hLength.symm.trans hOther
      rw [dif_pos hRest.le_size, ih]
      simp

/-- Bytes are split just if they are instructions, and then where these start. -/
theorem split_eq_ok : split code = .ok boundaries ↔
    ∃ pieces, Splits code.toList pieces ∧ boundaries = startsFrom 0 pieces := by
  constructor
  · intro h
    obtain ⟨pieces, hPieces, hCode, hStarts⟩ := (split_tiles h).instructions
    exact ⟨pieces, ⟨hPieces, hCode⟩, hStarts⟩
  · rintro ⟨pieces, ⟨hPieces, hCode⟩, rfl⟩
    exact splitFrom_of_tiles (hPieces.tiles (Nat.zero_le _) hCode) []

/-- Instructions stand before the offset, and none begins there. -/
def StopsAt (code : Bytes) (stop : Nat) : Prop :=
  ∃ pieces rest, Instructions 0 pieces ∧ code = pieces.flatten ++ rest ∧
    stop = pieces.flatten.length ∧ rest ≠ [] ∧ ∀ piece, piece <+: rest → ¬Instruction stop piece

theorem not_instruction_of_lt (hLt : offset < code.size)
    (hNone : ∀ length, instructionLength code offset code[offset] = .ok length →
      code.size < offset + length) :
    code.toList.drop offset ≠ [] ∧
      ∀ piece, piece <+: code.toList.drop offset → ¬Instruction offset piece := by
  refine ⟨by simpa using hLt, ?_⟩
  rintro piece ⟨rest, hRest⟩ hPiece
  obtain ⟨opcode, hOpcode, hLength⟩ := hPiece.length_eq_ok hRest.symm
  rw [Array.getElem?_eq_getElem hLt] at hOpcode
  cases hOpcode
  have hLengths : piece.length + rest.length = code.size - offset := by
    rw [← List.length_append, hRest, List.length_drop, Array.length_toList]
  have := hNone _ hLength
  omega

theorem splitFrom_error (h : splitFrom code offset done = .error (stop, cause)) :
    ∃ pieces rest, Instructions offset pieces ∧ code.toList.drop offset = pieces.flatten ++ rest ∧
      stop = offset + pieces.flatten.length ∧ rest ≠ [] ∧
      ∀ piece, piece <+: rest → ¬Instruction stop piece := by
  fun_induction splitFrom code offset done with
  | case1 offset done hLt fault hFault =>
    cases h
    refine ⟨[], _, .nil, rfl, rfl, not_instruction_of_lt hLt fun length hLength => ?_⟩
    cases hFault.symm.trans hLength
  | case2 offset done hLt length hLength hFits ih =>
    obtain ⟨pieces, rest, hPieces, hDrop, hStop, hRest⟩ := ih h
    have hTake := length_take_drop hFits
    refine ⟨(code.toList.drop offset).take length :: pieces, rest, ?_, ?_, ?_, hRest⟩
    · exact .cons (instruction_take (Array.getElem?_eq_getElem hLt) hLength hFits)
        (by rw [hTake]; exact hPieces)
    · rw [List.flatten_cons, List.append_assoc, ← hDrop, ← List.drop_drop, List.take_append_drop]
    · rw [hStop, List.flatten_cons, List.length_append, hTake, Nat.add_assoc]
  | case3 offset done hLt length hLength hFits =>
    cases h
    refine ⟨[], _, .nil, rfl, rfl, not_instruction_of_lt hLt fun other hOther => ?_⟩
    cases hLength.symm.trans hOther
    omega
  | case4 => cases h

theorem split_error (h : split code = .error (stop, cause)) : StopsAt code.toList stop := by
  obtain ⟨pieces, rest, hPieces, hCode, hStop, hRest⟩ := splitFrom_error h
  exact ⟨pieces, rest, hPieces, hCode, by rw [hStop, Nat.zero_add], hRest⟩

/-! ### Scanning -/

namespace Bytecode

/-- What scanning makes of code that is split into the pieces: it notes where they start and which of
them refer to constants, and touches nothing else. -/
structure Records (unit : Bytecode) (pieces : List Bytes) (scanned : Bytecode) : Prop where
  rest_eq : scanned = { unit with
    boundaries := scanned.boundaries
    singles := scanned.singles
    doubles := scanned.doubles
    progress := .scanned }
  boundaries_eq : scanned.boundaries = startsFrom 0 pieces
  increasing : scanned.boundaries.Pairwise (· < ·)
  head_eq : unit.code.size ≠ 0 → scanned.boundaries.head? = some 0
  singles_eq : scanned.singles =
    scanned.boundaries.filter fun offset => operandAt unit.code offset = .single
  doubles_eq : scanned.doubles =
    scanned.boundaries.filter fun offset => operandAt unit.code offset = .double
  inside : ∀ start piece, (start, piece) ∈ scanned.boundaries.zip pieces →
    (operandAt unit.code start).width < piece.length
  single_isSome : ∀ offset ∈ scanned.singles, (scanned.single? offset).isSome
  double_isSome : ∀ offset ∈ scanned.doubles, (scanned.double? offset).isSome

variable {unit : Bytecode}

section Fresh

variable (hFresh : ¬(unit.progress = .indicesResolved ∨ unit.progress = .relocated))
  (hSize : unit.code.size ≤ 65535)
include hFresh hSize

theorem scan_of_split (h : split unit.code = .ok boundaries) :
    unit.scan = .ok { unit with
      boundaries
      singles := boundaries.filter fun offset => operandAt unit.code offset = .single
      doubles := boundaries.filter fun offset => operandAt unit.code offset = .double
      progress := .scanned } := by
  unfold scan
  rw [if_neg hFresh, if_neg (Nat.not_lt.mpr hSize), h]

theorem scan_of_split_error (h : split unit.code = .error (stop, cause)) :
    unit.scan = .error (.scan ⟨unit.method, stop, cause⟩) := by
  unfold scan
  rw [if_neg hFresh, if_neg (Nat.not_lt.mpr hSize), h]

end Fresh

theorem records_of_splits (hSize : unit.code.size ≤ 65535) (h : Splits unit.code.toList pieces) :
    unit.Records pieces { unit with
      boundaries := startsFrom 0 pieces
      singles := (startsFrom 0 pieces).filter fun offset => operandAt unit.code offset = .single
      doubles := (startsFrom 0 pieces).filter fun offset => operandAt unit.code offset = .double
      progress := .scanned } := by
  have hTiles := h.1.tiles (Nat.zero_le _) h.2
  have hScanned : Scanned { unit with
      boundaries := startsFrom 0 pieces
      singles := (startsFrom 0 pieces).filter fun offset => operandAt unit.code offset = .single
      doubles := (startsFrom 0 pieces).filter fun offset => operandAt unit.code offset = .double
      progress := .scanned } := ⟨rfl, hSize, hTiles, rfl, rfl⟩
  refine ⟨rfl, rfl, hTiles.pairwise, ?_, rfl, rfl, ?_, ?_, ?_⟩
  · intro hEmpty
    exact hTiles.head?_eq (Nat.pos_of_ne_zero hEmpty)
  · intro start piece hMem
    exact h.1.width_lt h.2 hMem
  · intro offset hOffset
    exact Option.isSome_iff_exists.mpr (hScanned.exists_single hOffset)
  · intro offset hOffset
    exact Option.isSome_iff_exists.mpr (hScanned.exists_double hOffset)

/-- Scanning accepts exactly the sequences of complete instructions. It finds where they start and
which refer to constants, or stops at the first bytes that are no instruction and changes nothing. -/
theorem scan_recognises_instructions (unit : Bytecode)
    (hProgress : unit.progress = .unscanned ∨ unit.progress = .scanned)
    (hSize : unit.code.size ≤ 65535) :
    (unit.scanInPlace.1 = .ok () ↔ ∃ pieces, Splits unit.code.toList pieces) ∧
      (∀ scanned, unit.scanInPlace = (.ok (), scanned) →
        ∃ pieces, Splits unit.code.toList pieces ∧ unit.Records pieces scanned ∧
          ∀ other, Splits unit.code.toList other → other = pieces) ∧
      ∀ fault after, unit.scanInPlace = (.error fault, after) → after = unit ∧
        ∃ stop cause, fault = .scan ⟨unit.method, stop, cause⟩ ∧
          StopsAt unit.code.toList stop := by
  have hFresh : ¬(unit.progress = .indicesResolved ∨ unit.progress = .relocated) := by
    rcases hProgress with hProgress | hProgress <;> simp [hProgress]
  unfold scanInPlace
  cases hSplit : split unit.code with
  | error failed =>
    obtain ⟨stop, cause⟩ := failed
    rw [scan_of_split_error hFresh hSize hSplit]
    refine ⟨?_, ?_, ?_⟩
    · refine iff_of_false (fun hOk => by cases hOk) ?_
      rintro ⟨pieces, hPieces⟩
      cases hSplit.symm.trans (split_eq_ok.mpr ⟨pieces, hPieces, rfl⟩)
    · intro scanned hOk
      cases hOk
    · intro fault after hError
      cases hError
      exact ⟨rfl, stop, cause, rfl, split_error hSplit⟩
  | ok boundaries =>
    rw [scan_of_split hFresh hSize hSplit]
    obtain ⟨pieces, hPieces, rfl⟩ := split_eq_ok.mp hSplit
    refine ⟨iff_of_true rfl ⟨pieces, hPieces⟩, ?_, ?_⟩
    · intro scanned hOk
      cases hOk
      exact ⟨pieces, hPieces, records_of_splits hSize hPieces, fun other hOther => hOther.unique hPieces⟩
    · intro fault after hError
      cases hError

/-- A table switch behind one other instruction, so that two bytes of padding follow its opcode, then
a load and a `wide` form. -/
def switching : Bytecode := ofBytes "Test.run()V" [
  0x03, 0xAA, 0x00, 0x00, 0x00, 0x00, 0x00, 0x1C, 0xFF, 0xFF, 0xFF, 0xFF, 0x00, 0x00, 0x00, 0x00,
  0x00, 0x00, 0x00, 0x14, 0x00, 0x00, 0x00, 0x14, 0x12, 0x01, 0xC4, 0x84, 0x01, 0x00, 0xFF, 0xFF]

theorem scan_recognises_switching :
    switching.progress = .unscanned ∧ switching.code.size ≤ 65535 ∧
      ∃ scanned pieces, switching.scanInPlace = (.ok (), scanned) ∧
        scanned.boundaries = [0, 1, 24, 26] ∧ scanned.singles = [24] ∧
        Splits switching.code.toList pieces ∧ switching.Records pieces scanned ∧
        ∀ other, Splits switching.code.toList other → other = pieces := by
  have hSize : switching.code.size ≤ 65535 := by decide
  have hScan : switching.scanInPlace = (.ok (), { switching with
      boundaries := [0, 1, 24, 26], singles := [24], doubles := [], progress := .scanned }) := by
    decide +kernel
  obtain ⟨pieces, hPieces⟩ :=
    (scan_recognises_instructions switching (.inl rfl) hSize).2.1 _ hScan
  exact ⟨rfl, hSize, _, pieces, hScan, rfl, rfl, hPieces⟩

end Bytecode

end ClassRom
