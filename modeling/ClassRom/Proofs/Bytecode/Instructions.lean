import ClassRom.Bytecode
import Mathlib.Data.List.Sort

/-!
# Instructions

Code that can be split is filled by its instructions without gaps: each starts where the one before
it ends. So the operands of different instructions never share a byte, and an operand is never cut
off by the end of the code. The operands that scanning finds are listed here once more, place by place
and without scanning.
-/

namespace ClassRom

set_option autoImplicit false

variable {code : Array UInt8} {opcode : UInt8} {offset length place a b : Nat}
  {boundaries : List Nat}

theorem lt_switchOperands (offset : Nat) : offset < switchOperands offset := by
  unfold switchOperands
  omega

theorem Opcode.two_lt_of_wideLength? (h : wideLength? opcode = some length) : 2 < length := by
  unfold wideLength? at h
  split at h
  · cases h
    decide
  · split at h
    · cases h
      decide
    · cases h

/-- The four forms of instructions, each with what its length depends on. -/
theorem instructionLength_eq_ok :
    instructionLength code offset opcode = .ok length ↔
      Opcode.length? opcode = some length ∨
      (opcode = Opcode.wide ∧ ∃ widened, code[offset + 1]? = some widened ∧
        Opcode.wideLength? widened = some length) ∨
      (opcode = Opcode.tableswitch ∧ ∃ low high,
        int32At? code (switchOperands offset + 4) = some low ∧
        int32At? code (switchOperands offset + 8) = some high ∧
        length = switchOperands offset + 12 + 4 * (high - low + 1).toNat - offset) ∨
      (opcode = Opcode.lookupswitch ∧ ∃ pairs,
        int32At? code (switchOperands offset + 4) = some pairs ∧
        length = switchOperands offset + 8 + 8 * pairs.toNat - offset) := by
  have hVariable : ∀ known ∈ [Opcode.wide, Opcode.tableswitch, Opcode.lookupswitch],
      Opcode.length? known = none := by
    rw [List.forall_mem_cons, List.forall_mem_cons, List.forall_mem_singleton]
    decide
  unfold instructionLength
  cases hLength : Opcode.length? opcode with
  | some known =>
    have hFixed : opcode ∉ [Opcode.wide, Opcode.tableswitch, Opcode.lookupswitch] := by
      intro hMem
      cases (hVariable opcode hMem).symm.trans hLength
    simp only [List.mem_cons, List.not_mem_nil, or_false, not_or] at hFixed
    simp [hFixed]
  | none =>
    have hTableLookup : Opcode.tableswitch ≠ Opcode.lookupswitch := by decide
    have hTableWide : Opcode.tableswitch ≠ Opcode.wide := by decide
    have hLookupWide : Opcode.lookupswitch ≠ Opcode.wide := by decide
    dsimp only
    split
    next hTable =>
      subst hTable
      simp only [reduceCtorEq, hTableWide, hTableLookup, false_and, or_false, false_or, true_and]
      split
      next low high hLow hHigh => simp [hLow, hHigh, eq_comm]
      next hNone =>
        simp only [reduceCtorEq, false_iff]
        rintro ⟨low, high, hLow, hHigh, _⟩
        exact hNone low high hLow hHigh
    next hTable =>
      split
      next hLookup =>
        subst hLookup
        simp only [reduceCtorEq, hLookupWide, hTable, false_and, false_or, true_and]
        cases int32At? code (switchOperands offset + 4) <;> simp [eq_comm]
      next hLookup =>
        split
        next hWide =>
          subst hWide
          simp only [reduceCtorEq, hTable, hLookup, false_and, or_false, false_or, true_and]
          cases code[offset + 1]? with
          | none => simp
          | some widened =>
            simp only [Option.some.injEq, exists_eq_left']
            cases Opcode.wideLength? widened <;> simp
        next hWide => simp [hWide, hTable, hLookup]

/-- An instruction starts at the offset: the first one at 0, each other where the one before it
ends. -/
inductive InstructionAt (code : Array UInt8) : Nat → Prop where
  | first : 0 < code.size → InstructionAt code 0
  | next {offset length : Nat} {opcode : UInt8} :
      InstructionAt code offset → code[offset]? = some opcode →
      instructionLength code offset opcode = .ok length → offset + length < code.size →
      InstructionAt code (offset + length)

/-- The instructions at the listed offsets fill the code from the given offset to its end. -/
inductive Tiles (code : Array UInt8) : Nat → List Nat → Prop where
  | done : Tiles code code.size []
  | step {offset length : Nat} {opcode : UInt8} {rest : List Nat} :
      code[offset]? = some opcode → instructionLength code offset opcode = .ok length →
      Tiles code (offset + length) rest → Tiles code offset (offset :: rest)

theorem splitFrom_tiles {done : List Nat} (h : splitFrom code offset done = .ok boundaries)
    (hOffset : offset ≤ code.size) :
    ∃ rest, boundaries = done.reverse ++ rest ∧ Tiles code offset rest := by
  fun_induction splitFrom code offset done with
  | case1 => cases h
  | case2 offset done hLt length hLength hFits ih =>
    obtain ⟨rest, rfl, hRest⟩ := ih h hFits
    exact ⟨offset :: rest, by simp, .step (Array.getElem?_eq_getElem hLt) hLength hRest⟩
  | case3 => cases h
  | case4 offset done hLt =>
    cases h
    obtain rfl : offset = code.size := by omega
    exact ⟨[], (List.append_nil _).symm, .done⟩

theorem split_tiles (h : split code = .ok boundaries) : Tiles code 0 boundaries := by
  obtain ⟨rest, rfl, hRest⟩ := splitFrom_tiles h (Nat.zero_le _)
  exact hRest

namespace Tiles

theorem le_size (h : Tiles code offset boundaries) : offset ≤ code.size := by
  induction h with
  | done => exact Nat.le_refl _
  | step _ _ _ ih => omega

theorem headD_eq (h : Tiles code offset boundaries) : boundaries.headD code.size = offset := by
  cases h <;> rfl

theorem head_mem (h : Tiles code offset boundaries) (hLt : offset < code.size) :
    offset ∈ boundaries := by
  cases h with
  | done => exact absurd hLt (Nat.lt_irrefl _)
  | step _ _ _ => exact List.mem_cons_self

theorem head?_eq (h : Tiles code offset boundaries) (hLt : offset < code.size) :
    boundaries.head? = some offset := by
  cases h with
  | done => exact absurd hLt (Nat.lt_irrefl _)
  | step _ _ _ => rfl

theorem bounds_of_mem (h : Tiles code offset boundaries) (ha : a ∈ boundaries) :
    offset ≤ a ∧ a < code.size := by
  induction h with
  | done => cases ha
  | step hOpcode hLength _ ih =>
    rcases List.mem_cons.mp ha with rfl | hRest
    · obtain ⟨hLt, _⟩ := Array.getElem?_eq_some_iff.mp hOpcode
      exact ⟨Nat.le_refl _, hLt⟩
    · have := ih hRest
      omega

theorem pairwise (h : Tiles code offset boundaries) : boundaries.Pairwise (· < ·) := by
  induction h with
  | done => exact .nil
  | step _ hLength hRest ih =>
    refine .cons (fun a ha => ?_) ih
    have := (hRest.bounds_of_mem ha).1
    have := instructionLength_pos hLength
    omega

theorem length_of_mem (h : Tiles code offset boundaries) (ha : a ∈ boundaries) :
    ∃ opcode length, code[a]? = some opcode ∧ instructionLength code a opcode = .ok length ∧
      a + length ≤ code.size := by
  induction h with
  | done => cases ha
  | step hOpcode hLength hRest ih =>
    rcases List.mem_cons.mp ha with rfl | hMem
    · exact ⟨_, _, hOpcode, hLength, hRest.le_size⟩
    · exact ih hMem

/-- An instruction ends before any later one starts. -/
theorem end_le (h : Tiles code offset boundaries) (ha : a ∈ boundaries) (hb : b ∈ boundaries)
    (hOpcode : code[a]? = some opcode) (hLength : instructionLength code a opcode = .ok length)
    (hLt : a < b) : a + length ≤ b := by
  induction h with
  | done => cases ha
  | step hOpcode' hLength' hRest ih =>
    rcases List.mem_cons.mp ha with rfl | haRest <;> rcases List.mem_cons.mp hb with rfl | hbRest
    · omega
    · rw [hOpcode] at hOpcode'
      cases hOpcode'
      rw [hLength] at hLength'
      cases hLength'
      exact (hRest.bounds_of_mem hbRest).1
    · have := (hRest.bounds_of_mem haRest).1
      omega
    · exact ih haRest hbRest

theorem mem_of_next (h : Tiles code offset boundaries) (ha : a ∈ boundaries)
    (hOpcode : code[a]? = some opcode) (hLength : instructionLength code a opcode = .ok length)
    (hLt : a + length < code.size) : a + length ∈ boundaries := by
  induction h with
  | done => cases ha
  | step hOpcode' hLength' hRest ih =>
    rcases List.mem_cons.mp ha with rfl | haRest
    · rw [hOpcode] at hOpcode'
      cases hOpcode'
      rw [hLength] at hLength'
      cases hLength'
      exact List.mem_cons_of_mem _ (hRest.head_mem hLt)
    · exact List.mem_cons_of_mem _ (ih haRest)

/-- Each instruction reaches up to where the next one starts, the last up to the end. -/
theorem cut {i start : Nat} (h : Tiles code offset boundaries)
    (hStart : boundaries[i]? = some start) :
    start ≤ boundaries[i + 1]?.getD code.size ∧ boundaries[i + 1]?.getD code.size ≤ code.size := by
  induction h generalizing i with
  | done => cases hStart
  | @step offset length opcode rest _ _ hRest ih =>
    cases i with
    | zero =>
      have hNext : (offset :: rest)[0 + 1]?.getD code.size = offset + length := by
        rw [← hRest.headD_eq, List.getElem?_cons_succ, List.headD_eq_head?_getD,
          List.head?_eq_getElem?]
      obtain rfl : offset = start := Option.some.inj hStart
      rw [hNext]
      exact ⟨Nat.le_add_right _ _, hRest.le_size⟩
    | succ i => exact ih hStart

theorem instructionAt_of_mem (h : Tiles code offset boundaries)
    (hOffset : offset < code.size → InstructionAt code offset) (ha : a ∈ boundaries) :
    InstructionAt code a := by
  induction h with
  | done => cases ha
  | step hOpcode hLength hRest ih =>
    obtain ⟨hLt, _⟩ := Array.getElem?_eq_some_iff.mp hOpcode
    rcases List.mem_cons.mp ha with rfl | haRest
    · exact hOffset hLt
    · exact ih (fun hNext => .next (hOffset hLt) hOpcode hLength hNext) haRest

theorem mem_iff (h : Tiles code 0 boundaries) : a ∈ boundaries ↔ InstructionAt code a := by
  constructor
  · exact h.instructionAt_of_mem .first
  · intro ha
    induction ha with
    | first hSize => exact h.head_mem hSize
    | next _ hOpcode hLength hLt ih => exact h.mem_of_next ih hOpcode hLength hLt

end Tiles

/-! ### Operands -/

/-- The number of bytes that a constant operand takes. -/
def Opcode.Operand.width : Operand → Nat
  | .none => 0
  | .single => 1
  | .double => 2

/-- The places of the bytes that make up the constant operand of the instruction at `offset`. -/
def operandPlaces (code : Array UInt8) (offset : Nat) : List Nat :=
  List.range' (offset + 1) (operandAt code offset).width

theorem mem_operandPlaces :
    place ∈ operandPlaces code offset ↔
      offset < place ∧ place ≤ offset + (operandAt code offset).width := by
  unfold operandPlaces
  rw [List.mem_range'_1]
  omega

theorem Opcode.width_lt_length? (h : Opcode.operand opcode ≠ .none) :
    ∃ length, Opcode.length? opcode = some length ∧ (Opcode.operand opcode).width < length := by
  have hAll : ∀ known ∈ singleOpcodes ++ doubleOpcodes,
      (length? known).any ((operand known).width < ·) := by decide +kernel
  have hMem : opcode ∈ singleOpcodes ++ doubleOpcodes := by
    unfold operand at h
    split at h
    next hSingle => exact List.mem_append_left _ hSingle
    next =>
      split at h
      next hDouble => exact List.mem_append_right _ hDouble
      next => exact absurd rfl h
  simpa [Option.any_eq_true] using hAll opcode hMem

theorem instructionLength_of_length? (h : Opcode.length? opcode = some length) (code : Array UInt8)
    (offset : Nat) : instructionLength code offset opcode = .ok length := by
  unfold instructionLength
  rw [h]

theorem operandPlaces_within (hOpcode : code[offset]? = some opcode)
    (hLength : instructionLength code offset opcode = .ok length)
    (hPlace : place ∈ operandPlaces code offset) : offset < place ∧ place < offset + length := by
  have hOperand : operandAt code offset = Opcode.operand opcode := by
    unfold operandAt
    rw [hOpcode]
  rw [mem_operandPlaces, hOperand] at hPlace
  by_cases hNone : Opcode.operand opcode = .none
  · rw [hNone] at hPlace
    simp only [Opcode.Operand.width] at hPlace
    omega
  · obtain ⟨known, hKnown, hWidth⟩ := Opcode.width_lt_length? hNone
    rw [instructionLength_of_length? hKnown] at hLength
    cases hLength
    omega

namespace Tiles

theorem place_lt_size (h : Tiles code offset boundaries) (ha : a ∈ boundaries)
    (hPlace : place ∈ operandPlaces code a) : place < code.size := by
  obtain ⟨opcode, length, hOpcode, hLength, hEnd⟩ := h.length_of_mem ha
  have := operandPlaces_within hOpcode hLength hPlace
  omega

/-- No byte belongs to the operands of two instructions. -/
theorem eq_of_mem_operandPlaces (h : Tiles code offset boundaries) (ha : a ∈ boundaries)
    (hb : b ∈ boundaries) (hPlaceA : place ∈ operandPlaces code a)
    (hPlaceB : place ∈ operandPlaces code b) : a = b := by
  obtain ⟨opcodeA, lengthA, hOpcodeA, hLengthA, _⟩ := h.length_of_mem ha
  obtain ⟨opcodeB, lengthB, hOpcodeB, hLengthB, _⟩ := h.length_of_mem hb
  have hWithinA := operandPlaces_within hOpcodeA hLengthA hPlaceA
  have hWithinB := operandPlaces_within hOpcodeB hLengthB hPlaceB
  rcases Nat.lt_trichotomy a b with hLt | hEq | hLt
  · have := h.end_le ha hb hOpcodeA hLengthA hLt
    omega
  · exact hEq
  · have := h.end_le hb ha hOpcodeB hLengthB hLt
    omega

end Tiles

namespace Bytecode

variable {unit scanned : Bytecode}

theorem single?_congr (h : scanned.code = unit.code) : scanned.single? = unit.single? := by
  funext offset
  unfold single?
  rw [h]

theorem double?_congr (h : scanned.code = unit.code) : scanned.double? = unit.double? := by
  funext offset
  unfold double?
  rw [h]

/-- What is known of scanned code. -/
structure Scanned (unit : Bytecode) : Prop where
  progress_eq : unit.progress = .scanned
  size_le : unit.code.size ≤ 65535
  tiles : Tiles unit.code 0 unit.boundaries
  singles_eq : unit.singles =
    unit.boundaries.filter fun offset => operandAt unit.code offset = .single
  doubles_eq : unit.doubles =
    unit.boundaries.filter fun offset => operandAt unit.code offset = .double

theorem scan_ok (h : unit.scan = .ok scanned) :
    scanned.Scanned ∧ scanned.method = unit.method ∧ scanned.code = unit.code := by
  unfold scan at h
  split at h
  next => cases h
  next =>
    split at h
    next => cases h
    next hSize =>
      split at h
      next => cases h
      next boundaries hSplit =>
        cases h
        exact ⟨⟨rfl, Nat.not_lt.mp hSize, split_tiles hSplit, rfl, rfl⟩, rfl, rfl⟩

theorem scanInPlace_cases (unit : Bytecode) :
    (∃ fault, unit.scanInPlace = (.error fault, unit)) ∨
      ∃ scanned, unit.scan = .ok scanned ∧ unit.scanInPlace = (.ok (), scanned) := by
  unfold scanInPlace
  cases hScan : unit.scan with
  | error fault => exact .inl ⟨fault, rfl⟩
  | ok scanned => exact .inr ⟨scanned, rfl, rfl⟩

theorem Scanned.mem_singles (h : unit.Scanned) :
    offset ∈ unit.singles ↔
      InstructionAt unit.code offset ∧ operandAt unit.code offset = .single := by
  rw [h.singles_eq, List.mem_filter, h.tiles.mem_iff, decide_eq_true_iff]

theorem Scanned.mem_doubles (h : unit.Scanned) :
    offset ∈ unit.doubles ↔
      InstructionAt unit.code offset ∧ operandAt unit.code offset = .double := by
  rw [h.doubles_eq, List.mem_filter, h.tiles.mem_iff, decide_eq_true_iff]

theorem Scanned.exists_single (h : unit.Scanned) (hOffset : offset ∈ unit.singles) :
    ∃ index, unit.single? offset = some index := by
  rw [h.mem_singles, ← h.tiles.mem_iff] at hOffset
  have hLt : offset + 1 < unit.code.size := h.tiles.place_lt_size hOffset.1
    (by rw [mem_operandPlaces, hOffset.2]; simp [Opcode.Operand.width])
  unfold single?
  rw [Array.getElem?_eq_getElem hLt]
  exact ⟨_, rfl⟩

theorem Scanned.exists_double (h : unit.Scanned) (hOffset : offset ∈ unit.doubles) :
    ∃ index, unit.double? offset = some index := by
  rw [h.mem_doubles, ← h.tiles.mem_iff] at hOffset
  have hLt : offset + 2 < unit.code.size := h.tiles.place_lt_size hOffset.1
    (by rw [mem_operandPlaces, hOffset.2]; simp [Opcode.Operand.width])
  unfold double?
  rw [Array.getElem?_eq_getElem (show offset + 1 < unit.code.size by omega),
    Array.getElem?_eq_getElem hLt]
  exact ⟨_, rfl⟩

end Bytecode

/-! ### Operands by place -/

open Classical in
/-- The offsets of the instructions that have such an operand. -/
noncomputable def operandOffsets (code : Array UInt8) (operand : Opcode.Operand) : List Nat :=
  (List.range code.size).filter fun offset =>
    InstructionAt code offset ∧ operandAt code offset = operand

theorem Tiles.filter_operandAt (h : Tiles code 0 boundaries) (operand : Opcode.Operand) :
    boundaries.filter (fun offset => operandAt code offset = operand) =
      operandOffsets code operand := by
  refine (h.pairwise.filter _).eq_of_mem_iff (List.pairwise_lt_range.filter _) fun a => ?_
  simp only [operandOffsets, List.mem_filter, List.mem_range, decide_eq_true_eq]
  constructor
  · rintro ⟨ha, hKind⟩
    exact ⟨(h.bounds_of_mem ha).2, h.mem_iff.mp ha, hKind⟩
  · rintro ⟨_, ha, hKind⟩
    exact ⟨h.mem_iff.mpr ha, hKind⟩

namespace Bytecode

variable {unit : Bytecode}

noncomputable def oneByteOperands (unit : Bytecode) : List UInt16 :=
  (operandOffsets unit.code .single).filterMap unit.single?

noncomputable def twoByteOperands (unit : Bytecode) : List UInt16 :=
  (operandOffsets unit.code .double).filterMap unit.double?

theorem oneByteOperands_congr {unit' : Bytecode} (h : unit'.code = unit.code) :
    unit'.oneByteOperands = unit.oneByteOperands := by
  unfold oneByteOperands
  rw [h, single?_congr h]

theorem twoByteOperands_congr {unit' : Bytecode} (h : unit'.code = unit.code) :
    unit'.twoByteOperands = unit.twoByteOperands := by
  unfold twoByteOperands
  rw [h, double?_congr h]

theorem map_getD_eq_filterMap {offsets : List Nat} {get : Nat → Option UInt16}
    (h : ∀ offset ∈ offsets, ∃ index, get offset = some index) :
    (offsets.map fun offset => (get offset).getD 0) = offsets.filterMap get := by
  induction offsets with
  | nil => rfl
  | cons offset offsets ih =>
    obtain ⟨index, hIndex⟩ := h offset List.mem_cons_self
    rw [List.map_cons, List.filterMap_cons_some hIndex, hIndex,
      ih fun other hOther => h other (List.mem_cons_of_mem offset hOther)]
    rfl

theorem Scanned.map_index_singleUses (h : unit.Scanned) :
    unit.singleUses.map Use.index = unit.oneByteOperands := by
  have hOffsets := h.tiles.filter_operandAt .single
  rw [← h.singles_eq] at hOffsets
  unfold singleUses oneByteOperands
  rw [List.map_map, ← hOffsets, ← map_getD_eq_filterMap fun _ => h.exists_single]
  rfl

theorem Scanned.map_index_doubleUses (h : unit.Scanned) :
    unit.doubleUses.map Use.index = unit.twoByteOperands := by
  have hOffsets := h.tiles.filter_operandAt .double
  rw [← h.doubles_eq] at hOffsets
  unfold doubleUses twoByteOperands
  rw [List.map_map, ← hOffsets, ← map_getD_eq_filterMap fun _ => h.exists_double]
  rfl

theorem filter_single_uses (unit : Bytecode) : unit.uses.filter Use.single = unit.singleUses := by
  unfold uses singleUses doubleUses
  simp [List.filter_append, List.filter_map, Function.comp_def]

end Bytecode

end ClassRom
