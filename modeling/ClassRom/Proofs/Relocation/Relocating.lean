import ClassRom.Proofs.Relocation.Operands

/-!
# Relocating methods

Relocated code differs from the code before it in the bytes of its constant operands only, and each
operand refers to the same constant as before. Relocation fails only if a one-byte operand has no
room for a final index or an offset in a side table is misplaced.
-/

namespace ClassRom

set_option autoImplicit false

/-- Every constant operand is replaced by a related one, and all other bytes are kept. -/
structure Bytecode.Reindexed (R : UInt16 → UInt16 → Prop) (before after : Bytecode) : Prop where
  method_eq : after.method = before.method
  size_eq : after.code.size = before.code.size
  single : ∀ offset, InstructionAt before.code offset → operandAt before.code offset = .single →
    ∃ index index', before.single? offset = some index ∧ after.single? offset = some index' ∧
      R index index'
  double : ∀ offset, InstructionAt before.code offset → operandAt before.code offset = .double →
    ∃ index index', before.double? offset = some index ∧ after.double? offset = some index' ∧
      R index index'
  elsewhere : ∀ place, (∀ offset, InstructionAt before.code offset →
    place ∉ operandPlaces before.code offset) → after.code[place]? = before.code[place]?

namespace Relocation

variable {table : Table} {pool : Pool} {map : HandleMap} {unit : Bytecode} {tables : SideTables}
  {found : Operands} {offset place : Nat} {byte byte' : UInt8}

theorem mem_bytes : (place, byte) ∈ found.bytes ↔
    (∃ offset, (offset, byte) ∈ found.singles ∧ place = offset + 1) ∨
    ∃ offset word, (offset, word) ∈ found.doubles ∧
      ((place = offset + 1 ∧ byte = UInt8.ofNat (word.toNat / 256)) ∨
        (place = offset + 2 ∧ byte = UInt8.ofNat word.toNat)) := by
  unfold Operands.bytes
  simp [eq_comm]

section Bytes

variable (hScanned : unit.Scanned) (hFound : Found pool map unit tables found)
include hScanned hFound

/-- Each byte written belongs to the operand of an instruction, and it is clear which. -/
theorem exists_of_mem_bytes (hMem : (place, byte) ∈ found.bytes) :
    ∃ offset ∈ unit.boundaries, place ∈ operandPlaces unit.code offset ∧
      ((operandAt unit.code offset = .single ∧ (offset, byte) ∈ found.singles) ∨
        ∃ word, operandAt unit.code offset = .double ∧ (offset, word) ∈ found.doubles ∧
          ((place = offset + 1 ∧ byte = UInt8.ofNat (word.toNat / 256)) ∨
            (place = offset + 2 ∧ byte = UInt8.ofNat word.toNat))) := by
  rcases mem_bytes.mp hMem with ⟨offset, hSingle, rfl⟩ | ⟨offset, word, hDouble, hByte⟩
  · have hOffset := (hFound.singles.of_mem _ _ hSingle).1
    rw [hScanned.mem_singles, ← hScanned.tiles.mem_iff] at hOffset
    refine ⟨offset, hOffset.1, ?_, .inl ⟨hOffset.2, hSingle⟩⟩
    rw [mem_operandPlaces, hOffset.2]
    simp [Opcode.Operand.width]
  · have hOffset := (hFound.doubles.of_mem _ _ hDouble).1
    rw [hScanned.mem_doubles, ← hScanned.tiles.mem_iff] at hOffset
    refine ⟨offset, hOffset.1, ?_, .inr ⟨word, hOffset.2, hDouble, hByte⟩⟩
    rw [mem_operandPlaces, hOffset.2]
    rcases hByte with ⟨rfl, _⟩ | ⟨rfl, _⟩ <;> simp [Opcode.Operand.width]

theorem bytes_agree (hMem : (place, byte) ∈ found.bytes) (hMem' : (place, byte') ∈ found.bytes) :
    byte = byte' := by
  obtain ⟨offset, hOffset, hPlace, hCase⟩ := exists_of_mem_bytes hScanned hFound hMem
  obtain ⟨offset', hOffset', hPlace', hCase'⟩ := exists_of_mem_bytes hScanned hFound hMem'
  obtain rfl := hScanned.tiles.eq_of_mem_operandPlaces hOffset hOffset' hPlace hPlace'
  rcases hCase with ⟨hKind, hSingle⟩ | ⟨word, hKind, hDouble, hByte⟩ <;>
    rcases hCase' with ⟨hKind', hSingle'⟩ | ⟨word', hKind', hDouble', hByte'⟩
  · exact hFound.singles.unique hSingle hSingle'
  · rw [hKind] at hKind'
    cases hKind'
  · rw [hKind] at hKind'
    cases hKind'
  · obtain rfl := hFound.doubles.unique hDouble hDouble'
    rcases hByte with ⟨hAt, rfl⟩ | ⟨hAt, rfl⟩ <;> rcases hByte' with ⟨hAt', rfl⟩ | ⟨hAt', rfl⟩
    · rfl
    · omega
    · omega
    · rfl

theorem getElem?_overwrite_bytes (hMem : (place, byte) ∈ found.bytes) :
    (overwrite unit.code found.bytes)[place]? = some byte := by
  obtain ⟨offset, hOffset, hPlace, _⟩ := exists_of_mem_bytes hScanned hFound hMem
  exact getElem?_overwrite_of_mem hMem
    (fun other hOther => bytes_agree hScanned hFound hOther hMem)
    (hScanned.tiles.place_lt_size hOffset hPlace)

/-- The code with its operands replaced. -/
theorem reindexed_overwrite {R : UInt16 → UInt16 → Prop}
    (hR : ∀ offset index final,
      finalIndex pool map unit.method offset index = .ok final → R index final) :
    unit.Reindexed R
      { unit with code := overwrite unit.code found.bytes, progress := .relocated } where
  method_eq := rfl
  size_eq := size_overwrite unit.code found.bytes
  single offset hAt hKind := by
    have hOffset := hScanned.mem_singles.mpr ⟨hAt, hKind⟩
    obtain ⟨index, hIndex⟩ := hScanned.exists_single hOffset
    obtain ⟨byte, hByte⟩ := hFound.singles.exists_mem offset hOffset
    have hFinal := singleIndex_eq_ok.mp (hFound.singles.of_mem offset byte hByte).2
    rw [hIndex] at hFinal
    refine ⟨index, byte.toUInt16, hIndex, ?_, hR _ _ _ hFinal⟩
    have hWritten := getElem?_overwrite_bytes hScanned hFound
      (mem_bytes.mpr (.inl ⟨offset, hByte, rfl⟩))
    unfold Bytecode.single?
    rw [hWritten]
    rfl
  double offset hAt hKind := by
    have hOffset := hScanned.mem_doubles.mpr ⟨hAt, hKind⟩
    obtain ⟨index, hIndex⟩ := hScanned.exists_double hOffset
    obtain ⟨word, hWord⟩ := hFound.doubles.exists_mem offset hOffset
    have hFinal := (hFound.doubles.of_mem offset word hWord).2
    rw [hIndex] at hFinal
    refine ⟨index, word, hIndex, ?_, hR _ _ _ hFinal⟩
    have hHigh := getElem?_overwrite_bytes hScanned hFound
      (mem_bytes.mpr (.inr ⟨offset, word, hWord, .inl ⟨rfl, rfl⟩⟩))
    have hLow := getElem?_overwrite_bytes hScanned hFound
      (mem_bytes.mpr (.inr ⟨offset, word, hWord, .inr ⟨rfl, rfl⟩⟩))
    unfold Bytecode.double?
    rw [hHigh, hLow]
    have hBytes : (UInt8.ofNat (word.toNat / 256)).toNat * 256 + (UInt8.ofNat word.toNat).toNat =
        word.toNat := by
      have := word.toNat_lt
      rw [UInt8.toNat_ofNat', UInt8.toNat_ofNat']
      omega
    dsimp only
    rw [hBytes, UInt16.ofNat_toNat]
  elsewhere place hPlace := by
    refine getElem?_overwrite_of_notMem fun written hWritten hAt => ?_
    obtain ⟨offset, hOffset, hOperand, _⟩ := exists_of_mem_bytes hScanned hFound hWritten
    rw [hAt] at hOperand
    exact hPlace offset (hScanned.tiles.mem_iff.mp hOffset) hOperand

theorem apply_eq :
    Relocation.apply unit found =
      (sideTables (copy unit).offsets unit.method found.tables >>= fun tables =>
        pure ({ unit with code := overwrite unit.code found.bytes, progress := .relocated },
          tables)) := by
  obtain ⟨hCode, hBoundaries, hMap⟩ := copy_spec hScanned.tiles
  have hSingles : ∀ operand ∈ found.singles, operand.1 ∈ unit.boundaries := fun operand hMem =>
    hScanned.tiles.mem_iff.mpr
      (hScanned.mem_singles.mp (hFound.singles.of_mem operand.1 operand.2 hMem).1).1
  have hDoubles : ∀ operand ∈ found.doubles, operand.1 ∈ unit.boundaries := fun operand hMem =>
    hScanned.tiles.mem_iff.mpr
      (hScanned.mem_doubles.mp (hFound.doubles.of_mem operand.1 operand.2 hMem).1).1
  unfold apply
  dsimp only
  rw [foldlM_patchSingle hMap unit.method hSingles, hCode, hBoundaries]
  change (found.doubles.foldlM (patchDouble (copy unit).offsets unit.method) _ >>= _) = _
  rw [foldlM_patchDouble hMap unit.method hDoubles, ← overwrite_append]
  rfl

theorem apply_ok {relocated : Bytecode} {tables' : SideTables}
    (h : Relocation.apply unit found = .ok (relocated, tables')) :
    relocated = { unit with code := overwrite unit.code found.bytes, progress := .relocated } ∧
      tables' = found.tables := by
  have hMap := (copy_spec hScanned.tiles).2.2
  have hTables := sideTables_unmoved hMap hScanned.size_le unit.method found.tables
  rw [apply_eq hScanned hFound] at h
  obtain ⟨moved, hMoved, hDone⟩ := Traversal.bind_eq_ok.mp h
  rw [hMoved] at hTables
  cases hDone
  exact ⟨rfl, hTables⟩

theorem apply_error {fault : Fault} (h : Relocation.apply unit found = .error fault) :
    Misplaced unit.method unit.boundaries fault := by
  have hMap := (copy_spec hScanned.tiles).2.2
  have hTables := sideTables_unmoved hMap hScanned.size_le unit.method found.tables
  rw [apply_eq hScanned hFound] at h
  rcases Traversal.bind_eq_error.mp h with hFault | ⟨_, _, hDone⟩
  · rw [hFault] at hTables
    exact hTables
  · exact absurd hDone Traversal.pure_ne_error

end Bytes

/-- The fault of an offset in a side table at which no instruction starts. The code itself is none
of these tables. -/
def OffBoundary (unit : Bytecode) (fault : Fault) : Prop :=
  ∃ table ∈ SideTables.names, table ≠ codeName ∧ ∃ offset, ¬InstructionAt unit.code offset ∧
    fault = .consistency (.notInstructionBoundary unit.method table offset)

theorem offBoundary_of_apply {fault : Fault} (hScanned : unit.Scanned)
    (hFound : Found pool map unit tables found)
    (h : Relocation.apply unit found = .error fault) : OffBoundary unit fault := by
  obtain ⟨name, hName, offset, hOffset, rfl⟩ := apply_error hScanned hFound h
  have hCode : codeName ∉ SideTables.names := by decide
  exact ⟨name, hName, fun hEq => hCode (hEq ▸ hName), offset,
    fun hAt => hOffset (hScanned.tiles.mem_iff.mpr hAt), rfl⟩

/-- The fault of a one-byte operand that has no room for the final index of its constant. -/
def Overflowing (table : Table) (pool : Pool) (unit : Bytecode) (fault : Fault) : Prop :=
  ∃ offset index final, InstructionAt unit.code offset ∧ operandAt unit.code offset = .single ∧
    unit.single? offset = some index ∧ SameConstant table pool index final ∧ 255 < final.toNat ∧
    fault = .overflow unit.method offset final

variable {unit' : Bytecode} {tables' : SideTables}

theorem Overflowing.congr {fault : Fault} (hMethod : unit'.method = unit.method)
    (hCode : unit'.code = unit.code) (h : Overflowing table pool unit' fault) :
    Overflowing table pool unit fault := by
  unfold Overflowing at h ⊢
  rwa [Bytecode.single?_congr hCode, hMethod, hCode] at h

theorem OffBoundary.congr {fault : Fault} (hMethod : unit'.method = unit.method)
    (hCode : unit'.code = unit.code) (h : OffBoundary unit' fault) : OffBoundary unit fault := by
  unfold OffBoundary at h ⊢
  rwa [hMethod, hCode] at h

/-- Relocation takes two steps. When the first fails, nothing changes, and when the second fails, only
the progress of the code does. -/
theorem relocate_cases (pool : Pool) (map : HandleMap) (tables : SideTables)
    (hProgress : unit.progress = .scanned) :
    (∃ found unit' tables', operands pool map unit tables = .ok found ∧
      Relocation.apply unit found = .ok (unit', tables') ∧
      relocate pool map unit tables = (.ok (), unit', tables')) ∨
    ∃ fault progress, ((operands pool map unit tables = .error fault ∧ progress = .scanned) ∨
        ∃ found, operands pool map unit tables = .ok found ∧
          Relocation.apply unit found = .error fault ∧ progress = .indicesResolved) ∧
      relocate pool map unit tables = (.error fault, { unit with progress }, tables) := by
  have hSame : { unit with progress := .scanned } = unit := by rw [← hProgress]
  unfold relocate
  rw [hProgress]
  dsimp only
  cases hOperands : operands pool map unit tables with
  | error fault => exact .inr ⟨fault, .scanned, .inl ⟨rfl, rfl⟩, by rw [hSame]⟩
  | ok found =>
    dsimp only
    cases hApply : Relocation.apply unit found with
    | error fault => exact .inr ⟨fault, _, .inr ⟨found, rfl, hApply, rfl⟩, rfl⟩
    | ok result =>
      obtain ⟨unit', tables'⟩ := result
      exact .inl ⟨found, unit', tables', rfl, hApply, rfl⟩

theorem apply_progress {found : Operands} (h : Relocation.apply unit found = .ok (unit', tables')) :
    unit'.method = unit.method ∧ unit'.progress = .relocated := by
  unfold Relocation.apply at h
  obtain ⟨_, _, h⟩ := Traversal.bind_eq_ok.mp h
  obtain ⟨_, _, h⟩ := Traversal.bind_eq_ok.mp h
  obtain ⟨_, _, h⟩ := Traversal.bind_eq_ok.mp h
  cases h
  exact ⟨rfl, rfl⟩

/-- What a relocated method refers to is what it referred to before. -/
theorem relocate_ok {R : UInt16 → UInt16 → Prop} (hScanned : unit.Scanned)
    (hR : ∀ offset index final,
      finalIndex pool map unit.method offset index = .ok final → R index final)
    (h : relocate pool map unit tables = (.ok (), unit', tables')) :
    unit.Reindexed R unit' ∧ unit'.progress = .relocated ∧ tables.Reindexed R tables' := by
  rcases relocate_cases pool map tables hScanned.progress_eq with
    ⟨found, relocated, moved, hOperands, hApply, hRun⟩ | ⟨fault, _, _, hRun⟩
  · rw [hRun] at h
    cases h
    have hFound := found_of_operands hOperands
    obtain ⟨rfl, rfl⟩ := apply_ok hScanned hFound hApply
    exact ⟨reindexed_overwrite hScanned hFound hR, rfl, SideTables.mapIndices_ok hR hFound.tables⟩
  · rw [hRun] at h
    cases h

/-- Only a one-byte operand overflows. -/
theorem relocate_overflow {method : String} {offset : Nat} {index : UInt16}
    (hScanned : unit.Scanned)
    (h : relocate pool map unit tables = (.error (.overflow method offset index), unit', tables')) :
    ∃ use ∈ unit.singleUses, ∃ final,
      finalIndex pool map unit.method use.offset use.index = .ok final ∧ 255 < final.toNat := by
  rcases relocate_cases pool map tables hScanned.progress_eq with
    ⟨_, _, _, _, _, hRun⟩ | ⟨cause, _, hCause, hRun⟩
  · rw [hRun] at h
    cases h
  · rw [hRun] at h
    cases h
    rcases hCause with ⟨hOperands, _⟩ | ⟨found, hOperands, hApply, _⟩
    · rcases operands_error_cases hOperands with
        ⟨use, _, hFault⟩ | ⟨use, hUse, final, hFinal, hLt, _⟩
      · exact absurd hFault finalIndex_ne_overflow
      · exact ⟨use, hUse, final, hFinal, hLt⟩
    · obtain ⟨_, _, _, _, hFault⟩ := apply_error hScanned (found_of_operands hOperands) hApply
      cases hFault

theorem relocate_error {fault : Fault} (hScanned : unit.Scanned) (hValid : pool.Valid)
    (hFaithful : map.Faithful table pool)
    (hLeads : ∀ use ∈ unit.uses ++ tables.uses, map.Leads pool use.index)
    (h : relocate pool map unit tables = (.error fault, unit', tables')) :
    Overflowing table pool unit fault ∨ OffBoundary unit fault := by
  rcases relocate_cases pool map tables hScanned.progress_eq with
    ⟨_, _, _, _, _, hRun⟩ | ⟨cause, _, hCause, hRun⟩
  · rw [hRun] at h
    cases h
  · rw [hRun] at h
    cases h
    rcases hCause with ⟨hOperands, _⟩ | ⟨found, hOperands, hApply, _⟩
    · obtain ⟨offset, hOffset, final, hFinal, hLt, rfl⟩ := operands_error hValid hLeads hOperands
      obtain ⟨index, hIndex⟩ := hScanned.exists_single hOffset
      rw [hIndex] at hFinal
      obtain ⟨hAt, hKind⟩ := hScanned.mem_singles.mp hOffset
      exact .inl ⟨offset, index, final, hAt, hKind, hIndex,
        sameConstant_of_finalIndex hValid hFaithful hFinal, hLt, rfl⟩
    · exact .inr (offBoundary_of_apply hScanned (found_of_operands hOperands) hApply)

end Relocation

end ClassRom
