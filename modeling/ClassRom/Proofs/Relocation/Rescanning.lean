import ClassRom.Proofs.Bytecode.Grammar
import ClassRom.Proofs.Relocation.Success

/-!
# Scanning relocated code

How long an instruction is depends on its opcode and, where there is no constant operand, on the
bytes behind the opcode. Relocation writes to constant operands only, so relocated code splits into
the same instructions as before.
-/

namespace ClassRom

set_option autoImplicit false

variable {code code' : Array UInt8} {opcode : UInt8} {offset length place : Nat}
  {boundaries : List Nat}

theorem int32At?_congr
    (h : ∀ other, place ≤ other → other < place + 4 → code'[other]? = code[other]?) :
    int32At? code' place = int32At? code place := by
  unfold int32At?
  rw [h place (by omega) (by omega), h (place + 1) (by omega) (by omega),
    h (place + 2) (by omega) (by omega), h (place + 3) (by omega) (by omega)]

/-- A length that the opcode does not determine is determined within the instruction. -/
theorem instructionLength_congr (h : instructionLength code offset opcode = .ok length)
    (hSame : Opcode.length? opcode = none → ∀ place, offset < place → place < offset + length →
      code'[place]? = code[place]?) : instructionLength code' offset opcode = .ok length := by
  have hOperands := lt_switchOperands offset
  rw [instructionLength_eq_ok] at h ⊢
  rcases h with hFixed | ⟨rfl, widened, hWidened, hLength⟩ |
    ⟨rfl, low, high, hLow, hHigh, hLength⟩ | ⟨rfl, pairs, hPairs, hLength⟩
  · exact .inl hFixed
  · have hTwo := Opcode.two_lt_of_wideLength? hLength
    have hNext := hSame (by decide) (offset + 1) (by omega) (by omega)
    exact .inr (.inl ⟨rfl, widened, hNext.trans hWidened, hLength⟩)
  · have hWithin := hSame (by decide)
    refine .inr (.inr (.inl ⟨rfl, low, high, ?_, ?_, hLength⟩))
    · rw [int32At?_congr fun other hLe hLt => hWithin other (by omega) (by omega), hLow]
    · rw [int32At?_congr fun other hLe hLt => hWithin other (by omega) (by omega), hHigh]
  · have hWithin := hSame (by decide)
    refine .inr (.inr (.inr ⟨rfl, pairs, ?_, hLength⟩))
    rw [int32At?_congr fun other hLe hLt => hWithin other (by omega) (by omega), hPairs]

theorem operandPlaces_eq_nil (hOpcode : code[offset]? = some opcode)
    (h : Opcode.length? opcode = none) : operandPlaces code offset = [] := by
  have hOperand : operandAt code offset = .none := by
    unfold operandAt
    rw [hOpcode]
    by_contra hSome
    obtain ⟨length, hLength, _⟩ := Opcode.width_lt_length? hSome
    cases h.symm.trans hLength
  unfold operandPlaces
  rw [hOperand]
  rfl

namespace Tiles

/-- The opcodes are in no operand. -/
theorem notMem_operandPlaces {a b : Nat} (h : Tiles code offset boundaries) (ha : a ∈ boundaries)
    (hb : b ∈ boundaries) : a ∉ operandPlaces code b := by
  intro hPlace
  obtain ⟨opcode, length, hOpcode, hLength, _⟩ := h.length_of_mem hb
  have hWithin := operandPlaces_within hOpcode hLength hPlace
  have := h.end_le hb ha hOpcode hLength hWithin.1
  omega

/-- Code that keeps all but its operands splits as before. -/
theorem congr (h : Tiles code offset boundaries) (hSize : code'.size = code.size)
    (hSame : ∀ place, offset ≤ place → (∀ a ∈ boundaries, place ∉ operandPlaces code a) →
      code'[place]? = code[place]?) : Tiles code' offset boundaries := by
  induction h with
  | done =>
    rw [← hSize]
    exact .done
  | @step offset length opcode rest hOpcode hLength hRest ih =>
    have hTiles : Tiles code offset (offset :: rest) := .step hOpcode hLength hRest
    -- operands of later instructions lie behind this one
    have hLater : ∀ place < offset + length, ∀ a ∈ rest, place ∉ operandPlaces code a := by
      intro place hLt a ha hPlace
      have := (hRest.bounds_of_mem ha).1
      have := (mem_operandPlaces.mp hPlace).1
      omega
    have hHead : code'[offset]? = some opcode := by
      rw [← hOpcode]
      exact hSame offset (Nat.le_refl _) fun a ha =>
        hTiles.notMem_operandPlaces List.mem_cons_self ha
    refine .step hHead (instructionLength_congr hLength fun hVariable place hGt hLt => ?_)
      (ih fun place hLe hFree => ?_)
    · refine hSame place (Nat.le_of_lt hGt) fun a ha => ?_
      rcases List.mem_cons.mp ha with rfl | haRest
      · rw [operandPlaces_eq_nil hOpcode hVariable]
        exact List.not_mem_nil
      · exact hLater place hLt a haRest
    · refine hSame place (by omega) fun a ha => ?_
      rcases List.mem_cons.mp ha with rfl | haRest
      · intro hPlace
        have := (operandPlaces_within hOpcode hLength hPlace).2
        omega
      · exact hFree a haRest

end Tiles

namespace Bytecode

variable {R : UInt16 → UInt16 → Prop} {unit unit' : Bytecode}

/-- Code whose constants were replaced is scanned like the code before. -/
theorem Scanned.scan_reindexed (h : unit.Scanned) (hReindexed : unit.Reindexed R unit')
    (method : String) :
    (ofBytes method unit'.code.toList).scan =
      .ok ⟨method, unit'.code, unit.boundaries, unit.singles, unit.doubles, .scanned⟩ := by
  have hElsewhere : ∀ place, (∀ a ∈ unit.boundaries, place ∉ operandPlaces unit.code a) →
      unit'.code[place]? = unit.code[place]? := by
    intro place hFree
    refine hReindexed.elsewhere place fun offset hAt => ?_
    exact hFree offset (h.tiles.mem_iff.mpr hAt)
  have hTiles : Tiles unit'.code 0 unit.boundaries :=
    h.tiles.congr hReindexed.size_eq fun place _ => hElsewhere place
  have hOperand : ∀ offset ∈ unit.boundaries,
      operandAt unit'.code offset = operandAt unit.code offset := by
    intro offset hOffset
    have hOpcode := hElsewhere offset fun a ha => h.tiles.notMem_operandPlaces hOffset ha
    unfold operandAt
    rw [hOpcode]
  have hFilter (operand : Opcode.Operand) :
      (unit.boundaries.filter fun offset => operandAt unit'.code offset = operand) =
        unit.boundaries.filter fun offset => operandAt unit.code offset = operand :=
    List.filter_congr fun offset hOffset => by rw [hOperand offset hOffset]
  have hCode : (ofBytes method unit'.code.toList).code = unit'.code := Array.toArray_toList
  have hSize : (ofBytes method unit'.code.toList).code.size ≤ 65535 := by
    rw [hCode, hReindexed.size_eq]
    exact h.size_le
  have hSplit : split (ofBytes method unit'.code.toList).code = .ok unit.boundaries := by
    rw [hCode]
    exact splitFrom_of_tiles hTiles []
  rw [scan_of_split (by simp [ofBytes]) hSize hSplit, hCode, hFilter, hFilter, ← h.singles_eq,
    ← h.doubles_eq]
  rfl

end Bytecode

namespace Relocation

/-- Relocated code splits into instructions where the code did before, and the same of them refer to
constants. -/
theorem relocated_scans_alike (pool : Pool) (map : HandleMap) (before unit : Bytecode)
    (hScan : before.scan = .ok unit) (tables : SideTables) (unit' : Bytecode)
    (tables' : SideTables) (hRelocate : relocate pool map unit tables = (.ok (), unit', tables'))
    (method : String) :
    (Bytecode.ofBytes method unit'.code.toList).scan =
      .ok ⟨method, unit'.code, unit.boundaries, unit.singles, unit.doubles, .scanned⟩ := by
  have hScanned := (Bytecode.scan_ok hScan).1
  have hReindexed : unit.Reindexed (fun _ _ => True) unit' :=
    (relocate_ok hScanned (fun _ _ _ _ => trivial) hRelocate).1
  exact hScanned.scan_reindexed hReindexed method

theorem relocated_scans_alike_demo :
    ClassFile.demoBody.bytecode.scan = .ok demoScanned ∧
      ∃ unit' tables', relocate demoPool demoHandles demoScanned ClassFile.demoBody.tables =
          (.ok (), unit', tables') ∧ unit'.code ≠ demoScanned.code ∧
        (Bytecode.ofBytes "Demo.run()V" unit'.code.toList).scan =
          .ok ⟨"Demo.run()V", unit'.code, [0, 2, 3, 6, 7], [0], [3], .scanned⟩ := by
  exact ⟨scan_demoBody, _, _, relocate_demoScanned, by decide +kernel,
    relocated_scans_alike demoPool demoHandles _ demoScanned scan_demoBody _ _ _
      relocate_demoScanned "Demo.run()V"⟩

end Relocation

end ClassRom
