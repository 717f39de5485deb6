import ClassRom.Proofs.Bytecode.Instructions
import ClassRom.Proofs.Traversal
import ClassRom.Relocation

/-!
# Copying and patching code

No instruction changes its length in relocation, so code that its instructions fill is copied onto
itself: every instruction lands where it was, and offsets map to themselves. Patching then writes
operands in place.
-/

namespace ClassRom

set_option autoImplicit false

namespace OffsetMap

@[simp] theorem get?_insert (map : OffsetMap) (old new other : Nat) :
    (map.insert old new).get? other = if other = old then some new else map.get? other := by
  unfold insert get?
  dsimp only
  rw [Array.getElem?_setIfInBounds]
  by_cases h : other = old
  · subst other
    rw [if_pos rfl, if_pos rfl, if_pos (by simp; omega)]
    rfl
  · rw [if_neg h, if_neg (Ne.symm h)]
    grind

@[simp] theorem get?_ofLength (length old : Nat) : (ofLength length).get? old = none := by
  unfold ofLength get?
  grind

theorem size_insert {map : OffsetMap} {old : Nat} (new : Nat) (h : old < map.images.size) :
    (map.insert old new).images.size = map.images.size := by
  unfold insert
  simp
  omega

/-- Exactly the listed offsets and the end of the code are mapped, to themselves. -/
structure Identity (map : OffsetMap) (boundaries : List Nat) (size : Nat) : Prop where
  size_eq : map.images.size = size + 1
  lt_size : ∀ offset ∈ boundaries, offset < size
  get?_eq : ∀ offset, map.get? offset =
    if offset ∈ boundaries ∨ offset = size then some offset else none

variable {map : OffsetMap} {boundaries : List Nat} {size offset : Nat}

theorem Identity.instruction_eq (h : map.Identity boundaries size) (method table : String) :
    map.instruction method table offset =
      if offset ∈ boundaries then .ok offset
      else .error (.consistency (.notInstructionBoundary method table offset)) := by
  unfold instruction
  rw [h.get?_eq, h.size_eq]
  by_cases hOffset : offset ∈ boundaries
  · have := h.lt_size offset hOffset
    simp [hOffset, show offset ≠ size by omega]
  · rw [if_neg hOffset]
    by_cases hEnd : offset = size
    · rw [if_pos (.inr hEnd), hEnd]
      exact if_pos rfl
    · rw [if_neg (by simp [hOffset, hEnd])]

theorem Identity.rangeEnd_eq (h : map.Identity boundaries size) (method table : String) :
    map.rangeEnd method table offset =
      if offset ∈ boundaries ∨ offset = size then .ok offset
      else .error (.consistency (.notInstructionBoundary method table offset)) := by
  unfold rangeEnd
  rw [h.get?_eq]
  by_cases hOffset : offset ∈ boundaries ∨ offset = size
  · rw [if_pos hOffset, if_pos hOffset]
  · rw [if_neg hOffset, if_neg hOffset]

end OffsetMap

namespace Relocation

variable {code copied : Array UInt8} {offset place : Nat} {rest boundaries : List Nat}
  {offsets : OffsetMap} {byte : UInt8}

theorem copyFrom_spec (hTiles : Tiles code offset rest) (hCopied : copied = code.extract 0 offset)
    (hRoom : offsets.images.size = code.size + 1) :
    (copyFrom code rest ⟨copied, boundaries, offsets⟩).code = code ∧
      (copyFrom code rest ⟨copied, boundaries, offsets⟩).boundaries = rest.reverse ++ boundaries ∧
      (copyFrom code rest ⟨copied, boundaries, offsets⟩).offsets.images.size = code.size + 1 ∧
      ∀ old, (copyFrom code rest ⟨copied, boundaries, offsets⟩).offsets.get? old =
        if old ∈ rest then some old else offsets.get? old := by
  -- what is copied so far ends where the next instruction starts, so that one lands in its place
  induction hTiles generalizing copied boundaries offsets with
  | done => exact ⟨by simp [copyFrom, hCopied], rfl, hRoom, fun _ => by simp [copyFrom]⟩
  | @step offset length opcode rest hOpcode _ hRest ih =>
    have hEnd := hRest.le_size
    have hLanded : copied.size = offset := by
      rw [hCopied, Array.size_extract]
      omega
    have hNext : copied ++ code.extract offset (rest.headD code.size) =
        code.extract 0 (offset + length) := by
      rw [hRest.headD_eq, hCopied, Array.extract_append_extract]
      simp
    have hRoom' : (offsets.insert offset offset).images.size = code.size + 1 := by
      rw [OffsetMap.size_insert offset (by omega), hRoom]
    obtain ⟨hCode, hBoundaries, hSize, hGet⟩ := @ih _ (offset :: boundaries) _ hNext hRoom'
    rw [copyFrom, hLanded]
    refine ⟨hCode, by simpa using hBoundaries, hSize, fun old => (hGet old).trans ?_⟩
    by_cases hOld : old = offset <;> simp [hOld]

/-- Copying keeps the code and the offsets of its instructions. -/
theorem copy_spec {unit : Bytecode} (hTiles : Tiles unit.code 0 unit.boundaries) :
    (copy unit).code = unit.code ∧ (copy unit).boundaries.reverse = unit.boundaries ∧
      (copy unit).offsets.Identity unit.boundaries unit.code.size := by
  obtain ⟨hCode, hBoundaries, hSize, hGet⟩ :=
    @copyFrom_spec unit.code #[] 0 unit.boundaries [] (OffsetMap.ofLength unit.code.size) hTiles
      (by simp) (by simp [OffsetMap.ofLength])
  unfold copy
  dsimp only
  refine ⟨hCode, by simp [hBoundaries], ?_, fun offset hOffset => (hTiles.bounds_of_mem hOffset).2,
    fun offset => ?_⟩
  · rw [OffsetMap.size_insert _ (by omega), hSize]
  · by_cases hEnd : offset = unit.code.size <;> simp [hGet, hCode, hEnd]

/-! ### Patching -/

/-- The code with bytes written at places. -/
def overwrite (code : Array UInt8) (bytes : List (Nat × UInt8)) : Array UInt8 :=
  bytes.foldl (fun code byte => code.setIfInBounds byte.1 byte.2) code

theorem overwrite_append (code : Array UInt8) (bytes bytes' : List (Nat × UInt8)) :
    overwrite code (bytes ++ bytes') = overwrite (overwrite code bytes) bytes' :=
  List.foldl_append

@[simp] theorem size_overwrite (code : Array UInt8) (bytes : List (Nat × UInt8)) :
    (overwrite code bytes).size = code.size := by
  unfold overwrite
  induction bytes generalizing code with
  | nil => rfl
  | cons byte bytes ih => rw [List.foldl_cons, ih, Array.size_setIfInBounds]

theorem getElem?_overwrite_of_notMem {bytes : List (Nat × UInt8)}
    (h : ∀ byte ∈ bytes, byte.1 ≠ place) : (overwrite code bytes)[place]? = code[place]? := by
  unfold overwrite
  induction bytes generalizing code with
  | nil => rfl
  | cons byte bytes ih =>
    rw [List.foldl_cons, ih fun other hOther => h other (List.mem_cons_of_mem byte hOther),
      Array.getElem?_setIfInBounds, if_neg (h byte List.mem_cons_self)]

/-- A place where all writes agree holds what was written. -/
theorem getElem?_overwrite_of_mem {bytes : List (Nat × UInt8)} (hMem : (place, byte) ∈ bytes)
    (hAgree : ∀ other, (place, other) ∈ bytes → other = byte) (hPlace : place < code.size) :
    (overwrite code bytes)[place]? = some byte := by
  induction bytes generalizing code with
  | nil => cases hMem
  | cons head bytes ih =>
    have hAgree' : ∀ other, (place, other) ∈ bytes → other = byte :=
      fun other hOther => hAgree other (List.mem_cons_of_mem head hOther)
    by_cases hRest : (place, byte) ∈ bytes
    · exact ih hRest hAgree' (by rw [Array.size_setIfInBounds]; exact hPlace)
    · obtain rfl : (place, byte) = head := (List.mem_cons.mp hMem).resolve_right hRest
      have hFree : ∀ other ∈ bytes, other.1 ≠ place := by
        rintro ⟨place', other⟩ hOther rfl
        exact hRest (hAgree' other hOther ▸ hOther)
      change (overwrite (code.setIfInBounds place byte) bytes)[place]? = some byte
      rw [getElem?_overwrite_of_notMem hFree, Array.getElem?_setIfInBounds, if_pos rfl,
        if_pos hPlace]

section Operands

variable {map : OffsetMap} {size : Nat} (hMap : map.Identity boundaries size)
include hMap

theorem foldlM_patchSingle (method : String) {operands : List (Nat × UInt8)}
    (hOperands : ∀ operand ∈ operands, operand.1 ∈ boundaries) (code : Array UInt8) :
    operands.foldlM (patchSingle map method) code =
      .ok (overwrite code (operands.map fun operand => (operand.1 + 1, operand.2))) := by
  induction operands generalizing code with
  | nil => rfl
  | cons operand operands ih =>
    have hHead : patchSingle map method code operand =
        .ok (code.setIfInBounds (operand.1 + 1) operand.2) := by
      unfold patchSingle
      rw [hMap.instruction_eq, if_pos (hOperands operand List.mem_cons_self)]
      rfl
    rw [List.foldlM_cons, hHead]
    exact ih (fun other hOther => hOperands other (List.mem_cons_of_mem operand hOther)) _

theorem foldlM_patchDouble (method : String) {operands : List (Nat × UInt16)}
    (hOperands : ∀ operand ∈ operands, operand.1 ∈ boundaries) (code : Array UInt8) :
    operands.foldlM (patchDouble map method) code =
      .ok (overwrite code (operands.flatMap fun operand =>
        [(operand.1 + 1, UInt8.ofNat (operand.2.toNat / 256)),
          (operand.1 + 2, UInt8.ofNat operand.2.toNat)])) := by
  induction operands generalizing code with
  | nil => rfl
  | cons operand operands ih =>
    have hHead : patchDouble map method code operand = .ok (overwrite code
        [(operand.1 + 1, UInt8.ofNat (operand.2.toNat / 256)),
          (operand.1 + 2, UInt8.ofNat operand.2.toNat)]) := by
      unfold patchDouble
      rw [hMap.instruction_eq, if_pos (hOperands operand List.mem_cons_self)]
      rfl
    rw [List.foldlM_cons, hHead]
    exact ih (fun other hOther => hOperands other (List.mem_cons_of_mem operand hOther)) _

end Operands

end Relocation

end ClassRom
