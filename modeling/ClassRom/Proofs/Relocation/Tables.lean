import ClassRom.Proofs.Relocation.Copying

/-!
# Side tables in relocation

Replacing the constants of side tables touches nothing else in them. Moving their offsets changes
nothing at all, since the code stays where it was, and fails only on an offset at which no
instruction starts.
-/

namespace ClassRom

set_option autoImplicit false

variable {R : UInt16 → UInt16 → Prop}

/-! ### Replacing constants -/

/-- The type names a related class, or is the same type. -/
inductive VerificationType.Reindexed (R : UInt16 → UInt16 → Prop) :
    VerificationType → VerificationType → Prop where
  | object {index index' : UInt16} : R index index' →
      VerificationType.Reindexed R (.object index) (.object index')
  | same {type : VerificationType} : type.index? = none → VerificationType.Reindexed R type type

structure Handler.Reindexed (R : UInt16 → UInt16 → Prop) (before after : Handler) : Prop where
  rest_eq : after = { before with catchType := after.catchType }
  catchType : Option.Rel R before.catchType after.catchType

structure LocalVariable.Reindexed (R : UInt16 → UInt16 → Prop) (before after : LocalVariable) :
    Prop where
  rest_eq : after = { before with name := after.name, descriptor := after.descriptor }
  name : R before.name after.name
  descriptor : R before.descriptor after.descriptor

structure Frame.Reindexed (R : UInt16 → UInt16 → Prop) (before after : Frame) : Prop where
  offset_eq : after.offset = before.offset
  locals : List.Forall₂ (VerificationType.Reindexed R) before.locals after.locals
  stack : List.Forall₂ (VerificationType.Reindexed R) before.stack after.stack

namespace SideTables

/-- Row by row, every constant index is replaced by a related one and nothing else is changed. -/
structure Reindexed (R : UInt16 → UInt16 → Prop) (before after : SideTables) : Prop where
  handlers : List.Forall₂ (Handler.Reindexed R) before.handlers after.handlers
  lines_eq : after.lines = before.lines
  locals : Option.Rel (List.Forall₂ (LocalVariable.Reindexed R)) before.locals after.locals
  frames : Option.Rel (List.Forall₂ (Frame.Reindexed R)) before.frames after.frames

variable {f : Nat → UInt16 → Except Fault UInt16} {tables tables' : SideTables}

theorem mapIndex_ok {offset : Nat} {type type' : VerificationType}
    (hf : ∀ index index', f offset index = .ok index' → R index index')
    (h : type.mapIndex (f offset) = .ok type') :
    type.Reindexed R type' := by
  cases type with
  | object index =>
    obtain ⟨index', hIndex, hDone⟩ := Traversal.bind_eq_ok.mp h
    cases hDone
    exact .object (hf index index' hIndex)
  | top | integer | float | double | long | null | uninitializedThis | uninitialized _ =>
    cases h
    exact .same rfl

theorem mapIndices_ok (hf : ∀ offset index index', f offset index = .ok index' → R index index')
    (h : tables.mapIndices f = .ok tables') : tables.Reindexed R tables' := by
  obtain ⟨handlers, hHandlers, hRest⟩ := Traversal.bind_eq_ok.mp h
  obtain ⟨locals, hLocals, hRest'⟩ := Traversal.bind_eq_ok.mp hRest
  obtain ⟨frames, hFrames, hDone⟩ := Traversal.bind_eq_ok.mp hRest'
  cases hDone
  refine ⟨?_, rfl, ?_, ?_⟩
  · refine (Traversal.mapM_eq_ok.mp hHandlers).imp fun row row' hRow => ?_
    obtain ⟨catchType, hCatch, hDone⟩ := Traversal.bind_eq_ok.mp hRow
    cases hDone
    exact ⟨rfl, Traversal.option_rel_imp (hf _) (Traversal.option_mapM_eq_ok.mp hCatch)⟩
  · refine Traversal.option_rel_imp (fun rows rows' hRows => ?_)
      (Traversal.option_mapM_eq_ok.mp hLocals)
    refine (Traversal.mapM_eq_ok.mp hRows).imp fun row row' hRow => ?_
    obtain ⟨name, hName, hRest⟩ := Traversal.bind_eq_ok.mp hRow
    obtain ⟨descriptor, hDescriptor, hDone⟩ := Traversal.bind_eq_ok.mp hRest
    cases hDone
    exact ⟨rfl, hf _ _ _ hName, hf _ _ _ hDescriptor⟩
  · refine Traversal.option_rel_imp (fun rows rows' hRows => ?_)
      (Traversal.option_mapM_eq_ok.mp hFrames)
    refine (Traversal.mapM_eq_ok.mp hRows).imp fun row row' hRow => ?_
    obtain ⟨locals, hLocals, hRest⟩ := Traversal.bind_eq_ok.mp hRow
    obtain ⟨stack, hStack, hDone⟩ := Traversal.bind_eq_ok.mp hRest
    cases hDone
    exact ⟨rfl, (Traversal.mapM_eq_ok.mp hLocals).imp fun _ _ => mapIndex_ok (hf _),
      (Traversal.mapM_eq_ok.mp hStack).imp fun _ _ => mapIndex_ok (hf _)⟩

end SideTables

/-- The names of all tables whose offsets are moved. -/
def SideTables.names : List String := [handlersName, linesName, localsName, framesName]

namespace Relocation

/-! ### Moving offsets -/

/-- The result is the value itself, or a fault of the given kind. -/
def Unmoved {α : Type} (P : Fault → Prop) (value : α) : Except Fault α → Prop
  | .ok value' => value' = value
  | .error fault => P fault

namespace Unmoved

variable {α β : Type} {P : Fault → Prop}

theorem bind {value : α} {result : Except Fault α} {next : α → Except Fault β} {final : β}
    (h : Unmoved P value result) (hNext : Unmoved P final (next value)) :
    Unmoved P final (result >>= next) := by
  cases result with
  | error fault => exact h
  | ok value' =>
    obtain rfl : value' = value := h
    exact hNext

theorem mapM {f : α → Except Fault α} (h : ∀ value, Unmoved P value (f value)) (values : List α) :
    Unmoved P values (values.mapM f) := by
  induction values with
  | nil => rfl
  | cons value values ih =>
    rw [List.mapM_cons]
    exact (h value).bind (ih.bind rfl)

theorem option_mapM {f : α → Except Fault α} (h : ∀ value, Unmoved P value (f value))
    (value : Option α) : Unmoved P value (value.mapM f) := by
  cases value with
  | none => rfl
  | some value =>
    rw [Option.mapM_some, map_eq_pure_bind]
    exact (h value).bind rfl

end Unmoved

/-- The fault of an offset in a side table that is not among the offsets of instructions. -/
def Misplaced (method : String) (boundaries : List Nat) (fault : Fault) : Prop :=
  ∃ table ∈ SideTables.names, ∃ offset ∉ boundaries,
    fault = .consistency (.notInstructionBoundary method table offset)

section Identity

variable {map : OffsetMap} {boundaries : List Nat} {size : Nat}
  (hMap : map.Identity boundaries size) (hSize : size ≤ 65535) (method : String)
include hMap

theorem instruction_eq (table : String) (offset : UInt16) :
    instruction map method table offset =
      if offset.toNat ∈ boundaries then .ok offset
      else .error (.consistency (.notInstructionBoundary method table offset.toNat)) := by
  unfold instruction
  rw [hMap.instruction_eq]
  split
  next =>
    change narrow method offset.toNat = .ok offset
    unfold narrow
    rw [if_pos (Nat.le_of_lt_succ offset.toNat_lt), UInt16.ofNat_toNat]
  next => rfl

theorem instruction_unmoved {table : String} (hTable : table ∈ SideTables.names)
    (offset : UInt16) :
    Unmoved (Misplaced method boundaries) offset (instruction map method table offset) := by
  rw [instruction_eq hMap]
  split
  next => rfl
  next hOffset => exact ⟨table, hTable, _, hOffset, rfl⟩

theorem line_unmoved (row : Line) :
    Unmoved (Misplaced method boundaries) row (line map method row) :=
  (instruction_unmoved hMap method (by simp [SideTables.names]) row.start).bind rfl

theorem mapOffset_unmoved (type : VerificationType) :
    Unmoved (Misplaced method boundaries) type
      (type.mapOffset (instruction map method SideTables.framesName)) := by
  cases type with
  | uninitialized offset =>
    exact (instruction_unmoved hMap method (by simp [SideTables.names]) offset).bind rfl
  | top | integer | float | double | long | null | uninitializedThis | object _ => rfl

theorem frame_unmoved (row : Frame) :
    Unmoved (Misplaced method boundaries) row (frame map method row) := by
  have hOffset := instruction_unmoved hMap method
    (show SideTables.framesName ∈ SideTables.names by simp [SideTables.names]) row.offset
  have hTypes := Unmoved.mapM (mapOffset_unmoved hMap method)
  exact hOffset.bind ((hTypes row.locals).bind ((hTypes row.stack).bind rfl))

include hSize

theorem rangeEnd_eq (table : String) (offset : Nat) :
    rangeEnd map method table offset =
      if offset ∈ boundaries ∨ offset = size then .ok (UInt16.ofNat offset)
      else .error (.consistency (.notInstructionBoundary method table offset)) := by
  unfold rangeEnd
  rw [hMap.rangeEnd_eq]
  split
  next hOffset =>
    have hLe : offset ≤ 65535 := by
      rcases hOffset with hMem | rfl
      · have := hMap.lt_size offset hMem
        omega
      · exact hSize
    change narrow method offset = .ok (UInt16.ofNat offset)
    unfold narrow
    rw [if_pos hLe]
  next => rfl

theorem rangeEnd_unmoved {table : String} (hTable : table ∈ SideTables.names) (offset : Nat) :
    Unmoved (Misplaced method boundaries) (UInt16.ofNat offset)
      (rangeEnd map method table offset) := by
  rw [rangeEnd_eq hMap hSize]
  split
  next => rfl
  next hOffset => exact ⟨table, hTable, _, fun hMem => hOffset (.inl hMem), rfl⟩

theorem handler_unmoved (row : Handler) :
    Unmoved (Misplaced method boundaries) row (handler map method row) := by
  have hTable : SideTables.handlersName ∈ SideTables.names := by simp [SideTables.names]
  refine (instruction_unmoved hMap method hTable row.start).bind ?_
  refine (rangeEnd_unmoved hMap hSize method hTable row.stop.toNat).bind ?_
  refine (instruction_unmoved hMap method hTable row.handler).bind ?_
  rw [UInt16.ofNat_toNat]
  rfl

omit hMap hSize in
/-- The length of a range is what its end is away from its start. -/
theorem ofNat_add_sub_start (row : LocalVariable) :
    UInt16.ofNat (row.start.toNat + row.length.toNat) - row.start = row.length := by
  rw [UInt16.ofNat_add, UInt16.ofNat_toNat, UInt16.ofNat_toNat, UInt16.add_comm,
    UInt16.add_sub_cancel]

theorem localVariable_unmoved (row : LocalVariable) :
    Unmoved (Misplaced method boundaries) row (localVariable map method row) := by
  have hTable : SideTables.localsName ∈ SideTables.names := by simp [SideTables.names]
  refine (instruction_unmoved hMap method hTable row.start).bind ?_
  refine (rangeEnd_unmoved hMap hSize method hTable _).bind ?_
  rw [ofNat_add_sub_start]
  rfl

/-- Side tables are moved to themselves. -/
theorem sideTables_unmoved (tables : SideTables) :
    Unmoved (Misplaced method boundaries) tables (sideTables map method tables) := by
  have hHandlers := Unmoved.mapM (handler_unmoved hMap hSize method) tables.handlers
  have hLines := Unmoved.option_mapM (Unmoved.mapM (line_unmoved hMap method))
    tables.lines
  have hLocals := Unmoved.option_mapM
    (Unmoved.mapM (localVariable_unmoved hMap hSize method)) tables.locals
  have hFrames := Unmoved.option_mapM (Unmoved.mapM (frame_unmoved hMap method))
    tables.frames
  exact hHandlers.bind (hLines.bind (hLocals.bind (hFrames.bind rfl)))

end Identity

end Relocation

end ClassRom
