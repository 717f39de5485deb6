import ClassRom.Proofs.Image.Relocating

/-!
# When relocation succeeds

Scanned code is relocated just if every constant that it mentions leads to a live entry of the pool,
in one of the first 255 slots where the operand is a single byte, and its side tables name only
offsets at which an instruction starts or, as ends of ranges, the end of the code. What comes out
differs from what went in by its constants only.
-/

namespace ClassRom

set_option autoImplicit false

/-- The handle of the index leads to an entry of this very pool, which stands in the slot. -/
def HandleMap.LeadsTo (map : HandleMap) (pool : Pool) (index : UInt16) (slot : Nat) : Prop :=
  ∃ handle entry, map.get? index = some handle ∧ handle.pool = pool.id ∧
    pool.get? handle.entry = some entry ∧ entry.index = some slot

namespace HandleMap.LeadsTo

variable {map : HandleMap} {pool : Pool} {index : UInt16} {slot slot' : Nat}

theorem unique (h : map.LeadsTo pool index slot) (h' : map.LeadsTo pool index slot') :
    slot = slot' := by
  obtain ⟨handle, entry, hHandle, _, hEntry, hSlot⟩ := h
  obtain ⟨handle', entry', hHandle', _, hEntry', hSlot'⟩ := h'
  rw [hHandle] at hHandle'
  cases hHandle'
  rw [hEntry] at hEntry'
  cases hEntry'
  rw [hSlot] at hSlot'
  exact Option.some.inj hSlot'

theorem leads (hValid : pool.Valid) (h : map.LeadsTo pool index slot) : map.Leads pool index := by
  obtain ⟨handle, entry, hHandle, hPool, hEntry, hSlot⟩ := h
  exact ⟨handle, hHandle, hPool, hValid.mem_order_iff.mpr ⟨entry, hEntry, by rw [hSlot]; rfl⟩⟩

end HandleMap.LeadsTo

/-! ### Offsets in side tables -/

/-- The offset that the type mentions. -/
def VerificationType.offset? : VerificationType → Option Nat
  | .uninitialized offset => some offset.toNat
  | _ => none

namespace SideTables

/-- The offsets at which an instruction has to start: of protected ranges and their handlers, of
lines, of local variables, of frames, and of what the types in frames say was created there. -/
def starts (tables : SideTables) : List Nat :=
  (tables.handlers.flatMap fun row => [row.start.toNat, row.handler.toNat]) ++
    ((tables.lines.getD []).map fun row => row.start.toNat) ++
    ((tables.locals.getD []).map fun row => row.start.toNat) ++
    (tables.frames.getD []).flatMap fun row =>
      row.offset.toNat :: (row.locals ++ row.stack).filterMap VerificationType.offset?

/-- The ends of ranges, which may also be the end of the code. -/
def ends (tables : SideTables) : List Nat :=
  (tables.handlers.map fun row => row.stop.toNat) ++
    (tables.locals.getD []).map fun row => row.start.toNat + row.length.toNat

variable {R : UInt16 → UInt16 → Prop} {tables tables' : SideTables}

theorem filterMap_offset?_eq {types types' : List VerificationType}
    (h : List.Forall₂ (VerificationType.Reindexed R) types types') :
    types'.filterMap VerificationType.offset? = types.filterMap VerificationType.offset? := by
  induction h with
  | nil => rfl
  | cons hHead _ ih =>
    have hOffset : ∀ type type' : VerificationType, type.Reindexed R type' →
        type'.offset? = type.offset? := by
      rintro _ _ (_ | _) <;> rfl
    rw [List.filterMap_cons, List.filterMap_cons, ih, hOffset _ _ hHead]

/-- Replacing constants moves no offset. -/
theorem Reindexed.starts_eq (h : tables.Reindexed R tables') : tables'.starts = tables.starts := by
  have hHandlers := Traversal.flatMap_eq_of_forall₂
    (f := fun row : Handler => [row.start.toNat, row.handler.toNat])
    (fun _ _ hRow => by rw [hRow.rest_eq]) h.handlers
  have hLocals := Traversal.map_eq_of_forall₂ (f := fun row : LocalVariable => row.start.toNat)
    (fun _ _ hRow => by rw [hRow.rest_eq]) (Traversal.forall₂_getD h.locals)
  have hFrames := Traversal.flatMap_eq_of_forall₂
    (f := fun row : Frame =>
      row.offset.toNat :: (row.locals ++ row.stack).filterMap VerificationType.offset?)
    (fun _ _ hRow => by
      simp only [List.filterMap_append, hRow.offset_eq, filterMap_offset?_eq hRow.locals,
        filterMap_offset?_eq hRow.stack]) (Traversal.forall₂_getD h.frames)
  unfold starts
  rw [hHandlers, h.lines_eq, hLocals, hFrames]

theorem Reindexed.ends_eq (h : tables.Reindexed R tables') : tables'.ends = tables.ends := by
  have hHandlers := Traversal.map_eq_of_forall₂ (f := fun row : Handler => row.stop.toNat)
    (fun _ _ hRow => by rw [hRow.rest_eq]) h.handlers
  have hLocals := Traversal.map_eq_of_forall₂
    (f := fun row : LocalVariable => row.start.toNat + row.length.toNat)
    (fun _ _ hRow => by rw [hRow.rest_eq]) (Traversal.forall₂_getD h.locals)
  unfold ends
  rw [hHandlers, hLocals]

theorem exists_of_mem_index? {types types' : List VerificationType} {index : UInt16}
    (h : List.Forall₂ (VerificationType.Reindexed R) types types')
    (hIndex : index ∈ types.filterMap VerificationType.index?) : ∃ index', R index index' := by
  obtain ⟨type, hType, hAt⟩ := List.mem_filterMap.mp hIndex
  obtain ⟨type', _, hReindexed⟩ := Traversal.exists_right_of_mem h hType
  cases hReindexed with
  | object hR =>
    cases hAt
    exact ⟨_, hR⟩
  | same hNone =>
    rw [hNone] at hAt
    cases hAt

/-- Each constant that is mentioned was replaced. -/
theorem Reindexed.exists_of_mem_mentions {index : UInt16} (h : tables.Reindexed R tables')
    (hIndex : index ∈ tables.mentions) : ∃ index', R index index' := by
  rcases List.mem_append.mp hIndex with hRest | hFrame
  · rcases List.mem_append.mp hRest with hHandler | hLocal
    · obtain ⟨row, hRow, hCatch⟩ := List.mem_filterMap.mp hHandler
      obtain ⟨row', _, hReindexed⟩ := Traversal.exists_right_of_mem h.handlers hRow
      have hRel := hReindexed.catchType
      rw [hCatch] at hRel
      obtain ⟨index', _, hR⟩ := Traversal.exists_right_of_some_rel hRel
      exact ⟨index', hR⟩
    · obtain ⟨row, hRow, hName⟩ := List.mem_flatMap.mp hLocal
      obtain ⟨row', _, hReindexed⟩ :=
        Traversal.exists_right_of_mem (Traversal.forall₂_getD h.locals) hRow
      rcases List.mem_cons.mp hName with rfl | hLast
      · exact ⟨_, hReindexed.name⟩
      · rw [List.mem_singleton.mp hLast]
        exact ⟨_, hReindexed.descriptor⟩
  · obtain ⟨row, hRow, hType⟩ := List.mem_flatMap.mp hFrame
    obtain ⟨row', _, hReindexed⟩ :=
      Traversal.exists_right_of_mem (Traversal.forall₂_getD h.frames) hRow
    rcases List.mem_append.mp hType with hLocals | hStack
    · exact exists_of_mem_index? hReindexed.locals hLocals
    · exact exists_of_mem_index? hReindexed.stack hStack

end SideTables

namespace Relocation

/-! ### Moving offsets -/

theorem Unmoved.bind_eq_ok {α β : Type} {P : Fault → Prop} {value : α} {result : Except Fault α}
    {next : α → Except Fault β} {final : β} (h : Unmoved P value result) :
    (result >>= next) = .ok final ↔ result = .ok value ∧ next value = .ok final := by
  rw [Traversal.bind_eq_ok]
  constructor
  · rintro ⟨middle, hMiddle, hNext⟩
    rw [hMiddle] at h
    obtain rfl : middle = value := h
    exact ⟨hMiddle, hNext⟩
  · rintro ⟨hResult, hNext⟩
    exact ⟨value, hResult, hNext⟩

section Identity

variable {map : OffsetMap} {boundaries : List Nat} {size : Nat}
  (hMap : map.Identity boundaries size) (hSize : size ≤ 65535) (method : String)
include hMap

theorem instruction_eq_ok (table : String) (offset : UInt16) :
    instruction map method table offset = .ok offset ↔ offset.toNat ∈ boundaries := by
  rw [instruction_eq hMap]
  split
  next hOffset => exact iff_of_true rfl hOffset
  next hOffset => exact iff_of_false (fun hOk => by cases hOk) hOffset

theorem line_eq_ok (row : Line) :
    line map method row = .ok row ↔ row.start.toNat ∈ boundaries := by
  unfold line
  rw [(instruction_unmoved hMap method (by simp [SideTables.names]) row.start).bind_eq_ok,
    instruction_eq_ok hMap]
  exact and_iff_left rfl

theorem mapOffset_eq_ok (type : VerificationType) :
    type.mapOffset (instruction map method SideTables.framesName) = .ok type ↔
      ∀ offset, type.offset? = some offset → offset ∈ boundaries := by
  cases type with
  | uninitialized offset =>
    unfold VerificationType.mapOffset
    rw [(instruction_unmoved hMap method (by simp [SideTables.names]) offset).bind_eq_ok,
      instruction_eq_ok hMap]
    simp [VerificationType.offset?, Traversal.pure_eq_ok]
  | top | integer | float | double | long | null | uninitializedThis | object _ =>
    exact iff_of_true rfl fun _ hNone => by cases hNone

theorem mapM_mapOffset_eq_ok (types : List VerificationType) :
    types.mapM (·.mapOffset (instruction map method SideTables.framesName)) = .ok types ↔
      ∀ offset ∈ types.filterMap VerificationType.offset?, offset ∈ boundaries := by
  rw [Traversal.mapM_eq_ok_self]
  simp only [mapOffset_eq_ok hMap, List.mem_filterMap]
  constructor
  · rintro h offset ⟨type, hType, hOffset⟩
    exact h type hType offset hOffset
  · intro h type hType offset hOffset
    exact h offset ⟨type, hType, hOffset⟩

theorem frame_eq_ok (row : Frame) :
    frame map method row = .ok row ↔
      ∀ offset ∈ row.offset.toNat :: (row.locals ++ row.stack).filterMap VerificationType.offset?,
        offset ∈ boundaries := by
  have hOffset := instruction_unmoved hMap method
    (show SideTables.framesName ∈ SideTables.names by simp [SideTables.names]) row.offset
  have hTypes := Unmoved.mapM (mapOffset_unmoved hMap method)
  unfold frame
  rw [hOffset.bind_eq_ok, (hTypes row.locals).bind_eq_ok, (hTypes row.stack).bind_eq_ok,
    instruction_eq_ok hMap, mapM_mapOffset_eq_ok hMap, mapM_mapOffset_eq_ok hMap,
    List.filterMap_append, List.forall_mem_cons, List.forall_mem_append, Traversal.pure_eq_ok]
  exact and_congr_right fun _ => and_congr_right fun _ => and_iff_left rfl

include hSize

theorem rangeEnd_eq_ok (table : String) (offset : Nat) :
    rangeEnd map method table offset = .ok (UInt16.ofNat offset) ↔
      offset ∈ boundaries ∨ offset = size := by
  rw [rangeEnd_eq hMap hSize]
  split
  next hOffset => exact iff_of_true rfl hOffset
  next hOffset => exact iff_of_false (fun hOk => by cases hOk) hOffset

theorem handler_eq_ok (row : Handler) :
    handler map method row = .ok row ↔
      row.start.toNat ∈ boundaries ∧ (row.stop.toNat ∈ boundaries ∨ row.stop.toNat = size) ∧
        row.handler.toNat ∈ boundaries := by
  have hTable : SideTables.handlersName ∈ SideTables.names := by simp [SideTables.names]
  unfold handler
  rw [(instruction_unmoved hMap method hTable row.start).bind_eq_ok,
    (rangeEnd_unmoved hMap hSize method hTable row.stop.toNat).bind_eq_ok,
    (instruction_unmoved hMap method hTable row.handler).bind_eq_ok, instruction_eq_ok hMap,
    rangeEnd_eq_ok hMap hSize, instruction_eq_ok hMap, UInt16.ofNat_toNat, Traversal.pure_eq_ok]
  exact and_congr_right fun _ => and_congr_right fun _ => and_iff_left rfl

theorem localVariable_eq_ok (row : LocalVariable) :
    localVariable map method row = .ok row ↔
      row.start.toNat ∈ boundaries ∧
        (row.start.toNat + row.length.toNat ∈ boundaries ∨
          row.start.toNat + row.length.toNat = size) := by
  have hTable : SideTables.localsName ∈ SideTables.names := by simp [SideTables.names]
  unfold localVariable
  rw [(instruction_unmoved hMap method hTable row.start).bind_eq_ok,
    (rangeEnd_unmoved hMap hSize method hTable _).bind_eq_ok, instruction_eq_ok hMap,
    rangeEnd_eq_ok hMap hSize, ofNat_add_sub_start, Traversal.pure_eq_ok]
  exact and_congr_right fun _ => and_iff_left rfl

/-- Side tables are moved, to themselves, just if all their offsets are in place. -/
theorem sideTables_eq_ok (tables : SideTables) :
    sideTables map method tables = .ok tables ↔
      (∀ offset ∈ tables.starts, offset ∈ boundaries) ∧
        ∀ offset ∈ tables.ends, offset ∈ boundaries ∨ offset = size := by
  have hHandlers := Unmoved.mapM (handler_unmoved hMap hSize method) tables.handlers
  have hLines := Unmoved.option_mapM (Unmoved.mapM (line_unmoved hMap method)) tables.lines
  have hLocals := Unmoved.option_mapM
    (Unmoved.mapM (localVariable_unmoved hMap hSize method)) tables.locals
  have hFrames := Unmoved.option_mapM (Unmoved.mapM (frame_unmoved hMap method)) tables.frames
  unfold sideTables
  rw [hHandlers.bind_eq_ok, hLines.bind_eq_ok, hLocals.bind_eq_ok, hFrames.bind_eq_ok,
    Traversal.mapM_eq_ok_self, Traversal.option_mapM_eq_ok_self, Traversal.option_mapM_eq_ok_self,
    Traversal.option_mapM_eq_ok_self, Traversal.pure_eq_ok]
  simp only [handler_eq_ok hMap hSize, line_eq_ok hMap, localVariable_eq_ok hMap hSize,
    frame_eq_ok hMap]
  unfold SideTables.starts SideTables.ends
  simp only [List.forall_mem_append, List.forall_mem_flatMap, List.forall_mem_map,
    List.forall_mem_cons, List.not_mem_nil, false_implies, implies_true, and_true, forall_and]
  tauto

end Identity

/-! ### Finding constants -/

variable {pool : Pool} {map : HandleMap} {unit : Bytecode} {tables : SideTables}

section Constants

variable (hScanned : unit.Scanned) (hValid : pool.Valid)
include hScanned

theorem index_mem_operands {use : Use} (hUse : use ∈ unit.uses) :
    (use ∈ unit.singleUses ∧ use.index ∈ unit.oneByteOperands) ∨
      use.index ∈ unit.twoByteOperands := by
  rcases List.mem_append.mp hUse with hSingle | hDouble
  · left
    refine ⟨hSingle, ?_⟩
    rw [← hScanned.map_index_singleUses]
    exact List.mem_map_of_mem hSingle
  · right
    rw [← hScanned.map_index_doubleUses]
    exact List.mem_map_of_mem hDouble

include hValid

theorem operands_eq_ok :
    (∃ found, operands pool map unit tables = .ok found) ↔
      (∀ index ∈ unit.oneByteOperands, ∃ slot ≤ 255, map.LeadsTo pool index slot) ∧
        ∀ index ∈ unit.twoByteOperands ++ tables.mentions, ∃ slot, map.LeadsTo pool index slot := by
  constructor
  · rintro ⟨found, hOperands⟩
    have hFound := found_of_operands hOperands
    constructor
    · intro index hIndex
      rw [← hScanned.map_index_singleUses] at hIndex
      obtain ⟨use, hUse, rfl⟩ := List.mem_map.mp hIndex
      obtain ⟨offset, hOffset, rfl⟩ := List.mem_map.mp hUse
      obtain ⟨byte, hByte⟩ := hFound.singles.exists_mem offset hOffset
      have hFinal := singleIndex_eq_ok.mp (hFound.singles.of_mem offset byte hByte).2
      refine ⟨byte.toNat, Nat.le_of_lt_succ byte.toNat_lt, ?_⟩
      rw [← UInt8.toNat_toUInt16]
      exact (finalIndex_eq_ok hValid).mp hFinal
    · intro index hIndex
      rcases List.mem_append.mp hIndex with hDouble | hTable
      · rw [← hScanned.map_index_doubleUses] at hDouble
        obtain ⟨use, hUse, rfl⟩ := List.mem_map.mp hDouble
        obtain ⟨offset, hOffset, rfl⟩ := List.mem_map.mp hUse
        obtain ⟨word, hWord⟩ := hFound.doubles.exists_mem offset hOffset
        exact ⟨word.toNat,
          (finalIndex_eq_ok hValid).mp (hFound.doubles.of_mem offset word hWord).2⟩
      · have hReindexed := SideTables.mapIndices_ok
          (R := fun index final => map.LeadsTo pool index final.toNat)
          (fun _ _ _ => (finalIndex_eq_ok hValid).mp) hFound.tables
        obtain ⟨final, hFinal⟩ := hReindexed.exists_of_mem_mentions hTable
        exact ⟨final.toNat, hFinal⟩
  · rintro ⟨hSingles, hOthers⟩
    cases hOperands : operands pool map unit tables with
    | ok found => exact ⟨found, rfl⟩
    | error fault =>
      have hLeads : ∀ use ∈ unit.uses ++ tables.uses, map.Leads pool use.index := by
        intro use hUse
        rcases List.mem_append.mp hUse with hCode | hTable
        · rcases index_mem_operands hScanned hCode with ⟨_, hIndex⟩ | hIndex
          · obtain ⟨slot, _, hSlot⟩ := hSingles use.index hIndex
            exact hSlot.leads hValid
          · obtain ⟨slot, hSlot⟩ := hOthers use.index (List.mem_append_left _ hIndex)
            exact hSlot.leads hValid
        · have hMention : use.index ∈ tables.mentions := by
            rw [← SideTables.map_index_uses]
            exact List.mem_map_of_mem hTable
          obtain ⟨slot, hSlot⟩ := hOthers use.index (List.mem_append_right _ hMention)
          exact hSlot.leads hValid
      obtain ⟨offset, hOffset, final, hFinal, hLt, _⟩ := operands_error hValid hLeads hOperands
      have hIndex : (unit.single? offset).getD 0 ∈ unit.oneByteOperands := by
        rw [← hScanned.map_index_singleUses]
        exact List.mem_map_of_mem (List.mem_map_of_mem hOffset)
      obtain ⟨slot, hLe, hSlot⟩ := hSingles _ hIndex
      have hEq := hSlot.unique ((finalIndex_eq_ok hValid).mp hFinal)
      omega

end Constants

/-! ### Relocating -/

/-- The constants of the method can be found and the offsets in its side tables are in place. -/
structure Relocatable (pool : Pool) (map : HandleMap) (unit : Bytecode) (tables : SideTables) :
    Prop where
  oneByte : ∀ index ∈ unit.oneByteOperands, ∃ slot ≤ 255, map.LeadsTo pool index slot
  others : ∀ index ∈ unit.twoByteOperands ++ tables.mentions,
    ∃ slot, map.LeadsTo pool index slot
  starts : ∀ offset ∈ tables.starts, InstructionAt unit.code offset
  ends : ∀ offset ∈ tables.ends, InstructionAt unit.code offset ∨ offset = unit.code.size

/-- What a relocated method has in common with the method before: all but its constants, each of
which is now the slot that its handle leads to. -/
structure Relocates (pool : Pool) (map : HandleMap) (unit unit' : Bytecode)
    (tables tables' : SideTables) : Prop where
  boundaries_eq : unit'.boundaries = unit.boundaries
  singles_eq : unit'.singles = unit.singles
  doubles_eq : unit'.doubles = unit.doubles
  code : unit.Reindexed (fun index final => map.LeadsTo pool index final.toNat) unit'
  tables : tables.Reindexed (fun index final => map.LeadsTo pool index final.toNat) tables'

/-- No step of relocation reads or writes outside the code or subtracts the larger offset. -/
structure InRange (unit : Bytecode) : Prop where
  /-- Where operands are read. -/
  read : ∀ offset ∈ unit.singles ++ unit.doubles, ∀ place ∈ operandPlaces unit.code offset,
    place < unit.code.size
  /-- Where instructions are cut out of the code. -/
  cut : ∀ (i start : Nat), unit.boundaries[i]? = some start →
    start ≤ unit.boundaries[i + 1]?.getD unit.code.size ∧
      unit.boundaries[i + 1]?.getD unit.code.size ≤ unit.code.size
  /-- Where operands are written. -/
  written : ∀ offset ∈ unit.singles ++ unit.doubles, ∃ landed,
    (copy unit).offsets.instruction unit.method codeName offset = .ok landed ∧
      landed + (operandAt unit.code offset).width < (copy unit).code.size
  /-- How the lengths of local variables are found again. -/
  length : ∀ (row : LocalVariable) (start stop : UInt16),
    instruction (copy unit).offsets unit.method SideTables.localsName row.start = .ok start →
    rangeEnd (copy unit).offsets unit.method SideTables.localsName
      (row.start.toNat + row.length.toNat) = .ok stop → start ≤ stop

variable {unit' : Bytecode} {tables' : SideTables}

theorem inRange (hScanned : unit.Scanned) : InRange unit := by
  obtain ⟨hCode, _, hMap⟩ := copy_spec hScanned.tiles
  have hAt : ∀ offset ∈ unit.singles ++ unit.doubles, offset ∈ unit.boundaries := by
    intro offset hOffset
    rw [hScanned.tiles.mem_iff]
    rcases List.mem_append.mp hOffset with hSingle | hDouble
    · exact (hScanned.mem_singles.mp hSingle).1
    · exact (hScanned.mem_doubles.mp hDouble).1
  have hRead : ∀ offset ∈ unit.singles ++ unit.doubles,
      ∀ place ∈ operandPlaces unit.code offset, place < unit.code.size :=
    fun offset hOffset place hPlace => hScanned.tiles.place_lt_size (hAt offset hOffset) hPlace
  refine ⟨hRead, fun _ _ => hScanned.tiles.cut, ?_, ?_⟩
  · intro offset hOffset
    refine ⟨offset, by rw [hMap.instruction_eq, if_pos (hAt offset hOffset)], ?_⟩
    rw [hCode]
    have hWidth : 0 < (operandAt unit.code offset).width := by
      rcases List.mem_append.mp hOffset with hSingle | hDouble
      · rw [(hScanned.mem_singles.mp hSingle).2]
        exact Nat.zero_lt_one
      · rw [(hScanned.mem_doubles.mp hDouble).2]
        exact Nat.zero_lt_two
    exact hRead offset hOffset _ (mem_operandPlaces.mpr ⟨by omega, Nat.le_refl _⟩)
  · intro row start stop hStart hStop
    rw [instruction_eq hMap] at hStart
    rw [rangeEnd_eq hMap hScanned.size_le] at hStop
    split at hStart
    next =>
      split at hStop
      next hEnd =>
        cases hStart
        cases hStop
        have hLe : row.start.toNat + row.length.toNat ≤ 65535 := by
          have := hScanned.size_le
          rcases hEnd with hMem | hEq
          · have := hMap.lt_size _ hMem
            omega
          · omega
        rw [UInt16.le_iff_toNat_le, UInt16.toNat_ofNat_of_lt' (by unfold UInt16.size; omega)]
        exact Nat.le_add_right _ _
      next => cases hStop
    next => cases hStart

theorem apply_eq_ok {found : Operands} {R : UInt16 → UInt16 → Prop} (hScanned : unit.Scanned)
    (hFound : Found pool map unit tables found) (hTables : tables.Reindexed R found.tables) :
    (∃ result, Relocation.apply unit found = .ok result) ↔
      (∀ offset ∈ tables.starts, InstructionAt unit.code offset) ∧
        ∀ offset ∈ tables.ends, InstructionAt unit.code offset ∨ offset = unit.code.size := by
  have hMap := (copy_spec hScanned.tiles).2.2
  have hUnmoved := sideTables_unmoved hMap hScanned.size_le unit.method found.tables
  have hOk := sideTables_eq_ok hMap hScanned.size_le unit.method found.tables
  simp only [hTables.starts_eq, hTables.ends_eq, hScanned.tiles.mem_iff] at hOk
  rw [← hOk, apply_eq hScanned hFound]
  constructor
  · rintro ⟨result, hResult⟩
    exact (hUnmoved.bind_eq_ok.mp hResult).1
  · intro hTables'
    rw [hTables']
    exact ⟨_, rfl⟩

theorem relocate_eq_ok (hScanned : unit.Scanned) :
    relocate pool map unit tables = (.ok (), unit', tables') ↔
      ∃ found, operands pool map unit tables = .ok found ∧
        Relocation.apply unit found = .ok (unit', tables') := by
  rcases relocate_cases pool map tables hScanned.progress_eq with
    ⟨found, relocated, moved, hOperands, hApply, hRun⟩ | ⟨fault, progress, hCause, hRun⟩
  · rw [hRun, hOperands]
    constructor
    · rintro ⟨⟩
      exact ⟨found, rfl, hApply⟩
    · rintro ⟨found', hFound, hApply'⟩
      cases hFound
      rw [hApply] at hApply'
      cases hApply'
      rfl
  · rw [hRun]
    refine iff_of_false (fun hOk => by cases hOk) ?_
    rintro ⟨found, hOperands, hApply⟩
    rcases hCause with ⟨hFault, _⟩ | ⟨found', hOperands', hFault, _⟩
    · rw [hOperands] at hFault
      cases hFault
    · rw [hOperands] at hOperands'
      cases hOperands'
      rw [hApply] at hFault
      cases hFault

/-- Relocation of scanned code succeeds just if its constants can be found and the offsets in its
tables are in place. It then changes constants only, and it never leaves the code. -/
theorem relocate_succeeds_iff (pool : Pool) (hValid : pool.Valid) (map : HandleMap)
    (before unit : Bytecode) (hScan : before.scan = .ok unit) (tables : SideTables) :
    ((relocate pool map unit tables).1 = .ok () ↔ Relocatable pool map unit tables) ∧
      (∀ unit' tables', relocate pool map unit tables = (.ok (), unit', tables') →
        unit'.progress = .relocated ∧ Relocates pool map unit unit' tables tables') ∧
      InRange unit := by
  have hScanned := (Bytecode.scan_ok hScan).1
  have hR : ∀ offset index final, finalIndex pool map unit.method offset index = .ok final →
      map.LeadsTo pool index final.toNat := fun _ _ _ => (finalIndex_eq_ok hValid).mp
  have hReindexed {found : Operands} (hOperands : operands pool map unit tables = .ok found) :=
    SideTables.mapIndices_ok hR (found_of_operands hOperands).tables
  refine ⟨⟨fun hOk => ?_, fun hRelocatable => ?_⟩, fun unit' tables' hOk => ?_, inRange hScanned⟩
  · obtain ⟨found, hOperands, hApply⟩ := (relocate_eq_ok hScanned).mp (Prod.ext hOk rfl)
    obtain ⟨hSingles, hOthers⟩ := (operands_eq_ok hScanned hValid).mp ⟨found, hOperands⟩
    obtain ⟨hStarts, hEnds⟩ := (apply_eq_ok hScanned (found_of_operands hOperands)
      (hReindexed hOperands)).mp ⟨_, hApply⟩
    exact ⟨hSingles, hOthers, hStarts, hEnds⟩
  · obtain ⟨found, hOperands⟩ := (operands_eq_ok hScanned hValid).mpr
      ⟨hRelocatable.oneByte, hRelocatable.others⟩
    obtain ⟨⟨unit', tables'⟩, hApply⟩ := (apply_eq_ok hScanned (found_of_operands hOperands)
      (hReindexed hOperands)).mpr ⟨hRelocatable.starts, hRelocatable.ends⟩
    rw [(relocate_eq_ok hScanned).mpr ⟨found, hOperands, hApply⟩]
  · obtain ⟨found, hOperands, hApply⟩ := (relocate_eq_ok hScanned).mp hOk
    have hFound := found_of_operands hOperands
    obtain ⟨rfl, rfl⟩ := apply_ok hScanned hFound hApply
    exact ⟨rfl, rfl, rfl, rfl, reindexed_overwrite hScanned hFound hR, hReindexed hOperands⟩

/-- The image that holds the example class. -/
def demoImage : Image := (Image.empty ⟨"", "", true, true⟩).addClasses [.demo]

/-- Its pool, sorted and compacted. -/
def demoPool : Pool := demoImage.settings.freeze demoImage.pool

theorem valid_demoPool : demoPool.Valid := by
  have hRead : ∀ file ∈ [ClassFile.demo], file.IsRead := by
    intro file hFile
    rw [List.mem_singleton.mp hFile]
    exact ClassFile.demo_isRead
  have hSound := (Image.sound_empty ⟨"", "", true, true⟩).addClasses hRead
  exact (Settings.pruned_freeze _ hSound.valid).valid

def demoHandles : HandleMap := demoImage.classes.head?.elim .empty (·.handles)

def demoScanned : Bytecode :=
  { ClassFile.demoBody.bytecode with
    boundaries := [0, 2, 3, 6, 7]
    singles := [0]
    doubles := [3]
    progress := .scanned }

theorem scan_demoBody : ClassFile.demoBody.bytecode.scan = .ok demoScanned := by decide +kernel

theorem relocate_demoScanned :
    relocate demoPool demoHandles demoScanned ClassFile.demoBody.tables =
      (.ok (), (relocate demoPool demoHandles demoScanned ClassFile.demoBody.tables).2) :=
  Prod.ext (by decide +kernel) rfl

theorem relocate_succeeds_iff_demo :
    ClassFile.demoBody.bytecode.scan = .ok demoScanned ∧
      (relocate demoPool demoHandles demoScanned ClassFile.demoBody.tables).1 = .ok () ∧
      ((relocate demoPool demoHandles demoScanned ClassFile.demoBody.tables).1 = .ok () ↔
        Relocatable demoPool demoHandles demoScanned ClassFile.demoBody.tables) ∧
      (∀ unit' tables',
        relocate demoPool demoHandles demoScanned ClassFile.demoBody.tables =
          (.ok (), unit', tables') →
        unit'.progress = .relocated ∧
          Relocates demoPool demoHandles demoScanned unit' ClassFile.demoBody.tables tables') ∧
      InRange demoScanned :=
  ⟨scan_demoBody, congrArg Prod.fst relocate_demoScanned,
    relocate_succeeds_iff demoPool valid_demoPool demoHandles _ demoScanned scan_demoBody _⟩

end Relocation

end ClassRom
