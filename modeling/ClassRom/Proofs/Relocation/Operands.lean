import ClassRom.Proofs.Pool.Merging
import ClassRom.Proofs.Relocation.TableUses
import ClassRom.Proofs.Relocation.Tables

/-!
# Operands in relocation

The final index of a constant is the slot of the entry that its handle leads to, so what an operand
refers to in the pool has the key of what it referred to in the class. Where every handle leads to a
live entry, the only operand that cannot be replaced is a single byte that is too small for the
final index.
-/

namespace ClassRom

set_option autoImplicit false

/-- The entry that stands at the final index in the pool has the key of the constant at the index in
the table. -/
def SameConstant (table : Table) (pool : Pool) (index final : UInt16) : Prop :=
  ∃ constant entry key, table.get? index = some constant ∧ pool.entryAt? final = some entry ∧
    entry.index = some final.toNat ∧ table.source.keyOf constant = .ok key ∧
    pool.source.keyOf entry.value = .ok key

/-- The handle of the index leads to a live entry of the pool. -/
def HandleMap.Leads (map : HandleMap) (pool : Pool) (index : UInt16) : Prop :=
  ∃ handle, map.get? index = some handle ∧ handle.pool = pool.id ∧ handle.entry ∈ pool.order

namespace Relocation

variable {table : Table} {pool : Pool} {map : HandleMap} {method : String} {offset : Nat}
  {index final : UInt16} {fault : Fault}

/-- Indices of live entries fit into sixteen bits. -/
theorem toNat_ofNat_index {id : EntryId} {entry : Entry} {slot : Nat} (hValid : pool.Valid)
    (hEntry : pool.get? id = some entry) (hSlot : entry.index = some slot) :
    (UInt16.ofNat slot).toNat = slot := by
  have hAt := (hValid.slot_iff slot id).mpr ⟨entry, hEntry, hSlot⟩
  obtain ⟨hLt, _⟩ := Array.getElem?_eq_some_iff.mp hAt
  have hSize : pool.slots.size ≤ 65535 := hValid.size_le
  exact UInt16.toNat_ofNat_of_lt' (by unfold UInt16.size; omega)

/-- Why a constant has no final index, with the fault that says so. -/
inductive Unresolved (pool : Pool) (map : HandleMap) (method : String) (offset : Nat)
    (index : UInt16) : Fault → Prop
  | unmerged (hNone : map.get? index = none) :
    Unresolved pool map method offset index
      (.consistency (.unmergedConstant method offset index))
  | foreign {handle : Handle} (hHandle : map.get? index = some handle)
      (hPool : handle.pool ≠ pool.id) :
    Unresolved pool map method offset index
      (.consistency (.foreignSharedConstant method offset handle.pool))
  | dangling {handle : Handle} (hHandle : map.get? index = some handle)
      (hPool : handle.pool = pool.id) (hNone : pool.get? handle.entry = none) :
    Unresolved pool map method offset index (.format (.danglingEntry handle.entry))
  | deleted {handle : Handle} {entry : Entry} (hHandle : map.get? index = some handle)
      (hPool : handle.pool = pool.id) (hEntry : pool.get? handle.entry = some entry)
      (hNone : entry.index = none) :
    Unresolved pool map method offset index
      (.consistency (.deletedConstant method offset index))

theorem Unresolved.finalIndex_eq (h : Unresolved pool map method offset index fault) :
    finalIndex pool map method offset index = .error fault := by
  unfold finalIndex
  cases h with
  | unmerged hNone =>
    unfold HandleMap.lookup
    rw [hNone]
    rfl
  | foreign hHandle hPool =>
    rw [HandleMap.lookup_eq_ok.mpr hHandle]
    exact if_pos hPool
  | dangling hHandle hPool hNone =>
    rw [HandleMap.lookup_eq_ok.mpr hHandle]
    refine (if_neg (not_not.mpr hPool)).trans ?_
    rw [hNone]
    rfl
  | deleted hHandle hPool hEntry hNone =>
    rw [HandleMap.lookup_eq_ok.mpr hHandle]
    refine (if_neg (not_not.mpr hPool)).trans ?_
    simp only [hEntry, hNone]
    rfl

theorem finalIndex_of_slot {handle : Handle} {entry : Entry} {slot : Nat}
    (hHandle : map.get? index = some handle) (hPool : handle.pool = pool.id)
    (hEntry : pool.get? handle.entry = some entry) (hSlot : entry.index = some slot) :
    finalIndex pool map method offset index = .ok (UInt16.ofNat slot) := by
  unfold finalIndex
  rw [HandleMap.lookup_eq_ok.mpr hHandle]
  refine (if_neg (not_not.mpr hPool)).trans ?_
  simp only [hEntry, hSlot]
  rfl

theorem resolved_or_unresolved (pool : Pool) (map : HandleMap) (method : String) (offset : Nat)
    (index : UInt16) :
    (∃ handle entry slot, map.get? index = some handle ∧ handle.pool = pool.id ∧
      pool.get? handle.entry = some entry ∧ entry.index = some slot) ∨
    ∃ fault, Unresolved pool map method offset index fault := by
  cases hHandle : map.get? index with
  | none => exact .inr ⟨_, .unmerged hHandle⟩
  | some handle =>
    by_cases hPool : handle.pool = pool.id
    · cases hEntry : pool.get? handle.entry with
      | none => exact .inr ⟨_, .dangling hHandle hPool hEntry⟩
      | some entry =>
        cases hSlot : entry.index with
        | none => exact .inr ⟨_, .deleted hHandle hPool hEntry hSlot⟩
        | some slot => exact .inl ⟨handle, entry, slot, rfl, hPool, hEntry, hSlot⟩
    · exact .inr ⟨_, .foreign hHandle hPool⟩

theorem finalIndex_ok_iff :
    finalIndex pool map method offset index = .ok final ↔
      ∃ handle entry slot, map.get? index = some handle ∧ handle.pool = pool.id ∧
        pool.get? handle.entry = some entry ∧ entry.index = some slot ∧
        final = UInt16.ofNat slot := by
  constructor
  · intro h
    rcases resolved_or_unresolved pool map method offset index with
      ⟨handle, entry, slot, hHandle, hPool, hEntry, hSlot⟩ | ⟨fault, hFault⟩
    · rw [finalIndex_of_slot hHandle hPool hEntry hSlot] at h
      cases h
      exact ⟨handle, entry, slot, hHandle, hPool, hEntry, hSlot, rfl⟩
    · rw [hFault.finalIndex_eq] at h
      cases h
  · rintro ⟨handle, entry, slot, hHandle, hPool, hEntry, hSlot, rfl⟩
    exact finalIndex_of_slot hHandle hPool hEntry hSlot

theorem finalIndex_error_iff :
    finalIndex pool map method offset index = .error fault ↔
      Unresolved pool map method offset index fault := by
  refine ⟨fun h => ?_, Unresolved.finalIndex_eq⟩
  rcases resolved_or_unresolved pool map method offset index with
    ⟨handle, entry, slot, hHandle, hPool, hEntry, hSlot⟩ | ⟨fault', hFault⟩
  · rw [finalIndex_of_slot hHandle hPool hEntry hSlot] at h
    cases h
  · rw [hFault.finalIndex_eq] at h
    cases h
    exact hFault

theorem finalIndex_eq_ok (hValid : pool.Valid) :
    finalIndex pool map method offset index = .ok final ↔
      ∃ handle entry, map.get? index = some handle ∧ handle.pool = pool.id ∧
        pool.get? handle.entry = some entry ∧ entry.index = some final.toNat := by
  rw [finalIndex_ok_iff]
  constructor
  · rintro ⟨handle, entry, slot, hHandle, hPool, hEntry, hSlot, rfl⟩
    refine ⟨handle, entry, hHandle, hPool, hEntry, ?_⟩
    rw [hSlot, toNat_ofNat_index hValid hEntry hSlot]
  · rintro ⟨handle, entry, hHandle, hPool, hEntry, hSlot⟩
    exact ⟨handle, entry, _, hHandle, hPool, hEntry, hSlot, UInt16.ofNat_toNat.symm⟩

theorem sameConstant_of_finalIndex (hValid : pool.Valid) (hFaithful : map.Faithful table pool)
    (h : finalIndex pool map method offset index = .ok final) :
    SameConstant table pool index final := by
  obtain ⟨handle, entry, hHandle, _, hEntry, hSlot⟩ := (finalIndex_eq_ok hValid).mp h
  obtain ⟨_, constant, other, key, hConstant, hKey, hOther, hKey'⟩ :=
    hFaithful index handle hHandle
  rw [Pool.constant?_of_get? hEntry] at hOther
  cases hOther
  have hAt := (hValid.slot_iff _ _).mpr ⟨entry, hEntry, hSlot⟩
  refine ⟨constant, entry, key, hConstant, ?_, hSlot, Source.keyOf_eq_ok.mpr hKey,
    Source.keyOf_eq_ok.mpr hKey'⟩
  unfold Pool.entryAt? Pool.idAt?
  rw [hAt]
  exact hEntry

theorem finalIndex_of_leads (hValid : pool.Valid) (h : map.Leads pool index) (method : String)
    (offset : Nat) : ∃ final, finalIndex pool map method offset index = .ok final := by
  obtain ⟨handle, hHandle, hPool, hLive⟩ := h
  obtain ⟨entry, hEntry, hIndex⟩ := hValid.mem_order_iff.mp hLive
  obtain ⟨slot, hSlot⟩ := Option.isSome_iff_exists.mp hIndex
  have hFinal : entry.index = some (UInt16.ofNat slot).toNat := by
    rw [toNat_ofNat_index hValid hEntry hSlot, hSlot]
  exact ⟨UInt16.ofNat slot,
    (finalIndex_eq_ok hValid).mpr ⟨handle, entry, hHandle, hPool, hEntry, hFinal⟩⟩

theorem singleIndex_eq_ok {byte : UInt8} :
    singleIndex pool map method offset index = .ok byte ↔
      finalIndex pool map method offset index = .ok byte.toUInt16 := by
  unfold singleIndex
  rw [Traversal.bind_eq_ok]
  constructor
  · rintro ⟨final, hFinal, h⟩
    by_cases hLt : 255 < final.toNat
    · rw [if_pos hLt] at h
      cases h
    · rw [if_neg hLt] at h
      cases h
      have hBack : final.toUInt8.toUInt16 = final := by
        rw [← UInt16.toNat_inj, UInt8.toNat_toUInt16, UInt16.toNat_toUInt8]
        omega
      rw [hFinal, hBack]
  · intro h
    have hLe : ¬255 < byte.toUInt16.toNat := by
      have := byte.toNat_lt
      rw [UInt8.toNat_toUInt16]
      omega
    refine ⟨byte.toUInt16, h, ?_⟩
    rw [if_neg hLe, UInt8.toUInt8_toUInt16]
    rfl

theorem singleIndex_eq_error (h : singleIndex pool map method offset index = .error fault) :
    finalIndex pool map method offset index = .error fault ∨
      ∃ final, finalIndex pool map method offset index = .ok final ∧ 255 < final.toNat ∧
        fault = .overflow method offset final := by
  unfold singleIndex at h
  rcases Traversal.bind_eq_error.mp h with hFinal | ⟨final, hFinal, hRest⟩
  · exact .inl hFinal
  · by_cases hLt : 255 < final.toNat
    · rw [if_pos hLt] at hRest
      cases hRest
      exact .inr ⟨final, hFinal, hLt, rfl⟩
    · rw [if_neg hLt] at hRest
      cases hRest

/-! ### Replacing operands -/

/-- The bytes that replace the constant operands of the code, with their places. -/
def Operands.bytes (operands : Operands) : List (Nat × UInt8) :=
  (operands.singles.map fun operand => (operand.1 + 1, operand.2)) ++
    operands.doubles.flatMap fun operand =>
      [(operand.1 + 1, UInt8.ofNat (operand.2.toNat / 256)),
        (operand.1 + 2, UInt8.ofNat operand.2.toNat)]

/-- A list of pairs that holds, for each offset and nothing else, what a lookup gives there. -/
structure Collected {β : Type} (offsets : List Nat) (get : Nat → Except Fault β)
    (found : List (Nat × β)) : Prop where
  exists_mem : ∀ offset ∈ offsets, ∃ value, (offset, value) ∈ found
  of_mem : ∀ offset value, (offset, value) ∈ found → offset ∈ offsets ∧ get offset = .ok value

theorem Collected.unique {β : Type} {offsets : List Nat} {get : Nat → Except Fault β}
    {found : List (Nat × β)} {value value' : β} (h : Collected offsets get found)
    (hMem : (offset, value) ∈ found) (hMem' : (offset, value') ∈ found) : value = value' := by
  have hGet := (h.of_mem offset value hMem).2
  rw [(h.of_mem offset value' hMem').2] at hGet
  cases hGet
  rfl

theorem collected_of_mapM {β : Type} {offsets : List Nat} {use : Nat → Use}
    {get : Use → Except Fault β} {found : List (Nat × β)}
    (hUse : ∀ offset, (use offset).offset = offset)
    (h : (offsets.map use).mapM (fun use => do return (use.offset, ← get use)) = .ok found) :
    Collected offsets (fun offset => get (use offset)) found := by
  have hStep (used : Use) (pair : Nat × β) :
      (do return (used.offset, ← get used) : Except Fault (Nat × β)) = .ok pair ↔
        pair.1 = used.offset ∧ get used = .ok pair.2 := by
    rw [Traversal.bind_eq_ok]
    constructor
    · rintro ⟨value, hValue, hDone⟩
      cases hDone
      exact ⟨rfl, hValue⟩
    · rintro ⟨hOffset, hValue⟩
      exact ⟨pair.2, hValue, by rw [← hOffset]; rfl⟩
  constructor
  · intro offset hOffset
    obtain ⟨pair, hPair, hGet⟩ := Traversal.exists_right_of_mem (Traversal.mapM_eq_ok.mp h)
      (List.mem_map_of_mem hOffset)
    rw [hStep, hUse] at hGet
    exact ⟨pair.2, by rw [← hGet.1]; exact hPair⟩
  · intro offset value hMem
    obtain ⟨used, hUsed, hGet⟩ := (Traversal.mem_iff_of_mapM_eq_ok h).mp hMem
    obtain ⟨offset', hOffset, rfl⟩ := List.mem_map.mp hUsed
    rw [hStep, hUse] at hGet
    obtain ⟨rfl, hValue⟩ := hGet
    exact ⟨hOffset, hValue⟩

/-- What finding the operands of a method gives. -/
structure Found (pool : Pool) (map : HandleMap) (unit : Bytecode) (tables : SideTables)
    (found : Operands) : Prop where
  singles : Collected unit.singles (fun offset =>
    singleIndex pool map unit.method offset ((unit.single? offset).getD 0)) found.singles
  doubles : Collected unit.doubles (fun offset =>
    finalIndex pool map unit.method offset ((unit.double? offset).getD 0)) found.doubles
  tables : tables.mapIndices (finalIndex pool map unit.method) = .ok found.tables

variable {unit : Bytecode} {tables : SideTables} {found : Operands} {place : Nat}
  {byte byte' : UInt8}

theorem found_of_operands (h : operands pool map unit tables = .ok found) :
    Found pool map unit tables found := by
  obtain ⟨singles, hSingles, hRest⟩ := Traversal.bind_eq_ok.mp h
  obtain ⟨doubles, hDoubles, hRest'⟩ := Traversal.bind_eq_ok.mp hRest
  obtain ⟨tables', hTables, hDone⟩ := Traversal.bind_eq_ok.mp hRest'
  cases hDone
  exact ⟨collected_of_mapM (fun _ => rfl) hSingles, collected_of_mapM (fun _ => rfl) hDoubles,
    hTables⟩

/-- A constant has no final index for one of four reasons. -/
theorem finalIndex_error_cases (h : finalIndex pool map method offset index = .error fault) :
    fault = .consistency (.unmergedConstant method offset index) ∨
    (∃ home, fault = .consistency (.foreignSharedConstant method offset home)) ∨
    (∃ entry, fault = .format (.danglingEntry entry)) ∨
    fault = .consistency (.deletedConstant method offset index) := by
  cases finalIndex_error_iff.mp h with
  | unmerged _ => exact .inl rfl
  | foreign _ _ => exact .inr (.inl ⟨_, rfl⟩)
  | dangling _ _ _ => exact .inr (.inr (.inl ⟨_, rfl⟩))
  | deleted _ _ _ _ => exact .inr (.inr (.inr rfl))

theorem finalIndex_ne_overflow {place : String} {offset' : Nat} :
    finalIndex pool map method offset index ≠ .error (.overflow place offset' final) := by
  intro h
  rcases finalIndex_error_cases h with hFault | ⟨_, hFault⟩ | ⟨_, hFault⟩ | hFault <;> cases hFault

/-- Operands are not found for one of two reasons: some constant has no final index, or one does not
fit into a single byte. -/
theorem operands_error_cases (h : operands pool map unit tables = .error fault) :
    (∃ use ∈ unit.uses ++ tables.uses,
      finalIndex pool map unit.method use.offset use.index = .error fault) ∨
    ∃ use ∈ unit.singleUses, ∃ final,
      finalIndex pool map unit.method use.offset use.index = .ok final ∧ 255 < final.toNat ∧
        fault = .overflow unit.method use.offset final := by
  rcases Traversal.bind_eq_error.mp h with hSingles | ⟨singles, _, hRest⟩
  · obtain ⟨use, hUse, hFault⟩ := Traversal.mapM_eq_error hSingles
    rcases Traversal.bind_eq_error.mp hFault with hIndex | ⟨_, _, hDone⟩
    · rcases singleIndex_eq_error hIndex with hFinal | hOverflow
      · exact .inl ⟨use, List.mem_append_left _ (List.mem_append_left _ hUse), hFinal⟩
      · exact .inr ⟨use, hUse, hOverflow⟩
    · exact absurd hDone Traversal.pure_ne_error
  rcases Traversal.bind_eq_error.mp hRest with hDoubles | ⟨doubles, _, hRest'⟩
  · obtain ⟨use, hUse, hFault⟩ := Traversal.mapM_eq_error hDoubles
    rcases Traversal.bind_eq_error.mp hFault with hFinal | ⟨_, _, hDone⟩
    · exact .inl ⟨use, List.mem_append_left _ (List.mem_append_right _ hUse), hFinal⟩
    · exact absurd hDone Traversal.pure_ne_error
  rcases Traversal.bind_eq_error.mp hRest' with hTables | ⟨_, _, hDone⟩
  · obtain ⟨use, hUse, hFinal⟩ := SideTables.mapIndices_error hTables
    exact .inl ⟨use, List.mem_append_right _ hUse, hFinal⟩
  · exact absurd hDone Traversal.pure_ne_error

theorem operands_error (hValid : pool.Valid)
    (hLeads : ∀ use ∈ unit.uses ++ tables.uses, map.Leads pool use.index)
    (h : operands pool map unit tables = .error fault) :
    ∃ offset ∈ unit.singles, ∃ final,
      finalIndex pool map unit.method offset ((unit.single? offset).getD 0) = .ok final ∧
        255 < final.toNat ∧ fault = .overflow unit.method offset final := by
  rcases operands_error_cases h with ⟨use, hUse, hFault⟩ | ⟨use, hUse, hOverflow⟩
  · -- where handles lead to live entries, final indices are always found
    obtain ⟨final, hFinal⟩ := finalIndex_of_leads hValid (hLeads use hUse) unit.method use.offset
    rw [hFinal] at hFault
    cases hFault
  · obtain ⟨offset, hOffset, rfl⟩ := List.mem_map.mp hUse
    exact ⟨offset, hOffset, hOverflow⟩

end Relocation

end ClassRom
