import ClassRom.Proofs.Pool.Gathering
import ClassRom.Proofs.Table.Spelling

/-!
# The table that a pool is written as

A pool is written as a table whose references are the indices of live entries. Writing succeeds
exactly when every reference leads to a live entry and every text is short enough. Once resolved, the
table has under each index the key that the pool has there.
-/

namespace ClassRom

set_option autoImplicit false

/-- The indices of a table with the keys of the constants there. -/
def Table.listing (table : Table) : List (Option Nat × Except FormatFault Key) :=
  table.entries.map fun entry => (some entry.1, table.source.keyOf entry.2)

namespace Pool

variable {pool : Pool} {id : EntryId} {entry : Entry} {bytes : Bytes} {table : Table}

/-- Every reference of a live entry leads to a live entry of the kind it asks for. -/
def Closed (pool : Pool) : Prop :=
  ∀ id entry, pool.get? id = some entry → entry.index.isSome → ∀ ref ∈ entry.value.refs,
    ∃ target referred, ref.2 = .entry target ∧ pool.get? target = some referred ∧
      referred.index.isSome ∧ ref.1.accepts referred.value

/-- The indices of the live entries with their keys, in the order of the slots. -/
def listing (pool : Pool) : List (Option Nat × Except FormatFault Key) :=
  pool.order.filterMap fun id => (pool.get? id).map fun entry =>
    (entry.index, pool.source.keyOf entry.value)

def exportRef (pool : Pool) (ref : Ref) : UInt16 := (ref.target?.bind pool.indexOf?).getD 0

/-- The table that the pool is written as. -/
def rawTable (pool : Pool) : Table where
  slots := pool.slots.map fun slot =>
    (slot.bind pool.source.constant?).map (Constant.reindex pool.exportRef)

theorem exportRef_entry {index : Nat} (hEntry : pool.get? id = some entry)
    (hIndex : entry.index = some index) : pool.exportRef (.entry id) = UInt16.ofNat index := by
  change ((pool.get? id).bind fun entry => entry.index.map UInt16.ofNat).getD 0 = _
  rw [hEntry, Option.bind_some, hIndex]
  rfl

theorem finalIndex_eq_ok {ref : Ref} {i : UInt16} :
    pool.finalIndex ref = .ok i ↔ ∃ id entry index, ref = .entry id ∧ pool.get? id = some entry ∧
      entry.index = some index ∧ i = UInt16.ofNat index := by
  unfold finalIndex
  cases ref with
  | index j => simp [Ref.resolved]
  | entry id =>
    simp only [Ref.resolved, Ref.entry.injEq]
    cases hEntry : pool.get? id with
    | none => simp [hEntry]
    | some entry => cases hIndex : entry.index <;> simp [hEntry, hIndex, eq_comm]

theorem exportRef_of_finalIndex {ref : Ref} {i : UInt16} (h : pool.finalIndex ref = .ok i) :
    pool.exportRef ref = i := by
  obtain ⟨id, entry, index, rfl, hEntry, hIndex, rfl⟩ := finalIndex_eq_ok.mp h
  exact exportRef_entry hEntry hIndex

@[simp] theorem size_rawTable (pool : Pool) : pool.rawTable.size = pool.size := Array.size_map

theorem slot?_rawTable (pool : Pool) (slot : Nat) :
    pool.rawTable.slot? slot = (pool.slots[slot]?.join.bind pool.source.constant?).map
      (Constant.reindex pool.exportRef) := by
  unfold Table.slot? rawTable
  rw [Array.getElem?_map]
  cases pool.slots[slot]? <;> rfl

theorem slot?_rawTable_of_index (h : pool.LaidOut) {slot : Nat} (hEntry : pool.get? id = some entry)
    (hIndex : entry.index = some slot) :
    pool.rawTable.slot? slot = some (entry.value.reindex pool.exportRef) := by
  rw [slot?_rawTable, (h.slot_iff slot id).mpr ⟨entry, hEntry, hIndex⟩]
  change Option.map _ (pool.source.constant? id) = _
  rw [constant?_of_get? hEntry]
  rfl

theorem exists_of_slot?_rawTable (h : pool.LaidOut) {slot : Nat} {constant : Constant}
    (hSlot : pool.rawTable.slot? slot = some constant) :
    ∃ id entry, pool.get? id = some entry ∧ entry.index = some slot ∧
      constant = entry.value.reindex pool.exportRef := by
  rw [slot?_rawTable, Option.map_eq_some_iff] at hSlot
  obtain ⟨value, hValue, rfl⟩ := hSlot
  obtain ⟨id, hId, hAt⟩ := Option.bind_eq_some_iff.mp hValue
  obtain ⟨entry, hEntry, hIndex⟩ := (h.slot_iff slot id).mp (Option.join_eq_some_iff.mp hId)
  rw [constant?_of_get? hEntry] at hAt
  exact ⟨id, entry, hEntry, hIndex, by rw [Option.some.inj hAt]⟩

theorem constants_rawTable (pool : Pool) : pool.rawTable.constants =
    (pool.order.filterMap pool.source.constant?).map (Constant.reindex pool.exportRef) := by
  unfold Table.constants rawTable order
  rw [Array.toList_map, List.filterMap_map, List.filterMap_filterMap, List.map_filterMap]
  rfl

theorem LaidOut.spaced_rawTable (h : pool.LaidOut) : pool.rawTable.Spaced := by
  have hSlots : pool.rawTable.slots.toList =
      (pool.slots.toList.map (·.bind pool.source.constant?)).map
        (Option.map (Constant.reindex pool.exportRef)) := by
    rw [rawTable, Array.toList_map, List.map_map]
    rfl
  have hCells (constant : Constant) :
      constant.cells.map (Option.map (Constant.reindex pool.exportRef)) =
        (constant.reindex pool.exportRef).cells := by
    unfold Constant.cells Constant.reindex
    rw [Constant.isWide_withRefs]
    by_cases hWide : constant.isWide <;> simp [hWide]
  unfold Table.Spaced
  rw [hSlots, h.slots_eq, List.map_cons, h.map_cells, constants_rawTable, List.map_cons,
    List.map_flatMap, List.flatMap_map]
  simp only [hCells]
  rfl

/-! ### Writing -/

theorem finalIndex_of_live {target : EntryId} {referred : Entry}
    (hReferred : pool.get? target = some referred) (hIndex : referred.index.isSome) :
    ∃ index, pool.finalIndex (.entry target) = .ok index := by
  obtain ⟨slot, hSlot⟩ := Option.isSome_iff_exists.mp hIndex
  exact ⟨_, finalIndex_eq_ok.mpr ⟨target, referred, slot, rfl, hReferred, hSlot, rfl⟩⟩

theorem Valid.closed_iff (h : pool.Valid) :
    pool.Closed ↔ ∀ id entry, pool.get? id = some entry → entry.index.isSome →
      ∀ ref ∈ entry.value.refs, ∃ i, pool.finalIndex ref.2 = .ok i := by
  constructor
  · intro hClosed id entry hEntry hLive ref hRef
    obtain ⟨target, referred, hTarget, hReferred, hIndex, _⟩ :=
      hClosed id entry hEntry hLive ref hRef
    rw [hTarget]
    exact finalIndex_of_live hReferred hIndex
  · intro hRefs id entry hEntry hLive ref hRef
    obtain ⟨i, hi⟩ := hRefs id entry hEntry hLive ref hRef
    obtain ⟨target, referred, slot, hTarget, hReferred, hIndex, _⟩ := finalIndex_eq_ok.mp hi
    obtain ⟨target', constant, hTarget', hAt, hAccepts⟩ :=
      h.closed id entry.value (constant?_of_get? hEntry) ref hRef
    obtain rfl : target = target' := by simpa [hTarget] using hTarget'
    rw [constant?_of_get? hReferred] at hAt
    cases hAt
    exact ⟨target, referred, hTarget, hReferred, by rw [hIndex]; rfl, hAccepts⟩

theorem chunks_eq (pool : Pool) : pool.chunks = .ok (Wire.u16 (UInt16.ofNat pool.size)) ::
    (pool.order.filterMap pool.source.constant?).flatMap (·.chunks pool.finalIndex) := by
  unfold chunks
  refine congrArg (_ :: ·) ?_
  induction pool.order with
  | nil => rfl
  | cons id ids ih =>
    rw [List.flatMap_cons, ih]
    cases hEntry : pool.get? id with
    | none =>
      have hNone : pool.source.constant? id = none := Option.map_eq_none_iff.mpr hEntry
      rw [List.filterMap_cons_none hNone]
      rfl
    | some entry => rw [List.filterMap_cons_some (constant?_of_get? hEntry), List.flatMap_cons]

theorem LaidOut.mem_filterMap_order (h : pool.LaidOut) {constant : Constant} :
    constant ∈ pool.order.filterMap pool.source.constant? ↔
      ∃ id entry, pool.get? id = some entry ∧ entry.index.isSome ∧ entry.value = constant := by
  simp only [List.mem_filterMap, h.mem_order_iff, constant?_eq_some]
  constructor
  · rintro ⟨id, ⟨entry, hEntry, hIndex⟩, entry', hEntry', rfl⟩
    rw [hEntry] at hEntry'
    cases hEntry'
    exact ⟨id, entry, hEntry, hIndex, rfl⟩
  · rintro ⟨id, entry, hEntry, hIndex, rfl⟩
    exact ⟨id, ⟨entry, hEntry, hIndex⟩, entry, hEntry, rfl⟩

/-- A pool can be written if nothing live refers to anything deleted and the texts are short, and
then goes out as its table. -/
theorem Valid.write_eq_iff (h : pool.Valid) :
    pool.write = ⟨bytes, none⟩ ↔
      (pool.Closed ∧ ∀ constant ∈ pool.rawTable.constants, constant.Fits) ∧
        bytes = pool.rawTable.wire := by
  have hConstants (bytes : Bytes) :
      Output.Emits ((pool.order.filterMap pool.source.constant?).flatMap
        (·.chunks pool.finalIndex)) bytes ↔
      (pool.Closed ∧ ∀ constant ∈ pool.rawTable.constants, constant.Fits) ∧
        bytes = pool.rawTable.constants.flatMap Constant.wire := by
    rw [Output.emits_flatMap fun constant _ bytes =>
      constant.emits_chunks fun _ _ => exportRef_of_finalIndex]
    rw [constants_rawTable, List.flatMap_map, h.closed_iff, List.forall_mem_map]
    simp only [Constant.fits_reindex, h.mem_filterMap_order]
    refine and_congr_left fun _ => ⟨fun hAll => ⟨?_, ?_⟩, ?_⟩
    · intro id entry hEntry hLive
      exact (hAll entry.value ⟨id, entry, hEntry, hLive, rfl⟩).2
    · intro constant hConstant
      exact (hAll constant hConstant).1
    · rintro ⟨hRefs, hFits⟩ constant hConstant
      refine ⟨hFits constant hConstant, ?_⟩
      obtain ⟨id, entry, hEntry, hLive, rfl⟩ := hConstant
      exact hRefs id entry hEntry hLive
  unfold write
  rw [Output.ofChunks_eq_iff, chunks_eq, ← List.singleton_append, Output.emits_append]
  simp only [Output.emits_singleton, Except.ok.injEq, hConstants, Table.wire, size_rawTable]
  constructor
  · rintro ⟨_, _, rfl, ⟨hWritable, rfl⟩, rfl⟩
    exact ⟨hWritable, rfl⟩
  · rintro ⟨hWritable, rfl⟩
    exact ⟨_, _, rfl, ⟨hWritable, rfl⟩, rfl⟩

/-! ### What the table says -/

theorem raw_rawTable (h : pool.LaidOut) : pool.rawTable.Raw := by
  intro slot constant hSlot ref hRef
  obtain ⟨id, entry, _, _, rfl⟩ := exists_of_slot?_rawTable h hSlot
  rw [Constant.refs_reindex] at hRef
  obtain ⟨old, _, rfl⟩ := List.mem_map.mp hRef
  exact ⟨_, rfl⟩

theorem Closed.exportRef_eq (h : pool.Closed) (hValid : pool.Valid) {ref : RefKind × Ref}
    (hEntry : pool.get? id = some entry) (hLive : entry.index.isSome)
    (hRef : ref ∈ entry.value.refs) :
    ∃ target referred slot, ref.2 = .entry target ∧ pool.get? target = some referred ∧
      referred.index = some slot ∧ ref.1.accepts referred.value ∧
      (pool.exportRef ref.2).toNat = slot := by
  obtain ⟨target, referred, hTarget, hReferred, hIndex, hAccepts⟩ := h id entry hEntry hLive ref hRef
  obtain ⟨slot, hSlot⟩ := Option.isSome_iff_exists.mp hIndex
  have hBound := hValid.size_le
  obtain ⟨hLt, _⟩ := Array.getElem?_eq_some_iff.mp
    ((hValid.slot_iff slot target).mpr ⟨referred, hReferred, hSlot⟩)
  unfold size at hBound
  refine ⟨target, referred, slot, hTarget, hReferred, hSlot, hAccepts, ?_⟩
  rw [hTarget, exportRef_entry hReferred hSlot]
  exact UInt16.toNat_ofNat_of_lt' (by unfold UInt16.size; omega)

theorem Closed.resolved_ok (h : pool.Closed) (hValid : pool.Valid) :
    ∃ table, pool.rawTable.resolved = .ok table := by
  refine Table.resolved_ok fun slot constant hSlot => ?_
  obtain ⟨id, entry, hEntry, hIndex, rfl⟩ := exists_of_slot?_rawTable hValid.toLaidOut hSlot
  intro ref hRef i hi
  rw [Constant.refs_reindex] at hRef
  obtain ⟨old, hOld, rfl⟩ := List.mem_map.mp hRef
  cases hi
  obtain ⟨target, referred, slot', _, hReferred, hSlot', hAccepts, hExport⟩ :=
    h.exportRef_eq hValid hEntry (by rw [hIndex]; rfl) hOld
  dsimp only
  rw [hExport, slot?_rawTable_of_index hValid.toLaidOut hReferred hSlot', Option.any_some,
    Constant.reindex, Constant.accepts_withRefs]
  exact hAccepts

/-- In the table each live entry has the key that it has in the pool. -/
theorem Closed.hasKey_direct (h : pool.Closed) (hValid : pool.Valid)
    (hResolved : pool.rawTable.resolved = .ok table) {key : Key} (hEntry : pool.get? id = some entry)
    (hLive : entry.index.isSome) (hKey : pool.source.HasKey entry.value key) :
    table.source.HasKey (entry.value.reindex pool.exportRef).direct key := by
  -- references lead to entries of lower rank
  induction hRank : entry.value.rank using Nat.strongRecOn generalizing id entry key with
  | _ rank ih =>
    have hDirect (constant : Constant) : (constant.reindex pool.exportRef).direct =
        constant.withRefs (constant.refs.map fun ref => .entry (pool.exportRef ref.2).toNat) := by
      cases constant <;> rfl
    rw [hDirect]
    refine hKey.moved ?_
    rw [List.forall₂_map_right_iff, List.forall₂_same]
    intro ref hRef
    obtain ⟨target, referred, slot, hTarget, hReferred, hSlot, _, hExport⟩ :=
      h.exportRef_eq hValid hEntry hLive hRef
    obtain ⟨target', constant, key', hTarget', hAt, _, hKey', hLt⟩ := hKey.exists_of_mem_refs hRef
    obtain rfl : target = target' := by simpa [hTarget] using hTarget'
    rw [constant?_of_get? hReferred] at hAt
    cases hAt
    have hSome : referred.index.isSome := by rw [hSlot]; rfl
    refine ⟨target, slot, hTarget, by rw [hExport], referred.value, _, key',
      constant?_of_get? hReferred, hKey', ?_, ih _ (hRank ▸ hLt) hReferred hSome hKey' rfl⟩
    change table.slot? slot = _
    rw [Table.slot?_of_resolved hResolved, slot?_rawTable_of_index hValid.toLaidOut hReferred hSlot]
    rfl

theorem order_eq_range (pool : Pool) :
    pool.order = (List.range pool.size).filterMap fun slot => pool.slots[slot]?.join := by
  unfold order size
  conv_lhs => rw [← Traversal.filterMap_getElem?_range pool.slots.toList, List.filterMap_filterMap]
  rw [Array.length_toList]
  refine List.filterMap_congr fun slot _ => ?_
  rw [Array.getElem?_toList]
  cases pool.slots[slot]? <;> rfl

theorem Closed.listing_eq (h : pool.Closed) (hValid : pool.Valid)
    (hResolved : pool.rawTable.resolved = .ok table) : table.listing = pool.listing := by
  unfold Table.listing listing
  rw [Table.entries_eq_range, order_eq_range, List.map_filterMap, List.filterMap_filterMap,
    Table.size_of_resolved hResolved, size_rawTable]
  refine List.filterMap_congr fun slot _ => ?_
  rw [Table.slot?_of_resolved hResolved]
  cases hSlot : pool.slots[slot]?.join with
  | none => rw [slot?_rawTable, hSlot]; rfl
  | some id =>
    obtain ⟨entry, hEntry, hIndex⟩ :=
      (hValid.slot_iff slot id).mp (Option.join_eq_some_iff.mp hSlot)
    obtain ⟨key, hKey⟩ :=
      (hValid.closed id _ (constant?_of_get? hEntry)).exists_hasKey hValid.closed
    have hTable := h.hasKey_direct hValid hResolved hEntry (by rw [hIndex]; rfl) hKey
    rw [slot?_rawTable_of_index hValid.toLaidOut hEntry hIndex]
    simp only [Option.map_some, Option.bind_some, hEntry, hIndex, Source.keyOf_of_hasKey hTable,
      Source.keyOf_of_hasKey hKey]

end Pool

end ClassRom
