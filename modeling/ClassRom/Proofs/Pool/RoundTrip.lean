import ClassRom.Proofs.Pool.Export
import ClassRom.Proofs.Pool.Operations
import Mathlib.Data.List.Nodup

/-!
# Pools that are written and read again

A pool made from a table whose keys are distinct is laid out like the table, so it is written as that
table. The table of a pool has distinct keys; hence what is written is read as a pool with the same
keys under the same indices, and that pool is written as the same bytes.
-/

namespace ClassRom

set_option autoImplicit false

/-- Turning references to other entries is undone by writing them as the indices they had. -/
theorem Constant.reindex_withRefs_direct {constant : Constant} {refs : List Ref}
    {indexOf : Ref → UInt16}
    (h : List.Forall₂ (fun ref turned => ref.2 = .index (indexOf turned)) constant.refs refs) :
    (constant.direct.withRefs refs).reindex indexOf = constant := by
  cases constant with
  | utf8 _ | integer _ | float _ | long _ | double _ => rfl
  | string _ | classRef _ =>
    obtain ⟨a, _, hA, hNil, rfl⟩ := List.forall₂_cons_left_iff.mp h
    cases hNil
    cases hA
    rfl
  | nameAndType _ _ | member _ _ _ =>
    obtain ⟨a, _, hA, hRest, rfl⟩ := List.forall₂_cons_left_iff.mp h
    obtain ⟨b, _, hB, hNil, rfl⟩ := List.forall₂_cons_left_iff.mp hRest
    cases hNil
    cases hA
    cases hB
    rfl

namespace Table

variable {table raw other : Table} {key : Key}

/-- No two constants of the table have the same key. -/
def Distinct (table : Table) : Prop := (table.constants.map table.source.keyOf).Nodup

theorem Distinct.eq_of_hasKey (h : table.Distinct) {a b : Nat × Constant} (hA : a ∈ table.entries)
    (hB : b ∈ table.entries) (hKeyA : table.source.HasKey a.2 key)
    (hKeyB : table.source.HasKey b.2 key) : a = b := by
  unfold Distinct at h
  rw [← map_snd_entries, List.map_map] at h
  refine List.inj_on_of_nodup_map h hA hB ?_
  exact (Source.keyOf_of_hasKey hKeyA).trans (Source.keyOf_of_hasKey hKeyB).symm

theorem Distinct.nodup_keysAt (h : table.Distinct) : (table.keysAt table.entries).Nodup := by
  have hKeys : table.keysAt table.entries =
      (table.constants.map table.source.keyOf).filterMap Except.toOption := by
    rw [← map_snd_entries, List.map_map, List.filterMap_map]
    rfl
  rw [hKeys]
  refine h.filterMap fun a b key hA hB => ?_
  cases a with
  | error _ => cases hA
  | ok _ =>
    cases b with
    | error _ => cases hB
    | ok _ => cases hA; cases hB; rfl

theorem map_snd_listing (table : Table) :
    table.listing.map Prod.snd = table.constants.map table.source.keyOf := by
  unfold listing
  rw [← map_snd_entries, List.map_map, List.map_map]
  rfl

theorem constants_of_resolved (h : raw.resolved = .ok table) :
    table.constants = raw.constants.map Constant.direct := by
  rw [← map_snd_entries, ← map_snd_entries, entries_eq_range, entries_eq_range,
    size_of_resolved h, List.map_filterMap, List.map_filterMap, List.map_filterMap]
  refine List.filterMap_congr fun slot _ => ?_
  rw [slot?_of_resolved h]
  cases raw.slot? slot <;> rfl

theorem Spaced.shape_eq (h : table.Spaced) (h' : other.Spaced)
    (hWide : table.constants.map Constant.isWide = other.constants.map Constant.isWide) :
    table.shape = other.shape := by
  have hShape (constants : List Constant) :
      (constants.flatMap Constant.cells).map (Option.map Constant.isWide) =
        (constants.map Constant.isWide).flatMap fun wide =>
          some wide :: if wide then [none] else [] := by
    rw [List.map_flatMap, List.flatMap_map]
    refine congrArg (List.flatMap · _) (funext fun constant => ?_)
    unfold Constant.cells
    cases hConstant : constant.isWide <;> simp [hConstant]
  unfold shape
  rw [h, h', List.map_cons, List.map_cons, hShape, hShape, hWide]

theorem map_fst_entries_congr (h : table.shape = other.shape) :
    table.entries.map Prod.fst = other.entries.map Prod.fst := by
  have hSlot (table : Table) (slot : Nat) :
      (table.slot? slot).map Constant.isWide = table.shape[slot]?.join := by
    unfold slot? shape
    rw [List.getElem?_map, Array.getElem?_toList]
    cases table.slots[slot]? <;> rfl
  have hEntries (table : Table) : table.entries.map Prod.fst =
      (List.range table.shape.length).filterMap fun slot =>
        table.shape[slot]?.join.map fun _ => slot := by
    rw [entries_eq_range, List.map_filterMap]
    rw [show table.shape.length = table.size by simp [shape, size]]
    refine List.filterMap_congr fun slot _ => ?_
    rw [← hSlot]
    cases table.slot? slot <;> rfl
  rw [hEntries, hEntries, h]

end Table

namespace Pool

variable {table raw : Table} {pool loose : Pool} {ids : Array (Option EntryId)} {id : EntryId}
  {entry : Entry} {slot : Nat} {constant : Constant} {bytes : Bytes}

theorem LaidOut.map_fst_entries_rawTable (h : pool.LaidOut) :
    pool.rawTable.entries.map Prod.fst =
      pool.order.filterMap fun id => (pool.get? id).bind (·.index) := by
  rw [Table.entries_eq_range, order_eq_range, List.map_filterMap, List.filterMap_filterMap,
    size_rawTable]
  refine List.filterMap_congr fun slot _ => ?_
  cases hSlot : pool.slots[slot]?.join with
  | none => rw [slot?_rawTable, hSlot]; rfl
  | some id =>
    obtain ⟨entry, hEntry, hIndex⟩ := (h.slot_iff slot id).mp (Option.join_eq_some_iff.mp hSlot)
    rw [slot?_rawTable_of_index h hEntry hIndex]
    simp only [Option.map_some, Option.bind_some, hEntry, hIndex]

theorem Valid.closed_of_live (h : pool.Valid)
    (hLive : ∀ id entry, pool.get? id = some entry → entry.index.isSome) : pool.Closed := by
  intro id entry hEntry _ ref hRef
  obtain ⟨target, constant, hTarget, hAt, hAccepts⟩ :=
    h.closed id entry.value (constant?_of_get? hEntry) ref hRef
  obtain ⟨referred, hReferred, rfl⟩ := constant?_eq_some.mp hAt
  exact ⟨target, referred, hTarget, hReferred, hLive target referred hReferred, hAccepts⟩

theorem Valid.nodup_listing (h : pool.Valid) : (pool.listing.map Prod.snd).Nodup := by
  unfold listing
  rw [List.map_filterMap]
  refine List.pairwise_filterMap.mpr (h.nodup_order.imp_of_mem ?_)
  intro a b hA hB hNe result hResult result' hResult' hEq
  obtain ⟨first, hFirst, hLiveA⟩ := h.mem_order_iff.mp hA
  obtain ⟨second, hSecond, hLiveB⟩ := h.mem_order_iff.mp hB
  obtain ⟨key, hKey⟩ := (h.closed a _ (constant?_of_get? hFirst)).exists_hasKey h.closed
  rw [hFirst] at hResult
  rw [hSecond] at hResult'
  cases hResult
  cases hResult'
  have hKeyA := Source.keyOf_of_hasKey hKey
  exact hNe (h.regular.distinct a b first second key hFirst hLiveA hSecond hLiveB hKeyA
    (hEq.symm.trans hKeyA))

namespace Assembled

theorem values_eq (h : Assembled table ids loose pool) (hDistinct : table.Distinct) :
    loose.values = table.constants := by
  have hSublist := h.gathered.sublist
  rw [Table.map_snd_entries] at hSublist
  refine hSublist.eq_of_length_le ?_
  have hKeys : table.constants.map table.source.keyOf ⊆ loose.values.map table.source.keyOf := by
    intro result hResult
    obtain ⟨constant, hConstant, rfl⟩ := List.mem_map.mp hResult
    obtain ⟨slot, hSlot⟩ := Table.mem_constants_iff.mp hConstant
    obtain ⟨key, id, hKey, hFound, _⟩ :=
      h.gathered.standing slot constant (Table.mem_entries_iff.mpr hSlot)
    obtain ⟨entry, hEntry, hHas⟩ := (h.gathered.find?_iff key id).mp hFound
    rw [Source.keyOf_of_hasKey hKey, ← Source.keyOf_of_hasKey hHas]
    refine List.mem_map_of_mem (List.mem_of_getElem? (i := id) ?_)
    rw [getElem?_values, constant?_of_get? hEntry]
  simpa using (hDistinct.subperm hKeys).length_le

theorem indices_eq (h : Assembled table ids loose pool) (hSpaced : table.Spaced)
    (hDistinct : table.Distinct) :
    pool.arena.toList.map (·.index) = table.entries.map fun slot => some slot.1 := by
  have hWide : pool.rawTable.constants.map Constant.isWide =
      table.constants.map Constant.isWide := by
    rw [constants_rawTable, h.filterMap_order, ← h.values_eq hDistinct, ← h.wide_eq, List.map_map]
    exact List.map_congr_left fun constant _ => constant.isWide_withRefs _
  have hSlots := Table.map_fst_entries_congr (h.spaced_rawTable.shape_eq hSpaced hWide)
  have hLive : pool.arena.toList.map (·.index) =
      (pool.arena.toList.filterMap (·.index)).map some := by
    rw [List.map_filterMap, ← List.filterMap_eq_map]
    refine List.filterMap_congr fun entry hMem => ?_
    obtain ⟨id, hAt⟩ := List.mem_iff_getElem?.mp hMem
    have hEntry : pool.get? id = some entry := Array.getElem?_toList.symm.trans hAt
    obtain ⟨slot, hSlot⟩ := Option.isSome_iff_exists.mp (h.mem_order hEntry)
    rw [hSlot]
    exact congrArg some hSlot
  rw [hLive, show (table.entries.map fun slot => some slot.1) =
    (table.entries.map Prod.fst).map some by rw [List.map_map]; rfl, ← hSlots,
    h.map_fst_entries_rawTable, h.order_eq, ← List.filterMap_filterMap, filterMap_get?_range]

/-- The entry that stands for a slot of the table has the index of that slot. -/
theorem index_eq (h : Assembled table ids loose pool) (hSpaced : table.Spaced)
    (hDistinct : table.Distinct) (hSlot : table.slot? slot = some constant)
    (hId : ids[slot]?.join = some id) :
    ∃ entry, pool.get? id = some entry ∧ entry.index = some slot := by
  have hMem := Table.mem_entries_iff.mpr hSlot
  obtain ⟨key, id', hKey, hFound, hId'⟩ := h.gathered.standing slot constant hMem
  obtain rfl : id = id' := Option.some.inj (hId.symm.trans hId')
  obtain ⟨old, hOld, hHas⟩ := (h.gathered.find?_iff key id).mp hFound
  -- the constant at this place of the table has the key, so it is the one in the slot
  have hAt : (table.entries.map Prod.snd)[id]? = some old.value := by
    rw [Table.map_snd_entries, ← h.values_eq hDistinct, getElem?_values, constant?_of_get? hOld]
  rw [List.getElem?_map, Option.map_eq_some_iff] at hAt
  obtain ⟨place, hPlace, hValue⟩ := hAt
  obtain rfl : place = (slot, constant) :=
    hDistinct.eq_of_hasKey (List.mem_of_getElem? hPlace) hMem (hValue ▸ hHas) hKey
  have hIndex : (pool.arena.toList.map (·.index))[id]? = some (some slot) := by
    rw [h.indices_eq hSpaced hDistinct, List.getElem?_map, hPlace]
    rfl
  rw [List.getElem?_map, Array.getElem?_toList, Option.map_eq_some_iff] at hIndex
  exact hIndex

/-- A pool made from a table with distinct keys is written as that table. -/
theorem rawTable_eq (h : Assembled table ids loose pool) (hSpaced : raw.Spaced) (hRaw : raw.Raw)
    (hResolved : raw.resolved = .ok table) (hDistinct : table.Distinct) : pool.rawTable = raw := by
  rw [← h.spaced_rawTable.ofConstants_eq, ← hSpaced.ofConstants_eq, constants_rawTable,
    h.filterMap_order]
  refine congrArg Table.ofConstants (List.ext_getElem? fun id => ?_)
  have hOld : loose.values[id]? = raw.constants[id]?.map Constant.direct := by
    rw [h.values_eq hDistinct, Table.constants_of_resolved hResolved, List.getElem?_map]
  rw [getElem?_values] at hOld
  rw [List.getElem?_map, getElem?_values]
  have hRel := h.entries id
  cases hConstant : raw.constants[id]? with
  | none =>
    rw [hConstant, Option.map_none] at hOld
    rw [Option.map_eq_none_iff.mp hOld] at hRel
    cases hNew : pool.get? id with
    | none => exact congrArg (Option.map _) (Option.map_eq_none_iff.mpr hNew)
    | some new =>
      rw [hNew] at hRel
      cases hRel
  | some constant =>
    rw [hConstant, Option.map_some] at hOld
    obtain ⟨old, hEntry, hValue⟩ := constant?_eq_some.mp hOld
    rw [hEntry] at hRel
    obtain ⟨new, hNew, hRebase, _⟩ := Traversal.exists_right_of_some_rel hRel
    obtain ⟨refs, hRefs, hTurned⟩ := rebase_eq_ok.mp hRebase
    rw [constant?_of_get? hNew, ← hTurned, hValue, Option.map_some]
    rw [hValue, Constant.refs_direct, List.forall₂_map_left_iff] at hRefs
    refine congrArg some (Constant.reindex_withRefs_direct ?_)
    obtain ⟨slot, hSlot⟩ := Table.mem_constants_iff.mp (List.mem_of_getElem? hConstant)
    have hDirect : table.slot? slot = some constant.direct := by
      rw [Table.slot?_of_resolved hResolved, hSlot]
      rfl
    refine List.forall₂_iff_zip.mpr ⟨hRefs.length_eq, fun {ref turned} hPair => ?_⟩
    obtain ⟨a, b, hA, hB, rfl⟩ := (List.forall₂_iff_zip.mp hRefs).2 hPair
    have hRef := (List.of_mem_zip hPair).1
    obtain ⟨i, hi⟩ := hRaw slot constant hSlot ref hRef
    obtain rfl : a = i.toNat := by simpa [hi, Ref.direct, eq_comm] using hA
    obtain ⟨a', referred, hA', hReferred, _⟩ :=
      Table.closed_of_resolved hRaw hResolved slot _ hDirect (ref.1, ref.2.direct)
        (by rw [Constant.refs_direct]; exact List.mem_map_of_mem hRef)
    obtain rfl : a' = i.toNat := by simpa [hi, Ref.direct, eq_comm] using hA'
    obtain ⟨target, hTarget, hIndex⟩ :=
      h.index_eq (Table.spaced_of_resolved hSpaced hResolved) hDistinct hReferred hB
    rw [hi, exportRef_entry hTarget hIndex, UInt16.ofNat_toNat]

theorem uses_eq (h : Assembled table ids loose pool) (hSize : table.size ≤ 65535)
    (hDistinct : table.Distinct) (hEntry : pool.get? id = some entry) : entry.uses.value = 1 := by
  obtain ⟨old, key, hOld, hKey, hHas⟩ := h.exists_hasKey hEntry
  have hMem := h.gathered.mem_keysAt_iff.mpr
    ⟨id, (h.gathered.find?_iff key id).mpr ⟨old, hOld, hKey⟩⟩
  rw [h.uses_eq_count hSize hEntry hHas, List.count_eq_one_of_mem hDistinct.nodup_keysAt hMem]

end Assembled

theorem ofTable_distinct {poolId : PoolId} (hSpaced : raw.Spaced) (hRaw : raw.Raw)
    (hSize : raw.size ≤ 65535) (hResolved : raw.resolved = .ok table) (hDistinct : table.Distinct)
    (h : ofTable poolId table = .ok pool) :
    pool.Valid ∧ pool.Closed ∧ pool.rawTable = raw ∧
      ∀ id entry, pool.get? id = some entry → entry.uses.value = 1 := by
  have hSize' : table.size ≤ 65535 := by
    rw [Table.size_of_resolved hResolved]
    exact hSize
  obtain ⟨_, ids, loose, hAssembled⟩ := ofTable_assembled hSize' h
  have hValid := hAssembled.valid (Table.spaced_of_resolved hSpaced hResolved) hSize'
  exact ⟨hValid, hValid.closed_of_live fun _ _ => hAssembled.mem_order,
    hAssembled.rawTable_eq hSpaced hRaw hResolved hDistinct,
    fun _ _ => hAssembled.uses_eq hSize' hDistinct⟩

theorem Valid.toNat_size (h : pool.Valid) : (UInt16.ofNat pool.size).toNat = pool.size := by
  have hSize := h.size_le
  exact UInt16.toNat_ofNat_of_lt' (by unfold UInt16.size; omega)

theorem Valid.readEntries_wire (h : pool.Valid)
    (hFits : ∀ constant ∈ pool.rawTable.constants, constant.Fits)
    (hNormal : ∀ id entry, pool.get? id = some entry → entry.index.isSome → entry.value.Normal)
    (rest : Bytes) :
    Table.readEntries (UInt16.ofNat pool.size)
      (pool.rawTable.constants.flatMap Constant.wire ++ rest) = .ok (pool.rawTable, rest) := by
  refine (Table.readEntries_reads _ _ _ _).mpr
    ⟨_, ⟨h.spaced_rawTable, ?_, Table.spelledBy_wire fun constant hConstant => ?_⟩, rfl⟩
  · simp [h.toNat_size]
  · obtain ⟨slot, hSlot⟩ := Table.mem_constants_iff.mp hConstant
    refine Constant.spelledBy_wire (hFits constant hConstant) ?_
      (raw_rawTable h.toLaidOut slot _ hSlot)
    obtain ⟨id, entry, hEntry, hIndex, rfl⟩ := exists_of_slot?_rawTable h.toLaidOut hSlot
    exact Constant.normal_reindex.mpr (hNormal id entry hEntry (by rw [hIndex]; rfl))

/-- What was written is read as a pool that lists the same keys and is written in the same way. -/
theorem Valid.read_of_write (h : pool.Valid)
    (hNormal : ∀ id entry, pool.get? id = some entry → entry.index.isSome → entry.value.Normal)
    (hWrite : pool.write = ⟨bytes, none⟩) (newId : PoolId) (rest : Bytes) :
    ∃ copy count, read newId (bytes ++ rest) = .ok ((copy, count), rest) ∧
      count.toNat = pool.size ∧ copy.listing = pool.listing ∧
      (∀ id entry, copy.get? id = some entry → entry.uses.value = 1) ∧ copy.write = ⟨bytes, none⟩ := by
  obtain ⟨⟨hClosed, hFits⟩, hBytes⟩ := h.write_eq_iff.mp hWrite
  have hSize : pool.rawTable.size ≤ 65535 := by simp [h.size_le]
  have hRaw := raw_rawTable h.toLaidOut
  obtain ⟨table, hResolved⟩ := hClosed.resolved_ok h
  have hListing := hClosed.listing_eq h hResolved
  have hDistinct : table.Distinct := by
    unfold Table.Distinct
    rw [← Table.map_snd_listing, hListing]
    exact h.nodup_listing
  have hFormed := Table.wellFormed_of_resolved hRaw hSize hResolved
  obtain ⟨copy, hCopy⟩ := ofTable_ok newId hFormed.size_le hFormed.closed
  obtain ⟨hValid, hCopyClosed, hTable, hUses⟩ :=
    ofTable_distinct h.spaced_rawTable hRaw hSize hResolved hDistinct hCopy
  refine ⟨copy, UInt16.ofNat pool.size, ?_, h.toNat_size, ?_, hUses, ?_⟩
  · rw [hBytes, Table.wire, size_rawTable, List.append_assoc]
    exact read_eq_ok.mpr ⟨_, pool.rawTable, table, (Reader.reads_u16 _ _ _).mpr ⟨_, rfl, rfl⟩,
      h.readEntries_wire hFits hNormal rest, hResolved, hCopy⟩
  · rw [← hListing, hCopyClosed.listing_eq hValid (hTable ▸ hResolved)]
  · exact hValid.write_eq_iff.mpr ⟨⟨hCopyClosed, hTable ▸ hFits⟩, hTable ▸ hBytes⟩

/-- What was read is written as it was, if nothing in it can be spelled in another way. -/
theorem write_of_read {poolId : PoolId} {input : Bytes} {count : UInt16}
    (hRead : read poolId input = .ok ((pool, count), []))
    (hTable : Table.read input = .ok (raw, [])) (hResolved : raw.resolved = .ok table)
    (hDistinct : table.Distinct)
    (hCanonical : ∀ payload ∈ Table.textBytes input, ∃ text : Text, text.encode = payload) :
    pool.write = ⟨input, none⟩ := by
  obtain ⟨middle, raw', table', hCount, hEntries, hResolved', hPool⟩ := read_eq_ok.mp hRead
  obtain ⟨count', middle', hCount', hEntries'⟩ := Reader.bind_eq_ok.mp hTable
  rw [hCount] at hCount'
  cases hCount'
  rw [hEntries] at hEntries'
  cases hEntries'
  rw [hResolved] at hResolved'
  cases hResolved'
  obtain ⟨hRaw, _⟩ := Table.readEntries_yields _ _ _ _ hEntries
  obtain ⟨_, ⟨hSpaced, hSize, forms, hForms, rfl⟩, rfl⟩ :=
    (Table.readEntries_reads _ _ _ _).mp hEntries
  have hLe : raw.size ≤ 65535 := by
    rw [hSize]
    exact Nat.le_of_lt_succ count.toNat_lt
  obtain ⟨hValid, hClosed, hEq, _⟩ := ofTable_distinct hSpaced hRaw hLe hResolved hDistinct hPool
  have hLeft : count.toNat - 1 = (raw.constants.map Constant.width).sum := by
    rw [← hSize, hSpaced.size_eq]
    omega
  unfold Table.textBytes at hCanonical
  rw [hCount] at hCanonical
  dsimp only at hCanonical
  rw [hLeft] at hCanonical
  obtain ⟨hWire, hFits⟩ := Table.flatten_eq_wire hForms hCanonical
  refine hValid.write_eq_iff.mpr ⟨⟨hClosed, hEq ▸ hFits⟩, ?_⟩
  obtain ⟨_, rfl, hInput⟩ := (Reader.reads_u16 _ _ _).mp hCount
  rw [hInput, hEq, Table.wire, hSize, UInt16.ofNat_toNat, List.append_nil, hWire]

/-- Pools that were written come back with the same keys under the same indices and are written as
the same bytes. Bytes that were read are written again if their keys are distinct and their texts
spelled as the encoder spells them. -/
theorem write_read_round_trip :
    (∀ (start pool : Pool) (bytes : Bytes), Begun start → Evolves start pool →
      (∀ id entry, pool.get? id = some entry → entry.index.isSome → entry.value.Normal) →
      pool.write = ⟨bytes, none⟩ → ∀ (newId : PoolId) (rest : Bytes), ∃ copy count,
        read newId (bytes ++ rest) = .ok ((copy, count), rest) ∧ count.toNat = pool.size ∧
        copy.listing = pool.listing ∧
        (∀ id entry, copy.get? id = some entry → entry.uses.value = 1) ∧
        copy.write = ⟨bytes, none⟩) ∧
    (∀ (poolId : PoolId) (input : Bytes) (pool : Pool) (count : UInt16) (raw table : Table),
      read poolId input = .ok ((pool, count), []) → Table.read input = .ok (raw, []) →
      raw.resolved = .ok table → table.Distinct →
      (∀ payload ∈ Table.textBytes input, ∃ text : Text, text.encode = payload) →
      pool.write = ⟨input, none⟩) := by
  constructor
  · intro start pool bytes hBegun hEvolves hNormal hWrite newId rest
    exact (hEvolves.valid_extends hBegun.valid).1.read_of_write hNormal hWrite newId rest
  · intro poolId input pool count raw table hRead hTable hResolved hDistinct hCanonical
    exact write_of_read hRead hTable hResolved hDistinct hCanonical

/-- A pool whose string was moved before its text, with an entry deleted and a wide one at the end. -/
def rearranged : Pool :=
  let text := ((empty 7).appendLocal (.utf8 (.unicode "hi")) 1 0).2
  let wide := (text.appendLocal (.long 5) 1 0).2
  let spare := (wide.appendLocal (.utf8 (.unicode "no")) 0 0).2
  (spare.appendLocal (.string (.entry 0)) 1 3).2.sortByLdcUse.compact.2

def rearrangedBytes : Bytes := [0, 5, 8, 0, 2, 1, 0, 2, 104, 105, 5, 0, 0, 0, 0, 0, 0, 0, 5]

def rearrangedTable (text : Ref) : Table :=
  ⟨#[none, some (.string text), some (.utf8 (.unicode "hi")), some (.long 5), none]⟩

theorem evolves_rearranged : Evolves (empty 7) rearranged :=
  .compact (.sortByLdcUse (.appendLocal _ _ _ (.appendLocal _ _ _ (.appendLocal _ _ _
    (.appendLocal _ _ _ (.refl _))))))

theorem write_rearranged : rearranged.write = ⟨rearrangedBytes, none⟩ := by
  have hBytes : rearranged.write.bytes = rearrangedBytes := by decide +kernel
  have hFault : rearranged.write.fault = none := Option.isNone_iff_eq_none.mp (by decide +kernel)
  rw [← hBytes, ← hFault]

theorem normal_rearranged (id : EntryId) (entry : Entry) (h : rearranged.get? id = some entry)
    (_ : entry.index.isSome) : entry.value.Normal := by
  have hArena : rearranged.arena.toList.map (·.value) = [.utf8 (.unicode "hi"), .long 5,
      .utf8 (.unicode "no"), .string (.entry 0)] := by decide +kernel
  have hMem : entry.value ∈ rearranged.arena.toList.map (·.value) :=
    List.mem_map_of_mem (List.mem_of_getElem? (Array.getElem?_toList.trans h))
  rw [hArena] at hMem
  simp only [List.mem_cons, List.not_mem_nil, or_false] at hMem
  rcases hMem with hValue | hValue | hValue | hValue <;> rw [hValue] <;> trivial

theorem write_read_round_trip_rearranged :
    (Begun (empty 7) ∧ Evolves (empty 7) rearranged ∧
      rearranged.write = ⟨rearrangedBytes, none⟩ ∧ rearranged.size = 5) ∧
    (∃ copy count, read 8 (rearrangedBytes ++ [255]) = .ok ((copy, count), [255]) ∧
      count.toNat = rearranged.size ∧ copy.listing = rearranged.listing ∧
      (∀ id entry, copy.get? id = some entry → entry.uses.value = 1) ∧
      copy.write = ⟨rearrangedBytes, none⟩) ∧
    ∃ copy count, read 8 rearrangedBytes = .ok ((copy, count), []) ∧
      copy.write = ⟨rearrangedBytes, none⟩ := by
  have hForward := write_read_round_trip.1 (empty 7) rearranged rearrangedBytes (.empty 7)
    evolves_rearranged normal_rearranged write_rearranged 8
  refine ⟨⟨.empty 7, evolves_rearranged, write_rearranged, by decide +kernel⟩, hForward [255], ?_⟩
  obtain ⟨copy, count, hRead, _⟩ := hForward []
  have hTable : Table.read rearrangedBytes = .ok (rearrangedTable (.index 2), []) := rfl
  have hResolved : (rearrangedTable (.index 2)).resolved = .ok (rearrangedTable (.entry 2)) := rfl
  rw [List.append_nil] at hRead
  refine ⟨copy, count, hRead, write_read_round_trip.2 8 rearrangedBytes copy count _ _ hRead hTable
    hResolved ?_ ?_⟩
  · have hKeys : (rearrangedTable (.entry 2)).listing.map Prod.snd =
        [.ok (.string (.unicode "hi")), .ok (.utf8 (.unicode "hi")), .ok (.long 5)] := rfl
    rw [Table.Distinct, ← Table.map_snd_listing, hKeys]
    simp
  · intro payload hPayload
    have hTexts : Table.textBytes rearrangedBytes = [[104, 105]] := by decide +kernel
    rw [hTexts, List.mem_singleton] at hPayload
    exact ⟨.unicode "hi", hPayload ▸ by decide +kernel⟩

end Pool

end ClassRom
