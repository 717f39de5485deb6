import ClassRom.Proofs.Pool.Exactness
import ClassRom.Proofs.Table.Spelling

/-!
# Two ways to build a pool

A table can be gathered into a new pool, or merged into an empty one. Entries are numbered and laid
out differently, but both pools have the keys of the table and no others, and as many slots. The
gathered pool has its keys in the order in which they first stand in the table, and counts each as
often as it stands there.
-/

namespace ClassRom

set_option autoImplicit false

theorem Table.spaced_of_read {input rest : Bytes} {table : Table}
    (h : Table.read input = .ok (table, rest)) : table.Spaced := by
  obtain ⟨count, middle, _, hEntries⟩ := Reader.bind_eq_ok.mp h
  obtain ⟨_, ⟨hSpaced, _⟩, _⟩ := (Table.readEntries_reads count middle table rest).mp hEntries
  exact hSpaced

namespace Pool

variable {pool other loose after : Pool} {table : Table} {ids : Array (Option EntryId)} {key : Key}
  {map : HandleMap}

theorem liveKeys_eq (pool : Pool) :
    pool.liveKeys = pool.source.keysOf (pool.order.filterMap pool.source.constant?) := by
  unfold liveKeys Source.keysOf
  rw [List.filterMap_filterMap]

/-- Each key of the table once, in the order of first occurrence. -/
theorem Assembled.liveKeys_eq (h : Assembled table ids loose pool) :
    pool.liveKeys = table.keys.eraseDups := by
  rw [Pool.liveKeys_eq, h.filterMap_order, h.keysOf_values]
  rfl

theorem Valid.size_eq_of_keys (h : pool.Valid) (h' : other.Valid)
    (hKeys : ∀ key, key ∈ pool.keys ↔ key ∈ other.keys) : pool.size = other.size := by
  rw [h.size_eq_keys, h'.size_eq_keys, ((keys_perm hKeys).map Key.width).sum_nat]

/-- A table whose keys fit into some pool can be merged into an empty one, which has these keys then. -/
theorem merge_empty_ok (poolId : PoolId) (hTable : table.WellFormed) (hValid : pool.Valid)
    (hKeys : ∀ key, key ∈ pool.keys ↔ key ∈ table.keys) :
    ∃ map merged, (empty poolId).merge table = (.ok map, merged) ∧ merged.Valid ∧
      ∀ key, key ∈ merged.keys ↔ key ∈ table.keys := by
  have hNone : ∀ key, key ∉ (empty poolId).keys := by
    intro key hKey
    obtain ⟨id, hFound⟩ := mem_keys.mp hKey
    simp [find?, empty] at hFound
  have hRoom : Room pool.keys (empty poolId) :=
    ⟨valid_empty poolId, rfl, fun key hKey => absurd hKey (hNone key)⟩
  obtain ⟨map, merged, hMerge⟩ :=
    merge_isOk (fun key hKey => (hKeys key).mpr hKey) hValid.fits hRoom hTable
  refine ⟨map, merged, hMerge, (merge_handles hTable (valid_empty poolId) hMerge).1.valid, ?_⟩
  intro key
  rw [mem_keys_merge hTable (valid_empty poolId) hMerge]
  exact or_iff_right (hNone key)

/-- Both ways to build a pool from a table that was read and resolved succeed, and lead to pools with
the same keys. -/
theorem built_pools_agree (poolId : PoolId) {input rest : Bytes} {raw table : Table}
    (hRead : Table.read input = .ok (raw, rest)) (hResolved : raw.resolved = .ok table) :
    ∃ gathered map merged, ofTable poolId table = .ok gathered ∧
      (empty poolId).merge table = (.ok map, merged) ∧
      (∀ key, key ∈ gathered.liveKeys ↔ key ∈ table.keys) ∧
      (∀ key, key ∈ merged.liveKeys ↔ key ∈ table.keys) ∧
      gathered.size = merged.size ∧
      gathered.liveKeys = table.keys.eraseDups ∧
      ∀ id entry key, gathered.get? id = some entry →
        gathered.source.keyOf entry.value = .ok key → entry.uses.value = table.keys.count key := by
  obtain ⟨hRaw, hSize⟩ := Table.read_yields input raw rest hRead
  have hTable := Table.wellFormed_of_resolved hRaw hSize hResolved
  have hSpaced := Table.spaced_of_resolved (Table.spaced_of_read hRead) hResolved
  obtain ⟨gathered, hGathered⟩ := ofTable_ok poolId hTable.size_le hTable.closed
  obtain ⟨_, ids, loose, hAssembled⟩ := ofTable_assembled hTable.size_le hGathered
  have hValid := hAssembled.valid hSpaced hTable.size_le
  have hLive (key : Key) : key ∈ gathered.liveKeys ↔ key ∈ table.keys := by
    rw [hAssembled.liveKeys_eq, List.mem_eraseDups]
  have hKeys (key : Key) : key ∈ gathered.keys ↔ key ∈ table.keys :=
    hValid.mem_liveKeys.symm.trans (hLive key)
  obtain ⟨map, merged, hMerge, hMerged, hMergedKeys⟩ := merge_empty_ok poolId hTable hValid hKeys
  refine ⟨gathered, map, merged, hGathered, hMerge, hLive, ?_, ?_, hAssembled.liveKeys_eq, ?_⟩
  · intro key
    rw [hMerged.mem_liveKeys, hMergedKeys]
  · exact hValid.size_eq_of_keys hMerged fun key => (hKeys key).trans (hMergedKeys key).symm
  · intro id entry key hEntry hKey
    exact hAssembled.uses_eq_count hTable.size_le hEntry (Source.hasKey_of_keyOf hKey)

/-- A class before its name, which stands twice, once more the class by the other name, and an
eight-byte number. -/
def repeatedTable (first second : Ref) : Table :=
  ⟨#[none, some (.classRef first), some (.utf8 (.unicode "A")), some (.utf8 (.unicode "A")),
    some (.classRef second), some (.long 9), none]⟩

def repeatedBytes : Bytes :=
  [0, 7, 7, 0, 2, 1, 0, 1, 65, 1, 0, 1, 65, 7, 0, 3, 5, 0, 0, 0, 0, 0, 0, 0, 9]

/-- The gathered pool has the class first, the merged one its name. -/
theorem built_pools_agree_repeated :
    Table.read repeatedBytes = .ok (repeatedTable (.index 2) (.index 3), []) ∧
      (repeatedTable (.index 2) (.index 3)).resolved =
        .ok (repeatedTable (.entry 2) (.entry 3)) ∧
      ∃ gathered map merged,
        ofTable 7 (repeatedTable (.entry 2) (.entry 3)) = .ok gathered ∧
        (empty 7).merge (repeatedTable (.entry 2) (.entry 3)) = (.ok map, merged) ∧
        gathered.size = merged.size ∧ gathered.liveKeys ≠ merged.liveKeys ∧
        ∀ key, key ∈ gathered.liveKeys ↔ key ∈ merged.liveKeys := by
  have hRead : Table.read repeatedBytes = .ok (repeatedTable (.index 2) (.index 3), []) := by
    decide +kernel
  have hResolved : (repeatedTable (.index 2) (.index 3)).resolved =
      .ok (repeatedTable (.entry 2) (.entry 3)) := by decide +kernel
  have hFirst : (repeatedTable (.entry 2) (.entry 3)).keys.eraseDups ≠
      ((empty 7).merge (repeatedTable (.entry 2) (.entry 3))).2.liveKeys := by decide +kernel
  obtain ⟨gathered, map, merged, hGathered, hMerge, hLive, hMerged, hSize, hOrder, _⟩ :=
    built_pools_agree 7 hRead hResolved
  rw [hMerge, ← hOrder] at hFirst
  exact ⟨hRead, hResolved, gathered, map, merged, hGathered, hMerge, hSize, hFirst,
    fun key => (hLive key).trans (hMerged key).symm⟩

end Pool

end ClassRom
