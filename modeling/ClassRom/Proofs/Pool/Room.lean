import ClassRom.Proofs.Pool.Contents
import ClassRom.Proofs.Pool.Merging
import Mathlib.Algebra.Order.BigOperators.Group.List
import Mathlib.Algebra.Order.Group.Nat

/-!
# Room in pools

Once a table is closed, nothing but lack of slots keeps an open pool from taking it in. So it is
taken in wherever its keys, together with those of the pool, take no more slots than a pool may have.
-/

namespace ClassRom

set_option autoImplicit false

namespace Table

variable {table : Table} {key : Key} {index : UInt16}

def keys (table : Table) : List Key := table.keysAt table.entries

theorem mem_keys : key ∈ table.keys ↔ ∃ slot constant, table.slot? slot = some constant ∧
    table.source.HasKey constant key := by
  unfold keys
  simp only [mem_keysAt, mem_entries_iff]

section Small

variable (h : table.size ≤ 65535)
include h

theorem mem_indices_iff :
    index ∈ table.indices ↔ ∃ constant, table.slot? index.toNat = some constant := by
  unfold indices
  rw [List.mem_map]
  constructor
  · rintro ⟨⟨slot, constant⟩, hMem, rfl⟩
    have hSlot := mem_entries_iff.mp hMem
    exact ⟨constant, by rw [toNat_ofNat_slot h hSlot]; exact hSlot⟩
  · rintro ⟨constant, hSlot⟩
    exact ⟨(index.toNat, constant), mem_entries_iff.mpr hSlot, UInt16.ofNat_toNat⟩

theorem mem_keys_iff : key ∈ table.keys ↔ ∃ index : UInt16, ∃ constant,
    table.slot? index.toNat = some constant ∧ table.source.HasKey constant key := by
  rw [mem_keys]
  constructor
  · rintro ⟨slot, constant, hSlot, hKey⟩
    exact ⟨UInt16.ofNat slot, constant, by rw [toNat_ofNat_slot h hSlot]; exact hSlot, hKey⟩
  · rintro ⟨index, constant, hSlot, hKey⟩
    exact ⟨index.toNat, constant, hSlot, hKey⟩

end Small

theorem WellFormed.exists_hasKey (h : table.WellFormed) (hIndex : index ∈ table.indices) :
    ∃ constant key, table.slot? index.toNat = some constant ∧ table.source.HasKey constant key := by
  have hClosed : table.source.AllClosed := h.closed
  obtain ⟨constant, hSlot⟩ := (mem_indices_iff h.size_le).mp hIndex
  obtain ⟨key, hKey⟩ := (hClosed index.toNat constant hSlot).exists_hasKey hClosed
  exact ⟨constant, key, hSlot, hKey⟩

end Table

namespace Pool

variable {pool before after : Pool} {table : Table} {bound : List Key} {key : Key} {id : EntryId}
  {constant : Constant} {map : HandleMap}

/-- Constants with these keys fill no more slots than a pool may have. -/
def Fits (keys : List Key) : Prop := 1 + (keys.map Key.width).sum ≤ 65535

theorem Valid.fits (h : pool.Valid) : Fits pool.keys := by
  unfold Fits
  rw [← h.size_eq_keys]
  exact h.size_le

theorem Valid.length_keys_lt_size (h : pool.Valid) : pool.keys.length < pool.size := by
  have hWidths : (pool.keys.map Key.width).length ≤ (pool.keys.map Key.width).sum := by
    refine List.length_le_sum_of_one_le _ fun width hWidth => ?_
    obtain ⟨key, _, rfl⟩ := List.mem_map.mp hWidth
    cases key <;> simp [Key.width]
  rw [List.length_map] at hWidths
  rw [h.size_eq_keys]
  omega

/-- The pool is open, and it has no key beyond those of the list. -/
structure Room (bound : List Key) (pool : Pool) : Prop where
  valid : pool.Valid
  unlocked : pool.locked = false
  keys_sub : pool.keys ⊆ bound

theorem Room.grow {roots : List EntryId} (h : Room bound before) (hKeys : table.keys ⊆ bound)
    (hSteady : Steady before after) (hConfined : Confined table.source roots before after) :
    Room bound after := by
  refine ⟨hSteady.valid, hSteady.locked_eq.trans h.unlocked, ?_⟩
  intro key hKey
  obtain ⟨target, hFound⟩ := mem_keys.mp hKey
  rcases hConfined key target hFound with hOld | ⟨_, _, slot, constant, _, hSlot, hHas⟩
  · exact h.keys_sub (mem_keys_of_find? hOld)
  · exact hKeys (Table.mem_keys.mpr ⟨slot, constant, hSlot, hHas⟩)

theorem Room.size_le (h : Room bound pool) (hFits : Fits bound) (hNew : pool.find? key = none)
    (hKey : key ∈ bound) : pool.size + key.width ≤ 65535 := by
  have hNodup : (key :: pool.keys).Nodup := by
    refine List.nodup_cons.mpr ⟨?_, pool.nodup_keys⟩
    intro hMem
    obtain ⟨id, hFound⟩ := mem_keys.mp hMem
    rw [hNew] at hFound
    cases hFound
  obtain ⟨middle, hPerm, hSublist⟩ := List.subperm_of_subset hNodup
    (List.cons_subset.mpr ⟨hKey, h.keys_sub⟩)
  calc pool.size + key.width
      = 1 + ((key :: pool.keys).map Key.width).sum := by
        rw [h.valid.size_eq_keys, List.map_cons, List.sum_cons]
        omega
    _ = 1 + (middle.map Key.width).sum := by rw [(hPerm.map _).sum_nat]
    _ ≤ 1 + (bound.map Key.width).sum :=
        Nat.add_le_add_left ((hSublist.map _).sum_le_sum fun _ _ => Nat.zero_le _) 1
    _ ≤ 65535 := hFits

/-! ### Adding -/

/-- A constant whose key is in the pool is found and used once more. -/
theorem addWithin_found {target : EntryId} (depth : Nat) (hSlot : table.slot? id = some constant)
    (hKey : table.source.HasKey constant key) (hFound : pool.find? key = some target) :
    addWithin table.source (depth + 1) id pool = (.ok target, pool.addUse target) :=
  addVia_found hSlot (foreign_table table pool) hKey hFound

section Adding

variable (hKeys : table.keys ⊆ bound)
include hKeys

theorem addRefs_isOk {add : EntryId → Pool → Except Fault EntryId × Pool}
    {refs : List (RefKind × Ref)} (hAdd : Adds (fun _ _ => True) table.source add)
    (hRefs : ∀ ref ∈ refs, ∃ id, ref.2 = .entry id ∧
      ∀ pool, Room bound pool → ∃ target after, add id pool = (.ok target, after))
    (hRoom : Room bound pool) :
    ∃ refs' after, refs.mapM (fun ref => addRef add ref.2) pool = (.ok refs', after) := by
  induction refs generalizing pool with
  | nil => exact ⟨[], pool, rfl⟩
  | cons ref refs ih =>
    obtain ⟨id, hEntry, hOk⟩ := hRefs ref List.mem_cons_self
    obtain ⟨target, middle, hRun⟩ := hOk pool hRoom
    have hHead : addRef add ref.2 pool = (.ok (.entry target), middle) := by
      unfold addRef
      rw [hEntry]
      simp only [Ref.resolved, hRun]
    have hAdded : AddedRef (fun _ _ => True) table.source ref pool [] (addRef add ref.2 pool) :=
      addRef_added hAdd ref hRoom.valid (admits_table _ pool table) trivial
    rw [hHead] at hAdded
    obtain ⟨hSteady, hConfined, _⟩ := hAdded
    obtain ⟨refs', after, hRest⟩ := ih
      (fun other hOther => hRefs other (List.mem_cons_of_mem ref hOther))
      (hRoom.grow hKeys hSteady hConfined)
    refine ⟨.entry target :: refs', after, ?_⟩
    rw [List.mapM_cons, bind_run_ok hHead, bind_run_ok hRest]
    rfl

variable (hFits : Fits bound)
include hFits

theorem addWithin_isOk (depth : Nat) (hRoom : Room bound pool)
    (hSlot : table.slot? id = some constant) (hKey : table.source.HasKey constant key)
    (hRank : constant.rank < depth) :
    ∃ target after, addWithin table.source depth id pool = (.ok target, after) := by
  -- what a constant refers to has a lower rank, so one level less is enough for it
  induction depth generalizing pool id constant key with
  | zero => omega
  | succ depth ih =>
    cases hFound : pool.find? key with
    | some existing => exact ⟨existing, _, addWithin_found depth hSlot hKey hFound⟩
    | none =>
      have hRefs : ∀ ref ∈ constant.refs, ∃ id, ref.2 = .entry id ∧ ∀ pool, Room bound pool →
          ∃ target after, addWithin table.source depth id pool = (.ok target, after) := by
        intro ref hRef
        obtain ⟨id', referred, key', hEntry, hReferred, _, hKey', hLt⟩ :=
          hKey.exists_of_mem_refs hRef
        exact ⟨id', hEntry, fun other hOther => ih hOther hReferred hKey' (by omega)⟩
      have hAdds : Adds (fun _ _ => True) table.source (addWithin table.source depth) :=
        addWithin_adds isLedger_true depth
      obtain ⟨refs, middle, hRun⟩ := addRefs_isOk hKeys hAdds hRefs hRoom
      have hAdded : AddedRefs (fun _ _ => True) table.source constant.refs pool []
          (constant.refs.mapM (fun ref => addRef (addWithin table.source depth) ref.2) pool) :=
        addRefs_added hAdds isLedger_true constant.refs hRoom.valid (admits_table _ pool table)
          trivial
      rw [hRun] at hAdded
      obtain ⟨hSteady, hConfined, ids, rfl, hMoved, _⟩ := hAdded
      have hSize := (hRoom.grow hKeys hSteady hConfined).size_le hFits
        (hConfined.find?_eq_none hKey hFound)
        (hKeys (Table.mem_keys.mpr ⟨id, constant, hSlot, hKey⟩))
      rw [← (hKey.moved hMoved).width_eq] at hSize
      rw [addWithin_succ, addVia_new hSlot (foreign_table table pool) hKey hFound
        hRoom.unlocked, addNew_of_ok hRun]
      exact ⟨_, _, append_of_le hSize⟩

theorem mergeFrom_isOk {indices : List UInt16} (hRoom : Room bound pool)
    (hIndices : ∀ index ∈ indices, ∃ constant key, table.slot? index.toNat = some constant ∧
      table.source.HasKey constant key) :
    ∃ map' after, mergeFrom table indices map pool = (.ok map', after) := by
  induction indices generalizing map pool with
  | nil => exact ⟨map, pool, rfl⟩
  | cons index indices ih =>
    obtain ⟨constant, key, hSlot, hKey⟩ := hIndices index List.mem_cons_self
    have hRank : constant.rank < 3 := Nat.lt_succ_of_le constant.rank_le
    obtain ⟨id, middle, hRun⟩ := addWithin_isOk hKeys hFits 3 hRoom hSlot hKey hRank
    have hAdded := addWithin_adds isLedger_true 3 index.toNat pool [] hRoom.valid
      (admits_table _ pool table) trivial
    rw [hRun] at hAdded
    obtain ⟨hSteady, hConfined, _⟩ := hAdded
    rw [mergeFrom, add, hRun]
    exact ih (hRoom.grow hKeys hSteady hConfined)
      fun other hOther => hIndices other (List.mem_cons_of_mem index hOther)

theorem merge_isOk (hRoom : Room bound pool) (hTable : table.WellFormed) :
    ∃ map after, pool.merge table = (.ok map, after) :=
  mergeFrom_isOk hKeys hFits hRoom fun _ => hTable.exists_hasKey

end Adding

/-- Merging adds the keys of the table and no others. -/
theorem mem_keys_merge (hTable : table.WellFormed) (hValid : pool.Valid)
    (h : pool.merge table = (.ok map, after)) :
    key ∈ after.keys ↔ key ∈ pool.keys ∨ key ∈ table.keys := by
  obtain ⟨hSteady, _, hHandles⟩ := merge_handles hTable hValid h
  have hWithin := merge_within table hValid
  rw [h] at hWithin
  obtain ⟨_, hConfined, _⟩ := hWithin
  constructor
  · intro hKey
    obtain ⟨target, hFound⟩ := mem_keys.mp hKey
    rcases hConfined key target hFound with hOld | ⟨_, _, slot, constant, _, hSlot, hHas⟩
    · exact .inl (mem_keys_of_find? hOld)
    · exact .inr (Table.mem_keys.mpr ⟨slot, constant, hSlot, hHas⟩)
  · rintro (hOld | hNew)
    · obtain ⟨id, hFound⟩ := mem_keys.mp hOld
      exact mem_keys_of_find? (hSteady.find? hValid hFound)
    · obtain ⟨index, constant, hSlot, hHas⟩ := (Table.mem_keys_iff hTable.size_le).mp hNew
      obtain ⟨id, _, constant', key', hSlot', hHas', hFound⟩ :=
        hHandles index ((Table.mem_indices_iff hTable.size_le).mpr ⟨constant, hSlot⟩)
      obtain rfl := Option.some.inj (hSlot.symm.trans hSlot')
      obtain rfl := hHas.unique hHas'
      exact mem_keys_of_find? hFound

end Pool

end ClassRom
