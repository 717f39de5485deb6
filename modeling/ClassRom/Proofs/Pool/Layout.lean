import ClassRom.Pool.Layout
import ClassRom.Proofs.Pool.Ledger
import Mathlib.Data.List.Flatten
import Mathlib.Data.List.Perm.Subperm

/-!
# New layouts

Laying out a pool afresh changes nothing about its entries but their indices. Sorting keeps all live
entries and compaction those with uses, so the pool stays valid and nothing that has a use is lost.
-/

namespace ClassRom

set_option autoImplicit false

/-- The entry without its place in the layout. -/
def Entry.unplaced (entry : Entry) : Entry := { entry with index := none }

namespace Pool

variable {pool before middle after : Pool} {id : EntryId} {entry : Entry} {ids : List EntryId}

/-- The later pool has the entries of the earlier one, only their places and what can be found may
differ. -/
structure Relaid (before after : Pool) : Prop where
  id_eq : after.id = before.id
  arena_size_eq : after.arena.size = before.arena.size
  unplaced_eq : ∀ id, (after.get? id).map Entry.unplaced = (before.get? id).map Entry.unplaced

namespace Relaid

theorem refl (pool : Pool) : Relaid pool pool := ⟨rfl, rfl, fun _ => rfl⟩

theorem trans (h : Relaid before middle) (h' : Relaid middle after) : Relaid before after :=
  ⟨h'.id_eq.trans h.id_eq, h'.arena_size_eq.trans h.arena_size_eq,
    fun id => (h'.unplaced_eq id).trans (h.unplaced_eq id)⟩

theorem get? (h : Relaid before after) (hEntry : before.get? id = some entry) :
    ∃ index, after.get? id = some { entry with index } := by
  have hUnplaced := h.unplaced_eq id
  rw [hEntry, Option.map_some, Option.map_eq_some_iff] at hUnplaced
  obtain ⟨⟨value, uses, ldcUses, owner, index⟩, hAfter, hEq⟩ := hUnplaced
  cases hEq
  exact ⟨index, hAfter⟩

theorem constant?_eq (h : Relaid before after) :
    after.source.constant? = before.source.constant? := by
  funext id
  have hValue := congrArg (Option.map Entry.value) (h.unplaced_eq id)
  rw [Option.map_map, Option.map_map] at hValue
  exact hValue

theorem owned (h : Relaid before after) (hOwned : before.Owned) : after.Owned := by
  intro id entry hEntry
  have hUnplaced := h.unplaced_eq id
  rw [hEntry, Option.map_some, eq_comm, Option.map_eq_some_iff] at hUnplaced
  obtain ⟨old, hOld, hEq⟩ := hUnplaced
  have hOwner : old.unplaced.owner = entry.unplaced.owner := by rw [hEq]
  change old.owner = entry.owner at hOwner
  rw [← hOwner, h.id_eq]
  exact hOwned id old hOld

theorem usesAt_eq (h : Relaid before after) : after.usesAt = before.usesAt := by
  funext id
  have hUses := congrArg (Option.elim · (.start 0) Entry.uses) (h.unplaced_eq id)
  simp only [Option.elim_map] at hUses
  exact hUses

theorem ldcUsesAt_eq (h : Relaid before after) : after.ldcUsesAt = before.ldcUsesAt := by
  funext id
  have hUses := congrArg (Option.elim · (.start 0) Entry.ldcUses) (h.unplaced_eq id)
  simp only [Option.elim_map] at hUses
  exact hUses

theorem usesOf_eq (h : Relaid before after) (id : EntryId) :
    after.usesOf id = before.usesOf id := by
  rw [usesOf, usesOf, h.usesAt_eq]

theorem ldcWeight_eq (h : Relaid before after) : after.ldcWeight = before.ldcWeight := by
  funext id
  rw [Pool.ldcWeight_eq, Pool.ldcWeight_eq, h.ldcUsesAt_eq]

end Relaid

theorem relaid_place (pool : Pool) (id : EntryId) : Relaid pool (pool.place id) where
  id_eq := id_place pool id
  arena_size_eq := arena_size_place pool id
  unplaced_eq other := by
    rw [get?_place]
    by_cases h : other = id
    · rw [if_pos h, Option.map_map]; rfl
    · rw [if_neg h]

/-! ### Laying out -/

/-- The pool with no entry in any slot. -/
def cleared (pool : Pool) : Pool :=
  { pool with arena := pool.arena.map Entry.unplaced, slots := #[none] }

theorem relayout_eq (pool : Pool) (ids : List EntryId) :
    pool.relayout ids = ids.foldl place pool.cleared := rfl

@[simp] theorem get?_cleared (pool : Pool) (id : EntryId) :
    pool.cleared.get? id = (pool.get? id).map Entry.unplaced :=
  Array.getElem?_map

theorem relaid_cleared (pool : Pool) : Relaid pool pool.cleared where
  id_eq := rfl
  arena_size_eq := Array.size_map
  unplaced_eq id := by
    rw [get?_cleared, Option.map_map]
    rfl

theorem laidOut_cleared (pool : Pool) : pool.cleared.LaidOut where
  slots_eq := rfl
  slot_iff index id := by
    constructor
    · intro hSlot
      have hNone : some id ∈ #[none] := Array.mem_of_getElem? hSlot
      simp at hNone
    · rintro ⟨entry, hEntry, hIndex⟩
      rw [get?_cleared] at hEntry
      obtain ⟨old, _, rfl⟩ := Option.map_eq_some_iff.mp hEntry
      cases hIndex

@[simp] theorem cleared_empty (id : PoolId) : (empty id).cleared = empty id := by
  simp [cleared, empty]

theorem valid_empty (id : PoolId) : (empty id).Valid where
  toLaidOut := cleared_empty id ▸ laidOut_cleared (empty id)
  size_le := Nat.le_of_ble_eq_true rfl
  owned _ _ hEntry := by cases hEntry
  closed _ _ hConstant := by cases hConstant
  find?_iff key id := by
    constructor
    · intro hFound
      simp [find?, empty] at hFound
    · rintro ⟨_, hEntry, _⟩
      cases hEntry

/-- What placing entries one after the other leads to. -/
theorem foldl_place (hLaidOut : pool.LaidOut) (hNodup : ids.Nodup)
    (hFree : ∀ id ∈ ids, ∃ entry, pool.get? id = some entry ∧ entry.index = none) :
    (ids.foldl place pool).LaidOut ∧ (ids.foldl place pool).order = pool.order ++ ids ∧
      Relaid pool (ids.foldl place pool) ∧ (ids.foldl place pool).find? = pool.find? := by
  induction ids generalizing pool with
  | nil => exact ⟨hLaidOut, (List.append_nil _).symm, .refl pool, rfl⟩
  | cons id ids ih =>
    obtain ⟨hId, hRest⟩ := List.nodup_cons.mp hNodup
    obtain ⟨entry, hEntry, hIndex⟩ := hFree id List.mem_cons_self
    have hFree' : ∀ other ∈ ids, ∃ e, (pool.place id).get? other = some e ∧ e.index = none := by
      intro other hOther
      have hNe : other ≠ id := fun hEq => hId (hEq ▸ hOther)
      rw [get?_place, if_neg hNe]
      exact hFree other (List.mem_cons_of_mem id hOther)
    obtain ⟨hLaidOut', hOrder, hRelaid, hFind⟩ := ih (hLaidOut.place hEntry hIndex) hRest hFree'
    refine ⟨hLaidOut', ?_, (relaid_place pool id).trans hRelaid, hFind.trans (find?_place pool id)⟩
    rw [List.foldl_cons, hOrder, order_place hEntry, List.append_assoc, List.singleton_append]

theorem Indexed.nodup_order (h : pool.Indexed) : pool.order.Nodup := by
  have hSlots : pool.slots.toList.Pairwise fun a b => ∀ id, a = some id → b ≠ some id := by
    refine List.pairwise_iff_getElem.mpr fun i j hi hj hLt id hA hB => ?_
    have hI : pool.slots[i]? = some (some id) := by
      rw [← Array.getElem?_toList, List.getElem?_eq_getElem hi, hA]
    have hJ : pool.slots[j]? = some (some id) := by
      rw [← Array.getElem?_toList, List.getElem?_eq_getElem hj, hB]
    obtain ⟨entry, hEntry, hIndex⟩ := (h.slot_iff i id).mp hI
    obtain ⟨entry', hEntry', hIndex'⟩ := (h.slot_iff j id).mp hJ
    rw [hEntry] at hEntry'
    cases hEntry'
    rw [hIndex] at hIndex'
    cases hIndex'
    exact Nat.lt_irrefl i hLt
  refine hSlots.filterMap _ fun a b hNe id hA id' hB hEq => ?_
  exact hNe id hA (hEq ▸ hB)

theorem LaidOut.size_eq (h : pool.LaidOut) :
    pool.size = 1 + (pool.order.flatMap pool.cells).length := by
  unfold size
  rw [← Array.length_toList, h.slots_eq, List.length_cons, Nat.add_comm]

theorem length_cells_le (pool : Pool) (id : EntryId) : (pool.cells id).length ≤ 2 := by
  unfold cells
  split <;> simp

theorem length_flatMap_le_two {α : Type} {f : EntryId → List α} {ids : List EntryId}
    (h : ∀ id ∈ ids, (f id).length ≤ 2) : (ids.flatMap f).length ≤ ids.length * 2 := by
  induction ids with
  | nil => exact Nat.le_refl _
  | cons id ids ih =>
    obtain ⟨hHead, hRest⟩ := List.forall_mem_cons.mp h
    have hLength := ih hRest
    rw [List.flatMap_cons, List.length_append, List.length_cons]
    omega

theorem length_flatMap_le {f : EntryId → List (Option EntryId)} {ids ids' : List EntryId}
    (hNodup : ids.Nodup) (hSub : ids ⊆ ids') :
    (ids.flatMap f).length ≤ (ids'.flatMap f).length := by
  obtain ⟨middle, hPerm, hSublist⟩ := List.subperm_of_subset hNodup hSub
  calc (ids.flatMap f).length
      = (middle.flatMap f).length := (hPerm.flatMap_right f).length_eq.symm
    _ ≤ (ids'.flatMap f).length := (hSublist.map f).flatten.length_le

/-- What laying out some entries leads to. -/
theorem relayout_spec (hNodup : ids.Nodup) (hIn : ∀ id ∈ ids, ∃ entry, pool.get? id = some entry) :
    (pool.relayout ids).LaidOut ∧ (pool.relayout ids).order = ids ∧
      Relaid pool (pool.relayout ids) ∧ (pool.relayout ids).find? = pool.find? := by
  rw [relayout_eq]
  have hFree : ∀ id ∈ ids, ∃ entry, pool.cleared.get? id = some entry ∧ entry.index = none := by
    intro id hId
    obtain ⟨entry, hEntry⟩ := hIn id hId
    exact ⟨entry.unplaced, by simp [hEntry], rfl⟩
  obtain ⟨hLaidOut, hOrder, hRelaid, hFind⟩ := foldl_place (laidOut_cleared pool) hNodup hFree
  exact ⟨hLaidOut, hOrder, (relaid_cleared pool).trans hRelaid, hFind⟩

section Relayout

variable (hNodup : ids.Nodup) (hSub : ids ⊆ pool.order)
include hNodup hSub

theorem LaidOut.relayout_spec (hPool : pool.LaidOut) (lookup : Std.TreeMap Key EntryId Key.cmp) :
    ({ pool with lookup }.relayout ids).LaidOut ∧ ({ pool with lookup }.relayout ids).order = ids ∧
      Relaid pool ({ pool with lookup }.relayout ids) ∧
      ∀ key, ({ pool with lookup }.relayout ids).find? key = lookup[key]? := by
  have hIn : ∀ id ∈ ids, ∃ entry, ({ pool with lookup } : Pool).get? id = some entry := by
    intro id hId
    obtain ⟨entry, hEntry, _⟩ := hPool.mem_order_iff.mp (hSub hId)
    exact ⟨entry, hEntry⟩
  obtain ⟨hLaidOut, hOrder, hRelaid, hFind⟩ := Pool.relayout_spec hNodup hIn
  exact ⟨hLaidOut, hOrder, ⟨hRelaid.id_eq, hRelaid.arena_size_eq, hRelaid.unplaced_eq⟩,
    fun key => congrFun hFind key⟩

theorem LaidOut.size_relayout_le (hPool : pool.LaidOut)
    (lookup : Std.TreeMap Key EntryId Key.cmp) :
    ({ pool with lookup }.relayout ids).size ≤ pool.size := by
  obtain ⟨hLaidOut, hOrder, hRelaid, _⟩ := hPool.relayout_spec hNodup hSub lookup
  rw [hLaidOut.size_eq, hOrder, cells_congr hRelaid.constant?_eq, hPool.size_eq]
  exact Nat.add_le_add_left (length_flatMap_le hNodup hSub) 1

/-- A new layout of a valid pool is valid if the tree finds exactly what is laid out. -/
theorem Valid.relayout (hValid : pool.Valid) (lookup : Std.TreeMap Key EntryId Key.cmp)
    (hFind : ∀ key id, lookup[key]? = some id ↔ pool.find? key = some id ∧ id ∈ ids) :
    ({ pool with lookup }.relayout ids).Valid := by
  obtain ⟨hLaidOut, hOrder, hRelaid, hLookup⟩ := hValid.relayout_spec hNodup hSub lookup
  have hConstants := hRelaid.constant?_eq
  refine ⟨hLaidOut, ?_, hRelaid.owned hValid.owned, ?_, ?_⟩
  · exact Nat.le_trans (hValid.size_relayout_le hNodup hSub lookup) hValid.size_le
  · intro id constant hAt
    rw [hConstants] at hAt
    rw [Source.closed_congr hConstants]
    exact hValid.closed id constant hAt
  · intro key id
    rw [hLookup, hFind, hValid.find?_iff]
    simp only [Source.hasKey_congr hConstants]
    constructor
    · rintro ⟨⟨entry, hEntry, _, hKey⟩, hId⟩
      rw [← hOrder] at hId
      obtain ⟨entry', hEntry', hLive⟩ := hLaidOut.mem_order_iff.mp hId
      obtain ⟨index, hAfter⟩ := hRelaid.get? hEntry
      rw [hEntry'] at hAfter
      cases hAfter
      exact ⟨_, hEntry', hLive, hKey⟩
    · rintro ⟨entry', hEntry', hLive, hKey⟩
      have hId : id ∈ ids := hOrder ▸ hLaidOut.mem_order_iff.mpr ⟨entry', hEntry', hLive⟩
      obtain ⟨entry, hEntry, hOld⟩ := hValid.mem_order_iff.mp (hSub hId)
      obtain ⟨index, hAfter⟩ := hRelaid.get? hEntry
      rw [hEntry'] at hAfter
      cases hAfter
      exact ⟨⟨entry, hEntry, hOld, hKey⟩, hId⟩

end Relayout

/-! ### Sorting and compaction -/

theorem insertByWeight_perm (weight : EntryId → Nat) (id : EntryId) (ids : List EntryId) :
    (insertByWeight weight id ids).Perm (id :: ids) := by
  induction ids with
  | nil => exact .refl _
  | cons head rest ih =>
    unfold insertByWeight
    split
    · exact (ih.cons head).trans (.swap id head rest)
    · exact .refl _

theorem sortByWeight_perm (weight : EntryId → Nat) (ids : List EntryId) :
    (sortByWeight weight ids).Perm ids := by
  induction ids with
  | nil => exact .refl _
  | cons id ids ih => exact (insertByWeight_perm weight id _).trans (ih.cons id)

/-- The later pool is a valid new layout of the earlier one and keeps its live entries with uses. -/
structure Pruned (before after : Pool) : Prop extends Relaid before after where
  valid : after.Valid
  order_iff : ∀ id, 0 < before.usesOf id → (id ∈ after.order ↔ id ∈ before.order)

theorem Pruned.refl (h : pool.Valid) : Pruned pool pool := ⟨.refl pool, h, fun _ _ => .rfl⟩

theorem Pruned.trans (h : Pruned before middle) (h' : Pruned middle after) : Pruned before after :=
  ⟨h.toRelaid.trans h'.toRelaid, h'.valid, fun id hUses =>
    (h'.order_iff id (by rw [h.usesOf_eq]; exact hUses)).trans (h.order_iff id hUses)⟩

theorem mem_order_of_find? {key : Key} (h : pool.Valid) (hFound : pool.find? key = some id) :
    id ∈ pool.order := by
  obtain ⟨entry, hEntry, hLive, _⟩ := (h.find?_iff key id).mp hFound
  exact h.mem_order_iff.mpr ⟨entry, hEntry, hLive⟩

theorem isUsed_iff : pool.isUsed id = true ↔ 0 < pool.usesOf id := by
  unfold isUsed usesOf usesAt
  cases pool.get? id <;> simp

theorem getElem?_filter_isUsed {key : Key} :
    (pool.lookup.filter fun _ id => pool.isUsed id)[key]? = some id ↔
      pool.find? key = some id ∧ pool.isUsed id := by
  rw [Std.TreeMap.getElem?_filter', Option.filter_eq_some_iff]
  rfl

theorem pruned_lock (h : pool.Valid) : Pruned pool pool.lock :=
  ⟨⟨rfl, rfl, fun _ => rfl⟩, ⟨⟨⟨h.slot_iff⟩, h.slots_eq⟩, h.size_le, h.owned, h.closed, h.find?_iff⟩,
    fun _ _ => .rfl⟩

theorem pruned_unlock (h : pool.Valid) : Pruned pool pool.unlock :=
  ⟨⟨rfl, rfl, fun _ => rfl⟩, ⟨⟨⟨h.slot_iff⟩, h.slots_eq⟩, h.size_le, h.owned, h.closed, h.find?_iff⟩,
    fun _ _ => .rfl⟩

theorem pruned_sortByLdcUse (h : pool.Valid) : Pruned pool pool.sortByLdcUse := by
  have hPerm := sortByWeight_perm pool.ldcWeight pool.order
  have hNodup := hPerm.nodup_iff.mpr h.nodup_order
  have hSub : sortByWeight pool.ldcWeight pool.order ⊆ pool.order := fun id => hPerm.mem_iff.mp
  obtain ⟨_, hOrder, hRelaid, _⟩ := h.relayout_spec hNodup hSub pool.lookup
  have hValid := h.relayout hNodup hSub pool.lookup fun key id =>
    ⟨fun hFound => ⟨hFound, hPerm.mem_iff.mpr (mem_order_of_find? h hFound)⟩, And.left⟩
  refine ⟨hRelaid, hValid, fun id _ => ?_⟩
  unfold sortByLdcUse
  rw [hOrder, hPerm.mem_iff]

theorem pruned_compact (h : pool.Valid) : Pruned pool pool.compact.2 := by
  unfold compact
  split
  · exact .refl h
  · have hNodup := h.nodup_order.filter pool.isUsed
    have hSub : pool.order.filter pool.isUsed ⊆ pool.order := List.filter_sublist.subset
    obtain ⟨_, hOrder, hRelaid, _⟩ := h.relayout_spec hNodup hSub
      (pool.lookup.filter fun _ id => pool.isUsed id)
    have hValid := h.relayout hNodup hSub (pool.lookup.filter fun _ id => pool.isUsed id)
      fun key id => by
        rw [getElem?_filter_isUsed, List.mem_filter]
        exact ⟨fun hFound => ⟨hFound.1, mem_order_of_find? h hFound.1, hFound.2⟩,
          fun hFound => ⟨hFound.1, hFound.2.2⟩⟩
    refine ⟨hRelaid, hValid, fun id hUses => ?_⟩
    rw [hOrder, List.mem_filter]
    exact and_iff_left (isUsed_iff.mpr hUses)

end Pool

end ClassRom
