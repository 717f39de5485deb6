import ClassRom.Proofs.Pool.Layout
import Mathlib.Data.List.Sort

/-!
# Sorted pools

Sorting puts the entries with one-byte uses before all others, and compaction keeps them there. So
none of these entries has an index beyond the number of slots that they take together.
-/

namespace ClassRom

set_option autoImplicit false

section Weights

variable (weight : EntryId → Nat)

theorem insertByWeight_eq_orderedInsert (id : EntryId) (ids : List EntryId) :
    insertByWeight weight id ids = ids.orderedInsert (fun a b => weight b ≤ weight a) id := by
  induction ids with
  | nil => rfl
  | cons head rest ih =>
    rw [insertByWeight, List.orderedInsert, ih]
    by_cases hLt : weight id < weight head
    · rw [if_pos hLt, if_neg (Nat.not_le.mpr hLt)]
    · rw [if_neg hLt, if_pos (Nat.not_lt.mp hLt)]

theorem sortByWeight_eq_insertionSort (ids : List EntryId) :
    sortByWeight weight ids = ids.insertionSort fun a b => weight b ≤ weight a := by
  induction ids with
  | nil => rfl
  | cons id ids ih =>
    rw [List.insertionSort_cons, ← ih]
    exact insertByWeight_eq_orderedInsert weight id _

theorem pairwise_sortByWeight (ids : List EntryId) :
    (sortByWeight weight ids).Pairwise fun a b => weight b ≤ weight a := by
  have : Std.Total fun a b : EntryId => weight b ≤ weight a := ⟨fun _ _ => Nat.le_total _ _⟩
  have : IsTrans EntryId fun a b => weight b ≤ weight a := ⟨fun _ _ _ hA hB => Nat.le_trans hB hA⟩
  rw [sortByWeight_eq_insertionSort]
  exact List.pairwise_insertionSort _ ids

end Weights

namespace Pool

variable {pool before after : Pool} {id : EntryId} {entry : Entry}

/-- The live entries that one-byte operands use. -/
def ldcEntries (pool : Pool) : List EntryId := pool.order.filter fun id => 0 < pool.ldcWeight id

/-- The number of slots that these entries take. -/
def ldcSlots (pool : Pool) : Nat := (pool.ldcEntries.flatMap pool.cells).length

/-- No entry stands before one that has one-byte uses, unless it has some itself. -/
def LdcFirst (pool : Pool) : Prop :=
  pool.order.Pairwise fun a b => 0 < pool.ldcWeight b → 0 < pool.ldcWeight a

theorem filter_append_filter {p : EntryId → Bool} {ids : List EntryId}
    (h : ids.Pairwise fun a b => p b → p a) :
    ids.filter p ++ ids.filter (fun id => !p id) = ids := by
  induction ids with
  | nil => rfl
  | cons id ids ih =>
    obtain ⟨hId, hRest⟩ := List.pairwise_cons.mp h
    by_cases hp : p id
    · simp [hp, ih hRest]
    · have hNone : ∀ other ∈ ids, ¬p other := fun other hOther hOther' =>
        hp (hId other hOther hOther')
      have hFront : ids.filter p = [] := List.filter_eq_nil_iff.mpr hNone
      have hBack : ids.filter (fun id => !p id) = ids :=
        List.filter_eq_self.mpr fun other hOther => by simpa using hNone other hOther
      simp [hp, hFront, hBack]

theorem some_mem_flatMap_cells {ids : List EntryId} (h : some id ∈ ids.flatMap pool.cells) :
    id ∈ ids := by
  obtain ⟨other, hOther, hCell⟩ := List.mem_flatMap.mp h
  unfold cells at hCell
  have hEq : id = other := by
    split at hCell <;> simpa using hCell
  rwa [hEq]

theorem LdcFirst.index_le (h : pool.LdcFirst) (hLaidOut : pool.LaidOut) {index : Nat}
    (hEntry : pool.get? id = some entry) (hIndex : entry.index = some index)
    (hLdc : 0 < pool.ldcWeight id) : index ≤ pool.ldcSlots := by
  have hOrder : pool.ldcEntries ++ pool.order.filter (fun id => !decide (0 < pool.ldcWeight id)) =
      pool.order := filter_append_filter (by simpa [LdcFirst] using h)
  have hSlot := (hLaidOut.slot_iff index id).mpr ⟨entry, hEntry, hIndex⟩
  rw [← Array.getElem?_toList, hLaidOut.slots_eq, ← hOrder, List.flatMap_append] at hSlot
  cases index with
  | zero => exact Nat.zero_le _
  | succ index =>
    by_contra hGt
    have hBeyond : (pool.ldcEntries.flatMap pool.cells).length ≤ index := by
      unfold ldcSlots at hGt
      omega
    -- beyond the slots of the entries with one-byte uses only other entries stand
    rw [List.getElem?_cons_succ, List.getElem?_append_right hBeyond] at hSlot
    have hMem := some_mem_flatMap_cells (List.mem_of_getElem? hSlot)
    simp [Nat.pos_iff_ne_zero.mp hLdc] at hMem

theorem Relaid.ldcSlots_le (h : Relaid before after) (hLaidOut : after.LaidOut)
    (hSub : after.order ⊆ before.order) : after.ldcSlots ≤ before.ldcSlots := by
  unfold ldcSlots ldcEntries
  rw [cells_congr h.constant?_eq, h.ldcWeight_eq]
  refine length_flatMap_le (hLaidOut.nodup_order.filter _) fun id hId => ?_
  rw [List.mem_filter] at hId ⊢
  exact ⟨hSub hId.1, hId.2⟩

/-! ### Sorting and compaction -/

theorem order_sortByLdcUse (h : pool.Valid) :
    pool.sortByLdcUse.order = sortByWeight pool.ldcWeight pool.order := by
  have hPerm := sortByWeight_perm pool.ldcWeight pool.order
  exact (h.relayout_spec (hPerm.nodup_iff.mpr h.nodup_order) hPerm.subset pool.lookup).2.1

theorem ldcFirst_sortByLdcUse (h : pool.Valid) : pool.sortByLdcUse.LdcFirst := by
  have hWeight := (pruned_sortByLdcUse h).ldcWeight_eq
  unfold LdcFirst
  rw [order_sortByLdcUse h, hWeight]
  refine (pairwise_sortByWeight pool.ldcWeight pool.order).imp ?_
  intro a b hLe hPos
  omega

theorem order_compact (h : pool.Valid) :
    pool.compact.2.order = pool.order.filter pool.isUsed := by
  unfold compact
  split
  next hAll => exact (List.filter_eq_self.mpr (List.all_eq_true.mp hAll)).symm
  next =>
    exact (h.relayout_spec (h.nodup_order.filter pool.isUsed) List.filter_sublist.subset
      (pool.lookup.filter fun _ id => pool.isUsed id)).2.1

theorem mem_order_compact (h : pool.Valid) :
    id ∈ pool.compact.2.order ↔ id ∈ pool.order ∧ 0 < pool.usesOf id := by
  rw [order_compact h, List.mem_filter, isUsed_iff]

theorem LdcFirst.compact (h : pool.LdcFirst) (hValid : pool.Valid) :
    pool.compact.2.LdcFirst := by
  unfold LdcFirst
  rw [(pruned_compact hValid).ldcWeight_eq, order_compact hValid]
  exact List.Pairwise.sublist List.filter_sublist h

end Pool

end ClassRom
