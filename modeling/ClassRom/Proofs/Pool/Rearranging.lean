import ClassRom.Proofs.Pool.Contents
import ClassRom.Proofs.Pool.Operations

/-!
# Sorting and compacting in either order

Sorting is stable and compaction keeps the order of what it keeps, so each is determined by an order
of entries that the other does not disturb. Either one can come first, and neither does anything the
second time.
-/

namespace ClassRom

set_option autoImplicit false

/-! ### Stable sorting -/

/-- The heavier item comes first; items of one weight are in the order `R`. -/
def Outranks (weight : EntryId → Nat) (R : EntryId → EntryId → Prop) (a b : EntryId) : Prop :=
  weight b < weight a ∨ weight b = weight a ∧ R a b

section Weights

variable {weight : EntryId → Nat} {R : EntryId → EntryId → Prop} {id : EntryId}
  {ids : List EntryId}

theorem Outranks.asymm (hR : ∀ a b, R a b → ¬R b a) {a b : EntryId}
    (h : Outranks weight R a b) : ¬Outranks weight R b a := by
  rintro (hLt | ⟨hEq, hBack⟩)
  · rcases h with hLt' | ⟨hEq, _⟩ <;> omega
  · rcases h with hLt' | ⟨_, hForth⟩
    · omega
    · exact hR a b hForth hBack

theorem pairwise_insertByWeight (h : ids.Pairwise (Outranks weight R))
    (hId : ∀ other ∈ ids, R id other) :
    (insertByWeight weight id ids).Pairwise (Outranks weight R) := by
  induction ids with
  | nil => exact List.pairwise_singleton _ id
  | cons head rest ih =>
    obtain ⟨hHead, hRest⟩ := List.pairwise_cons.mp h
    unfold insertByWeight
    split
    next hLt =>
      have hInserted := ih hRest fun other hOther => hId other (List.mem_cons_of_mem head hOther)
      refine List.pairwise_cons.mpr ⟨?_, hInserted⟩
      intro other hOther
      rw [(Pool.insertByWeight_perm weight id rest).mem_iff] at hOther
      rcases List.mem_cons.mp hOther with rfl | hOther
      · exact .inl hLt
      · exact hHead other hOther
    next hLt =>
      refine List.pairwise_cons.mpr ⟨?_, h⟩
      intro other hOther
      have hLe : weight other ≤ weight id := by
        rcases List.mem_cons.mp hOther with rfl | hOther
        · omega
        · rcases hHead other hOther with hLt' | ⟨hEq, _⟩ <;> omega
      rcases Nat.lt_or_eq_of_le hLe with hLt' | hEq
      · exact .inl hLt'
      · exact .inr ⟨hEq, hId other hOther⟩

/-- Items of one weight keep their order. -/
theorem sortByWeight_stable (weight : EntryId → Nat) (h : ids.Pairwise R) :
    (sortByWeight weight ids).Pairwise (Outranks weight R) := by
  induction ids with
  | nil => exact .nil
  | cons id ids ih =>
    obtain ⟨hId, hRest⟩ := List.pairwise_cons.mp h
    refine pairwise_insertByWeight (ih hRest) ?_
    intro other hOther
    exact hId other ((Pool.sortByWeight_perm weight ids).mem_iff.mp hOther)

/-- There is only one way to put items in order. -/
theorem eq_of_outranks {ids' : List EntryId} (hR : ∀ a b, R a b → ¬R b a)
    (h : ids.Pairwise (Outranks weight R)) (h' : ids'.Pairwise (Outranks weight R))
    (hMem : ∀ id, id ∈ ids ↔ id ∈ ids') : ids = ids' := by
  have : Std.Antisymm (Outranks weight R) := ⟨fun a b hA hB => absurd hB (hA.asymm hR)⟩
  have : Std.Irrefl (Outranks weight R) := ⟨fun a hA => hA.asymm hR hA⟩
  exact List.Pairwise.eq_of_mem_iff h h' hMem

theorem filter_sortByWeight (hR : ∀ a b, R a b → ¬R b a) (h : ids.Pairwise R)
    (p : EntryId → Bool) :
    (sortByWeight weight ids).filter p = sortByWeight weight (ids.filter p) := by
  refine eq_of_outranks hR ((sortByWeight_stable weight h).filter p)
    (sortByWeight_stable weight (h.filter p)) ?_
  intro id
  rw [(Pool.sortByWeight_perm weight _).mem_iff, List.mem_filter, List.mem_filter,
    (Pool.sortByWeight_perm weight _).mem_iff]

theorem sortByWeight_sortByWeight (weight : EntryId → Nat) (ids : List EntryId) :
    sortByWeight weight (sortByWeight weight ids) = sortByWeight weight ids := by
  rw [sortByWeight_eq_insertionSort]
  exact (pairwise_sortByWeight weight ids).insertionSort_eq

end Weights

namespace Pool

variable {pool other : Pool} {id : EntryId} {ids ids' : List EntryId}

/-! ### Laying out again -/

theorem cleared_place (pool : Pool) (id : EntryId) : (pool.place id).cleared = pool.cleared := by
  unfold place
  split
  next => rfl
  next entry hEntry =>
    have hArena : (pool.arena.setIfInBounds id { entry with index := some pool.slots.size }).map
        Entry.unplaced = pool.arena.map Entry.unplaced := by
      apply Array.ext_getElem?
      intro place
      rw [Array.getElem?_map, Array.getElem?_map, Array.getElem?_setIfInBounds]
      by_cases hPlace : id = place
      · subst place
        rw [if_pos rfl, if_pos (lt_size_of_get? hEntry), hEntry]
        rfl
      · rw [if_neg hPlace]
    unfold cleared
    dsimp only
    rw [hArena]

theorem cleared_foldl_place (pool : Pool) (ids : List EntryId) :
    (ids.foldl place pool).cleared = pool.cleared := by
  induction ids generalizing pool with
  | nil => rfl
  | cons id ids ih => rw [List.foldl_cons, ih, cleared_place]

theorem cleared_cleared (pool : Pool) : pool.cleared.cleared = pool.cleared := by
  have hArena : (pool.arena.map Entry.unplaced).map Entry.unplaced =
      pool.arena.map Entry.unplaced := by
    rw [Array.map_map]
    rfl
  unfold cleared
  dsimp only
  rw [hArena]

theorem cleared_relayout (pool : Pool) (ids : List EntryId) :
    (pool.relayout ids).cleared = pool.cleared := by
  rw [relayout_eq, cleared_foldl_place, cleared_cleared]

/-- Of an earlier layout nothing is left in a new one. -/
theorem relayout_relayout (pool : Pool) (ids ids' : List EntryId) :
    (pool.relayout ids).relayout ids' = pool.relayout ids' := by
  rw [relayout_eq, cleared_relayout, ← relayout_eq]

theorem lookup_relayout (pool : Pool) (ids : List EntryId) :
    (pool.relayout ids).lookup = pool.lookup := by
  change (pool.relayout ids).cleared.lookup = pool.cleared.lookup
  rw [cleared_relayout]

/-- The same with what can be found changed in between. -/
theorem relayout_with_lookup (pool : Pool) (ids ids' : List EntryId)
    (lookup : Std.TreeMap Key EntryId Key.cmp) :
    ({ pool.relayout ids with lookup } : Pool).relayout ids' =
      ({ pool with lookup } : Pool).relayout ids' := by
  have hCleared : ({ pool.relayout ids with lookup } : Pool).cleared =
      ({ pool with lookup } : Pool).cleared :=
    congrArg (fun cleared : Pool => ({ cleared with lookup } : Pool)) (cleared_relayout pool ids)
  rw [relayout_eq, hCleared, ← relayout_eq]

/-! ### The order of slots -/

/-- The slot in which an entry stands. -/
def slotOf? (pool : Pool) (id : EntryId) : Option Nat := (pool.get? id).bind Entry.index

/-- The first entry stands in a lower slot than the second. -/
def Before (pool : Pool) (a b : EntryId) : Prop :=
  ∃ i j, pool.slotOf? a = some i ∧ pool.slotOf? b = some j ∧ i < j

theorem Before.asymm (a b : EntryId) (h : pool.Before a b) : ¬pool.Before b a := by
  rintro ⟨j', i', hJ', hI', hLt'⟩
  obtain ⟨i, j, hI, hJ, hLt⟩ := h
  rw [hI] at hI'
  rw [hJ] at hJ'
  cases hI'
  cases hJ'
  omega

theorem LaidOut.slotOf?_eq (h : pool.LaidOut) {slot : Nat}
    (hSlot : pool.slots[slot]? = some (some id)) : pool.slotOf? id = some slot := by
  obtain ⟨entry, hEntry, hIndex⟩ := (h.slot_iff slot id).mp hSlot
  unfold slotOf?
  rw [hEntry, Option.bind_some, hIndex]

theorem LaidOut.pairwise_order (h : pool.LaidOut) : pool.order.Pairwise pool.Before := by
  have hSlots : pool.slots.toList.Pairwise fun first second =>
      ∀ a ∈ first, ∀ b ∈ second, pool.Before a b := by
    apply List.pairwise_iff_getElem.mpr
    intro i j hi hj hLt a hA b hB
    have hI : pool.slots[i]? = some (some a) := by
      rw [← Array.getElem?_toList, List.getElem?_eq_getElem hi, hA]
    have hJ : pool.slots[j]? = some (some b) := by
      rw [← Array.getElem?_toList, List.getElem?_eq_getElem hj, hB]
    exact ⟨i, j, h.slotOf?_eq hI, h.slotOf?_eq hJ, hLt⟩
  refine hSlots.filterMap _ ?_
  intro first second hBefore a hA b hB
  exact hBefore a hA b hB

/-! ### Either order -/

theorem Relaid.isUsed_eq (h : Relaid pool other) : other.isUsed = pool.isUsed := by
  funext id
  rw [Bool.eq_iff_iff, isUsed_iff, isUsed_iff, h.usesOf_eq]

theorem size_sortByLdcUse (h : pool.Valid) : pool.sortByLdcUse.size = pool.size := by
  have hSorted := pruned_sortByLdcUse h
  have hPerm := sortByWeight_perm pool.ldcWeight pool.order
  rw [hSorted.valid.size_eq_widths, h.size_eq_widths, order_sortByLdcUse h, hSorted.constant?_eq,
    ((hPerm.filterMap _).map _).sum_nat]

theorem sortByLdcUse_sortByLdcUse (h : pool.Valid) :
    pool.sortByLdcUse.sortByLdcUse = pool.sortByLdcUse := by
  have hOrder := order_sortByLdcUse h
  have hWeight := (pruned_sortByLdcUse h).ldcWeight_eq
  calc pool.sortByLdcUse.sortByLdcUse
      = pool.sortByLdcUse.relayout (sortByWeight pool.ldcWeight pool.sortByLdcUse.order) := by
        rw [← hWeight]; rfl
    _ = pool.sortByLdcUse.relayout (sortByWeight pool.ldcWeight pool.order) := by
        rw [hOrder, sortByWeight_sortByWeight]
    _ = pool.sortByLdcUse := relayout_relayout pool _ _

/-- The pool with the given entries laid out and only entries with uses to be found. -/
def retain (pool : Pool) (ids : List EntryId) : Pool :=
  ({ pool with lookup := pool.lookup.filter fun _ id => pool.isUsed id } : Pool).relayout ids

theorem compact_of_all (h : pool.order.all pool.isUsed) : pool.compact = (0, pool) := if_pos h

theorem compact_of_not_all (h : ¬pool.order.all pool.isUsed) :
    pool.compact.2 = pool.retain (pool.order.filter pool.isUsed) := by
  unfold compact
  rw [if_neg h]
  rfl

theorem freed_eq_sub (pool : Pool) : pool.compact.1 = pool.size - pool.compact.2.size := by
  unfold compact
  split
  · exact (Nat.sub_self pool.size).symm
  · rfl

theorem compact_compact (h : pool.Valid) : pool.compact.2.compact = (0, pool.compact.2) := by
  refine compact_of_all (List.all_eq_true.mpr ?_)
  rw [order_compact h, (pruned_compact h).isUsed_eq]
  intro id hId
  exact (List.mem_filter.mp hId).2

theorem retain_sortByLdcUse (h : pool.Valid) (ids : List EntryId) :
    pool.sortByLdcUse.retain ids = pool.retain ids := by
  have hLookup : pool.sortByLdcUse.lookup = pool.lookup := lookup_relayout pool _
  unfold retain
  rw [(pruned_sortByLdcUse h).isUsed_eq, hLookup]
  exact relayout_with_lookup pool _ _ _

theorem compact_sortByLdcUse (h : pool.Valid) :
    pool.sortByLdcUse.compact.2 = pool.compact.2.sortByLdcUse := by
  have hOrder := order_sortByLdcUse h
  have hUsed := (pruned_sortByLdcUse h).isUsed_eq
  have hWeight := (pruned_compact h).ldcWeight_eq
  have hAll : pool.sortByLdcUse.order.all pool.sortByLdcUse.isUsed =
      pool.order.all pool.isUsed := by
    rw [hOrder, hUsed]
    exact (sortByWeight_perm pool.ldcWeight pool.order).all_eq
  by_cases hNone : pool.order.all pool.isUsed
  · rw [compact_of_all (hAll.trans hNone), compact_of_all hNone]
  · -- both lay out the same entries, and filtering a stable order is ordering what is left
    have hFilter : (sortByWeight pool.ldcWeight pool.order).filter pool.isUsed =
        sortByWeight pool.ldcWeight (pool.order.filter pool.isUsed) :=
      filter_sortByWeight Before.asymm h.pairwise_order pool.isUsed
    calc pool.sortByLdcUse.compact.2
        = pool.sortByLdcUse.retain (pool.sortByLdcUse.order.filter pool.sortByLdcUse.isUsed) :=
          compact_of_not_all (by rwa [hAll])
      _ = pool.retain (sortByWeight pool.ldcWeight (pool.order.filter pool.isUsed)) := by
          rw [retain_sortByLdcUse h, hUsed, hOrder, hFilter]
      _ = pool.compact.2.relayout
          (sortByWeight pool.ldcWeight (pool.order.filter pool.isUsed)) := by
          rw [compact_of_not_all hNone]
          exact (relayout_relayout _ _ _).symm
      _ = pool.compact.2.sortByLdcUse := by
          rw [← hWeight, ← order_compact h]
          rfl

theorem freed_sortByLdcUse (h : pool.Valid) : pool.sortByLdcUse.compact.1 = pool.compact.1 := by
  rw [freed_eq_sub, freed_eq_sub, compact_sortByLdcUse h, size_sortByLdcUse h,
    size_sortByLdcUse (pruned_compact h).valid]

/-! ### What is freed -/

theorem freed_compact (h : pool.Valid) :
    pool.compact.1 =
      (((pool.order.filter fun id => !pool.isUsed id).filterMap pool.source.constant?).map
        Constant.width).sum := by
  have hSplit : ((pool.order.filterMap pool.source.constant?).map Constant.width).sum =
      (((pool.order.filter pool.isUsed).filterMap pool.source.constant?).map Constant.width).sum +
        (((pool.order.filter fun id => !pool.isUsed id).filterMap pool.source.constant?).map
          Constant.width).sum := by
    have hPerm := List.filter_append_perm pool.isUsed pool.order
    rw [← ((hPerm.filterMap _).map _).sum_nat, List.filterMap_append, List.map_append,
      List.sum_append]
  have hAfter := (pruned_compact h).valid.size_eq_widths
  rw [order_compact h, (pruned_compact h).constant?_eq] at hAfter
  have hBefore := h.size_eq_widths
  have hFreed := freed_eq_sub pool
  omega

/-- The entries of the later pool are the live entries of the earlier one that have uses, in the
order of their one-byte uses and, where these are as many, in the order of their old slots. -/
structure Tidied (pool after : Pool) (freed : Nat) : Prop extends Relaid pool after where
  valid : after.Valid
  mem_order : ∀ id, id ∈ after.order ↔
    ∃ entry, pool.get? id = some entry ∧ entry.index.isSome ∧ 0 < entry.uses.value
  order : after.order.Pairwise (Outranks pool.ldcWeight pool.Before)
  freed_eq : freed = (((pool.order.filter fun id => id ∉ after.order).filterMap
    pool.source.constant?).map Constant.width).sum

theorem tidied (h : pool.Valid) :
    Tidied pool pool.compact.2.sortByLdcUse pool.compact.1 := by
  have hCompact := pruned_compact h
  have hSorted := pruned_sortByLdcUse hCompact.valid
  have hOrder : pool.compact.2.sortByLdcUse.order =
      sortByWeight pool.ldcWeight (pool.order.filter pool.isUsed) := by
    rw [order_sortByLdcUse hCompact.valid, hCompact.ldcWeight_eq, order_compact h]
  have hMem : ∀ id, id ∈ pool.compact.2.sortByLdcUse.order ↔
      id ∈ pool.order ∧ pool.isUsed id := by
    intro id
    rw [hOrder, (sortByWeight_perm _ _).mem_iff, List.mem_filter]
  constructor
  case toRelaid => exact hCompact.toRelaid.trans hSorted.toRelaid
  case valid => exact hSorted.valid
  case mem_order =>
    intro id
    rw [hMem, h.mem_order_iff, isUsed_iff]
    constructor
    · rintro ⟨⟨entry, hEntry, hLive⟩, hUses⟩
      rw [usesOf_of_get? hEntry] at hUses
      exact ⟨entry, hEntry, hLive, hUses⟩
    · rintro ⟨entry, hEntry, hLive, hUses⟩
      rw [usesOf_of_get? hEntry]
      exact ⟨⟨entry, hEntry, hLive⟩, hUses⟩
  case order =>
    rw [hOrder]
    exact sortByWeight_stable _ (h.pairwise_order.filter _)
  case freed_eq =>
    rw [freed_compact h]
    have hRemoved : (pool.order.filter fun id => !pool.isUsed id) =
        pool.order.filter fun id => id ∉ pool.compact.2.sortByLdcUse.order := by
      apply List.filter_congr
      intro id hId
      simp [hMem, hId]
    rw [hRemoved]

/-- Sorting and compaction can be done in either order, and doing one of them twice is doing it
once. -/
theorem sort_compact_commute (pool : Pool) (h : pool.Valid) :
    pool.sortByLdcUse.compact = (pool.compact.1, pool.compact.2.sortByLdcUse) ∧
      Tidied pool pool.sortByLdcUse.compact.2 pool.sortByLdcUse.compact.1 ∧
      pool.sortByLdcUse.sortByLdcUse = pool.sortByLdcUse ∧
      pool.compact.2.compact = (0, pool.compact.2) := by
  have hCommute : pool.sortByLdcUse.compact = (pool.compact.1, pool.compact.2.sortByLdcUse) :=
    Prod.ext (freed_sortByLdcUse h) (compact_sortByLdcUse h)
  refine ⟨hCommute, ?_, sortByLdcUse_sortByLdcUse h, compact_compact h⟩
  rw [hCommute]
  exact tidied h

/-- A pool with entries of both widths, with and without uses, two of them with as many one-byte
uses. -/
def mixed : Pool :=
  let text := ((empty 7).appendLocal (.utf8 (.unicode "a")) 1 0).2
  let number := (text.appendLocal (.integer 3) 2 1).2
  let unused := (number.appendLocal (.long 9) 0 2).2
  let wide := (unused.appendLocal (.double 5) 1 1).2
  (wide.appendLocal (.utf8 (.unicode "b")) 0 0).2

theorem evolves_mixed : Evolves (empty 7) mixed :=
  .appendLocal _ _ _ (.appendLocal _ _ _ (.appendLocal _ _ _ (.appendLocal _ _ _
    (.appendLocal _ _ _ (.refl _)))))

theorem sort_compact_commute_mixed :
    mixed.Valid ∧ mixed.sortByLdcUse.compact.1 = 3 ∧
      mixed.sortByLdcUse.compact.2.slots = #[none, some 1, some 3, none, some 0] ∧
      mixed.sortByLdcUse.compact = (mixed.compact.1, mixed.compact.2.sortByLdcUse) ∧
      Tidied mixed mixed.sortByLdcUse.compact.2 mixed.sortByLdcUse.compact.1 ∧
      mixed.sortByLdcUse.sortByLdcUse = mixed.sortByLdcUse ∧
      mixed.compact.2.compact = (0, mixed.compact.2) := by
  have hValid : mixed.Valid := (evolves_mixed.valid_extends (valid_empty 7)).1
  exact ⟨hValid, by decide +kernel, by decide +kernel, sort_compact_commute mixed hValid⟩

end Pool

end ClassRom
