import ClassRom.Proofs.Pool.Adding
import ClassRom.Proofs.Pool.Gathering
import ClassRom.Proofs.Table.Spelling

/-!
# Sequences of operations

Pools begin empty, as the constants of a table or by being read, and then change by one operation
after the other, some of which fail half-way. Whatever the sequence, the arena, the slots, the
indices and the search tree agree with each other afterwards.
-/

namespace ClassRom.Pool

set_option autoImplicit false

variable {start before pool copy after : Pool} {id : EntryId} {entry : Entry} {key : Key}

/-- Pools as they can begin. -/
inductive Begun : Pool → Prop where
  | empty (id : PoolId) : Begun (Pool.empty id)
  | read {id : PoolId} {input rest : Bytes} {pool : Pool} {count : UInt16} :
      Pool.read id input = .ok ((pool, count), rest) → Begun pool
  | ofTable {id : PoolId} {table : Table} {pool : Pool} : table.Built → table.size ≤ 65535 →
      Pool.ofTable id table = .ok pool → Begun pool

/-- What sequences of operations make of a pool. Operations that fail leave a pool as well. A copy
that constants are taken from is any earlier state of the pool. -/
inductive Evolves : Pool → Pool → Prop where
  | refl (pool : Pool) : Evolves pool pool
  | addTable {start pool : Pool} (table : Table) (id : EntryId) : Evolves start pool →
      Evolves start (pool.add table.source id).2
  | addPool {start pool : Pool} (other : Pool) (id : EntryId) : other.Owned → other.id ≠ pool.id →
      Evolves start pool → Evolves start (pool.add other.source id).2
  | addCopy {start copy pool : Pool} (id : EntryId) : Evolves start copy → Evolves copy pool →
      Evolves start (pool.add copy.source id).2
  | appendLocal {start pool : Pool} (constant : Constant) (uses ldcUses : UInt32) :
      Evolves start pool → Evolves start (pool.appendLocal constant uses ldcUses).2
  | addUse {start pool : Pool} (id : EntryId) : Evolves start pool → Evolves start (pool.addUse id)
  | dropUse {start pool : Pool} (id : EntryId) : Evolves start pool →
      Evolves start (pool.dropUse id)
  | addLdcUse {start pool : Pool} (id : EntryId) : Evolves start pool →
      Evolves start (pool.addLdcUse id)
  | lock {start pool : Pool} : Evolves start pool → Evolves start pool.lock
  | unlock {start pool : Pool} : Evolves start pool → Evolves start pool.unlock
  | sortByLdcUse {start pool : Pool} : Evolves start pool → Evolves start pool.sortByLdcUse
  | compact {start pool : Pool} : Evolves start pool → Evolves start pool.compact.2

theorem Begun.valid (h : Begun pool) : pool.Valid := by
  cases h with
  | empty id => exact valid_empty id
  | read hRead =>
    obtain ⟨middle, raw, table, _, hRaw, hResolved, hTable⟩ := read_eq_ok.mp hRead
    obtain ⟨_, ⟨hSpaced, hSize, _⟩, _⟩ := (Table.readEntries_reads _ _ _ _).mp hRaw
    refine valid_ofTable (Table.spaced_of_resolved hSpaced hResolved) ?_ hTable
    rw [Table.size_of_resolved hResolved, hSize]
    exact Nat.le_of_lt_succ (UInt16.toNat_lt _)
  | ofTable hBuilt hSize hTable => exact valid_ofTable hBuilt.spaced hSize hTable

/-! ### What one operation preserves -/

theorem add_steady {source : Source} (h : pool.Valid)
    (hSource : Admits (fun _ _ => True) pool source) : Steady pool (pool.add source id).2 := by
  have hAdded : Added (fun _ _ => True) source id pool [] (pool.add source id) :=
    add_added isLedger_true h hSource trivial
  exact hAdded.1

theorem appendLocal_steady (h : pool.Valid) (constant : Constant) (uses ldcUses : UInt32) :
    Steady pool (pool.appendLocal constant uses ldcUses).2 := by
  unfold appendLocal
  split
  next => exact .refl h
  next key hKeyOf =>
    have hKey := Source.hasKey_of_keyOf hKeyOf
    split
    next existing hFound =>
      refine steady_modify ?_ h existing
      exact ⟨fun _ => rfl, fun _ => rfl, fun _ => rfl⟩
    next hNew =>
      split
      next => exact .refl h
      next =>
        by_cases hSize : pool.size + constant.width ≤ 65535
        · rw [append_of_le hSize]
          exact steady_append h rfl rfl hKey.closed hKey hNew hSize
        · rw [append_of_lt (Nat.not_le.mp hSize)]
          exact .refl h

theorem Relaid.toExtends (h : Relaid before after) : Extends before after :=
  ⟨h.id_eq, fun id constant hAt => by rw [h.constant?_eq, hAt]⟩

theorem Extends.refl (pool : Pool) : Extends pool pool := ⟨rfl, fun _ _ hAt => hAt⟩

theorem Evolves.valid_extends (h : Evolves start pool) (hStart : start.Valid) :
    pool.Valid ∧ Extends start pool := by
  have hSteady {start pool after : Pool} (h : pool.Valid ∧ Extends start pool)
      (hStep : Steady pool after) : after.Valid ∧ Extends start after :=
    ⟨hStep.valid, h.2.trans hStep.toExtends⟩
  have hPruned {start pool after : Pool} (h : pool.Valid ∧ Extends start pool)
      (hStep : Pruned pool after) : after.Valid ∧ Extends start after :=
    ⟨hStep.valid, h.2.trans hStep.toRelaid.toExtends⟩
  induction h with
  | refl pool => exact ⟨hStart, .refl pool⟩
  | addTable table id _ ih =>
    exact hSteady (ih hStart) (add_steady (ih hStart).1 (admits_table _ _ table))
  | addPool other id hOwned hId _ ih =>
    exact hSteady (ih hStart) (add_steady (ih hStart).1 ((hOwned.foreign hId).admits _))
  | addCopy id _ _ ihCopy ihPool =>
    obtain ⟨hCopy, hExtends⟩ := ihCopy hStart
    obtain ⟨hPool, hLater⟩ := ihPool hCopy
    exact hSteady ⟨hPool, hExtends.trans hLater⟩
      (add_steady hPool fun _ _ => ⟨hCopy.closed, hLater.constant?, fun _ _ => trivial⟩)
  | appendLocal constant uses ldcUses _ ih =>
    exact hSteady (ih hStart) (appendLocal_steady (ih hStart).1 constant uses ldcUses)
  | addUse id _ ih => exact hSteady (ih hStart) (steady_modify counting_addUse (ih hStart).1 id)
  | dropUse id _ ih => exact hSteady (ih hStart) (steady_modify counting_dropUse (ih hStart).1 id)
  | addLdcUse id _ ih =>
    exact hSteady (ih hStart) (steady_modify counting_addLdcUse (ih hStart).1 id)
  | lock _ ih => exact hPruned (ih hStart) (pruned_lock (ih hStart).1)
  | unlock _ ih => exact hPruned (ih hStart) (pruned_unlock (ih hStart).1)
  | sortByLdcUse _ ih => exact hPruned (ih hStart) (pruned_sortByLdcUse (ih hStart).1)
  | compact _ ih => exact hPruned (ih hStart) (pruned_compact (ih hStart).1)

/-! ### What holds afterwards -/

def live (pool : Pool) : List Entry := pool.arena.toList.filter (·.index.isSome)

/-- The four parts of a pool agree: arena, slots, indices and search tree. -/
structure Regular (pool : Pool) : Prop where
  slot_zero : pool.slots[0]? = some none
  size_eq : pool.size = 1 + (pool.live.map (·.value.width)).sum
  size_le : pool.size ≤ 65535
  owned : ∀ id entry, pool.get? id = some entry → entry.owner = some pool.id
  slot_entry : ∀ slot id : Nat, pool.slots[slot]? = some (some id) →
    ∃ entry, pool.get? id = some entry ∧ entry.index = some slot
  entry_slot : ∀ id entry, pool.get? id = some entry → ∀ slot : Nat,
    entry.index = some slot ↔ pool.slots[slot]? = some (some id)
  wide_slot : ∀ id entry slot, pool.get? id = some entry → entry.index = some slot →
    entry.value.isWide → pool.slots[slot + 1]? = some none
  deleted_iff : ∀ id entry, pool.get? id = some entry →
    (entry.index = none ↔ ∀ slot : Nat, pool.slots[slot]? ≠ some (some id))
  resolved : ∀ id entry, pool.get? id = some entry → ∀ ref ∈ entry.value.refs,
    ∃ target referred, ref.2 = .entry target ∧ pool.get? target = some referred ∧
      ref.1.accepts referred.value
  found : ∀ id entry, pool.get? id = some entry → entry.index.isSome →
    ∃ key, pool.source.keyOf entry.value = .ok key ∧ pool.find? key = some id
  of_found : ∀ key id, pool.find? key = some id → ∃ entry, pool.get? id = some entry ∧
    entry.index.isSome ∧ pool.source.keyOf entry.value = .ok key
  distinct : ∀ a b first second key, pool.get? a = some first → first.index.isSome →
    pool.get? b = some second → second.index.isSome → pool.source.keyOf first.value = .ok key →
    pool.source.keyOf second.value = .ok key → a = b

theorem Indexed.live_perm (h : pool.Indexed) :
    (pool.order.filterMap pool.get?).Perm pool.live := by
  have hOrder : pool.order.Perm ((List.range pool.arena.size).filter fun id =>
      (pool.get? id).any (·.index.isSome)) := by
    refine (List.perm_ext_iff_of_nodup h.nodup_order (List.nodup_range.filter _)).mpr fun id => ?_
    rw [h.mem_order_iff, List.mem_filter, List.mem_range, Option.any_eq_true]
    constructor
    · rintro ⟨entry, hEntry, hLive⟩
      exact ⟨lt_size_of_get? hEntry, entry, hEntry, hLive⟩
    · rintro ⟨_, entry, hEntry, hLive⟩
      exact ⟨entry, hEntry, hLive⟩
  refine (hOrder.filterMap pool.get?).trans (.of_eq ?_)
  unfold live
  rw [← filterMap_get?_range, List.filterMap_filter, List.filter_filterMap]
  refine congrArg (List.filterMap · _) (funext fun id => ?_)
  cases pool.get? id with
  | none => rfl
  | some entry =>
    rw [Option.filter_some]
    rfl

theorem Indexed.length_cells_eq_widths (h : pool.Indexed) :
    (pool.order.flatMap pool.cells).length = (pool.live.map (·.value.width)).sum := by
  rw [h.length_cells, filterMap_constant?, List.map_map, (h.live_perm.map _).sum_nat]
  rfl

theorem getElem?_flatMap_cells {ids : List EntryId} {slot : Nat}
    (hWide : (pool.source.constant? id).any Constant.isWide)
    (h : (ids.flatMap pool.cells)[slot]? = some (some id)) :
    (ids.flatMap pool.cells)[slot + 1]? = some none := by
  induction ids generalizing slot with
  | nil => cases h
  | cons head ids ih =>
    rw [List.flatMap_cons, cells] at h ⊢
    by_cases hHead : (pool.source.constant? head).any Constant.isWide
    · rw [if_pos hHead] at h ⊢
      cases slot with
      | zero => rfl
      | succ slot =>
        cases slot with
        | zero => cases h
        | succ slot => exact ih h
    · rw [if_neg hHead] at h ⊢
      cases slot with
      | zero =>
        cases h
        exact absurd hWide hHead
      | succ slot => exact ih h

theorem exists_wide_of_flatMap_cells {ids : List EntryId} {slot : Nat}
    (h : (ids.flatMap pool.cells)[slot]? = some none) :
    ∃ previous wide, slot = previous + 1 ∧
      (ids.flatMap pool.cells)[previous]? = some (some wide) ∧
      (pool.source.constant? wide).any Constant.isWide := by
  induction ids generalizing slot with
  | nil => cases h
  | cons head ids ih =>
    rw [List.flatMap_cons, cells] at h ⊢
    by_cases hHead : (pool.source.constant? head).any Constant.isWide
    · rw [if_pos hHead] at h ⊢
      cases slot with
      | zero => cases h
      | succ slot =>
        cases slot with
        | zero => exact ⟨0, head, rfl, rfl, hHead⟩
        | succ slot =>
          obtain ⟨previous, wide, rfl, hWide⟩ := ih h
          exact ⟨previous + 2, wide, rfl, hWide⟩
    · rw [if_neg hHead] at h ⊢
      cases slot with
      | zero => cases h
      | succ slot =>
        obtain ⟨previous, wide, rfl, hWide⟩ := ih h
        exact ⟨previous + 1, wide, rfl, hWide⟩

theorem LaidOut.wide_slot (h : pool.LaidOut) {slot : Nat} (hEntry : pool.get? id = some entry)
    (hSlot : pool.slots[slot]? = some (some id)) (hWide : entry.value.isWide) :
    pool.slots[slot + 1]? = some none := by
  have hConstant : (pool.source.constant? id).any Constant.isWide := by
    rw [constant?_of_get? hEntry]
    exact hWide
  rw [← Array.getElem?_toList, h.slots_eq] at hSlot ⊢
  cases slot with
  | zero => cases hSlot
  | succ slot => exact getElem?_flatMap_cells hConstant hSlot

/-- Apart from slot 0, only the slots behind wide entries are empty. -/
theorem LaidOut.exists_wide_slot (h : pool.LaidOut) {slot : Nat}
    (hSlot : pool.slots[slot + 1]? = some none) :
    ∃ wide, pool.slots[slot]? = some (some wide) ∧
      (pool.source.constant? wide).any Constant.isWide := by
  rw [← Array.getElem?_toList, h.slots_eq, List.getElem?_cons_succ] at hSlot
  obtain ⟨previous, wide, rfl, hAt, hWide⟩ := exists_wide_of_flatMap_cells hSlot
  refine ⟨wide, ?_, hWide⟩
  rw [← Array.getElem?_toList, h.slots_eq]
  exact hAt

theorem Indexed.slot_iff_of_get? (h : pool.Indexed) {slot : Nat}
    (hEntry : pool.get? id = some entry) :
    pool.slots[slot]? = some (some id) ↔ entry.index = some slot := by
  rw [h.slot_iff, hEntry]
  simp

theorem Valid.regular (h : pool.Valid) : Regular pool where
  slot_zero := by
    rw [← Array.getElem?_toList, h.slots_eq]
    rfl
  size_eq := by rw [h.size_eq, h.length_cells_eq_widths]
  size_le := h.size_le
  owned := h.owned
  slot_entry slot id hSlot := (h.slot_iff slot id).mp hSlot
  entry_slot id entry hEntry slot := (h.slot_iff_of_get? hEntry).symm
  wide_slot id entry slot hEntry hIndex :=
    h.wide_slot hEntry ((h.slot_iff_of_get? hEntry).mpr hIndex)
  deleted_iff id entry hEntry := by
    simp only [Option.eq_none_iff_forall_ne_some, ne_eq, h.slot_iff_of_get? hEntry]
  resolved id entry hEntry ref hRef := by
    obtain ⟨target, constant, hTarget, hAt, hAccepts⟩ :=
      h.closed id entry.value (constant?_of_get? hEntry) ref hRef
    obtain ⟨referred, hReferred, rfl⟩ := constant?_eq_some.mp hAt
    exact ⟨target, referred, hTarget, hReferred, hAccepts⟩
  found id entry hEntry hLive := by
    obtain ⟨key, hKey⟩ := (h.closed id _ (constant?_of_get? hEntry)).exists_hasKey h.closed
    exact ⟨key, Source.keyOf_of_hasKey hKey, (h.find?_iff key id).mpr ⟨entry, hEntry, hLive, hKey⟩⟩
  of_found key id hFound := by
    obtain ⟨entry, hEntry, hLive, hKey⟩ := (h.find?_iff key id).mp hFound
    exact ⟨entry, hEntry, hLive, Source.keyOf_of_hasKey hKey⟩
  distinct a b first second key hA hLiveA hB hLiveB hKeyA hKeyB := by
    have hFoundA := (h.find?_iff key a).mpr ⟨first, hA, hLiveA, Source.hasKey_of_keyOf hKeyA⟩
    have hFoundB := (h.find?_iff key b).mpr ⟨second, hB, hLiveB, Source.hasKey_of_keyOf hKeyB⟩
    exact Option.some.inj (hFoundA.symm.trans hFoundB)

/-- Entries that are new stand behind all slots that there were. -/
theorem Steady.size_le_of_fresh (h : Steady before after) (hBefore : before.Valid) {slot : Nat}
    (hNone : before.get? id = none) (hEntry : after.get? id = some entry)
    (hIndex : entry.index = some slot) : before.size ≤ slot := by
  by_contra hLt
  have hSlot := (h.valid.slot_iff_of_get? hEntry).mpr hIndex
  have hKept : ∀ (slot : Nat) (old : EntryId), before.slots[slot]? = some (some old) →
      after.slots[slot]? = some (some old) := by
    intro slot old hOld
    obtain ⟨first, hFirst, hAt⟩ := (hBefore.slot_iff slot old).mp hOld
    obtain ⟨later, hLater, _, hSame⟩ := h.kept old first hFirst
    exact (h.valid.slot_iff slot old).mpr ⟨later, hLater, hSame.trans hAt⟩
  obtain ⟨content, hContent⟩ : ∃ content, before.slots[slot]? = some content :=
    ⟨_, Array.getElem?_eq_getElem (Nat.lt_of_not_le hLt)⟩
  cases content with
  | some old =>
    have hOld := hKept slot old hContent
    rw [hSlot] at hOld
    cases hOld
    obtain ⟨first, hFirst, _⟩ := (hBefore.slot_iff slot id).mp hContent
    rw [hNone] at hFirst
    cases hFirst
  | none =>
    cases slot with
    | zero =>
      rw [← Array.getElem?_toList, h.valid.slots_eq] at hSlot
      cases hSlot
    | succ slot =>
      -- the slot belongs to the wide entry before it, in both pools
      obtain ⟨wide, hWideSlot, hWide⟩ := hBefore.exists_wide_slot hContent
      obtain ⟨first, hFirst, hAt⟩ := (hBefore.slot_iff slot wide).mp hWideSlot
      obtain ⟨later, hLater, hValue, _⟩ := h.kept wide first hFirst
      rw [constant?_of_get? hFirst] at hWide
      have hNext := h.valid.wide_slot hLater (hKept slot wide hWideSlot) (by rw [hValue]; exact hWide)
      rw [hNext] at hSlot
      cases hSlot

/-- Slots in which an empty one follows each wide entry have room for the cells of their entries, and
are these cells if there are no more of them. -/
theorem flatMap_cells_of_spaced (slots : List (Option EntryId))
    (h : ∀ (slot : Nat) id, slots[slot]? = some (some id) →
      (pool.source.constant? id).any Constant.isWide → slots[slot + 1]? = some none) :
    ((slots.filterMap fun slot => slot).flatMap pool.cells).length ≤ slots.length ∧
      (slots.length ≤ ((slots.filterMap fun slot => slot).flatMap pool.cells).length →
        slots = (slots.filterMap fun slot => slot).flatMap pool.cells) := by
  match slots with
  | [] => exact ⟨Nat.le_refl _, fun _ => rfl⟩
  | none :: rest =>
    obtain ⟨hRoom, _⟩ := flatMap_cells_of_spaced rest fun slot => h (slot + 1)
    rw [List.filterMap_cons_none rfl, List.length_cons]
    exact ⟨by omega, fun hFull => by omega⟩
  | some id :: rest =>
    have hIds : ((some id :: rest).filterMap fun slot => slot) =
        id :: rest.filterMap fun slot => slot := rfl
    rw [hIds, List.flatMap_cons, cells]
    by_cases hWide : (pool.source.constant? id).any Constant.isWide
    · have hNext : rest[0]? = some none := h 0 id rfl hWide
      match rest with
      | [] => cases hNext
      | head :: rest =>
        cases hNext
        obtain ⟨hRoom, hCells⟩ := flatMap_cells_of_spaced rest fun slot => h (slot + 2)
        rw [if_pos hWide, List.filterMap_cons_none rfl]
        simp only [List.cons_append, List.nil_append, List.length_cons]
        exact ⟨by omega, fun hFull => by rw [← hCells (by omega)]⟩
    · obtain ⟨hRoom, hCells⟩ := flatMap_cells_of_spaced rest fun slot => h (slot + 1)
      rw [if_neg hWide]
      simp only [List.cons_append, List.nil_append, List.length_cons]
      exact ⟨by omega, fun hFull => by rw [← hCells (by omega)]⟩
termination_by slots.length

namespace Regular

theorem indexed (h : Regular pool) : pool.Indexed where
  slot_iff slot id := by
    constructor
    · exact h.slot_entry slot id
    · rintro ⟨entry, hEntry, hIndex⟩
      exact (h.entry_slot id entry hEntry slot).mp hIndex

theorem laidOut (h : Regular pool) : pool.LaidOut where
  toIndexed := h.indexed
  slots_eq := by
    obtain ⟨rest, hSlots⟩ : ∃ rest, pool.slots.toList = none :: rest := by
      have hZero := h.slot_zero
      rw [← Array.getElem?_toList] at hZero
      cases hList : pool.slots.toList with
      | nil =>
        rw [hList] at hZero
        cases hZero
      | cons head rest =>
        rw [hList] at hZero
        cases hZero
        exact ⟨rest, rfl⟩
    have hOrder : pool.order = rest.filterMap fun slot => slot := by
      unfold order
      rw [hSlots, List.filterMap_cons_none rfl]
    have hSpaced : ∀ (slot : Nat) id, rest[slot]? = some (some id) →
        (pool.source.constant? id).any Constant.isWide → rest[slot + 1]? = some none := by
      intro slot id hSlot hWide
      have hAt : pool.slots[slot + 1]? = some (some id) := by
        rw [← Array.getElem?_toList, hSlots]
        exact hSlot
      obtain ⟨entry, hEntry, hIndex⟩ := h.slot_entry _ _ hAt
      rw [constant?_of_get? hEntry] at hWide
      have hNext := h.wide_slot id entry _ hEntry hIndex hWide
      rw [← Array.getElem?_toList, hSlots] at hNext
      exact hNext
    have hFull : rest.length ≤ ((rest.filterMap fun slot => slot).flatMap pool.cells).length := by
      have hSize := h.size_eq
      rw [← h.indexed.length_cells_eq_widths, size, ← Array.length_toList, hSlots, hOrder,
        List.length_cons] at hSize
      omega
    rw [hSlots, hOrder]
    exact congrArg (none :: ·) ((flatMap_cells_of_spaced rest hSpaced).2 hFull)

theorem valid (h : Regular pool) : pool.Valid where
  toLaidOut := h.laidOut
  size_le := h.size_le
  owned := h.owned
  closed id constant hAt ref hRef := by
    obtain ⟨entry, hEntry, rfl⟩ := constant?_eq_some.mp hAt
    obtain ⟨target, referred, hTarget, hReferred, hAccepts⟩ := h.resolved id entry hEntry ref hRef
    exact ⟨target, referred.value, hTarget, constant?_of_get? hReferred, hAccepts⟩
  find?_iff key id := by
    constructor
    · intro hFound
      obtain ⟨entry, hEntry, hLive, hKey⟩ := h.of_found key id hFound
      exact ⟨entry, hEntry, hLive, Source.hasKey_of_keyOf hKey⟩
    · rintro ⟨entry, hEntry, hLive, hKey⟩
      obtain ⟨key', hKeyOf, hFound⟩ := h.found id entry hEntry hLive
      rw [Source.keyOf_of_hasKey hKey] at hKeyOf
      cases hKeyOf
      exact hFound

end Regular

/-- That the parts of a pool agree is all that is ever assumed about it. -/
theorem regular_iff_valid : Regular pool ↔ pool.Valid := ⟨Regular.valid, Valid.regular⟩

/-- Whatever operations a pool went through, its parts agree, and it has the number it began with. -/
theorem regular_of_evolves (start pool : Pool) (hBegun : Begun start)
    (hEvolves : Evolves start pool) : Regular pool ∧ pool.id = start.id := by
  obtain ⟨hValid, hExtends⟩ := hEvolves.valid_extends hBegun.valid
  exact ⟨hValid.regular, hExtends.id_eq⟩

/-- A pool whose only string was appended before its text was deleted. -/
def widowed : Pool :=
  let text := ((empty 7).appendLocal (.utf8 (.unicode "hi")) 0 0).2
  (text.appendLocal (.string (.entry 0)) 1 2).2.compact.2

theorem evolves_widowed : Evolves (empty 7) widowed :=
  .compact (.appendLocal _ _ _ (.appendLocal _ _ _ (.refl _)))

theorem regular_of_evolves_widowed :
    Begun (empty 7) ∧ Evolves (empty 7) (widowed.add widowed.source 0).2 ∧
      Regular (widowed.add widowed.source 0).2 ∧
      (widowed.add widowed.source 0).2.id = 7 := by
  have hEvolves : Evolves (empty 7) (widowed.add widowed.source 0).2 :=
    .addCopy 0 evolves_widowed (.refl widowed)
  exact ⟨.empty 7, hEvolves, regular_of_evolves (empty 7) _ (.empty 7) hEvolves⟩

end ClassRom.Pool
