import ClassRom.Pool
import ClassRom.Proofs.Constant.Keys

/-!
# The invariant of pools

A pool is valid when its layout, its arena and its search tree agree: each live entry stands in the
one slot that its index names, every entry belongs to the pool and refers to entries of the right
kind only, and the tree leads from exactly the keys of live entries to these entries. Counters are
free.
-/

namespace ClassRom

set_option autoImplicit false

namespace Entry

variable (owner : PoolId) (value : Constant) (uses ldcUses : UInt32)

@[simp] theorem value_new : (new owner value uses ldcUses).value = value := rfl

@[simp] theorem uses_new : (new owner value uses ldcUses).uses = .start uses := rfl

@[simp] theorem ldcUses_new : (new owner value uses ldcUses).ldcUses = .start ldcUses := rfl

@[simp] theorem owner_new : (new owner value uses ldcUses).owner = some owner := rfl

@[simp] theorem index_new : (new owner value uses ldcUses).index = none := rfl

end Entry

namespace Pool

variable {pool after : Pool} {id other : EntryId} {entry : Entry} {key : Key}

/-- The cells that an entry takes in the layout. -/
def cells (pool : Pool) (id : EntryId) : List (Option EntryId) :=
  some id :: if (pool.source.constant? id).any Constant.isWide then [none] else []

/-- The live entries stand in the slots that their indices name. -/
structure Indexed (pool : Pool) : Prop where
  slot_iff : ∀ index id, pool.slots[index]? = some (some id) ↔
    ∃ entry, pool.get? id = some entry ∧ entry.index = some index

/-- The slots hold the live entries one after the other. -/
structure LaidOut (pool : Pool) : Prop extends Indexed pool where
  slots_eq : pool.slots.toList = none :: pool.order.flatMap pool.cells

/-- Every entry belongs to the pool. -/
def Owned (pool : Pool) : Prop :=
  ∀ id entry, pool.get? id = some entry → entry.owner = some pool.id

structure Valid (pool : Pool) : Prop extends LaidOut pool where
  size_le : pool.size ≤ 65535
  owned : pool.Owned
  closed : ∀ id constant, pool.source.constant? id = some constant →
    pool.source.Closed constant
  find?_iff : ∀ key id, pool.find? key = some id ↔
    ∃ entry, pool.get? id = some entry ∧ entry.index.isSome ∧ pool.source.HasKey entry.value key

theorem constant?_eq_some {constant : Constant} :
    pool.source.constant? id = some constant ↔
      ∃ entry, pool.get? id = some entry ∧ entry.value = constant :=
  Option.map_eq_some_iff

theorem constant?_of_get? (h : pool.get? id = some entry) :
    pool.source.constant? id = some entry.value :=
  constant?_eq_some.mpr ⟨entry, h, rfl⟩

theorem lt_size_of_get? (h : pool.get? id = some entry) : id < pool.arena.size := by
  by_contra hSize
  rw [get?, Array.getElem?_eq_none (Nat.not_lt.mp hSize)] at h
  cases h

theorem mem_order_iff : id ∈ pool.order ↔ ∃ index : Nat, pool.slots[index]? = some (some id) := by
  unfold order
  rw [List.mem_filterMap]
  simp only [exists_eq_right, List.mem_iff_getElem?, Array.getElem?_toList]

theorem Indexed.mem_order_iff (h : pool.Indexed) :
    id ∈ pool.order ↔ ∃ entry, pool.get? id = some entry ∧ entry.index.isSome := by
  rw [Pool.mem_order_iff]
  simp only [h.slot_iff, Option.isSome_iff_exists]
  constructor
  · rintro ⟨index, entry, hEntry, hIndex⟩
    exact ⟨entry, hEntry, index, hIndex⟩
  · rintro ⟨entry, hEntry, index, hIndex⟩
    exact ⟨index, entry, hEntry, hIndex⟩

theorem cells_congr (h : after.source.constant? = pool.source.constant?) :
    after.cells = pool.cells := by
  funext id
  unfold cells
  rw [h]

/-- The later pool has the number and the constants of the earlier one, whatever else differs. -/
structure Extends (before after : Pool) : Prop where
  id_eq : after.id = before.id
  constant? : ∀ id constant, before.source.constant? id = some constant →
    after.source.constant? id = some constant

theorem Extends.trans {before middle after : Pool} (h : Extends before middle)
    (h' : Extends middle after) : Extends before after :=
  ⟨h'.id_eq.trans h.id_eq, fun id constant hAt =>
    h'.constant? id constant (h.constant? id constant hAt)⟩

/-! ### Changing counters -/

@[simp] theorem get?_modify (pool : Pool) (id other : EntryId) (f : Entry → Entry) :
    (pool.modify id f).get? other =
      if other = id then (pool.get? other).map f else pool.get? other := by
  unfold modify get?
  rw [Array.getElem?_modify]
  by_cases h : other = id
  · rw [if_pos h, if_pos h.symm]
  · rw [if_neg h, if_neg (Ne.symm h)]

/-- A change of counters only. -/
structure Counting (f : Entry → Entry) : Prop where
  value_eq : ∀ entry, (f entry).value = entry.value
  owner_eq : ∀ entry, (f entry).owner = entry.owner
  index_eq : ∀ entry, (f entry).index = entry.index

section Counting

variable {f : Entry → Entry} (hf : Counting f)
include hf

theorem get?_modify_eq (pool : Pool) (id other : EntryId) :
    ∃ g, Counting g ∧ (pool.modify id f).get? other = (pool.get? other).map g := by
  rw [get?_modify]
  by_cases h : other = id
  · exact ⟨f, hf, if_pos h⟩
  · exact ⟨fun entry => entry, ⟨fun _ => rfl, fun _ => rfl, fun _ => rfl⟩,
      by rw [if_neg h, Option.map_id']⟩

theorem source_modify (pool : Pool) (id : EntryId) : (pool.modify id f).source = pool.source := by
  have hConstant : (pool.modify id f).source.constant? = pool.source.constant? := by
    funext other
    obtain ⟨g, hg, hGet⟩ := get?_modify_eq hf pool id other
    unfold source
    simp only [hGet, Option.map_map]
    exact congrArg (Option.map · (pool.get? other)) (funext hg.value_eq)
  have hOwner : (pool.modify id f).source.owner? = pool.source.owner? := by
    funext other
    obtain ⟨g, hg, hGet⟩ := get?_modify_eq hf pool id other
    unfold source
    simp only [hGet, Option.bind_map]
    exact congrArg (Option.bind (pool.get? other)) (funext hg.owner_eq)
  unfold source at hConstant hOwner ⊢
  rw [Source.mk.injEq]
  exact ⟨hOwner, hConstant, rfl⟩

theorem exists_get?_modify {P : Constant → Option Nat → Prop} :
    (∃ entry, (pool.modify id f).get? other = some entry ∧ P entry.value entry.index) ↔
      ∃ entry, pool.get? other = some entry ∧ P entry.value entry.index := by
  obtain ⟨g, hg, hGet⟩ := get?_modify_eq hf pool id other
  rw [hGet]
  constructor
  · rintro ⟨_, hEntry, hP⟩
    obtain ⟨entry, hOld, rfl⟩ := Option.map_eq_some_iff.mp hEntry
    rw [hg.value_eq, hg.index_eq] at hP
    exact ⟨entry, hOld, hP⟩
  · rintro ⟨entry, hEntry, hP⟩
    exact ⟨g entry, by rw [hEntry]; rfl, by rw [hg.value_eq, hg.index_eq]; exact hP⟩

theorem LaidOut.modify (h : pool.LaidOut) (id : EntryId) : (pool.modify id f).LaidOut where
  slots_eq := by
    rw [show (pool.modify id f).cells = pool.cells from cells_congr (by rw [source_modify hf])]
    exact h.slots_eq
  slot_iff index other := by
    rw [exists_get?_modify hf (P := fun _ i => i = some index)]
    exact h.slot_iff index other

theorem Owned.modify (h : pool.Owned) (id : EntryId) : (pool.modify id f).Owned := by
  intro other entry hEntry
  obtain ⟨g, hg, hGet⟩ := get?_modify_eq hf pool id other
  rw [hGet] at hEntry
  obtain ⟨old, hOld, rfl⟩ := Option.map_eq_some_iff.mp hEntry
  rw [hg.owner_eq]
  exact h other old hOld

theorem Valid.modify (h : pool.Valid) (id : EntryId) : (pool.modify id f).Valid where
  toLaidOut := h.toLaidOut.modify hf id
  size_le := h.size_le
  owned := h.owned.modify hf id
  closed := by rw [source_modify hf]; exact h.closed
  find?_iff key other := by
    rw [source_modify hf, exists_get?_modify hf
      (P := fun value i => i.isSome ∧ pool.source.HasKey value key)]
    exact h.find?_iff key other

end Counting

/-! ### Placing entries -/

@[simp] theorem get?_place (pool : Pool) (id other : EntryId) :
    (pool.place id).get? other =
      if other = id then (pool.get? other).map ({ · with index := some pool.size })
      else pool.get? other := by
  unfold place
  cases h : pool.arena[id]? with
  | none =>
    by_cases hOther : other = id
    · subst other; simp [get?, h]
    · rw [if_neg hOther]
  | some entry =>
    have hBound : id < pool.arena.size := lt_size_of_get? h
    simp only [get?]
    rw [Array.getElem?_setIfInBounds]
    by_cases hOther : other = id
    · subst other
      rw [if_pos rfl, if_pos rfl, if_pos hBound, h]
      rfl
    · rw [if_neg hOther, if_neg (Ne.symm hOther)]

theorem constant?_place (pool : Pool) (id : EntryId) :
    (pool.place id).source.constant? = pool.source.constant? := by
  funext other
  change ((pool.place id).get? other).map (·.value) = (pool.get? other).map (·.value)
  rw [get?_place]
  by_cases h : other = id
  · rw [if_pos h, Option.map_map]; rfl
  · rw [if_neg h]

@[simp] theorem id_place (pool : Pool) (id : EntryId) : (pool.place id).id = pool.id := by
  unfold place
  split <;> rfl

theorem Owned.place (h : pool.Owned) (id : EntryId) : (pool.place id).Owned := by
  intro other entry hEntry
  rw [id_place]
  rw [get?_place] at hEntry
  split at hEntry
  · obtain ⟨old, hOld, rfl⟩ := Option.map_eq_some_iff.mp hEntry
    exact h other old hOld
  · exact h other entry hEntry

@[simp] theorem arena_size_place (pool : Pool) (id : EntryId) :
    (pool.place id).arena.size = pool.arena.size := by
  unfold place
  split <;> simp

@[simp] theorem find?_place (pool : Pool) (id : EntryId) : (pool.place id).find? = pool.find? := by
  unfold place
  split <;> rfl

theorem slots_place (h : pool.get? id = some entry) :
    (pool.place id).slots.toList = pool.slots.toList ++ pool.cells id := by
  have hConstant := constant?_of_get? h
  unfold place cells
  rw [show pool.arena[id]? = some entry from h, hConstant]
  by_cases hWide : entry.value.isWide <;> simp [hWide]

theorem order_place (h : pool.get? id = some entry) :
    (pool.place id).order = pool.order ++ [id] := by
  unfold order
  rw [slots_place h, List.filterMap_append]
  unfold cells
  split <;> rfl

theorem size_place (h : pool.get? id = some entry) :
    (pool.place id).size = pool.size + entry.value.width := by
  unfold size
  rw [← Array.length_toList, slots_place h, List.length_append, Array.length_toList]
  unfold cells Constant.width
  rw [constant?_of_get? h]
  by_cases hWide : entry.value.isWide <;> simp [hWide]

theorem slot_place_iff (h : pool.get? id = some entry) (index : Nat) (other : EntryId) :
    (pool.place id).slots[index]? = some (some other) ↔
      pool.slots[index]? = some (some other) ∨ (index = pool.size ∧ other = id) := by
  rw [← Array.getElem?_toList, slots_place h, List.getElem?_append, Array.length_toList,
    Array.getElem?_toList]
  by_cases hIndex : index < pool.slots.size
  · rw [if_pos hIndex]
    have hNe : index ≠ pool.size := Nat.ne_of_lt hIndex
    simp [hNe]
  · rw [if_neg hIndex, Array.getElem?_eq_none (Nat.not_lt.mp hIndex)]
    obtain ⟨n, rfl⟩ := Nat.exists_eq_add_of_le (Nat.not_lt.mp hIndex)
    rw [Nat.add_sub_cancel_left]
    unfold cells size
    cases n with
    | zero => simpa using eq_comm
    | succ n => split <;> cases n <;> simp

theorem LaidOut.place (h : pool.LaidOut) (hEntry : pool.get? id = some entry)
    (hIndex : entry.index = none) : (pool.place id).LaidOut where
  slots_eq := by
    rw [slots_place hEntry, order_place hEntry, cells_congr (constant?_place pool id), h.slots_eq,
      List.flatMap_append, List.flatMap_singleton]
    rfl
  slot_iff index other := by
    rw [slot_place_iff hEntry, h.slot_iff, get?_place]
    by_cases hOther : other = id
    · subst other
      simp [hEntry, hIndex, eq_comm]
    · simp [hOther]

/-! ### Appending entries -/

/-- The pool with an entry that is in the arena and can be found, but stands in no slot yet. -/
def enter (pool : Pool) (entry : Entry) (key : Key) : Pool :=
  { pool with
    arena := pool.arena.push entry
    lookup := pool.lookup.insert key pool.arena.size }

section Append

variable {value : Constant} {uses ldcUses : UInt32}

theorem append_of_lt (h : 65535 < pool.size + value.width) :
    pool.append value uses ldcUses key = (.error (.poolOverflow key.display pool.size), pool) :=
  if_pos h

theorem append_of_le (h : pool.size + value.width ≤ 65535) :
    pool.append value uses ldcUses key = (.ok pool.arena.size,
      (pool.enter (.new pool.id value uses ldcUses) key).place pool.arena.size) :=
  if_neg (Nat.not_lt.mpr h)

end Append

@[simp] theorem get?_enter (pool : Pool) (entry : Entry) (key : Key) (other : EntryId) :
    (pool.enter entry key).get? other =
      if other = pool.arena.size then some entry else pool.get? other := by
  unfold enter get?
  rw [Array.getElem?_push]

@[simp] theorem get?_enter_self (pool : Pool) (entry : Entry) (key : Key) :
    (pool.enter entry key).get? pool.arena.size = some entry := by
  simp

@[simp] theorem get?_arena_size (pool : Pool) : pool.get? pool.arena.size = none :=
  Array.getElem?_eq_none (Nat.le_refl _)

theorem ne_arena_size_of_get? (h : pool.get? id = some entry) : id ≠ pool.arena.size := by
  rintro rfl
  rw [get?_arena_size] at h
  cases h

@[simp] theorem find?_enter (pool : Pool) (entry : Entry) (key other : Key) :
    (pool.enter entry key).find? other =
      if other = key then some pool.arena.size else pool.find? other := by
  unfold enter find?
  rw [Std.TreeMap.getElem?_insert]
  by_cases h : other = key
  · rw [if_pos h, if_pos (Std.LawfulEqCmp.compare_eq_iff_eq.mpr h.symm)]
  · rw [if_neg h, if_neg fun hCompare => h (Std.LawfulEqCmp.compare_eq_iff_eq.mp hCompare).symm]

theorem extends_enter (pool : Pool) (entry : Entry) (key : Key) :
    Extends pool (pool.enter entry key) := by
  refine ⟨rfl, fun id constant hAt => ?_⟩
  obtain ⟨old, hOld, rfl⟩ := constant?_eq_some.mp hAt
  refine constant?_of_get? ?_
  simp [ne_arena_size_of_get? hOld, hOld]

theorem LaidOut.enter (h : pool.LaidOut) (hIndex : entry.index = none) :
    (pool.enter entry key).LaidOut where
  slots_eq := by
    have hCells : ∀ id ∈ pool.order, (pool.enter entry key).cells id = pool.cells id := by
      intro id hId
      obtain ⟨old, hOld, _⟩ := h.mem_order_iff.mp hId
      have hConstant := constant?_of_get? hOld
      unfold cells
      rw [(extends_enter pool entry key).constant? id _ hConstant, hConstant]
    change pool.slots.toList = none :: pool.order.flatMap (pool.enter entry key).cells
    rw [h.slots_eq, List.flatMap_congr hCells]
  slot_iff index other := by
    change pool.slots[index]? = _ ↔ _
    rw [h.slot_iff, get?_enter]
    by_cases hOther : other = pool.arena.size
    · subst other
      simp [hIndex]
    · rw [if_neg hOther]

theorem Owned.enter (h : pool.Owned) (hOwner : entry.owner = some pool.id) :
    (pool.enter entry key).Owned := by
  intro other new hNew
  rw [get?_enter] at hNew
  split at hNew
  · cases hNew
    exact hOwner
  · exact h other new hNew

/-- What appending a constant with a new key preserves. -/
theorem Valid.append (h : pool.Valid) (hIndex : entry.index = none)
    (hOwner : entry.owner = some pool.id) (hClosed : pool.source.Closed entry.value)
    (hKey : pool.source.HasKey entry.value key)
    (hNew : pool.find? key = none) (hSize : pool.size + entry.value.width ≤ 65535) :
    ((pool.enter entry key).place pool.arena.size).Valid := by
  have hEntry := get?_enter_self pool entry key
  have hExtends := extends_enter pool entry key
  have hConstants := constant?_place (pool.enter entry key) pool.arena.size
  refine ⟨(h.toLaidOut.enter hIndex).place hEntry hIndex, ?_, (h.owned.enter hOwner).place _, ?_,
    ?_⟩
  · rw [size_place hEntry]
    exact hSize
  · intro id constant hAt
    rw [hConstants] at hAt
    rw [Source.closed_congr hConstants]
    obtain ⟨e, hE, rfl⟩ := constant?_eq_some.mp hAt
    rw [get?_enter] at hE
    split at hE
    · cases hE
      exact hClosed.mono hExtends.constant?
    · exact (h.closed id _ (constant?_of_get? hE)).mono hExtends.constant?
  · intro other id
    rw [find?_place, find?_enter, get?_place]
    simp only [Source.hasKey_congr hConstants]
    -- the new entry is found under its key only; for the others the keys have not changed
    by_cases hId : id = pool.arena.size
    · subst id
      have hOther : pool.find? other ≠ some pool.arena.size := by
        intro hFound
        obtain ⟨old, hOld, _⟩ := (h.find?_iff other _).mp hFound
        exact ne_arena_size_of_get? hOld rfl
      have hUnique : (pool.enter entry key).source.HasKey entry.value other ↔ other = key :=
        ⟨fun hOther => hOther.unique (hKey.mono hExtends.constant?),
          fun hEq => by rw [hEq]; exact hKey.mono hExtends.constant?⟩
      simp [hEntry, hUnique, hOther]
    · rw [if_neg hId, get?_enter, if_neg hId]
      have hKeys (old : Entry) (hOld : pool.get? id = some old) :
          (pool.enter entry key).source.HasKey old.value other ↔
            pool.source.HasKey old.value other :=
        (h.closed id _ (constant?_of_get? hOld)).hasKey_iff h.closed hExtends.constant?
      have hIff : (∃ old, pool.get? id = some old ∧ old.index.isSome ∧
          (pool.enter entry key).source.HasKey old.value other) ↔ pool.find? other = some id := by
        rw [h.find?_iff]
        exact exists_congr fun old => and_congr_right fun hOld => by rw [hKeys old hOld]
      rw [hIff]
      by_cases hOther : other = key
      · subst other
        simp [hNew, Ne.symm hId]
      · rw [if_neg hOther]

theorem extends_append (pool : Pool) (entry : Entry) (key : Key) :
    Extends pool ((pool.enter entry key).place pool.arena.size) := by
  refine (extends_enter pool entry key).trans ⟨id_place _ _, ?_⟩
  rw [constant?_place]
  exact fun _ _ h => h

end Pool

end ClassRom
