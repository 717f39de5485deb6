import ClassRom.Proofs.Pool.Gathering
import ClassRom.Proofs.Pool.Sorting

/-!
# Contents of pools

The keys of a valid pool match its live entries one to one. So the size of the pool and the
references between its entries can be counted on keys, without regard to the order in which the
entries were made.
-/

namespace ClassRom

set_option autoImplicit false

namespace Key

/-- The keys of what a constant with this key refers to, in order. -/
def parts : Key → List Key
  | .string text => [.utf8 text]
  | .classRef name => [.utf8 name]
  | .nameAndType name descriptor => [.utf8 name, .utf8 descriptor]
  | .member _ owner name descriptor => [.classRef owner, .nameAndType name descriptor]
  | _ => []

/-- The number of slots that a constant with this key takes. -/
def width : Key → Nat
  | .long _ => 2
  | .double _ => 2
  | _ => 1

end Key

namespace Source.HasKey

variable {source : Source} {constant : Constant} {key : Key}

theorem width_eq (h : source.HasKey constant key) : constant.width = key.width := by
  cases h <;> rfl

theorem forall₂_targets (h : source.HasKey constant key) :
    List.Forall₂ (fun id part => ∃ referred, source.constant? id = some referred ∧
      source.HasKey referred part) constant.targets key.parts := by
  cases h with
  | utf8 _ | integer _ | float _ | long _ | double _ => exact .nil
  | string hAt hKey => exact .cons ⟨_, hAt, hKey⟩ .nil
  | classRef hAt hKey => exact .cons ⟨_, hAt, hKey⟩ .nil
  | nameAndType hA hKeyA hB hKeyB => exact .cons ⟨_, hA, hKeyA⟩ (.cons ⟨_, hB, hKeyB⟩ .nil)
  | member hA hKeyA hB hKeyB => exact .cons ⟨_, hA, hKeyA⟩ (.cons ⟨_, hB, hKeyB⟩ .nil)

end Source.HasKey

namespace Pool

variable {pool other after : Pool} {key key' : Key} {id id' : EntryId}

/-- The keys of the live entries, in their own order. -/
def keys (pool : Pool) : List Key := pool.lookup.keys

theorem mem_keys : key ∈ pool.keys ↔ ∃ id, pool.find? key = some id := by
  unfold keys find?
  rw [Std.TreeMap.mem_keys, Std.TreeMap.mem_iff_isSome_getElem?, Option.isSome_iff_exists]

theorem mem_keys_of_find? (h : pool.find? key = some id) : key ∈ pool.keys := mem_keys.mpr ⟨id, h⟩

theorem nodup_keys (pool : Pool) : pool.keys.Nodup := by
  refine (Std.TreeMap.distinct_keys (t := pool.lookup)).imp fun hNe hEq => hNe ?_
  exact Std.LawfulEqCmp.compare_eq_iff_eq.mpr hEq

theorem keys_perm (h : ∀ key, key ∈ pool.keys ↔ key ∈ other.keys) :
    pool.keys.Perm other.keys :=
  (List.perm_ext_iff_of_nodup pool.nodup_keys other.nodup_keys).mpr h

/-! ### Entries and keys -/

theorem Valid.found_iff (h : pool.Valid) (hFound : pool.find? key = some id)
    (hFound' : pool.find? key' = some id') : id = id' ↔ key = key' := by
  constructor
  · rintro rfl
    obtain ⟨entry, hEntry, _, hKey⟩ := (h.find?_iff key id).mp hFound
    obtain ⟨entry', hEntry', _, hKey'⟩ := (h.find?_iff key' id).mp hFound'
    rw [hEntry] at hEntry'
    cases hEntry'
    exact hKey.unique hKey'
  · rintro rfl
    rw [hFound] at hFound'
    exact Option.some.inj hFound'

theorem Valid.mem_order_iff_found (h : pool.Valid) :
    id ∈ pool.order ↔ ∃ key, pool.find? key = some id := by
  constructor
  · intro hId
    obtain ⟨entry, hEntry, hLive⟩ := h.mem_order_iff.mp hId
    obtain ⟨key, hKey⟩ := (h.closed id _ (constant?_of_get? hEntry)).exists_hasKey h.closed
    exact ⟨key, (h.find?_iff key id).mpr ⟨entry, hEntry, hLive, hKey⟩⟩
  · rintro ⟨key, hFound⟩
    exact mem_order_of_find? h hFound

/-- The live entries in the order of their keys. -/
def byKey (pool : Pool) : List EntryId := pool.keys.filterMap pool.find?

theorem forall₂_byKey (pool : Pool) :
    List.Forall₂ (fun id key => pool.find? key = some id) pool.byKey pool.keys :=
  Traversal.forall₂_filterMap fun _ hKey => mem_keys.mp hKey

theorem Valid.order_perm (h : pool.Valid) : pool.order.Perm pool.byKey := by
  have hNodup : pool.byKey.Nodup := by
    refine List.Nodup.filterMap ?_ pool.nodup_keys
    intro key key' id hId hId'
    exact (h.found_iff hId hId').mp rfl
  refine (List.perm_ext_iff_of_nodup h.nodup_order hNodup).mpr fun id => ?_
  rw [h.mem_order_iff_found, byKey, List.mem_filterMap]
  constructor
  · rintro ⟨key, hFound⟩
    exact ⟨key, mem_keys_of_find? hFound, hFound⟩
  · rintro ⟨key, _, hFound⟩
    exact ⟨key, hFound⟩

theorem Valid.size_eq_keys (h : pool.Valid) : pool.size = 1 + (pool.keys.map Key.width).sum := by
  have hWidths : (pool.byKey.filterMap pool.source.constant?).map Constant.width =
      pool.keys.map Key.width := by
    have hFound := pool.forall₂_byKey
    generalize pool.byKey = ids, pool.keys = keys at hFound
    induction hFound with
    | nil => rfl
    | cons hHead _ ih =>
      obtain ⟨entry, hEntry, _, hKey⟩ := (h.find?_iff _ _).mp hHead
      rw [List.filterMap_cons_some (constant?_of_get? hEntry), List.map_cons, List.map_cons, ih,
        hKey.width_eq]
  rw [h.size_eq_widths, ← hWidths, ((h.order_perm.filterMap _).map _).sum_nat]

/-! ### References -/

section Live

variable (h : pool.Valid)
  (hLive : ∀ id entry, pool.get? id = some entry → entry.index.isSome)
include h hLive

theorem Valid.find?_of_hasKey {constant : Constant} (hAt : pool.source.constant? id = some constant)
    (hKey : pool.source.HasKey constant key) : pool.find? key = some id := by
  obtain ⟨entry, hEntry, rfl⟩ := constant?_eq_some.mp hAt
  exact (h.find?_iff key id).mpr ⟨entry, hEntry, hLive id entry hEntry, hKey⟩

theorem Valid.range_perm_order : (List.range pool.arena.size).Perm pool.order := by
  refine (List.perm_ext_iff_of_nodup List.nodup_range h.nodup_order).mpr fun id => ?_
  rw [List.mem_range, h.mem_order_iff]
  constructor
  · intro hLt
    have hEntry : pool.get? id = some pool.arena[id] := Array.getElem?_eq_getElem hLt
    exact ⟨_, hEntry, hLive id _ hEntry⟩
  · rintro ⟨entry, hEntry, _⟩
    exact lt_size_of_get? hEntry

theorem Valid.references_perm : pool.references.Perm (pool.byKey.flatMap pool.targetsAt) :=
  ((h.range_perm_order hLive).trans h.order_perm).flatMap_right _

/-- References are counted on keys. -/
theorem Valid.count_references (hFound : pool.find? key = some id) :
    pool.references.count id = (pool.keys.flatMap Key.parts).count key := by
  have hTargets : List.Forall₂ (fun id key => pool.find? key = some id)
      (pool.byKey.flatMap pool.targetsAt) (pool.keys.flatMap Key.parts) := by
    refine List.rel_flatMap pool.forall₂_byKey ?_
    intro other part hOther
    obtain ⟨entry, hEntry, _, hKey⟩ := (h.find?_iff part other).mp hOther
    unfold targetsAt
    rw [constant?_of_get? hEntry, Option.elim_some]
    refine hKey.forall₂_targets.imp ?_
    rintro target part' ⟨referred, hReferred, hPart⟩
    exact h.find?_of_hasKey hLive hReferred hPart
  rw [(h.references_perm hLive).count_eq]
  exact Traversal.count_eq_of_forall₂ h.found_iff hTargets hFound

end Live

/-! ### Pools with the same contents -/

theorem Valid.find?_iff_mem_order (h : pool.Valid) :
    pool.find? key = some id ↔ id ∈ pool.order ∧ ∃ constant,
      pool.source.constant? id = some constant ∧ pool.source.HasKey constant key := by
  rw [h.find?_iff, h.mem_order_iff]
  constructor
  · rintro ⟨entry, hEntry, hLive, hKey⟩
    exact ⟨⟨entry, hEntry, hLive⟩, entry.value, constant?_of_get? hEntry, hKey⟩
  · rintro ⟨⟨entry, hEntry, hLive⟩, constant, hAt, hKey⟩
    rw [constant?_of_get? hEntry] at hAt
    cases hAt
    exact ⟨entry, hEntry, hLive, hKey⟩

/-- In a new layout the keys that are left lead to the same entries. -/
theorem Pruned.find?_iff (h : Pruned pool after) (hValid : pool.Valid)
    (hSub : after.order ⊆ pool.order) :
    after.find? key = some id ↔ pool.find? key = some id ∧ id ∈ after.order := by
  rw [h.valid.find?_iff_mem_order, hValid.find?_iff_mem_order, h.constant?_eq]
  simp only [Source.hasKey_congr h.constant?_eq]
  constructor
  · rintro ⟨hId, hKey⟩
    exact ⟨⟨hSub hId, hKey⟩, hId⟩
  · rintro ⟨⟨_, hKey⟩, hId⟩
    exact ⟨hId, hKey⟩

/-- The pools hold the same constants in as many slots and count their one-byte uses alike, whatever
their entries are numbered and wherever they stand. -/
structure SameConstants (pool other : Pool) : Prop where
  keys : ∀ key, key ∈ pool.keys ↔ key ∈ other.keys
  size_eq : pool.size = other.size
  ldcWeight_eq : ∀ key id id', pool.find? key = some id → other.find? key = some id' →
    pool.ldcWeight id = other.ldcWeight id'

/-- The pools count the uses of their constants alike as well. -/
structure SameContents (pool other : Pool) : Prop extends SameConstants pool other where
  usesOf_eq : ∀ key id id', pool.find? key = some id → other.find? key = some id' →
    pool.usesOf id = other.usesOf id'

theorem SameContents.symm (h : SameContents pool other) : SameContents other pool where
  keys key := (h.keys key).symm
  size_eq := h.size_eq.symm
  ldcWeight_eq key id id' hFound hFound' := (h.ldcWeight_eq key id' id hFound' hFound).symm
  usesOf_eq key id id' hFound hFound' := (h.usesOf_eq key id' id hFound' hFound).symm

end Pool

end ClassRom
