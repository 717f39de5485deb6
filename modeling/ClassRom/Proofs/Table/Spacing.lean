import ClassRom.Proofs.Table.Resolution
import Mathlib.Algebra.Ring.Nat
import Mathlib.Data.List.Flatten

/-!
# How tables are laid out

Slot 0 of a table is empty, and its constants follow without gaps, an eight-byte number with an empty
slot behind it. This holds of every table that can be built, whether its references were resolved
successfully, in part, or not at all.
-/

namespace ClassRom

set_option autoImplicit false

namespace Constant

/-- The slots that a constant takes in a table. -/
def cells (constant : Constant) : List (Option Constant) :=
  some constant :: if constant.isWide then [none] else []

@[simp] theorem length_cells (constant : Constant) : constant.cells.length = constant.width := by
  unfold cells width
  cases constant.isWide <;> rfl

@[simp] theorem length_flatMap_cells (constants : List Constant) :
    (constants.flatMap cells).length = (constants.map width).sum := by
  rw [List.length_flatMap]
  simp only [length_cells]

theorem sum_width_le {constants larger : List Constant} (h : constants.Sublist larger) :
    (constants.map width).sum ≤ (larger.map width).sum := by
  rw [← length_flatMap_cells, ← length_flatMap_cells]
  exact (h.map cells).flatten.length_le

theorem filterMap_cells (constant : Constant) :
    constant.cells.filterMap (fun slot => slot) = [constant] := by
  unfold cells
  cases constant.isWide <;> rfl

theorem isWide_withRefs (constant : Constant) (refs : List Ref) :
    (constant.withRefs refs).isWide = constant.isWide := by
  unfold withRefs
  split <;> rfl

theorem isWide_direct (constant : Constant) : constant.direct.isWide = constant.isWide :=
  isWide_withRefs constant _

end Constant

namespace Table

variable {table other : Table} {constant : Constant} {slot : Nat}

/-- The constants in the order of their slots. -/
def constants (table : Table) : List Constant := table.slots.toList.filterMap fun slot => slot

/-- Slot 0 is empty, and the constants follow without gaps. -/
def Spaced (table : Table) : Prop :=
  table.slots.toList = none :: table.constants.flatMap Constant.cells

/-- Tables as they can come about. -/
inductive Built : Table → Prop where
  | empty : Built .empty
  | push {table : Table} (constant : Constant) : Built table → Built (table.push constant)
  | resolveAll {table : Table} : Built table → Built table.resolveAll.2

theorem mem_entries_iff : (slot, constant) ∈ table.entries ↔ table.slot? slot = some constant := by
  unfold entries slot?
  simp only [List.mem_filterMap, Option.map_eq_some_iff, Prod.mk.injEq, Prod.exists]
  constructor
  · rintro ⟨value, slot', hMem, constant', rfl, rfl, rfl⟩
    rw [List.mem_zipIdx_iff_getElem?, Array.getElem?_toList] at hMem
    rw [hMem]
    rfl
  · intro hSlot
    refine ⟨some constant, slot, ?_, constant, rfl, rfl, rfl⟩
    rw [List.mem_zipIdx_iff_getElem?, Array.getElem?_toList]
    exact Option.join_eq_some_iff.mp hSlot

theorem pairwise_entries (table : Table) : table.entries.Pairwise fun a b => a.1 < b.1 := by
  have hRange : table.slots.toList.zipIdx.Pairwise fun a b => a.2 < b.2 := by
    rw [← List.pairwise_map, List.zipIdx_map_snd]
    exact List.pairwise_lt_range'
  refine List.pairwise_filterMap.mpr (hRange.imp ?_)
  rintro ⟨a, i⟩ ⟨b, j⟩ hLt x hX y hY
  obtain ⟨_, _, rfl⟩ := Option.map_eq_some_iff.mp hX
  obtain ⟨_, _, rfl⟩ := Option.map_eq_some_iff.mp hY
  exact hLt

theorem map_snd_entries (table : Table) : table.entries.map Prod.snd = table.constants := by
  unfold entries constants
  rw [List.map_filterMap]
  have hSlots : table.slots.toList = table.slots.toList.zipIdx.map Prod.fst :=
    (List.zipIdx_map_fst 0 _).symm
  conv_rhs => rw [hSlots, List.filterMap_map]
  refine congrArg (List.filterMap · _) (funext fun ⟨value, slot⟩ => ?_)
  cases value <;> rfl

theorem mem_constants_iff :
    constant ∈ table.constants ↔ ∃ slot, table.slot? slot = some constant := by
  simp [← map_snd_entries, mem_entries_iff]

theorem entries_eq_range (table : Table) :
    table.entries = (List.range table.size).filterMap fun slot =>
      (table.slot? slot).map (slot, ·) := by
  unfold entries size
  conv_lhs => rw [← Traversal.filterMap_getElem?_range table.slots.toList.zipIdx,
    List.filterMap_filterMap]
  rw [List.length_zipIdx, Array.length_toList]
  refine List.filterMap_congr fun slot _ => ?_
  rw [List.getElem?_zipIdx, Array.getElem?_toList, slot?, Nat.zero_add]
  cases table.slots[slot]? <;> rfl

theorem Spaced.size_eq (h : table.Spaced) :
    table.size = 1 + (table.constants.map Constant.width).sum := by
  rw [size, ← Array.length_toList, h, List.length_cons, Constant.length_flatMap_cells,
    Nat.add_comm]

theorem slots_push (table : Table) (constant : Constant) :
    (table.push constant).slots.toList = table.slots.toList ++ constant.cells := by
  unfold push Constant.cells
  cases constant.isWide <;> simp

theorem constants_push (table : Table) (constant : Constant) :
    (table.push constant).constants = table.constants ++ [constant] := by
  unfold constants
  rw [slots_push, List.filterMap_append, Constant.filterMap_cells]

theorem spaced_empty : empty.Spaced := rfl

theorem Spaced.push (h : table.Spaced) (constant : Constant) : (table.push constant).Spaced := by
  unfold Spaced at h ⊢
  rw [slots_push, constants_push, h, List.flatMap_append, List.flatMap_singleton, List.cons_append]

/-! ### Resolution keeps the layout -/

/-- Which slots are occupied, and which of them by eight-byte numbers. -/
def shape (table : Table) : List (Option Bool) :=
  table.slots.toList.map (Option.map Constant.isWide)

theorem shape_directBelow (table : Table) (bound : Nat) :
    (table.directBelow bound).shape = table.shape := by
  unfold shape directBelow
  refine List.ext_getElem? fun slot => ?_
  rw [List.getElem?_map, List.getElem?_map, Array.getElem?_toList, Array.getElem?_toList,
    Array.getElem?_mapIdx, Option.map_map]
  refine congrArg (Option.map · table.slots[slot]?) (funext fun value => ?_)
  by_cases h : slot < bound
  · cases value <;> simp [h, Constant.isWide_direct]
  · simp [h]

theorem shape_resolveAll (table : Table) : table.resolveAll.2.shape = table.shape := by
  rcases resolveAll_outcome table with ⟨_, hRun⟩ | ⟨slot, _, _, _, hRun⟩
  · rw [hRun, shape_directBelow]
  · rw [hRun, shape_directBelow]

theorem eq_flatMap_cells {slots : List (Option Constant)} {constants : List Constant}
    (h : slots.map (Option.map Constant.isWide) =
      (constants.flatMap Constant.cells).map (Option.map Constant.isWide)) :
    slots = (slots.filterMap fun slot => slot).flatMap Constant.cells := by
  induction constants generalizing slots with
  | nil => rw [List.map_eq_nil_iff.mp h]; rfl
  | cons constant constants ih =>
    rw [List.flatMap_cons, Constant.cells, List.cons_append, List.map_cons,
      List.map_eq_cons_iff] at h
    obtain ⟨head, tail, rfl, hHead, hTail⟩ := h
    obtain ⟨value, rfl, hWide⟩ := Option.map_eq_some_iff.mp hHead
    change some value :: tail = (value :: tail.filterMap fun slot => slot).flatMap Constant.cells
    rw [List.flatMap_cons, Constant.cells, hWide]
    cases hConstant : constant.isWide with
    | false =>
      rw [hConstant] at hTail
      exact congrArg (some value :: ·) (ih hTail)
    | true =>
      rw [hConstant] at hTail
      obtain ⟨head, rest, rfl, hHead, hRest⟩ := List.map_eq_cons_iff.mp hTail
      obtain rfl := Option.map_eq_none_iff.mp hHead
      exact congrArg (some value :: none :: ·) (ih hRest)

theorem Spaced.of_shape_eq (h : table.Spaced) (hShape : other.shape = table.shape) :
    other.Spaced := by
  unfold shape at hShape
  rw [h, List.map_cons, List.map_eq_cons_iff] at hShape
  obtain ⟨head, tail, hSlots, hHead, hTail⟩ := hShape
  rw [Option.map_eq_none_iff.mp hHead] at hSlots
  unfold Spaced constants
  rw [hSlots]
  exact congrArg (none :: ·) (eq_flatMap_cells hTail)

theorem Built.spaced (h : table.Built) : table.Spaced := by
  induction h with
  | empty => exact spaced_empty
  | push constant _ ih => exact ih.push constant
  | resolveAll _ ih => exact ih.of_shape_eq (shape_resolveAll _)

theorem spaced_of_resolved (h : table.Spaced) (hResolved : table.resolved = .ok other) :
    other.Spaced := by
  apply h.of_shape_eq
  rw [(resolved_eq_ok.mp hResolved).2, shape_directBelow]

end Table

end ClassRom
