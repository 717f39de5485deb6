import ClassRom.Pool.Usage
import ClassRom.Proofs.Pool.Adding

/-!
# Counting again

Counting uses changes the counters of entries and nothing else about a pool, so the pool stays
valid. Charging uses lowers no counter's total.
-/

namespace ClassRom

set_option autoImplicit false

/-- The entry without its counters. -/
def Entry.uncounted (entry : Entry) : Constant × Option PoolId × Option Nat :=
  (entry.value, entry.owner, entry.index)

namespace Pool

variable {before middle after : Pool} {id : EntryId} {entry : Entry}

/-- The pools differ in the counters of their entries only, and no one-byte use is taken back. -/
structure Recounted (before after : Pool) : Prop where
  id_eq : after.id = before.id
  slots_eq : after.slots = before.slots
  lookup_eq : after.lookup = before.lookup
  locked_eq : after.locked = before.locked
  uncounted_eq : ∀ id, (after.get? id).map Entry.uncounted = (before.get? id).map Entry.uncounted
  ldcTotal_le : ∀ id, (before.ldcUsesAt id).total ≤ (after.ldcUsesAt id).total

namespace Recounted

theorem refl (pool : Pool) : Recounted pool pool :=
  ⟨rfl, rfl, rfl, rfl, fun _ => rfl, fun _ => Nat.le_refl _⟩

theorem trans (h : Recounted before middle) (h' : Recounted middle after) :
    Recounted before after where
  id_eq := h'.id_eq.trans h.id_eq
  slots_eq := h'.slots_eq.trans h.slots_eq
  lookup_eq := h'.lookup_eq.trans h.lookup_eq
  locked_eq := h'.locked_eq.trans h.locked_eq
  uncounted_eq id := (h'.uncounted_eq id).trans (h.uncounted_eq id)
  ldcTotal_le id := Nat.le_trans (h.ldcTotal_le id) (h'.ldcTotal_le id)

theorem get? (h : Recounted before after) (hEntry : before.get? id = some entry) :
    ∃ entry', after.get? id = some entry' ∧ entry'.value = entry.value ∧
      entry'.index = entry.index := by
  have hAfter := h.uncounted_eq id
  rw [hEntry, Option.map_some, Option.map_eq_some_iff] at hAfter
  obtain ⟨entry', hEntry', hEq⟩ := hAfter
  exact ⟨entry', hEntry', congrArg (·.1) hEq, congrArg (·.2.2) hEq⟩

theorem exists_get?_iff (h : Recounted before after) {P : Constant → Option Nat → Prop} :
    (∃ entry, after.get? id = some entry ∧ P entry.value entry.index) ↔
      ∃ entry, before.get? id = some entry ∧ P entry.value entry.index := by
  have hEntry := h.uncounted_eq id
  cases hBefore : before.get? id <;> cases hAfter : after.get? id <;>
    simp_all [Entry.uncounted]

theorem source_eq (h : Recounted before after) : after.source = before.source := by
  have hConstant : after.source.constant? = before.source.constant? := by
    funext id
    have hValue := congrArg (Option.map (·.1)) (h.uncounted_eq id)
    rw [Option.map_map, Option.map_map] at hValue
    exact hValue
  have hOwner : after.source.owner? = before.source.owner? := by
    funext id
    have hOwner := congrArg (Option.bind · (·.2.1)) (h.uncounted_eq id)
    simp only [Option.bind_map] at hOwner
    exact hOwner
  unfold source idAt? at hConstant hOwner ⊢
  rw [Source.mk.injEq]
  exact ⟨hOwner, hConstant, by rw [h.slots_eq]⟩

theorem valid (h : Recounted before after) (hBefore : before.Valid) : after.Valid where
  slots_eq := by
    unfold order
    rw [cells_congr (congrArg Source.constant? h.source_eq), h.slots_eq]
    exact hBefore.slots_eq
  slot_iff index id := by
    rw [h.slots_eq, h.exists_get?_iff (P := fun _ i => i = some index)]
    exact hBefore.slot_iff index id
  size_le := by
    unfold size
    rw [h.slots_eq]
    exact hBefore.size_le
  owned id entry hEntry := by
    have hAfter := h.uncounted_eq id
    rw [hEntry, Option.map_some, eq_comm, Option.map_eq_some_iff] at hAfter
    obtain ⟨old, hOld, hEq⟩ := hAfter
    rw [h.id_eq, ← hBefore.owned id old hOld]
    exact (congrArg (·.2.1) hEq).symm
  closed := by
    rw [h.source_eq]
    exact hBefore.closed
  find?_iff key id := by
    unfold find?
    rw [h.lookup_eq, h.source_eq, h.exists_get?_iff
      (P := fun value i => i.isSome ∧ before.source.HasKey value key)]
    exact hBefore.find?_iff key id

theorem steady (h : Recounted before after) (hBefore : before.Valid) : Steady before after where
  valid := h.valid hBefore
  id_eq := h.id_eq
  locked_eq := h.locked_eq
  kept _ _ hEntry := h.get? hEntry
  fresh id entry hEntry hNone := by
    have hAfter := h.uncounted_eq id
    rw [hEntry, hNone] at hAfter
    cases hAfter

end Recounted

theorem recounted_modify {f : Entry → Entry} (hf : Counting f)
    (hLdc : ∀ entry, entry.ldcUses.total ≤ (f entry).ldcUses.total) (pool : Pool) (id : EntryId) :
    Recounted pool (pool.modify id f) := by
  refine ⟨rfl, rfl, rfl, rfl, fun other => ?_, fun other => ?_⟩
  · obtain ⟨g, hg, hGet⟩ := get?_modify_eq hf pool id other
    rw [hGet, Option.map_map]
    refine congrArg (Option.map · (pool.get? other)) (funext fun entry => ?_)
    exact Prod.ext (hg.value_eq entry) (Prod.ext (hg.owner_eq entry) (hg.index_eq entry))
  · rw [ldcUsesAt_modify]
    split
    · unfold ldcUsesAt
      cases pool.get? other with
      | none => exact Nat.le_refl _
      | some entry => exact hLdc entry
    · exact Nat.le_refl _

theorem dropUse_recounted (pool : Pool) (id : EntryId) : Recounted pool (pool.dropUse id) :=
  recounted_modify counting_dropUse (fun _ => Nat.le_refl _) pool id

/-- The pools differ in the counters of their entries only, and the total of none was lowered. -/
structure Grown (before after : Pool) : Prop extends Recounted before after where
  total_le : ∀ id, (before.usesAt id).total ≤ (after.usesAt id).total

namespace Grown

theorem refl (pool : Pool) : Grown pool pool := ⟨.refl pool, fun _ => Nat.le_refl _⟩

theorem trans (h : Grown before middle) (h' : Grown middle after) : Grown before after :=
  ⟨h.toRecounted.trans h'.toRecounted,
    fun id => Nat.le_trans (h.total_le id) (h'.total_le id)⟩

end Grown

theorem grown_modify {f : Entry → Entry} (hf : Counting f)
    (hLdc : ∀ entry, entry.ldcUses.total ≤ (f entry).ldcUses.total)
    (hUses : ∀ entry, entry.uses.total ≤ (f entry).uses.total) (pool : Pool) (id : EntryId) :
    Grown pool (pool.modify id f) := by
  refine ⟨recounted_modify hf hLdc pool id, fun other => ?_⟩
  rw [usesAt_modify]
  split
  · unfold usesAt
    cases pool.get? other with
    | none => exact Nat.le_refl _
    | some entry => exact hUses entry
  · exact Nat.le_refl _

theorem addUse_grown (pool : Pool) (id : EntryId) : Grown pool (pool.addUse id) :=
  grown_modify counting_addUse (fun _ => Nat.le_refl _) (fun _ => Counter.total_le_add _ _) pool id

theorem chargeUse_grown (pool : Pool) (id : EntryId) (single : Bool) :
    Grown pool (pool.chargeUse id single) := by
  have hUse := addUse_grown pool id
  unfold chargeUse
  cases single with
  | false => exact hUse
  | true =>
    exact hUse.trans
      (grown_modify counting_addLdcUse (fun _ => Counter.total_le_add _ _)
        (fun _ => Nat.le_refl _) _ id)

theorem charge_grown (map : HandleMap) (method : String) (uses : List Use) (pool : Pool) :
    Grown pool (pool.charge map method uses).2 := by
  induction uses generalizing pool with
  | nil => exact .refl pool
  | cons use uses ih =>
    rw [charge]
    split
    next => exact .refl pool
    next handle _ => exact (chargeUse_grown pool handle.entry use.single).trans (ih _)

end Pool

end ClassRom
