import ClassRom.Proofs.Image.Collecting

/-!
# What counters have room for

Loading a class raises the counter of an entry at most once for each constant of the class and once
for each use that the class makes of constants. Entries refer to an entry no more than twice for
each slot of the pool. So no counter starts again before the classes have some four thousand million
constants and uses between them.
-/

namespace ClassRom

set_option autoImplicit false

/-- How often loading the class can raise a counter at most. -/
def ClassFile.bulk (file : ClassFile) : Nat :=
  file.constants.indices.length +
    file.scan.toOption.elim 0 fun scanned => scanned.uses.length

theorem Constant.length_targets_le (constant : Constant) : constant.targets.length ≤ 2 := by
  have hRefs : constant.refs.length ≤ 2 := by cases constant <;> simp [refs]
  exact Nat.le_trans (List.length_filterMap_le _ _) hRefs

namespace Pool

variable {pool : Pool} {id : EntryId} {entry : Entry} {holders : List EntryId} {most : Nat}

theorem length_targetsAt_le (pool : Pool) (id : EntryId) : (pool.targetsAt id).length ≤ 2 := by
  unfold targetsAt
  cases pool.source.constant? id with
  | none => exact Nat.zero_le _
  | some constant => exact constant.length_targets_le

theorem length_references_le (pool : Pool) : pool.references.length ≤ pool.arena.size * 2 := by
  have hTargets : ∀ id ∈ List.range pool.arena.size, (pool.targetsAt id).length ≤ 2 :=
    fun id _ => pool.length_targetsAt_le id
  simpa [references] using length_flatMap_le_two hTargets

theorem Valid.count_references_le (h : pool.Valid)
    (hLive : ∀ id entry, pool.get? id = some entry → entry.index.isSome) (id : EntryId) :
    pool.references.count id ≤ 131070 := by
  have hOrder : pool.arena.size = pool.order.length := by
    rw [← (h.range_perm_order hLive).length_eq, List.length_range]
  have hSlots : pool.order.length ≤ pool.size := List.length_filterMap_le _ _
  have hSize := h.size_le
  calc pool.references.count id
      ≤ pool.references.length := List.count_le_length
    _ ≤ pool.arena.size * 2 := pool.length_references_le
    _ ≤ 131070 := by omega

theorem Bounded.noOverflow (h : pool.Bounded most []) (hValid : pool.Valid)
    (hLive : ∀ id entry, pool.get? id = some entry → entry.index.isSome)
    (hMost : most + 131070 < 4294967296) : pool.NoOverflow := by
  refine noOverflow_iff.mpr fun id entry hEntry => ?_
  have hReferences := hValid.count_references_le hLive id
  obtain ⟨hUses, hLdc⟩ := h id
  rw [List.count_nil] at hUses hLdc
  rw [← usesAt_of_get? hEntry, ← ldcUsesAt_of_get? hEntry, Counter.wraps_eq_zero_iff,
    Counter.wraps_eq_zero_iff]
  omega

/-- Charging raises each counter by one at most, and makes one holder. -/
theorem Bounded.chargeUse (h : pool.Bounded most holders) (hEntry : pool.get? id = some entry)
    (single : Bool) : (pool.chargeUse id single).Bounded most (id :: holders) := by
  have hReferences : (pool.chargeUse id single).references = pool.references := by
    unfold Pool.chargeUse
    cases single with
    | false => exact references_modify counting_addUse pool id
    | true =>
      exact (references_modify counting_addLdcUse _ id).trans
        (references_modify counting_addUse pool id)
  intro other
  obtain ⟨hUses, hLdc⟩ := h other
  rw [usesAt_chargeUse hEntry, ldcTotal_chargeUse hEntry, hReferences, List.count_cons]
  by_cases hId : other = id
  · subst other
    cases single <;> simp <;> omega
  · cases single <;> simpa [hId, Ne.symm hId] using ⟨hUses, hLdc⟩

theorem Bounded.release {map : HandleMap} {indices : List UInt16} (h : pool.Bounded most holders) :
    (Image.release map indices pool).Bounded most holders := by
  unfold Image.release
  induction indices generalizing pool with
  | nil => exact h
  | cons index indices ih =>
    rw [List.foldl_cons]
    cases map.get? index with
    | none => exact ih h
    | some handle => exact ih (h.dropUse handle.entry)

end Pool

namespace Image

variable {image image' : Image} {file : ClassFile} {files more : List ClassFile}
  {loaded : LoadedClass} {pool : Pool} {most : Nat}

theorem Loads.bounded (hTable : file.constants.WellFormed) (hValid : image.pool.Valid)
    (hBounded : image.pool.Bounded most []) (h : image.Loads file loaded pool) :
    pool.Bounded (most + file.bulk) [] := by
  obtain ⟨merged, _, hScan, hMerge, hCharge⟩ := h
  obtain ⟨_, hFaithful, ids, hIds, hMerged⟩ :=
    Pool.merge_ok (Pool.isLedger_bounded most) hTable hValid hBounded hMerge
  have hMap : loaded.handles.Within (release loaded.handles file.constants.indices merged) :=
    hFaithful.within.mono fun _ _ => (release_recounted _ _ merged).get?
  have hCharged := (chargeClass_ok hCharge).ledger (Pool.isLedger_bounded _) Pool.Bounded.chargeUse
    hMap hMerged.allow.release
  have hUses : (loaded.handles.entriesOf (loaded.file.uses.map Use.index)).length ≤
      loaded.file.uses.length :=
    Nat.le_trans (List.length_filterMap_le _ _) (Nat.le_of_eq (List.length_map _))
  have hBulk : file.bulk = ids.length + loaded.file.uses.length := by
    rw [ClassFile.bulk, hScan, hIds.length_eq]
    rfl
  refine hCharged.allow.mono ?_
  omega

theorem Collects.loadAll_bounded (h : image.Collects files)
    (hBounded : image.pool.Bounded (files.map ClassFile.bulk).sum [])
    (hRead : ∀ file ∈ more, file.IsRead) (hLoad : image.loadAll more = .ok image') :
    image'.pool.Bounded ((files ++ more).map ClassFile.bulk).sum [] := by
  have hBoth : image'.Collects (files ++ more) ∧
      image'.pool.Bounded ((files ++ more).map ClassFile.bulk).sum [] := by
    refine loadAll_induction (P := fun image files => image.Collects files ∧
      image.pool.Bounded (files.map ClassFile.bulk).sum []) ?_ ⟨h, hBounded⟩ hRead hLoad
    intro image files file image' hImage hFile hAdd
    refine ⟨hImage.1.addClass_ok hFile hAdd, ?_⟩
    rcases addClass_cases image file with ⟨loaded, pool, hLoads, hAdded⟩ | ⟨fault, pool, _, hAdded⟩
    · rw [hAdded] at hAdd
      cases hAdd
      rw [List.map_append, List.sum_append, List.map_singleton, List.sum_singleton]
      exact hLoads.bounded hFile.wellFormed hImage.1.exact.sound.valid hImage.2
    · rw [hAdded] at hAdd
      cases hAdd
  exact hBoth.2

/-- Classes that are not too bulky between them make no counter start again. -/
theorem loadAll_noOverflow (settings : Settings) (hRead : ∀ file ∈ files, file.IsRead)
    (hLoad : (empty settings).loadAll files = .ok image)
    (hBulk : (files.map ClassFile.bulk).sum + 131070 < 4294967296) : image.pool.NoOverflow := by
  have hEmpty := collects_empty settings
  have hSound := (hEmpty.loadAll hRead hLoad).exact.sound
  exact (hEmpty.loadAll_bounded (Pool.bounded_empty 0) hRead hLoad).noOverflow hSound.valid
    hSound.live hBulk

end Image

end ClassRom
