import ClassRom.Pool.Merge
import ClassRom.Pool.Wire
import ClassRom.Proofs.Pool.Recounting

/-!
# Locked pools

A locked pool takes no new constants: merging a table into it finds entries or fails, and counts
uses. So only the counters of a locked pool change, and it is written as the same bytes.
-/

namespace ClassRom.Pool

set_option autoImplicit false

variable {pool before after : Pool} {source : Source} {id : EntryId} {map : HandleMap}

/-! ### Adding -/

theorem addWithin_recounted (hLocked : pool.locked) (depth : Nat) :
    Recounted pool (addWithin source depth id pool).2 := by
  cases depth with
  | zero => exact .refl pool
  | succ depth =>
    rw [addWithin]
    split
    next => exact .refl pool
    next =>
      split
      next => exact .refl pool
      next => exact .refl pool
      next =>
        split
        next => exact .refl pool
        next =>
          split
          next existing _ => exact (addUse_grown pool existing).toRecounted
          next =>
            rw [if_pos hLocked]
            exact .refl pool

theorem mergeFrom_recounted (table : Table) (indices : List UInt16) (hLocked : pool.locked) :
    Recounted pool (mergeFrom table indices map pool).2 := by
  induction indices generalizing map pool with
  | nil => exact .refl pool
  | cons index indices ih =>
    have hAdd : Recounted pool (pool.add table.source index.toNat).2 :=
      addWithin_recounted hLocked 3
    rw [mergeFrom]
    rcases hRun : pool.add table.source index.toNat with ⟨fault | target, middle⟩
    · rw [hRun] at hAdd
      exact hAdd
    · rw [hRun] at hAdd
      exact hAdd.trans (ih (hAdd.locked_eq.trans hLocked))

/-! ### Writing -/

namespace Recounted

theorem finalIndex_eq (h : Recounted before after) (ref : Ref) :
    after.finalIndex ref = before.finalIndex ref := by
  unfold finalIndex
  cases ref.resolved with
  | error fault => rfl
  | ok id =>
    have hEntry := h.uncounted_eq id
    cases hBefore : before.get? id <;> cases hAfter : after.get? id <;>
      simp_all [Entry.uncounted]

theorem write_eq (h : Recounted before after) : after.write = before.write := by
  have hRefs : after.finalIndex = before.finalIndex := funext h.finalIndex_eq
  unfold write chunks size order
  rw [h.slots_eq, hRefs]
  refine congrArg (fun chunks => Output.ofChunks (_ :: chunks)) ?_
  refine List.flatMap_congr fun id _ => ?_
  have hEntry := h.uncounted_eq id
  cases hBefore : before.get? id <;> cases hAfter : after.get? id <;> simp_all [Entry.uncounted]

end Recounted

/-! ### Staying locked -/

@[simp] theorem locked_place (pool : Pool) (id : EntryId) : (pool.place id).locked = pool.locked := by
  unfold place
  split <;> rfl

@[simp] theorem locked_foldl_place (pool : Pool) (ids : List EntryId) :
    (ids.foldl place pool).locked = pool.locked := by
  induction ids generalizing pool with
  | nil => rfl
  | cons id ids ih => rw [List.foldl_cons, ih, locked_place]

@[simp] theorem locked_relayout (pool : Pool) (ids : List EntryId) :
    (pool.relayout ids).locked = pool.locked := by
  unfold relayout
  rw [locked_foldl_place]

@[simp] theorem locked_compact (pool : Pool) : pool.compact.2.locked = pool.locked := by
  unfold compact
  split
  · rfl
  · exact locked_relayout _ _

end ClassRom.Pool
