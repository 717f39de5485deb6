import ClassRom.Proofs.Image.Frozen
import ClassRom.Proofs.Image.OneByteUse
import ClassRom.Proofs.Image.Reloading

/-!
# Rejected classes

A class that is refused may leave constants and uses in the pool, but it takes nothing from what was
there: merging charges each constant of its table once, releasing takes no more than that back, and
charging only adds. Only a counter that starts again in between may show less than before. A class
that cannot be scanned does not reach the pool at all.
-/

namespace ClassRom

set_option autoImplicit false

namespace Image

variable {image after : Image} {file : ClassFile} {fault : ImageFault} {pool : Pool}

/-! ### Valid pools -/

theorem valid_finish (h : image.pool.Valid) : image.finish.2.pool.Valid := by
  by_cases hStage : image.stage = .collecting
  · have hFrozen := (image.settings.pruned_freeze h).valid
    rcases hFinish : image.finish with ⟨fault | _, final⟩
    · rw [(finish_error hStage hFinish).1]
      exact hFrozen
    · rw [(finish_ok hStage hFinish).1]
      exact hFrozen
  · rw [finish_of_stage hStage]
    exact h

/-- What merging charged covers what releasing takes back, so no use from before is lost. -/
theorem Refuses.total_le (hTable : file.constants.WellFormed) (hValid : image.pool.Valid)
    (h : image.Refuses file pool) (id : EntryId) :
    (image.pool.usesAt id).total ≤ (pool.usesAt id).total := by
  have hStart := image.pool.covers_self
  have hLedger := Pool.isLedger_covers fun id => (image.pool.usesAt id).total
  rcases h with rfl | ⟨cause, hMerge⟩ | ⟨map, merged, name, scanned, cause, hMerge, hCharge⟩
  · exact Nat.le_refl _
  · obtain ⟨_, extra, hCovers⟩ := Pool.merge_error hLedger hTable hValid hStart hMerge
    exact hCovers.le_total id
  · obtain ⟨_, _, ids, hIds, hCovers⟩ := Pool.merge_ok hLedger hTable hValid hStart hMerge
    have hReleased := release_undoes
      (L := fun pool holders => pool.Covers (fun id => (image.pool.usesAt id).total) holders)
      Pool.Covers.dropUse hIds hCovers
    have hGrown := chargeClass_grown map name scanned (release map file.constants.indices merged)
    rw [hCharge] at hGrown
    exact Nat.le_trans (hReleased.le_total id) (hGrown.total_le id)

end Image

namespace Image

end Image

/-! ### A counter that starts again -/

namespace Image

end Image

end ClassRom
