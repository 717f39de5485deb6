import ClassRom.Proofs.Image.Stages
import ClassRom.Proofs.Pool.Locked

/-!
# Finished images are frozen

Finishing locks the pool. From then on no call changes the stage of the image, anything in its pool
but counters, or any class it holds. Classes may still be loaded behind these.
-/

namespace ClassRom

set_option autoImplicit false

@[simp] theorem Settings.locked_freeze (settings : Settings) (pool : Pool) :
    (settings.freeze pool).locked := by
  have hSort : (if settings.sort then pool.lock.sortByLdcUse else pool.lock).locked := by
    split
    · exact Pool.locked_relayout _ _
    · rfl
  unfold freeze
  dsimp only
  split
  · rw [Pool.locked_compact]
    exact hSort
  · exact hSort

/-! ### Calls -/

namespace Image

variable {image middle after : Image}

/-- The later image has the stage of the earlier one, a pool that differs in counters only, and the
classes of the earlier one before all others. -/
structure Frozen (image after : Image) : Prop where
  stage_eq : after.stage = image.stage
  pool : Pool.Recounted image.pool after.pool
  classes : image.classes <+: after.classes

theorem Frozen.refl (image : Image) : Frozen image image :=
  ⟨rfl, .refl image.pool, List.prefix_refl image.classes⟩

theorem Frozen.trans (h : Frozen image middle) (h' : Frozen middle after) : Frozen image after :=
  ⟨h'.stage_eq.trans h.stage_eq, h.pool.trans h'.pool, h.classes.trans h'.classes⟩

theorem addClass_frozen (hLocked : image.pool.locked) (file : ClassFile) :
    Frozen image (image.addClass file).2 := by
  have hMerge : Pool.Recounted image.pool (image.pool.merge file.constants).2 :=
    Pool.mergeFrom_recounted _ _ hLocked
  rcases addClass_cases image file with ⟨loaded, pool, hLoads, hAdd⟩ | ⟨fault, pool, hRefuses, hAdd⟩
  · obtain ⟨merged, _, hScan, hOk, hCharge⟩ := hLoads
    rw [hOk] at hMerge
    have hPool := hMerge.trans <|
      (release_recounted loaded.handles file.constants.indices merged).trans
      (chargeClass_grown loaded.handles loaded.name loaded.file _).toRecounted
    rw [hCharge] at hPool
    rw [hAdd]
    exact ⟨rfl, hPool, List.prefix_append _ _⟩
  · rw [hAdd]
    refine ⟨rfl, ?_, List.prefix_refl _⟩
    rcases hRefuses with rfl | ⟨cause, hError⟩ | ⟨map, merged, name, scanned, cause, hOk, hCharge⟩
    · exact .refl _
    · rw [hError] at hMerge
      exact hMerge
    · rw [hOk] at hMerge
      have hPool := hMerge.trans ((release_recounted map file.constants.indices merged).trans
        (chargeClass_grown map name scanned _).toRecounted)
      rw [hCharge] at hPool
      exact hPool

theorem finish_of_stage (hStage : image.stage ≠ .collecting) : image.finish.2 = image := by
  unfold finish
  cases hCase : image.stage with
  | collecting => exact absurd hCase hStage
  | finished => rfl
  | failed => rfl

/-- The pool is locked once an attempt was made to finish the image. -/
def Sealed (image : Image) : Prop := image.stage ≠ .collecting → image.pool.locked

theorem step_frozen (hSealed : image.Sealed) (hStage : image.stage ≠ .collecting) (call : Call) :
    Frozen image (image.step call) := by
  cases call with
  | addClass file => exact addClass_frozen (hSealed hStage) file
  | finish =>
    rw [step, finish_of_stage hStage]
    exact .refl image
  | writePool => exact .refl image

theorem stage_finish (image : Image) : image.finish.2.stage ≠ .collecting := by
  cases hStage : image.stage with
  | collecting =>
    rcases hFinish : image.finish with ⟨fault | _, final⟩
    · simp [(finish_error hStage hFinish).2.1]
    · simp [(finish_ok hStage hFinish).2.1]
  | finished | failed =>
    rw [finish_of_stage (by simp [hStage]), hStage]
    simp

theorem Sealed.step (h : image.Sealed) (call : Call) : (image.step call).Sealed := by
  by_cases hStage : image.stage = .collecting
  · cases call with
    | addClass file =>
      intro hLater
      rcases addClass_cases image file with ⟨_, _, _, hAdd⟩ | ⟨_, _, _, hAdd⟩
      · rw [Image.step, hAdd] at hLater
        exact absurd hStage hLater
      · rw [Image.step, hAdd] at hLater
        exact absurd hStage hLater
    | finish =>
      intro _
      rcases hFinish : image.finish with ⟨fault | _, final⟩
      · rw [Image.step, hFinish, (finish_error hStage hFinish).1]
        exact Settings.locked_freeze _ _
      · rw [Image.step, hFinish, (finish_ok hStage hFinish).1]
        exact Settings.locked_freeze _ _
    | writePool => exact h
  · intro _
    rw [(step_frozen h hStage call).pool.locked_eq]
    exact h hStage

theorem Sealed.run (h : image.Sealed) (calls : List Call) : (image.run calls).Sealed := by
  unfold Image.run
  induction calls generalizing image with
  | nil => exact h
  | cons call calls ih => exact ih (h.step call)

theorem run_frozen (hSealed : image.Sealed) (hStage : image.stage ≠ .collecting)
    (calls : List Call) : Frozen image (image.run calls) := by
  unfold run
  induction calls generalizing image with
  | nil => exact .refl image
  | cons call calls ih =>
    have hStep := step_frozen hSealed hStage call
    exact hStep.trans (ih (hSealed.step call) (by rw [hStep.stage_eq]; exact hStage))

/-- The image is what some calls made of an empty one, one of them an attempt to finish it. -/
def HasFinished (image : Image) : Prop :=
  ∃ settings calls, .finish ∈ calls ∧ image = (empty settings).run calls

theorem HasFinished.sealed (h : image.HasFinished) :
    image.Sealed ∧ image.stage ≠ .collecting := by
  obtain ⟨settings, calls, hFinish, rfl⟩ := h
  have hEmpty : (empty settings).Sealed := fun hStage => absurd rfl hStage
  refine ⟨hEmpty.run calls, ?_⟩
  obtain ⟨earlier, later, rfl⟩ := List.append_of_mem hFinish
  have hStage := stage_finish ((empty settings).run earlier)
  have hFrozen := run_frozen ((hEmpty.run earlier).step .finish) hStage later
  have hRun : (empty settings).run (earlier ++ .finish :: later) =
      (((empty settings).run earlier).step .finish).run later := by
    unfold run
    rw [List.foldl_append, List.foldl_cons]
  rw [hRun, hFrozen.stage_eq]
  exact hStage

/-- What later calls find of an image after an attempt to finish it: it is frozen, a finished pool is
always written the same way, and after a failure every attempt to finish or to write fails. -/
theorem hasFinished_frozen (image : Image) (hFinished : image.HasFinished) (later : List Call) :
    Frozen image (image.run later) ∧
      ((image.stage = .finished ∧ (image.run later).finish = (.ok (), image.run later) ∧
          (image.run later).writePool = image.writePool) ∨
        (image.stage = .failed ∧
          (image.run later).finish =
            (.error (.plain (.consistency (.poolNotFinished image.pool.id))), image.run later) ∧
          (image.run later).writePool =
            ⟨[], some (.plain (.consistency (.poolNotFinished image.pool.id)))⟩)) := by
  obtain ⟨hSealed, hStage⟩ := hFinished.sealed
  have hFrozen := run_frozen hSealed hStage later
  refine ⟨hFrozen, ?_⟩
  cases hCase : image.stage with
  | collecting => exact absurd hCase hStage
  | finished =>
    have hLater := hFrozen.stage_eq.trans hCase
    refine .inl ⟨rfl, ?_, ?_⟩
    · unfold finish
      rw [hLater]
    · unfold writePool
      rw [if_pos hLater, if_pos hCase, hFrozen.pool.write_eq]
  | failed =>
    have hLater := hFrozen.stage_eq.trans hCase
    have hFault : (image.run later).notFinished =
        .plain (.consistency (.poolNotFinished image.pool.id)) := by
      unfold notFinished
      rw [hFrozen.pool.id_eq]
    refine .inr ⟨rfl, ?_, ?_⟩
    · unfold finish
      rw [hLater, hFault]
    · unfold writePool
      rw [if_neg (by simp [hLater]), hFault]

/-- The image that was finished with the example class in it. -/
def finishedDemo : Image := (empty ⟨"", "", true, false⟩).run [.addClass .demo, .finish]

theorem finishedDemo_hasFinished : finishedDemo.HasFinished := ⟨_, _, by simp, rfl⟩

/-- Another copy of the class is loaded and counted, and nothing else changes. -/
theorem hasFinished_frozen_demo :
    finishedDemo.HasFinished ∧ finishedDemo.stage = .finished ∧
      (finishedDemo.run [.addClass .demo, .finish]).classes.length = 2 ∧
      (finishedDemo.pool.get? 5).map (·.uses.value) = some 1 ∧
      ((finishedDemo.run [.addClass .demo, .finish]).pool.get? 5).map (·.uses.value) = some 2 ∧
      Frozen finishedDemo (finishedDemo.run [.addClass .demo, .finish]) ∧
      ((finishedDemo.stage = .finished ∧
          (finishedDemo.run [.addClass .demo, .finish]).finish =
            (.ok (), finishedDemo.run [.addClass .demo, .finish]) ∧
          (finishedDemo.run [.addClass .demo, .finish]).writePool = finishedDemo.writePool) ∨
        (finishedDemo.stage = .failed ∧
          (finishedDemo.run [.addClass .demo, .finish]).finish =
            (.error (.plain (.consistency (.poolNotFinished finishedDemo.pool.id))),
              finishedDemo.run [.addClass .demo, .finish]) ∧
          (finishedDemo.run [.addClass .demo, .finish]).writePool =
            ⟨[], some (.plain (.consistency (.poolNotFinished finishedDemo.pool.id)))⟩)) :=
  ⟨finishedDemo_hasFinished, by decide +kernel, by decide +kernel, by decide +kernel,
    by decide +kernel, hasFinished_frozen finishedDemo finishedDemo_hasFinished _⟩

end Image

end ClassRom
