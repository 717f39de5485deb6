import ClassRom.Proofs.Image.Relocating

/-!
# Stages of an image

Finishing relocates all classes loaded so far, and no later call relocates any more. A class whose
constants are all in the pool can still be loaded then. So a finished image holds the classes loaded
before it was finished, relocated, followed by those loaded afterwards, scanned only.
-/

namespace ClassRom

set_option autoImplicit false

/-- No operand of the class holds an index into its own table any more. -/
def LoadedClass.IsRelocated (loaded : LoadedClass) : Prop :=
  loaded.AllCode fun unit => unit.progress = .relocated

instance (loaded : LoadedClass) : Decidable loaded.IsRelocated :=
  inferInstanceAs (Decidable (∀ method ∈ loaded.file.methods, ∀ body ∈ method.body,
    body.bytecode.progress = .relocated))

theorem LoadedClass.isRelocated_of_relocates {pool : Pool} {loaded after : LoadedClass}
    (hScanned : loaded.AllCode Bytecode.Scanned) (h : loaded.Relocates pool after) :
    after.IsRelocated := by
  intro method hMethod body hBody
  obtain ⟨original, hOriginal, before, hBefore, hRelocates⟩ := h.file.exists_before hMethod hBody
  exact (Relocation.relocate_ok (R := fun _ _ => True) (hScanned original hOriginal before hBefore)
    (fun _ _ _ _ => trivial) hRelocates.relocate_eq).2.1

/-- A class without bodies needs no relocation, and one with a body gets it only by finishing. -/
theorem LoadedClass.isRelocated_iff_of_scan {file : ClassFile} {loaded : LoadedClass}
    (h : file.scan = .ok loaded.file) :
    loaded.IsRelocated ↔ ∀ method ∈ file.methods, method.body = none := by
  have hRewritten := ClassFile.scan_rewritten h
  constructor
  · intro hRelocated method hMethod
    cases hBody : method.body with
    | none => rfl
    | some body =>
      obtain ⟨method', hMethod', body', hBody', _⟩ := hRewritten.exists_after hMethod hBody
      have hProgress : body'.bytecode.progress = .relocated :=
        hRelocated method' hMethod' body' hBody'
      rw [(allCode_scanned h method' hMethod' body' hBody').progress_eq] at hProgress
      cases hProgress
  · intro hNone method hMethod body hBody
    obtain ⟨original, hOriginal, before, hBefore, _⟩ := hRewritten.exists_before hMethod hBody
    rw [hNone original hOriginal] at hBefore
    cases hBefore

namespace Image

inductive Call where
  | addClass (file : ClassFile)
  | finish
  | writePool

variable {image : Image} {files : List ClassFile}

/-- The image after a call, whatever the call returned. -/
def step (image : Image) : Call → Image
  | .addClass file => (image.addClass file).2
  | .finish => image.finish.2
  | .writePool => image

def run (image : Image) (calls : List Call) : Image := calls.foldl step image

/-- The file that a call loads into an image that is finished already, if it does. -/
def loadsLate (image : Image) : Call → List ClassFile
  | .addClass file =>
    match image.stage, (image.addClass file).1 with
    | .finished, .ok _ => [file]
    | _, _ => []
  | .finish => []
  | .writePool => []

/-- The files that calls load after the image was finished. -/
def late (image : Image) : List Call → List ClassFile
  | [] => []
  | call :: rest => image.loadsLate call ++ (image.step call).late rest

/-- The loaded classes at each stage, where the given files were loaded after finishing. -/
def Staged (image : Image) (files : List ClassFile) : Prop :=
  match image.stage with
  | .collecting => files = [] ∧ ∀ loaded ∈ image.classes, loaded.AllCode Bytecode.Scanned
  | .finished => ∃ early added, image.classes = early ++ added ∧
      (∀ loaded ∈ early, loaded.IsRelocated) ∧
      List.Forall₂ (fun file loaded => file.scan = .ok loaded.file) files added
  | .failed => True

theorem Staged.addClass (h : image.Staged files) (file : ClassFile) :
    (image.addClass file).2.Staged (files ++ image.loadsLate (.addClass file)) := by
  rcases addClass_cases image file with ⟨loaded, pool, hLoads, hAdd⟩ | ⟨fault, pool, _, hAdd⟩
  · obtain ⟨_, _, hScan, _⟩ := hLoads
    unfold Staged at h ⊢
    rw [loadsLate, hAdd]
    dsimp only
    cases hStage : image.stage with
    | collecting =>
      rw [hStage] at h
      refine ⟨by simp [h.1], fun other hOther => ?_⟩
      rcases List.mem_append.mp hOther with hOld | hNew
      · exact h.2 other hOld
      · rw [List.mem_singleton.mp hNew]
        exact LoadedClass.allCode_scanned hScan
    | finished =>
      rw [hStage] at h
      obtain ⟨early, added, hClasses, hEarly, hAdded⟩ := h
      refine ⟨early, added ++ [loaded], by rw [hClasses, List.append_assoc], hEarly, ?_⟩
      exact List.rel_append hAdded (.cons hScan .nil)
    | failed => trivial
  · have hNone : image.loadsLate (.addClass file) = [] := by
      rw [loadsLate, hAdd]
      cases image.stage <;> rfl
    rw [hNone, List.append_nil, hAdd]
    exact h

theorem Staged.finish (h : image.Staged files) : image.finish.2.Staged files := by
  cases hStage : image.stage with
  | collecting =>
    unfold Staged at h
    rw [hStage] at h
    obtain ⟨rfl, hScanned⟩ := h
    rcases hFinish : image.finish with ⟨fault | _, final⟩
    · obtain ⟨_, hFailed, _⟩ := finish_error hStage hFinish
      unfold Staged
      rw [hFailed]
      trivial
    · obtain ⟨_, hFinished, hClasses⟩ := finish_ok hStage hFinish
      unfold Staged
      rw [hFinished]
      refine ⟨final.classes, [], (List.append_nil _).symm, fun loaded hLoaded => ?_, .nil⟩
      obtain ⟨before, hBefore, hRelocates⟩ := Traversal.exists_left_of_mem hClasses hLoaded
      exact LoadedClass.isRelocated_of_relocates (hScanned before hBefore) hRelocates
  | finished =>
    unfold Image.finish
    rw [hStage]
    exact h
  | failed =>
    unfold Image.finish
    rw [hStage]
    exact h

theorem Staged.step (h : image.Staged files) (call : Call) :
    (image.step call).Staged (files ++ image.loadsLate call) := by
  cases call with
  | addClass file => exact h.addClass file
  | finish =>
    rw [loadsLate, List.append_nil]
    exact h.finish
  | writePool =>
    rw [loadsLate, List.append_nil]
    exact h

theorem Staged.run {calls : List Call} (h : image.Staged files) :
    (image.run calls).Staged (files ++ image.late calls) := by
  unfold Image.run
  induction calls generalizing image files with
  | nil => simpa [Image.late] using h
  | cons call calls ih =>
    rw [List.foldl_cons, Image.late, ← List.append_assoc]
    exact ih (h.step call)

theorem staged_empty (settings : Settings) : (empty settings).Staged [] :=
  ⟨rfl, fun _ hLoaded => by cases hLoaded⟩

/-- In a finished image the classes loaded before it was finished are relocated and the later ones
are as their scan left them, so all are relocated just if no later one has a body. -/
theorem finished_relocated_iff (settings : Settings) (calls : List Call)
    (hStage : ((empty settings).run calls).stage = .finished) :
    (∃ early added, ((empty settings).run calls).classes = early ++ added ∧
      (∀ loaded ∈ early, loaded.IsRelocated) ∧
      List.Forall₂ (fun file loaded => file.scan = .ok loaded.file) ((empty settings).late calls)
        added) ∧
    ((∀ loaded ∈ ((empty settings).run calls).classes, loaded.IsRelocated) ↔
      ∀ file ∈ (empty settings).late calls, ∀ method ∈ file.methods, method.body = none) := by
  have hStaged : ((empty settings).run calls).Staged ((empty settings).late calls) :=
    (staged_empty settings).run
  unfold Staged at hStaged
  rw [hStage] at hStaged
  refine ⟨hStaged, ?_⟩
  obtain ⟨early, added, hClasses, hEarly, hAdded⟩ := hStaged
  rw [hClasses]
  constructor
  · intro hAll file hFile
    obtain ⟨loaded, hLoaded, hScan⟩ := Traversal.exists_right_of_mem hAdded hFile
    exact (LoadedClass.isRelocated_iff_of_scan hScan).mp
      (hAll loaded (List.mem_append_right early hLoaded))
  · intro hNone loaded hLoaded
    rcases List.mem_append.mp hLoaded with hOld | hNew
    · exact hEarly loaded hOld
    · obtain ⟨file, hFile, hScan⟩ := Traversal.exists_left_of_mem hAdded hNew
      exact (LoadedClass.isRelocated_iff_of_scan hScan).mpr (hNone file hFile)

theorem finished_relocated_iff_demo :
    ((empty ⟨"", "", true, false⟩).run [.addClass .demo, .finish, .addClass .demo]).stage =
        .finished ∧
      (empty ⟨"", "", true, false⟩).late [.addClass .demo, .finish, .addClass .demo] = [.demo] ∧
      (∃ early added,
        ((empty ⟨"", "", true, false⟩).run [.addClass .demo, .finish, .addClass .demo]).classes =
          early ++ added ∧
        (∀ loaded ∈ early, loaded.IsRelocated) ∧
        List.Forall₂ (fun file loaded => file.scan = .ok loaded.file)
          ((empty ⟨"", "", true, false⟩).late [.addClass .demo, .finish, .addClass .demo]) added) ∧
      ((∀ loaded ∈
          ((empty ⟨"", "", true, false⟩).run [.addClass .demo, .finish, .addClass .demo]).classes,
          loaded.IsRelocated) ↔
        ∀ file ∈ (empty ⟨"", "", true, false⟩).late [.addClass .demo, .finish, .addClass .demo],
          ∀ method ∈ file.methods, method.body = none) :=
  ⟨by decide +kernel, by decide +kernel, finished_relocated_iff _ _ (by decide +kernel)⟩

/-- Being finished does not mean that all classes are relocated: the second copy of the class still
loads its string by the index 6 of its own table, not by the index 1 of the pool. -/
theorem finished_holds_unrelocated_code :
    ((empty ⟨"", "", true, false⟩).run [.addClass .demo, .finish, .addClass .demo]).stage =
        .finished ∧
      (((empty ⟨"", "", true, false⟩).run [.addClass .demo, .finish, .addClass .demo]).classes.map
        fun loaded => loaded.file.methods.map fun method => method.body.map fun body =>
          body.bytecode.code[1]?) = [[some (some 1)], [some (some 6)]] ∧
      ¬∀ loaded ∈
        ((empty ⟨"", "", true, false⟩).run [.addClass .demo, .finish, .addClass .demo]).classes,
        loaded.IsRelocated := by
  decide +kernel

end Image

end ClassRom
