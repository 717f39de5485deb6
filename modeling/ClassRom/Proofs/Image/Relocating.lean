import ClassRom.Proofs.Image.Loading
import ClassRom.Proofs.Relocation.Relocating

/-!
# Relocating classes

Freezing the pool of a sound image keeps every entry that a body of a loaded class holds. Relocation
then visits all bodies in order, up to the first one that cannot be relocated.
-/

namespace ClassRom

set_option autoImplicit false

/-! ### Freezing -/

theorem Settings.pruned_sorted (settings : Settings) {pool : Pool} (h : pool.Valid) :
    Pool.Pruned pool (if settings.sort then pool.lock.sortByLdcUse else pool.lock) := by
  have hLock := Pool.pruned_lock h
  split
  · exact hLock.trans (Pool.pruned_sortByLdcUse hLock.valid)
  · exact hLock

theorem Settings.pruned_freeze (settings : Settings) {pool : Pool} (h : pool.Valid) :
    Pool.Pruned pool (settings.freeze pool) := by
  have hSort := settings.pruned_sorted h
  unfold freeze
  dsimp only
  split
  · exact hSort.trans (Pool.pruned_compact hSort.valid)
  · exact hSort

namespace Pool.Pruned

variable {before after : Pool} {holders : List EntryId} {id : EntryId}

theorem toExtends (h : Pruned before after) : Extends before after :=
  ⟨h.id_eq, fun id constant hAt => by rw [h.constant?_eq]; exact hAt⟩

/-- Where all entries are live, each one with a use stays so. -/
theorem mem_order (h : Pruned before after) (hValid : before.Valid)
    (hLive : ∀ id entry, before.get? id = some entry → entry.index.isSome)
    (hUses : 0 < before.usesOf id) : id ∈ after.order := by
  obtain ⟨entry, hEntry⟩ := get?_of_usesOf_pos hUses
  exact (h.order_iff id hUses).mpr (hValid.mem_order_iff.mpr ⟨entry, hEntry, hLive id entry hEntry⟩)

end Pool.Pruned

/-! ### Bodies, methods and classes -/

/-- The body with its code and its side tables relocated. -/
structure Body.Relocates (pool : Pool) (map : HandleMap) (before after : Body) : Prop where
  rest_eq : after = { before with bytecode := after.bytecode, tables := after.tables }
  relocate_eq : relocate pool map before.bytecode before.tables =
    (.ok (), after.bytecode, after.tables)

structure LoadedClass.Relocates (pool : Pool) (before after : LoadedClass) : Prop where
  rest_eq : after = { before with file := after.file }
  file : before.file.Rewritten (Body.Relocates pool before.handles) after.file

/-- Relocating a body of the class failed. -/
def LoadedClass.Fails (pool : Pool) (loaded : LoadedClass) (fault : Fault) : Prop :=
  ∃ method ∈ loaded.file.methods, ∃ body, method.body = some body ∧
    ∃ rest, relocate pool loaded.handles body.bytecode body.tables = (.error fault, rest)

namespace Image

variable {pool : Pool} {map : HandleMap} {methods methods' : List Method}
  {classes classes' : List LoadedClass}

theorem relocateMethods_ok (h : relocateMethods pool map methods = (.ok (), methods')) :
    List.Forall₂ (Method.Rewritten (Body.Relocates pool map)) methods methods' := by
  induction methods generalizing methods' with
  | nil => cases h; exact .nil
  | cons method methods ih =>
    rcases hRest : relocateMethods pool map methods with ⟨result, rest⟩
    rw [relocateMethods, hRest] at h
    rcases hBody : method.body with _ | body
    · rw [hBody] at h
      cases h
      refine .cons ⟨rfl, ?_⟩ (ih hRest)
      rw [hBody]
      exact .none
    · rcases hRelocate : relocate pool map body.bytecode body.tables with
        ⟨fault | _, bytecode, tables⟩
      · simp only [hBody, hRelocate] at h
        cases h
      · simp only [hBody, hRelocate] at h
        cases h
        refine .cons ⟨rfl, ?_⟩ (ih hRest)
        rw [hBody]
        exact .some ⟨rfl, hRelocate⟩

theorem relocateMethods_error {fault : Fault}
    (h : relocateMethods pool map methods = (.error fault, methods')) :
    ∃ method ∈ methods, ∃ body, method.body = some body ∧
      ∃ rest, relocate pool map body.bytecode body.tables = (.error fault, rest) := by
  induction methods generalizing methods' with
  | nil => cases h
  | cons method methods ih =>
    rcases hRest : relocateMethods pool map methods with ⟨result, rest⟩
    have hLater (hFault : result = .error fault) :
        ∃ method' ∈ method :: methods, ∃ body, method'.body = some body ∧
          ∃ rest, relocate pool map body.bytecode body.tables = (.error fault, rest) := by
      subst hFault
      obtain ⟨method', hMethod, hFails⟩ := ih hRest
      exact ⟨method', List.mem_cons_of_mem method hMethod, hFails⟩
    rw [relocateMethods, hRest] at h
    rcases hBody : method.body with _ | body
    · rw [hBody] at h
      cases h
      exact hLater rfl
    · rcases hRelocate : relocate pool map body.bytecode body.tables with
        ⟨cause | _, bytecode, tables⟩
      · simp only [hBody, hRelocate] at h
        cases h
        exact ⟨method, List.mem_cons_self, body, hBody, _, hRelocate⟩
      · simp only [hBody, hRelocate] at h
        cases h
        exact hLater rfl

theorem relocateClasses_ok (h : relocateClasses pool classes = (.ok (), classes')) :
    List.Forall₂ (LoadedClass.Relocates pool) classes classes' := by
  induction classes generalizing classes' with
  | nil => cases h; exact .nil
  | cons loaded classes ih =>
    rcases hRest : relocateClasses pool classes with ⟨result, rest⟩
    rcases hMethods : relocateMethods pool loaded.handles loaded.file.methods with
      ⟨fault | _, methods⟩
    · simp only [relocateClasses, hMethods] at h
      cases h
    · simp only [relocateClasses, hMethods, hRest] at h
      cases h
      exact .cons ⟨rfl, rfl, relocateMethods_ok hMethods⟩ (ih hRest)

theorem relocateClasses_error {fault : ImageFault}
    (h : relocateClasses pool classes = (.error fault, classes')) :
    ∃ loaded ∈ classes, ∃ cause, fault = .inClass loaded.name cause ∧ loaded.Fails pool cause := by
  induction classes generalizing classes' with
  | nil => cases h
  | cons loaded classes ih =>
    rcases hRest : relocateClasses pool classes with ⟨result, rest⟩
    rcases hMethods : relocateMethods pool loaded.handles loaded.file.methods with
      ⟨cause | _, methods⟩
    · simp only [relocateClasses, hMethods] at h
      cases h
      exact ⟨loaded, List.mem_cons_self, cause, rfl, relocateMethods_error hMethods⟩
    · simp only [relocateClasses, hMethods, hRest] at h
      cases h
      obtain ⟨other, hOther, hFails⟩ := ih hRest
      exact ⟨other, List.mem_cons_of_mem loaded hOther, hFails⟩

/-! ### Finishing -/

variable {image final : Image}

theorem finish_ok (hStage : image.stage = .collecting) (h : image.finish = (.ok (), final)) :
    final.pool = image.settings.freeze image.pool ∧ final.stage = .finished ∧
      List.Forall₂ (LoadedClass.Relocates final.pool) image.classes final.classes := by
  unfold finish at h
  rw [hStage] at h
  dsimp only at h
  rcases hClasses : relocateClasses (image.settings.freeze image.pool) image.classes with
    ⟨fault | _, classes⟩
  · rw [hClasses] at h
    cases h
  · rw [hClasses] at h
    cases h
    exact ⟨rfl, rfl, relocateClasses_ok hClasses⟩

theorem finish_error {fault : ImageFault} (hStage : image.stage = .collecting)
    (h : image.finish = (.error fault, final)) :
    final.pool = image.settings.freeze image.pool ∧ final.stage = .failed ∧
      ∃ loaded ∈ image.classes, ∃ cause, fault = .inClass loaded.name cause ∧
        loaded.Fails final.pool cause := by
  unfold finish at h
  rw [hStage] at h
  dsimp only at h
  rcases hClasses : relocateClasses (image.settings.freeze image.pool) image.classes with
    ⟨cause | _, classes⟩
  · rw [hClasses] at h
    cases h
    exact ⟨rfl, rfl, relocateClasses_error hClasses⟩
  · rw [hClasses] at h
    cases h

/-- What is known of a loaded class when its bodies are relocated. -/
structure Ready (pool : Pool) (file : ClassFile) (loaded : LoadedClass) : Prop where
  name_eq : file.name = .ok loaded.name
  scan_eq : file.scan = .ok loaded.file
  faithful : loaded.handles.Faithful file.constants pool
  leads : ∀ use ∈ loaded.file.bodyUses, loaded.handles.Leads pool use.index

theorem Sound.ready {files : List ClassFile} (h : image.Sound files)
    (hCounters : image.pool.NoOverflow) :
    List.Forall₂ (Ready (image.settings.freeze image.pool)) files image.classes := by
  have hPruned := image.settings.pruned_freeze h.valid
  obtain ⟨holders, hAccounts, hClasses⟩ := h.ledger
  refine hClasses.imp fun file loaded hLoaded => ?_
  have hFaithful := hLoaded.faithful.mono hPruned.toExtends
  refine ⟨hLoaded.name_eq, hLoaded.scan_eq, hFaithful, fun use hUse => ?_⟩
  obtain ⟨handle, hHandle, hHeld⟩ := hLoaded.held use hUse
  exact ⟨handle, hHandle, (hFaithful use.index handle hHandle).1,
    hPruned.mem_order h.valid h.live (hAccounts.usesOf_pos_of_mem_holders hCounters hHeld)⟩

end Image

end ClassRom
