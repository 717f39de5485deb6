import ClassRom.Proofs.Image.Leftovers
import ClassRom.Proofs.Pool.Room

/-!
# Collected classes

A class is refused for its own sake or for want of room, and the room that is needed depends on the
constants of all classes only. Once they are loaded, the pool holds these constants and no others, and
what it counts for each depends on its key and on what the classes mention.
-/

namespace ClassRom

set_option autoImplicit false

/-! ### What classes mention, by key -/

/-- The key of the constant at an index. -/
def Table.key? (table : Table) (index : UInt16) : Option Key :=
  (table.get? index).bind fun constant => (table.source.keyOf constant).toOption

noncomputable def ClassFile.mentionedKeys (file : ClassFile) : List Key :=
  file.mentions.filterMap file.constants.key?

/-- The keys that one-byte operands mention. -/
noncomputable def ClassFile.ldcKeys (file : ClassFile) : List Key :=
  file.oneByteOperands.filterMap file.constants.key?

theorem HandleMap.Faithful.forall₂_entriesOf {map : HandleMap} {table : Table} {pool : Pool}
    {indices : List UInt16} (h : map.Faithful table pool) (hValid : pool.Valid)
    (hLive : ∀ id entry, pool.get? id = some entry → entry.index.isSome)
    (hMapped : ∀ index ∈ indices, (map.get? index).isSome) :
    List.Forall₂ (fun id key => pool.find? key = some id) (map.entriesOf indices)
      (indices.filterMap table.key?) := by
  induction indices with
  | nil => exact .nil
  | cons index indices ih =>
    obtain ⟨handle, hHandle⟩ := Option.isSome_iff_exists.mp (hMapped index List.mem_cons_self)
    obtain ⟨_, constant, other, key, hConstant, hKey, hOther, hKeyOther⟩ := h index handle hHandle
    have hAt : table.get? index = some constant := hConstant
    have hKey? : table.key? index = some key := by
      unfold Table.key?
      rw [hAt, Option.bind_some, Source.keyOf_of_hasKey hKey]
      rfl
    rw [HandleMap.entriesOf_cons hHandle, List.filterMap_cons_some hKey?]
    exact .cons (hValid.find?_of_hasKey hLive hOther hKeyOther)
      (ih fun other hOther => hMapped other (List.mem_cons_of_mem index hOther))

/-- Nothing about the class itself keeps it from being loaded: it can be scanned, and all constants
that it mentions are there. -/
def ClassFile.Loadable (file : ClassFile) : Prop :=
  ∃ name scanned indices, file.name = .ok name ∧ file.scan = .ok scanned ∧
    scanned.declared = .ok indices ∧ ∀ use ∈ scanned.uses, use.index ∈ file.constants.indices

namespace Pool

theorem charge_isOk {pool : Pool} {map : HandleMap} {uses : List Use} (method : String)
    (h : ∀ use ∈ uses, (map.get? use.index).isSome) :
    ∃ after, pool.charge map method uses = (.ok (), after) := by
  induction uses generalizing pool with
  | nil => exact ⟨pool, rfl⟩
  | cons use uses ih =>
    obtain ⟨handle, hHandle⟩ := Option.isSome_iff_exists.mp (h use List.mem_cons_self)
    have hLookup : map.lookup method use.offset use.index = .ok handle :=
      HandleMap.lookup_eq_ok.mpr hHandle
    rw [charge, hLookup]
    exact ih fun other hOther => h other (List.mem_cons_of_mem use hOther)

theorem proceed_isOk {first : Except Fault Unit × Pool} {next : Pool → Except Fault Unit × Pool}
    (hFirst : ∃ middle, first = (.ok (), middle))
    (hNext : ∀ middle, ∃ after, next middle = (.ok (), after)) :
    ∃ after, proceed first next = (.ok (), after) := by
  obtain ⟨middle, rfl⟩ := hFirst
  exact hNext middle

end Pool

namespace Image

variable {image image' : Image} {file : ClassFile} {files more : List ClassFile}
  {loaded : LoadedClass} {pool : Pool} {map : HandleMap} {bound : List Key}

theorem chargeMethods_isOk {methods : List Method}
    (hScanned : ∀ method ∈ methods, ∀ body ∈ method.body, body.bytecode.Scanned)
    (h : ∀ use ∈ methods.flatMap Method.uses, (map.get? use.index).isSome) :
    ∃ after, chargeMethods map methods pool = (.ok (), after) := by
  induction methods generalizing pool with
  | nil => exact ⟨pool, rfl⟩
  | cons method methods ih =>
    rw [List.flatMap_cons, List.forall_mem_append] at h
    have hRest (pool : Pool) : ∃ after, chargeMethods map methods pool = (.ok (), after) :=
      ih (fun other hOther => hScanned other (List.mem_cons_of_mem method hOther)) h.2
    rw [chargeMethods]
    cases hBody : method.body with
    | none => exact hRest pool
    | some body =>
      have hCode := hScanned method List.mem_cons_self body hBody
      rw [Method.uses, hBody, Option.elim_some, List.forall_mem_append] at h
      obtain ⟨⟨hOperands, hTables⟩, _⟩ := h
      refine Pool.proceed_isOk ?_ fun coded => Pool.proceed_isOk ?_ hRest
      · unfold Bytecode.charge
        rw [if_pos hCode.progress_eq]
        exact Pool.charge_isOk _ hOperands
      · exact Pool.charge_isOk _ hTables

theorem chargeClass_isOk {indices : List UInt16} (name : String)
    (hDeclared : file.declared = .ok indices)
    (hScanned : ∀ method ∈ file.methods, ∀ body ∈ method.body, body.bytecode.Scanned)
    (h : ∀ use ∈ file.uses, (map.get? use.index).isSome) :
    ∃ after, chargeClass map name file pool = (.ok (), after) := by
  rw [ClassFile.uses, List.forall_mem_append] at h
  unfold chargeClass
  rw [hDeclared, ClassFile.declared_ok hDeclared]
  exact Pool.proceed_isOk (Pool.charge_isOk name h.1) fun _ => chargeMethods_isOk hScanned h.2

theorem Loads.loadable (hTable : file.constants.WellFormed) (hValid : image.pool.Valid)
    (h : image.Loads file loaded pool) : file.Loadable := by
  obtain ⟨merged, hName, hScan, hMerge, hCharge⟩ := h
  have hMapped := (chargeClass_ok hCharge).mapped
  cases hDeclared : loaded.file.declared with
  | error fault =>
    unfold chargeClass at hCharge
    rw [hDeclared] at hCharge
    cases hCharge
  | ok indices =>
    exact ⟨loaded.name, loaded.file, indices, hName, hScan, hDeclared, fun use hUse =>
      (Pool.merge_isSome_iff hTable hValid hMerge use.index).mp (hMapped use hUse)⟩

/-- A class that is loadable is refused for want of room only. -/
theorem addClass_isOk {merged : Pool} (hFile : file.Loadable) (hTable : file.constants.WellFormed)
    (hValid : image.pool.Valid) (hMerge : image.pool.merge file.constants = (.ok map, merged)) :
    ∃ image', image.addClass file = (.ok (), image') := by
  obtain ⟨name, scanned, indices, hName, hScan, hDeclared, hUses⟩ := hFile
  have hConstants : scanned.constants = file.constants := by
    rw [(ClassFile.scan_rewritten hScan).rest_eq]
  have hScanned : (⟨name, scanned, map⟩ : LoadedClass).AllCode Bytecode.Scanned :=
    LoadedClass.allCode_scanned hScan
  obtain ⟨after, hCharge⟩ : ∃ after, chargeClass map name scanned
      (release map file.constants.indices merged) = (.ok (), after) :=
    chargeClass_isOk name hDeclared hScanned fun use hUse =>
      (Pool.merge_isSome_iff hTable hValid hMerge use.index).mpr (hUses use hUse)
  unfold addClass
  simp only [hName, hScan, hConstants, hMerge, hCharge]
  exact ⟨_, rfl⟩

/-! ### Loading all of them -/

theorem Loads.mem_keys (hTable : file.constants.WellFormed) (hValid : image.pool.Valid)
    (h : image.Loads file loaded pool) {key : Key} :
    key ∈ pool.keys ↔ key ∈ image.pool.keys ∨ key ∈ file.constants.keys := by
  obtain ⟨merged, _, _, hMerge, hCharge⟩ := h
  have hPool := (release_recounted loaded.handles file.constants.indices merged).trans
    (chargeClass_grown loaded.handles loaded.name loaded.file _).toRecounted
  rw [hCharge] at hPool
  rw [← Pool.mem_keys_merge hTable hValid hMerge, Pool.keys, hPool.lookup_eq]
  rfl

/-- The files were loaded into an open pool, which holds their constants and no others. -/
structure Collects (image : Image) (files : List ClassFile) : Prop where
  exact : image.Exact files
  unlocked : image.pool.locked = false
  mem_keys : ∀ key, key ∈ image.pool.keys ↔ ∃ file ∈ files, key ∈ file.constants.keys
  loadable : ∀ file ∈ files, file.Loadable

theorem collects_empty (settings : Settings) : (empty settings).Collects [] where
  exact := exact_empty settings
  unlocked := rfl
  mem_keys key := by
    rw [Pool.mem_keys]
    simp [empty, Pool.empty, Pool.find?]
  loadable _ hFile := by cases hFile

theorem Collects.addClass_ok (h : image.Collects files) (hRead : file.IsRead)
    (hAdd : image.addClass file = (.ok (), image')) : image'.Collects (files ++ [file]) := by
  have hExact := h.exact.addClass_ok hRead hAdd
  have hValid := h.exact.sound.valid
  rcases addClass_cases image file with ⟨loaded, pool, hLoads, hAdded⟩ | ⟨fault, pool, _, hAdded⟩
  · rw [hAdded] at hAdd
    cases hAdd
    obtain ⟨hSteady, _⟩ := hLoads.charged hRead.wellFormed hValid h.exact.balanced.accounts
    refine ⟨hExact, hSteady.locked_eq.trans h.unlocked, fun key => ?_, ?_⟩
    · rw [hLoads.mem_keys hRead.wellFormed hValid, h.mem_keys]
      simp only [List.mem_append, List.mem_singleton, or_and_right, exists_or, exists_eq_left]
    · intro other hOther
      rcases List.mem_append.mp hOther with hOld | hNew
      · exact h.loadable other hOld
      · rw [List.mem_singleton.mp hNew]
        exact hLoads.loadable hRead.wellFormed hValid
  · rw [hAdded] at hAdd
    cases hAdd

theorem Collects.loadAll (h : image.Collects files) (hRead : ∀ file ∈ more, file.IsRead)
    (hLoad : image.loadAll more = .ok image') : image'.Collects (files ++ more) :=
  loadAll_induction Collects.addClass_ok h hRead hLoad

/-- Classes that are loadable can all be loaded if the keys of all their constants fit into a pool. -/
theorem Collects.loadAll_isOk (h : image.Collects files) (hRead : ∀ file ∈ more, file.IsRead)
    (hLoadable : ∀ file ∈ more, file.Loadable) (hFits : Pool.Fits bound)
    (hKeys : ∀ file ∈ files ++ more, file.constants.keys ⊆ bound) :
    ∃ image', image.loadAll more = .ok image' := by
  induction more generalizing image files with
  | nil => exact ⟨image, rfl⟩
  | cons file more ih =>
    have hTable := (hRead file List.mem_cons_self).wellFormed
    have hRoom : Pool.Room bound image.pool := by
      refine ⟨h.exact.sound.valid, h.unlocked, ?_⟩
      intro key hKey
      obtain ⟨other, hOther, hKey'⟩ := (h.mem_keys key).mp hKey
      exact hKeys other (List.mem_append_left _ hOther) hKey'
    obtain ⟨map, merged, hMerge⟩ := Pool.merge_isOk
      (hKeys file (List.mem_append_right _ List.mem_cons_self)) hFits hRoom hTable
    obtain ⟨middle, hAdd⟩ := addClass_isOk (hLoadable file List.mem_cons_self) hTable
      h.exact.sound.valid hMerge
    rw [Image.loadAll, hAdd]
    refine ih (h.addClass_ok (hRead file List.mem_cons_self) hAdd)
      (fun other hOther => hRead other (List.mem_cons_of_mem file hOther))
      (fun other hOther => hLoadable other (List.mem_cons_of_mem file hOther)) ?_
    rwa [List.append_assoc, List.singleton_append]

/-! ### Counting by key -/

theorem Collects.forall₂_held (h : image.Collects files) :
    List.Forall₂ (fun loaded file =>
      List.Forall₂ (fun id key => image.pool.find? key = some id) loaded.held file.mentionedKeys ∧
      List.Forall₂ (fun id key => image.pool.find? key = some id) loaded.heldByLdc file.ldcKeys)
      image.classes files := by
  have hSound := h.exact.sound
  obtain ⟨holders, _, hClasses⟩ := hSound.ledger
  have hMapped := (List.forall₂_and_left _ _).mpr ⟨h.exact.mapped, hClasses.flip⟩
  refine hMapped.imp ?_
  rintro loaded file ⟨hMapped, hLoaded⟩
  obtain ⟨hMentions, hOneByte⟩ := ClassFile.mentions_of_scan hLoaded.scan_eq
  have hLdc : ∀ index ∈ loaded.file.oneByteOperands, (loaded.handles.get? index).isSome :=
    fun index hIndex => hMapped index (loaded.file.oneByteOperands_sublist.subset hIndex)
  have hAll := hLoaded.faithful.forall₂_entriesOf hSound.valid hSound.live hMapped
  have hFew := hLoaded.faithful.forall₂_entriesOf hSound.valid hSound.live hLdc
  rw [hMentions] at hAll
  rw [hOneByte] at hFew
  unfold LoadedClass.held LoadedClass.heldByLdc
  rw [hMentions, hOneByte]
  exact ⟨hAll, hFew⟩

/-- The one-byte uses of an entry depend on what the files mention. -/
theorem Collects.ldcTotal_eq (h : image.Collects files) {key : Key} {id : EntryId}
    (hFound : image.pool.find? key = some id) :
    (image.pool.ldcUsesAt id).total = (files.flatMap ClassFile.ldcKeys).count key := by
  have hLdc := List.rel_flatMap h.forall₂_held fun _ _ hLoaded => hLoaded.2
  rw [h.exact.balanced.ldcTotal_eq id]
  exact Traversal.count_eq_of_forall₂ h.exact.sound.valid.found_iff hLdc hFound

/-- The uses of an entry depend on the keys of the pool and on what the files mention. -/
theorem Collects.usesOf_eq (h : image.Collects files) (hCounters : image.pool.NoOverflow)
    {key : Key} {id : EntryId} (hFound : image.pool.find? key = some id) :
    image.pool.usesOf id = (image.pool.keys.flatMap Key.parts).count key +
      (files.flatMap ClassFile.mentionedKeys).count key := by
  have hSound := h.exact.sound
  have hHeld := List.rel_flatMap h.forall₂_held fun _ _ hLoaded => hLoaded.1
  rw [h.exact.balanced.accounts.usesOf_eq hCounters,
    hSound.valid.count_references hSound.live hFound,
    Traversal.count_eq_of_forall₂ hSound.valid.found_iff hHeld hFound]

end Image

end ClassRom
