import ClassRom.Proofs.Image.Collecting

/-!
# Classes with known constants

A class whose constants are all in the pool changes nothing but counters. Merging raises the counter
of an entry once for each copy of its constant, releasing lowers it as often, and charging raises it
once for each mention. A counter that starts again in between does not come back to where it was:
lowering ends at zero, and all that was counted before is lost.
-/

namespace ClassRom

set_option autoImplicit false

namespace Counter

variable {counter : Counter} {times : Nat}

/-- Adds one so many times. -/
def raise (counter : Counter) : Nat → Counter
  | 0 => counter
  | times + 1 => (counter.add 1).raise times

/-- Takes one back so many times. -/
def lower (counter : Counter) : Nat → Counter
  | 0 => counter
  | times + 1 => counter.drop.lower times

/-- Adds one so many times and takes it back as often. -/
def cycle (counter : Counter) (times : Nat) : Counter := (counter.raise times).lower times

end Counter

/-! ### What is counted -/

theorem Image.release_eq (map : HandleMap) (indices : List UInt16) (pool : Pool) :
    release map indices pool = (map.entriesOf indices).foldl Pool.dropUse pool := by
  unfold release HandleMap.entriesOf
  rw [List.foldl_filterMap]
  congr 1
  funext pool index
  cases map.get? index <;> rfl

theorem HandleMap.entriesOf_eq {map : HandleMap} {indices : List UInt16} {ids : List EntryId}
    (h : List.Forall₂ (fun index id => (map.get? index).map Handle.entry = some id) indices ids) :
    map.entriesOf indices = ids := by
  induction h with
  | nil => rfl
  | cons hHead _ ih =>
    obtain ⟨handle, hHandle, rfl⟩ := Option.map_eq_some_iff.mp hHead
    rw [entriesOf_cons hHandle, ih]

/-- How often a table has a constant of the key. -/
def Table.copies (table : Table) (key : Key) : Nat :=
  (table.indices.filterMap table.key?).count key

namespace Pool

variable {pool merged after : Pool} {table : Table} {map : HandleMap} {id : EntryId}
  {ids : List EntryId} {indices : List UInt16} {key : Key}

theorem foldl_addUse_grown (ids : List EntryId) (pool : Pool) :
    Grown pool (ids.foldl addUse pool) := by
  induction ids generalizing pool with
  | nil => exact .refl pool
  | cons head ids ih => exact (addUse_grown pool head).trans (ih _)

theorem usesAt_foldl_addUse (hIds : ∀ other ∈ ids, ∃ entry, pool.get? other = some entry) :
    (ids.foldl addUse pool).usesAt id = (pool.usesAt id).raise (ids.count id) := by
  induction ids generalizing pool with
  | nil => rfl
  | cons head ids ih =>
    obtain ⟨⟨entry, hEntry⟩, hRest⟩ := List.forall_mem_cons.mp hIds
    have hKept : ∀ other ∈ ids, ∃ entry, (pool.addUse head).get? other = some entry := by
      intro other hOther
      obtain ⟨old, hOld⟩ := hRest other hOther
      obtain ⟨new, hNew, _⟩ := (addUse_grown pool head).toRecounted.get? hOld
      exact ⟨new, hNew⟩
    rw [List.foldl_cons, ih hKept, usesAt_addUse hEntry, List.count_cons]
    by_cases hId : id = head
    · subst head
      simp [Counter.raise]
    · simp [hId, Ne.symm hId]

theorem usesAt_foldl_dropUse (ids : List EntryId) (pool : Pool) (id : EntryId) :
    (ids.foldl dropUse pool).usesAt id = (pool.usesAt id).lower (ids.count id) := by
  induction ids generalizing pool with
  | nil => rfl
  | cons head ids ih =>
    rw [List.foldl_cons, ih, usesAt_dropUse, List.count_cons]
    by_cases hId : id = head
    · subst head
      simp [Counter.lower]
    · simp [hId, Ne.symm hId]

theorem Charges.usesAt_eq {uses : List Use} (h : Charges map uses pool after)
    (hMap : map.Within pool) (id : EntryId) :
    after.usesAt id = (pool.usesAt id).raise ((map.entriesOf (uses.map Use.index)).count id) := by
  induction uses generalizing pool with
  | nil =>
    rw [h.after_eq]
    rfl
  | cons use uses ih =>
    obtain ⟨handle, hHandle, hRest⟩ := charges_cons_iff.mp h
    obtain ⟨entry, hEntry⟩ := hMap use.index handle hHandle
    have hMap' := hMap.mono fun _ _ => (chargeUse_grown pool handle.entry use.single).toRecounted.get?
    rw [ih hRest hMap', usesAt_chargeUse hEntry, List.map_cons, HandleMap.entriesOf_cons hHandle,
      List.count_cons]
    by_cases hId : id = handle.entry
    · subst id
      simp [Counter.raise]
    · simp [hId, Ne.symm hId]

/-! ### Merging known constants -/

theorem mergeFrom_known
    (h : List.Forall₂ (fun index id => StandsFor table.source pool index.toNat id) indices ids) :
    ∃ map', mergeFrom table indices map pool = (.ok map', ids.foldl addUse pool) := by
  induction indices generalizing map pool ids with
  | nil =>
    cases h
    exact ⟨map, rfl⟩
  | cons index indices ih =>
    obtain _ | ⟨⟨constant, key, hSlot, hKey, hFound⟩, hRest⟩ := h
    rw [mergeFrom, add, addWithin_found 2 hSlot hKey hFound]
    exact ih hRest

theorem StandsFor.unique {source : Source} {slot other : EntryId} (h : StandsFor source pool slot id)
    (h' : StandsFor source pool slot other) : id = other := by
  obtain ⟨constant, key, hConstant, hKey, hFound⟩ := h
  obtain ⟨constant', key', hConstant', hKey', hFound'⟩ := h'
  cases Option.some.inj (hConstant.symm.trans hConstant')
  cases hKey.unique hKey'
  exact Option.some.inj (hFound.symm.trans hFound')

section Known

variable (hTable : table.WellFormed) (hValid : pool.Valid) (hKnown : table.keys ⊆ pool.keys)
include hTable hValid hKnown

/-- Merging a table whose keys are all in the pool counts one use for each of its constants. -/
theorem merge_known :
    ∃ map, pool.merge table = (.ok map, (map.entriesOf table.indices).foldl addUse pool) ∧
      ∀ id ∈ map.entriesOf table.indices, ∃ entry, pool.get? id = some entry := by
  have hStands : ∀ index ∈ table.indices, ∃ id, StandsFor table.source pool index.toNat id := by
    intro index hIndex
    obtain ⟨constant, key, hSlot, hKey⟩ := hTable.exists_hasKey hIndex
    obtain ⟨id, hFound⟩ := mem_keys.mp (hKnown (Table.mem_keys.mpr ⟨_, _, hSlot, hKey⟩))
    exact ⟨id, constant, key, hSlot, hKey, hFound⟩
  obtain ⟨ids, hIds⟩ := Traversal.exists_forall₂ hStands
  obtain ⟨map, hMerge⟩ : ∃ map, pool.merge table = (.ok map, ids.foldl addUse pool) :=
    mergeFrom_known hIds
  -- the handles lead to the entries that were found, as each of these is the only one with its key
  obtain ⟨_, _, hHandles⟩ := merge_handles hTable hValid hMerge
  have hFound : (ids.foldl addUse pool).find? = pool.find? := by
    unfold find?
    rw [(foldl_addUse_grown ids pool).lookup_eq]
  have hEntries : map.entriesOf table.indices = ids := by
    refine HandleMap.entriesOf_eq (((List.forall₂_and_left _ _).mpr ⟨hHandles, hIds⟩).imp ?_)
    rintro index id ⟨⟨other, hHandle, hOther⟩, hId⟩
    unfold StandsFor at hOther
    rw [hFound] at hOther
    rw [hHandle, hId.unique hOther]
    rfl
  refine ⟨map, hEntries ▸ hMerge, ?_⟩
  intro id hId
  rw [hEntries] at hId
  obtain ⟨_, _, _, key, _, _, hKey⟩ := Traversal.exists_left_of_mem hIds hId
  obtain ⟨entry, hEntry, _⟩ := (hValid.find?_iff key id).mp hKey
  exact ⟨entry, hEntry⟩

/-- What merging and releasing a known table does to the counter of an entry. -/
theorem usesAt_release_merge
    (hLive : ∀ id entry, pool.get? id = some entry → entry.index.isSome)
    (hMerge : pool.merge table = (.ok map, merged)) (hFound : pool.find? key = some id) :
    (Image.release map table.indices merged).usesAt id =
      (pool.usesAt id).cycle (table.copies key) := by
  have hSteady := (merge_handles hTable hValid hMerge).1
  have hFaithful := merge_faithful hTable hValid hMerge
  have hMapped : ∀ index ∈ table.indices, (map.get? index).isSome := fun index =>
    (merge_isSome_iff hTable hValid hMerge index).mpr
  have hCount : (map.entriesOf table.indices).count id = table.copies key :=
    Traversal.count_eq_of_forall₂ hSteady.valid.found_iff
      (hFaithful.forall₂_entriesOf hSteady.valid (Image.live_of_steady hLive hSteady) hMapped)
      (hSteady.find? hValid hFound)
  obtain ⟨map', hKnownMerge, hIds⟩ := merge_known hTable hValid hKnown
  rw [hMerge] at hKnownMerge
  cases hKnownMerge
  rw [Image.release_eq, usesAt_foldl_dropUse, usesAt_foldl_addUse hIds, hCount]
  rfl

end Known

end Pool

/-! ### Loading known classes -/

/-- What becomes of the counter of an entry with the key when the class is loaded into a pool that
knows all of its constants. -/
noncomputable def ClassFile.recount (file : ClassFile) (key : Key) (counter : Counter) : Counter :=
  (counter.cycle (file.constants.copies key)).raise (file.mentionedKeys.count key)

namespace Image

variable {image image' : Image} {file : ClassFile} {files more : List ClassFile}
  {loaded : LoadedClass} {pool : Pool} {key : Key} {id : EntryId}

theorem Loads.usesAt_eq (hTable : file.constants.WellFormed) (hValid : image.pool.Valid)
    (hLive : ∀ id entry, image.pool.get? id = some entry → entry.index.isSome)
    (hKnown : file.constants.keys ⊆ image.pool.keys) (h : image.Loads file loaded pool)
    (hFound : image.pool.find? key = some id) :
    pool.usesAt id = file.recount key (image.pool.usesAt id) := by
  obtain ⟨merged, _, hScan, hMerge, hCharge⟩ := h
  have hSteady := (Pool.merge_handles hTable hValid hMerge).1
  have hFaithful := Pool.merge_faithful hTable hValid hMerge
  have hCharges := chargeClass_ok hCharge
  have hMentions : loaded.file.uses.map Use.index = file.mentions := by
    rw [ClassFile.map_index_uses (LoadedClass.allCode_scanned hScan),
      (ClassFile.mentions_of_scan hScan).1]
  have hMapped : ∀ index ∈ file.mentions, (loaded.handles.get? index).isSome := by
    rw [← hMentions]
    intro index hIndex
    obtain ⟨use, hUse, rfl⟩ := List.mem_map.mp hIndex
    exact hCharges.mapped use hUse
  have hCount : (loaded.handles.entriesOf file.mentions).count id = file.mentionedKeys.count key :=
    Traversal.count_eq_of_forall₂ hSteady.valid.found_iff
      (hFaithful.forall₂_entriesOf hSteady.valid (live_of_steady hLive hSteady) hMapped)
      (hSteady.find? hValid hFound)
  have hWithin := hFaithful.within.mono fun _ _ =>
    (release_recounted loaded.handles file.constants.indices merged).get?
  rw [hCharges.usesAt_eq hWithin, hMentions, hCount,
    Pool.usesAt_release_merge hTable hValid hKnown hLive hMerge hFound]
  rfl

theorem loadAll_append {middle : Image} (h : image.loadAll files = .ok middle) :
    image.loadAll (files ++ more) = middle.loadAll more := by
  induction files generalizing image with
  | nil =>
    cases h
    rfl
  | cons file files ih =>
    rw [loadAll] at h
    rw [List.cons_append, loadAll]
    rcases hAdd : image.addClass file with ⟨fault | _, next⟩
    · rw [hAdd] at h
      cases h
    · rw [hAdd] at h
      exact ih h

end Image

/-! ### Classes that wear out a counter -/

namespace ClassFile

/-- A class without a superclass that has another class among its constants. -/
def plain : ClassFile where
  version := .v45_3
  constants := ⟨#[none, some (.utf8 (.unicode "A")), some (.classRef (.entry 1)),
    some (.utf8 (.unicode "B")), some (.classRef (.entry 3))]⟩
  access := 0x21
  thisClass := 2
  superClass := 0
  interfaces := []
  fields := []
  methods := []
  attributes := []

end ClassFile

namespace Image

variable {image : Image} {files : List ClassFile} {id : EntryId} {times : Nat}

end Image

end ClassRom
