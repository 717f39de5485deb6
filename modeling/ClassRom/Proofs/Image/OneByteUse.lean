import ClassRom.Proofs.Image.Capacity
import ClassRom.Proofs.Image.Reloading
import ClassRom.Proofs.Pool.Operations
import ClassRom.Proofs.Relocation.Success

/-!
# One-byte uses

The one-byte uses of an entry in total are never fewer than the one-byte operands of loaded classes
that mean it, and while no class is refused they are just as many. So sorting puts every constant that a
one-byte operand means before all others, and finishing fails for want of room only if there are too
many of them.
-/

namespace ClassRom

set_option autoImplicit false

/-- What went wrong, in whatever class. -/
def ImageFault.cause : ImageFault → Fault
  | .plain fault => fault
  | .inClass _ fault => fault

/-! ### Freezing -/

namespace Settings

variable {settings : Settings} {pool : Pool}

theorem ldcFirst_freeze (hSort : settings.sort) (h : pool.Valid) :
    (settings.freeze pool).LdcFirst := by
  have hLock := (Pool.pruned_lock h).valid
  have hFirst := Pool.ldcFirst_sortByLdcUse hLock
  unfold freeze
  dsimp only
  rw [if_pos hSort]
  split
  · exact hFirst.compact (Pool.pruned_sortByLdcUse hLock).valid
  · exact hFirst

/-- In a sorted pool, what one-byte operands use stands in the first slots. -/
theorem index_freeze_le (hSort : settings.sort) (h : pool.Valid) {id : EntryId} {entry : Entry}
    {index : Nat} (hEntry : (settings.freeze pool).get? id = some entry)
    (hIndex : entry.index = some index) (hLdc : 0 < pool.ldcWeight id) :
    index ≤ pool.ldcSlots := by
  have hPruned := settings.pruned_freeze h
  rw [← hPruned.ldcWeight_eq] at hLdc
  calc index
      ≤ (settings.freeze pool).ldcSlots :=
        (ldcFirst_freeze hSort h).index_le hPruned.valid.toLaidOut hEntry hIndex hLdc
    _ ≤ pool.ldcSlots := hPruned.ldcSlots_le hPruned.valid.toLaidOut fun _ hId =>
        ((mem_order_freeze h).mp hId).1

end Settings

/-! ### Loading -/

theorem LoadedClass.mem_heldByLdc {loaded : LoadedClass} {id : EntryId} :
    id ∈ loaded.heldByLdc ↔ ∃ method ∈ loaded.file.methods, ∃ body, method.body = some body ∧
      ∃ index ∈ body.bytecode.oneByteOperands, ∃ handle,
        loaded.handles.get? index = some handle ∧ handle.entry = id := by
  unfold heldByLdc HandleMap.entriesOf ClassFile.oneByteOperands
  simp only [List.mem_filterMap, List.mem_flatMap, Option.map_eq_some_iff]
  constructor
  · rintro ⟨index, ⟨method, hMethod, hIndex⟩, hHandle⟩
    cases hBody : method.body with
    | none =>
      rw [hBody] at hIndex
      cases hIndex
    | some body =>
      rw [hBody] at hIndex
      exact ⟨method, hMethod, body, hBody, index, hIndex, hHandle⟩
  · rintro ⟨method, hMethod, body, hBody, index, hIndex, hHandle⟩
    refine ⟨index, ⟨method, hMethod, ?_⟩, hHandle⟩
    rw [hBody]
    exact hIndex

namespace Image

variable {image image' : Image} {file : ClassFile} {files : List ClassFile}
  {loaded : LoadedClass} {pool : Pool}

theorem ldcUsesAt_release (map : HandleMap) (indices : List UInt16) (pool : Pool) :
    (release map indices pool).ldcUsesAt = pool.ldcUsesAt := by
  unfold release
  induction indices generalizing pool with
  | nil => rfl
  | cons index indices ih =>
    rw [List.foldl_cons, ih]
    cases map.get? index with
    | none => rfl
    | some handle => exact Pool.ldcUsesAt_dropUse pool handle.entry

theorem Loads.ldcTotal_eq (hValid : image.pool.Valid) (h : image.Loads file loaded pool) :
    Pool.Steady image.pool pool ∧ ∀ id, (pool.ldcUsesAt id).total =
      loaded.heldByLdc.count id + (image.pool.ldcUsesAt id).total := by
  obtain ⟨merged, _, hScan, hMerge, hCharge⟩ := h
  have hMerged := Pool.merge_within file.constants hValid
  rw [hMerge] at hMerged
  obtain ⟨hSteady, _, hWeight, hWithin⟩ := hMerged
  have hRelease := release_recounted loaded.handles file.constants.indices merged
  have hPool := (chargeClass_grown loaded.handles loaded.name loaded.file
    (release loaded.handles file.constants.indices merged)).toRecounted
  rw [hCharge] at hPool
  refine ⟨hSteady.trans ((hRelease.trans hPool).steady hSteady.valid), fun id => ?_⟩
  have hMap : loaded.handles.Within (release loaded.handles file.constants.indices merged) :=
    (hWithin _ rfl).mono fun _ _ => hRelease.get?
  rw [(chargeClass_ok hCharge).ldcTotal_eq hMap id, ldcUsesAt_release, hWeight,
    ClassFile.map_index_filter_uses (LoadedClass.allCode_scanned hScan)]
  rfl

theorem Refuses.ldcTotal_le (hValid : image.pool.Valid) (h : image.Refuses file pool) :
    Pool.Steady image.pool pool ∧
      ∀ id, (image.pool.ldcUsesAt id).total ≤ (pool.ldcUsesAt id).total := by
  have hMerged := Pool.merge_within file.constants hValid
  rcases h with rfl | ⟨cause, hMerge⟩ | ⟨map, merged, name, scanned, cause, hMerge, hCharge⟩
  · exact ⟨.refl hValid, fun _ => Nat.le_refl _⟩
  · rw [hMerge] at hMerged
    obtain ⟨hSteady, _, hWeight, _⟩ := hMerged
    exact ⟨hSteady, fun id => by rw [hWeight]⟩
  · rw [hMerge] at hMerged
    obtain ⟨hSteady, _, hWeight, _⟩ := hMerged
    have hPool := (release_recounted map file.constants.indices merged).trans
      (chargeClass_grown map name scanned _).toRecounted
    rw [hCharge] at hPool
    refine ⟨hSteady.trans (hPool.steady hSteady.valid), fun id => ?_⟩
    rw [← hWeight]
    exact hPool.ldcTotal_le id

/-- The one-byte operands of the loaded classes are counted. -/
structure Weighed (image : Image) : Prop where
  collecting : image.stage = .collecting
  valid : image.pool.Valid
  scanned : ∀ loaded ∈ image.classes, loaded.AllCode Bytecode.Scanned
  count_le : ∀ id,
    (image.classes.flatMap LoadedClass.heldByLdc).count id ≤ (image.pool.ldcUsesAt id).total

theorem weighed_empty (settings : Settings) : (empty settings).Weighed where
  collecting := rfl
  valid := Pool.valid_empty 0
  scanned _ hLoaded := by cases hLoaded
  count_le _ := Nat.zero_le _

theorem Weighed.addClass (h : image.Weighed) (file : ClassFile) :
    (image.addClass file).2.Weighed := by
  rcases addClass_cases image file with ⟨loaded, pool, hLoads, hAdd⟩ | ⟨fault, pool, hRefuses, hAdd⟩
  · obtain ⟨hSteady, hWeight⟩ := hLoads.ldcTotal_eq h.valid
    obtain ⟨_, _, hScan, _, _⟩ := hLoads
    rw [hAdd]
    refine ⟨h.collecting, hSteady.valid, ?_, ?_⟩
    · intro other hOther
      rcases List.mem_append.mp hOther with hOld | hNew
      · exact h.scanned other hOld
      · rw [List.mem_singleton.mp hNew]
        exact LoadedClass.allCode_scanned hScan
    · intro id
      have hCount := h.count_le id
      rw [List.flatMap_append, List.flatMap_singleton, List.count_append, hWeight]
      omega
  · obtain ⟨hSteady, hWeight⟩ := hRefuses.ldcTotal_le h.valid
    rw [hAdd]
    exact ⟨h.collecting, hSteady.valid, h.scanned,
      fun id => Nat.le_trans (h.count_le id) (hWeight id)⟩

theorem Weighed.addClasses (h : image.Weighed) (files : List ClassFile) :
    (image.addClasses files).Weighed := by
  unfold Image.addClasses
  induction files generalizing image with
  | nil => exact h
  | cons file files ih => exact ih (h.addClass file)

/-- While no class is refused, nothing but one-byte operands is counted. -/
theorem Weighed.ldcTotal_loadAll (h : image.Weighed)
    (hWeight : ∀ id,
      (image.pool.ldcUsesAt id).total = (image.classes.flatMap LoadedClass.heldByLdc).count id)
    (hLoad : image.loadAll files = .ok image') (id : EntryId) :
    (image'.pool.ldcUsesAt id).total =
      (image'.classes.flatMap LoadedClass.heldByLdc).count id := by
  induction files generalizing image with
  | nil =>
    cases hLoad
    exact hWeight id
  | cons file files ih =>
    have hFile := h.addClass file
    rw [loadAll] at hLoad
    rcases addClass_cases image file with ⟨loaded, pool, hLoads, hAdd⟩ | ⟨fault, pool, _, hAdd⟩
    · rw [hAdd] at hLoad hFile
      refine ih hFile ?_ hLoad
      intro other
      rw [List.flatMap_append, List.flatMap_singleton, List.count_append,
        (hLoads.ldcTotal_eq h.valid).2, hWeight, Nat.add_comm]
    · rw [hAdd] at hLoad
      cases hLoad

/-! ### Finishing -/

theorem Weighed.ldcWeight_pos (h : image.Weighed) (hCounters : image.pool.NoOverflow)
    (hLoaded : loaded ∈ image.classes) {id : EntryId} (hId : id ∈ loaded.heldByLdc) :
    0 < image.pool.ldcWeight id := by
  have hCount := List.count_pos_iff.mpr (List.mem_flatMap.mpr ⟨loaded, hLoaded, hId⟩)
  rw [hCounters.ldcWeight_eq]
  exact Nat.lt_of_lt_of_le hCount (h.count_le id)

theorem Weighed.finish_ne_overflow (h : image.Weighed) (hCounters : image.pool.NoOverflow)
    (hSort : image.settings.sort)
    (hSlots : image.pool.ldcSlots ≤ 255) {fault : ImageFault}
    (hFault : image.finish.1 = .error fault) (method : String) (offset : Nat) (index : UInt16) :
    fault.cause ≠ .overflow method offset index := by
  obtain ⟨hPool, _, loaded, hLoaded, cause, rfl, hFails⟩ :=
    finish_error h.collecting (Prod.ext hFault rfl)
  obtain ⟨member, hMember, body, hBody, ⟨unit', tables'⟩, hRelocate⟩ := hFails
  rintro rfl
  have hScanned := h.scanned loaded hLoaded member hMember body hBody
  obtain ⟨use, hUse, final, hFinal, hLt⟩ := Relocation.relocate_overflow hScanned hRelocate
  rw [hPool] at hFinal
  obtain ⟨handle, entry, hHandle, _, hEntry, hIndex⟩ :=
    (Relocation.finalIndex_eq_ok (image.settings.pruned_freeze h.valid).valid).mp hFinal
  have hOperand : use.index ∈ body.bytecode.oneByteOperands := by
    rw [← hScanned.map_index_singleUses]
    exact List.mem_map_of_mem hUse
  have hHeld : handle.entry ∈ loaded.heldByLdc := LoadedClass.mem_heldByLdc.mpr
    ⟨member, hMember, body, hBody, use.index, hOperand, handle, hHandle, rfl⟩
  have hLe := Settings.index_freeze_le hSort h.valid hEntry hIndex
    (h.ldcWeight_pos hCounters hLoaded hHeld)
  omega

theorem exists_slot_of_relocates {after : LoadedClass} {id : EntryId} (hValid : pool.Valid)
    (hScanned : loaded.AllCode Bytecode.Scanned) (h : LoadedClass.Relocates pool loaded after)
    (hId : id ∈ loaded.heldByLdc) : ∃ slot ≤ 255, pool.slots[slot]? = some (some id) := by
  obtain ⟨method, hMethod, body, hBody, index, hIndex, handle, hHandle, rfl⟩ :=
    LoadedClass.mem_heldByLdc.mp hId
  have hCode := hScanned method hMethod body hBody
  obtain ⟨_, _, _, _, hRelocates⟩ := h.file.exists_after hMethod hBody
  obtain ⟨found, hOperands, _⟩ := (Relocation.relocate_eq_ok hCode).mp hRelocates.relocate_eq
  obtain ⟨hOneByte, _⟩ := (Relocation.operands_eq_ok hCode hValid).mp ⟨found, hOperands⟩
  obtain ⟨slot, hLe, handle', entry, hHandle', _, hEntry, hSlot⟩ := hOneByte index hIndex
  rw [hHandle] at hHandle'
  cases hHandle'
  exact ⟨slot, hLe, (hValid.slot_iff slot _).mpr ⟨entry, hEntry, hSlot⟩⟩

theorem Weighed.valid_finish (h : image.Weighed) (hOk : image.finish.1 = .ok ()) :
    image.finish.2.pool.Valid := by
  rw [(finish_ok h.collecting (Prod.ext hOk rfl)).1]
  exact (image.settings.pruned_freeze h.valid).valid

theorem Weighed.exists_slot_of_finish (h : image.Weighed) (hOk : image.finish.1 = .ok ())
    {id : EntryId} (hId : id ∈ image.classes.flatMap LoadedClass.heldByLdc) :
    ∃ slot ≤ 255, image.finish.2.pool.slots[slot]? = some (some id) := by
  obtain ⟨_, _, hClasses⟩ := finish_ok h.collecting (Prod.ext hOk rfl)
  obtain ⟨loaded, hLoaded, hHeld⟩ := List.mem_flatMap.mp hId
  obtain ⟨after, _, hRelocates⟩ := Traversal.exists_right_of_mem hClasses hLoaded
  exact exists_slot_of_relocates (h.valid_finish hOk) (h.scanned loaded hLoaded) hRelocates hHeld

theorem Weighed.length_le_of_finish (h : image.Weighed) (hOk : image.finish.1 = .ok ())
    {ids : List EntryId} (hNodup : ids.Nodup)
    (hIds : ids ⊆ image.classes.flatMap LoadedClass.heldByLdc) : ids.length ≤ 255 := by
  -- slot 0 is empty, so there are at most 255 entries up to slot 255
  have hSub : ids ⊆ (image.finish.2.pool.slots.toList.take 256).filterMap fun slot => slot := by
    intro id hId
    obtain ⟨slot, hLe, hSlot⟩ := h.exists_slot_of_finish hOk (hIds hId)
    refine List.mem_filterMap.mpr ⟨some id, List.mem_of_getElem? (i := slot) ?_, rfl⟩
    rw [List.getElem?_take_of_lt (Nat.lt_succ_of_le hLe), Array.getElem?_toList, hSlot]
  calc ids.length
      ≤ _ := hNodup.length_le_of_subset hSub
    _ ≤ 255 := by
      rw [(h.valid_finish hOk).slots_eq, List.take_succ_cons, List.filterMap_cons]
      exact Nat.le_trans (List.length_filterMap_le _ _) (List.length_take_le _ _)

/-- Where the pool is left as it is, an entry beyond slot 255 stays out of reach of one-byte
operands. -/
theorem Weighed.finish_ne_ok {id : EntryId} {slot : Nat} (h : image.Weighed)
    (hSort : image.settings.sort = false) (hCompact : image.settings.compact = false)
    (hId : id ∈ image.classes.flatMap LoadedClass.heldByLdc)
    (hSlot : image.pool.slots[slot]? = some (some id)) (hFar : 255 < slot) :
    image.finish.1 ≠ .ok () := by
  intro hOk
  obtain ⟨near, hLe, hNear⟩ := h.exists_slot_of_finish hOk hId
  have hSlots : image.finish.2.pool.slots = image.pool.slots := by
    rw [(finish_ok h.collecting (Prod.ext hOk rfl)).1, Settings.freeze, hSort, hCompact]
    rfl
  rw [hSlots] at hNear
  obtain ⟨entry, hEntry, hIndex⟩ := (h.valid.slot_iff slot id).mp hSlot
  have hSame := (h.valid.slot_iff_of_get? hEntry).mp hNear
  rw [hIndex] at hSame
  cases hSame
  omega

/-! ### How much room is needed -/

theorem Collects.mem_heldByLdc (h : image.Collects files) {id : EntryId}
    (hWeight : 0 < image.pool.ldcWeight id) :
    id ∈ image.classes.flatMap LoadedClass.heldByLdc := by
  have hTotal := Nat.lt_of_lt_of_le hWeight (Pool.ldcWeight_le_total image.pool id)
  rw [h.exact.balanced.ldcTotal_eq id] at hTotal
  exact List.count_pos_iff.mp hTotal

/-- What one-byte operands use takes two slots for each of them at most. -/
theorem Collects.ldcSlots_le (h : image.Collects files) :
    image.pool.ldcSlots ≤ (files.flatMap ClassFile.ldcKeys).length * 2 := by
  have hLdc := List.rel_flatMap h.forall₂_held fun _ _ hLoaded => hLoaded.2
  have hNodup : image.pool.ldcEntries.Nodup := h.exact.sound.valid.nodup_order.filter _
  have hSub : image.pool.ldcEntries ⊆ image.classes.flatMap LoadedClass.heldByLdc :=
    fun id hId => h.mem_heldByLdc (by simpa using (List.mem_filter.mp hId).2)
  calc image.pool.ldcSlots
      ≤ image.pool.ldcEntries.length * 2 :=
        Pool.length_flatMap_le_two fun id _ => image.pool.length_cells_le id
    _ ≤ (image.classes.flatMap LoadedClass.heldByLdc).length * 2 :=
        Nat.mul_le_mul_right 2 (hNodup.length_le_of_subset hSub)
    _ = (files.flatMap ClassFile.ldcKeys).length * 2 := by rw [hLdc.length_eq]

theorem addClass_steady (hValid : image.pool.Valid) (h : image.addClass file = (.ok (), image')) :
    Pool.Steady image.pool image'.pool := by
  rcases addClass_cases image file with ⟨loaded, pool, hLoads, hAdd⟩ | ⟨fault, pool, _, hAdd⟩
  · rw [hAdd] at h
    cases h
    exact (hLoads.ldcTotal_eq hValid).1
  · rw [hAdd] at h
    cases h

/-- A constant that a class is the first to have stands behind all constants of earlier classes. -/
theorem Collects.size_le_of_new {key : Key} {id : EntryId} {slot : Nat} (h : image.Collects files)
    (hAdd : image.addClass file = (.ok (), image')) (hNew : key ∉ image.pool.keys)
    (hFound : image'.pool.find? key = some id)
    (hSlot : image'.pool.slots[slot]? = some (some id)) : image.pool.size ≤ slot := by
  have hSound := h.exact.sound
  have hSteady := addClass_steady hSound.valid hAdd
  obtain ⟨entry, hEntry, hIndex⟩ := (hSteady.valid.slot_iff slot id).mp hSlot
  refine hSteady.size_le_of_fresh hSound.valid ?_ hEntry hIndex
  cases hOld : image.pool.get? id with
  | none => rfl
  | some old =>
    -- the entry would have had the key before
    have hLive := hSound.valid.mem_order_iff.mpr ⟨old, hOld, hSound.live id old hOld⟩
    obtain ⟨key', hFound'⟩ := hSound.valid.mem_order_iff_found.mp hLive
    cases (hSteady.valid.found_iff hFound (hSteady.find? hSound.valid hFound')).mp rfl
    exact absurd (Pool.mem_keys_of_find? hFound') hNew

theorem loadAll_demo :
    (empty ⟨"", "", true, true⟩).loadAll [.demo] = .ok Relocation.demoImage :=
  loadAll_of_isOk (by decide +kernel)

end Image

/-! ### A crowded pool -/

namespace ClassFile

theorem ldcKeys_of_scan {file scanned : ClassFile} (h : file.scan = .ok scanned) :
    file.ldcKeys =
      ((scanned.uses.filter Use.single).map Use.index).filterMap file.constants.key? := by
  have hScanned : (⟨"", scanned, .ofSize 0⟩ : LoadedClass).AllCode Bytecode.Scanned :=
    LoadedClass.allCode_scanned h
  rw [map_index_filter_uses hScanned, (mentions_of_scan h).2]
  rfl

/-- A class with a number among its constants. -/
def numbered (n : Nat) : ClassFile :=
  { plain with
    constants := ⟨#[none, some (.utf8 (.unicode "A")), some (.classRef (.entry 1)),
      some (.integer (.ofNat n))]⟩ }

/-- Its constants as they are written. -/
def numberedTable (n : Nat) : Table :=
  ⟨#[none, some (.utf8 (.unicode "A")), some (.classRef (.index 1)), some (.integer (.ofNat n))]⟩

theorem read_numberedTable {n : Nat} (h : n < 256) (rest : Bytes) :
    Table.read ([0x00, 0x04, 0x01, 0x00, 0x01, 0x41, 0x07, 0x00, 0x01, 0x03, 0x00, 0x00, 0x00,
      .ofNat n] ++ rest) = .ok (numberedTable n, rest) := by
  have hNumber : UInt32.ofNat (UInt16.toNat (UInt16.ofNat (UInt8.toNat 0 * 256 + UInt8.toNat 0)) *
      65536 + (UInt16.ofNat (UInt8.toNat 0 * 256 + (UInt8.ofNat n).toNat)).toNat) = .ofNat n := by
    have hLow : n % 256 % 65536 = n := by omega
    simp [hLow]
  rw [numberedTable, ← hNumber]
  rfl

theorem resolved_numberedTable (n : Nat) :
    (numberedTable n).resolved = .ok (numbered n).constants := by
  refine Table.resolved_eq_ok.mpr ⟨?_, rfl⟩
  intro slot constant _ hSlot
  match slot, hSlot with
  | 0, hSlot => cases hSlot
  | 1, hSlot =>
    cases hSlot
    simp [Table.Resolvable, Constant.refs]
  | 2, hSlot =>
    cases hSlot
    simp [Table.Resolvable, Constant.refs]
    rfl
  | 3, hSlot =>
    cases hSlot
    simp [Table.Resolvable, Constant.refs]
  | _ + 4, hSlot => cases hSlot

-- step by step, as the number is not known when the bytes are read
theorem numbered_isRead {n : Nat} (h : n < 256) : (numbered n).IsRead := by
  refine ⟨[0xca, 0xfe, 0xba, 0xbe, 0x00, 0x03, 0x00, 0x2d] ++ ([0x00, 0x04, 0x01, 0x00, 0x01, 0x41,
    0x07, 0x00, 0x01, 0x03, 0x00, 0x00, 0x00, .ofNat n] ++ [0x00, 0x21, 0x00, 0x02, 0x00, 0x00,
    0x00, 0x00, 0x00, 0x00, 0x00, 0x00, 0x00, 0x00]), [], ?_⟩
  unfold ClassFile.read
  refine (Reader.bind_of_ok rfl).trans ?_
  refine (Reader.bind_of_ok rfl).trans ?_
  refine (Reader.bind_of_ok (read_numberedTable h _)).trans ?_
  refine (Reader.bind_of_ok (Reader.lift_eq_ok.mpr ⟨resolved_numberedTable n, rfl⟩)).trans ?_
  rfl

theorem keys_numbered (n : Nat) : (numbered n).constants.keys =
    [.utf8 (.unicode "A"), .classRef (.unicode "A"), .integer (.ofNat n)] := rfl

theorem numbered_loadable (n : Nat) : (numbered n).Loadable := by
  have hUses : (numbered n).uses = [⟨0, 2, false⟩] := rfl
  have hIndices : (numbered n).constants.indices = [1, 2, 3] := rfl
  refine ⟨"A", numbered n, [2], rfl, rfl, rfl, ?_⟩
  rw [hUses, hIndices]
  decide

theorem demo_loadable : demo.Loadable :=
  ((Image.collects_empty _).loadAll (List.forall_mem_singleton.mpr demo_isRead)
    Image.loadAll_demo).loadable demo (List.mem_singleton_self demo)

theorem ldcKeys_demo : demo.ldcKeys = [.string (.unicode "hi")] := by
  obtain ⟨_, scanned, _, _, hScan, _⟩ := demo_loadable
  have hKeys : demo.scan.toOption.map (fun scanned =>
      ((scanned.uses.filter Use.single).map Use.index).filterMap demo.constants.key?) =
        some [.string (.unicode "hi")] := by decide +kernel
  rw [hScan] at hKeys
  rw [ldcKeys_of_scan hScan]
  exact Option.some.inj hKeys

end ClassFile

namespace Image

def numbers (count : Nat) : List Key := (List.range count).map fun n => .integer (.ofNat n)

def crowdKeys (count : Nat) : List Key :=
  .utf8 (.unicode "A") :: .classRef (.unicode "A") :: numbers count

/-- Classes with so many numbers between them. -/
def crowd (count : Nat) : List ClassFile := (List.range count).map ClassFile.numbered

section Crowd

variable {image : Image} {count : Nat}

theorem widths_numbers (count : Nat) : ((numbers count).map Key.width).sum = count := by
  have hWidth : (Key.width ∘ fun n => Key.integer (.ofNat n)) = fun _ => 1 := rfl
  rw [numbers, List.map_map, hWidth, List.map_const', List.length_range, List.sum_replicate_nat,
    Nat.mul_one]

theorem bulk_crowd (count : Nat) : ((crowd count).map ClassFile.bulk).sum = count * 4 := by
  have hBulk : ClassFile.bulk ∘ ClassFile.numbered = fun _ => 4 := rfl
  rw [crowd, List.map_map, hBulk, List.map_const', List.length_range, List.sum_replicate_nat]

/-- The only one-byte operand is that of the example class. -/
theorem ldcKeys_crowd (count : Nat) :
    (crowd count ++ [ClassFile.demo]).flatMap ClassFile.ldcKeys = [.string (.unicode "hi")] := by
  have hCrowd : (crowd count).flatMap ClassFile.ldcKeys = [] := by
    refine List.flatMap_eq_nil_iff.mpr fun file hFile => ?_
    obtain ⟨n, _, rfl⟩ := List.mem_map.mp hFile
    rfl
  rw [List.flatMap_append, hCrowd, List.flatMap_singleton, ClassFile.ldcKeys_demo]
  rfl

theorem crowd_loadable : ∀ file ∈ crowd count, file.Loadable := by
  intro file hFile
  obtain ⟨n, _, rfl⟩ := List.mem_map.mp hFile
  exact ClassFile.numbered_loadable n

theorem keys_crowd : ∀ file ∈ crowd count, file.constants.keys ⊆ crowdKeys count := by
  intro file hFile
  obtain ⟨n, hn, rfl⟩ := List.mem_map.mp hFile
  have hNumber : Key.integer (.ofNat n) ∈ numbers count := List.mem_map.mpr ⟨n, hn, rfl⟩
  rw [ClassFile.keys_numbered]
  simp [crowdKeys, hNumber]

theorem Collects.not_mem_keys_crowd (h : image.Collects (crowd count)) :
    .string (.unicode "hi") ∉ image.pool.keys := by
  intro hKey
  obtain ⟨file, hFile, hHas⟩ := (h.mem_keys _).mp hKey
  have hAmong := keys_crowd file hFile hHas
  simp [crowdKeys, numbers] at hAmong

variable (hCount : count ≤ 256)
include hCount

theorem crowd_isRead : ∀ file ∈ crowd count, file.IsRead := by
  intro file hFile
  obtain ⟨n, hn, rfl⟩ := List.mem_map.mp hFile
  have hLt := List.mem_range.mp hn
  exact ClassFile.numbered_isRead (by omega)

theorem nodup_numbers : (numbers count).Nodup := by
  refine List.Nodup.map_on ?_ List.nodup_range
  intro n hn m hm hKey
  have hBits := congrArg UInt32.toNat (Key.integer.inj hKey)
  rw [List.mem_range] at hn hm
  simp at hBits
  omega

/-- Each number takes a slot. -/
theorem Collects.size_crowd (h : image.Collects (crowd count)) : count < image.pool.size := by
  have hSub : numbers count ⊆ image.pool.keys := by
    intro key hKey
    obtain ⟨n, hn, rfl⟩ := List.mem_map.mp hKey
    refine (h.mem_keys _).mpr ⟨.numbered n, List.mem_map_of_mem hn, ?_⟩
    simp [ClassFile.keys_numbered]
  calc count
      = (numbers count).length := by simp [numbers]
    _ ≤ image.pool.keys.length := (nodup_numbers hCount).length_le_of_subset hSub
    _ < image.pool.size := h.exact.sound.valid.length_keys_lt_size

theorem loadAll_crowd (settings : Settings) : ∃ middle image,
    (empty settings).loadAll (crowd count) = .ok middle ∧
      middle.addClass .demo = (.ok (), image) := by
  have hFits : Pool.Fits (crowdKeys count ++ ClassFile.demo.constants.keys) := by
    have hDemo : (ClassFile.demo.constants.keys.map Key.width).sum = 13 := by decide +kernel
    simp [Pool.Fits, crowdKeys, widths_numbers, hDemo, Key.width]
    omega
  have hKeys : ∀ file ∈ crowd count, file.constants.keys ⊆
      crowdKeys count ++ ClassFile.demo.constants.keys := fun file hFile =>
    List.Subset.trans (keys_crowd file hFile) (List.subset_append_left _ _)
  have hEmpty := collects_empty settings
  have hRead := crowd_isRead hCount
  obtain ⟨middle, hCrowd⟩ := hEmpty.loadAll_isOk hRead crowd_loadable hFits hKeys
  have hMiddle := hEmpty.loadAll hRead hCrowd
  obtain ⟨image, hDemo⟩ := hMiddle.loadAll_isOk (List.forall_mem_singleton.mpr ClassFile.demo_isRead)
    (List.forall_mem_singleton.mpr ClassFile.demo_loadable) hFits
    (List.forall_mem_append.mpr ⟨hKeys, List.forall_mem_singleton.mpr (List.subset_append_right _ _)⟩)
  rw [loadAll] at hDemo
  rcases hAdd : middle.addClass .demo with ⟨fault | _, next⟩
  · rw [hAdd] at hDemo
    cases hDemo
  · exact ⟨middle, next, hCrowd, hAdd⟩

theorem noOverflow_crowd {settings : Settings}
    (hLoad : (empty settings).loadAll (crowd count ++ [.demo]) = .ok image) :
    image.pool.NoOverflow := by
  have hRead : ∀ file ∈ crowd count ++ [.demo], file.IsRead := List.forall_mem_append.mpr
    ⟨crowd_isRead hCount, List.forall_mem_singleton.mpr ClassFile.demo_isRead⟩
  have hDemo : ClassFile.demo.bulk < 1000 := by decide +kernel
  refine loadAll_noOverflow settings hRead hLoad ?_
  rw [List.map_append, List.sum_append, bulk_crowd, List.map_singleton, List.sum_singleton]
  omega

/-- Behind the crowd stands the string that a one-byte operand of the example class uses. -/
theorem exists_late_string (settings : Settings) : ∃ image,
    (empty settings).loadAll (crowd count ++ [.demo]) = .ok image ∧
      image.Collects (crowd count ++ [.demo]) ∧ image.pool.NoOverflow ∧
      image.pool.ldcSlots ≤ 2 ∧ ∃ id slot, count < slot ∧
        image.pool.slots[slot]? = some (some id) ∧ 0 < image.pool.ldcWeight id := by
  obtain ⟨middle, image, hCrowd, hAdd⟩ := loadAll_crowd hCount settings
  have hLoad : (empty settings).loadAll (crowd count ++ [.demo]) = .ok image := by
    rw [loadAll_append hCrowd, loadAll, hAdd]
    rfl
  have hMiddle : middle.Collects (crowd count) :=
    (collects_empty settings).loadAll (crowd_isRead hCount) hCrowd
  have hImage := hMiddle.addClass_ok ClassFile.demo_isRead hAdd
  have hValid := hImage.exact.sound.valid
  have hCounters := noOverflow_crowd hCount hLoad
  have hSlots := hImage.ldcSlots_le
  rw [ldcKeys_crowd] at hSlots
  have hKey : .string (.unicode "hi") ∈ image.pool.keys :=
    (hImage.mem_keys _).mpr ⟨.demo, List.mem_append_right _ (List.mem_singleton_self _), by decide⟩
  obtain ⟨id, hFound⟩ := Pool.mem_keys.mp hKey
  obtain ⟨entry, hEntry, hLive, _⟩ := (hValid.find?_iff _ id).mp hFound
  obtain ⟨slot, hIndex⟩ := Option.isSome_iff_exists.mp hLive
  have hSlot := (hValid.slot_iff slot id).mpr ⟨entry, hEntry, hIndex⟩
  have hLate : count < slot := Nat.lt_of_lt_of_le (hMiddle.size_crowd hCount)
    (hMiddle.size_le_of_new hAdd hMiddle.not_mem_keys_crowd hFound hSlot)
  have hWeight : 0 < image.pool.ldcWeight id := by
    rw [hCounters.ldcWeight_eq, hImage.ldcTotal_eq hFound, ldcKeys_crowd]
    simp
  exact ⟨image, hLoad, hImage, hCounters, hSlots, id, slot, hLate, hSlot, hWeight⟩

end Crowd

/-! ### Sorting makes room -/

/-- Sorting makes room for one-byte operands wherever there is room. If what they use takes at most
255 slots, none of them overflows; and if all went well, they use at most 255 entries. -/
theorem finish_fits_one_byte (settings : Settings) (hSort : settings.sort)
    (files : List ClassFile) :
    (((empty settings).addClasses files).pool.NoOverflow →
      ((empty settings).addClasses files).pool.ldcSlots ≤ 255 →
      ∀ fault, ((empty settings).addClasses files).finish.1 = .error fault →
        ∀ method offset index, fault.cause ≠ .overflow method offset index) ∧
    ∀ image, (empty settings).loadAll files = .ok image → image.finish.1 = .ok () →
      image.finish.2.pool.ldcWeight = image.pool.ldcWeight ∧
        ∀ ids : List EntryId, ids.Nodup → (∀ id ∈ ids, 0 < image.pool.ldcWeight id) →
          ids.length ≤ 255 := by
  have hEmpty := weighed_empty settings
  constructor
  · intro hCounters hSlots fault hFault
    refine (hEmpty.addClasses files).finish_ne_overflow hCounters ?_ hSlots hFault
    rw [settings_addClasses]
    exact hSort
  · intro image hLoad hOk
    have hWeighed : image.Weighed := by
      rw [eq_addClasses_of_loadAll hLoad]
      exact hEmpty.addClasses files
    constructor
    · rw [(finish_ok hWeighed.collecting (Prod.ext hOk rfl)).1]
      exact (image.settings.pruned_freeze hWeighed.valid).ldcWeight_eq
    · intro ids hNodup hIds
      refine hWeighed.length_le_of_finish hOk hNodup ?_
      intro id hId
      have hPos := Nat.lt_of_lt_of_le (hIds id hId) (Pool.ldcWeight_le_total image.pool id)
      rw [hEmpty.ldcTotal_loadAll (Pool.balanced_empty 0).ldcTotal_eq hLoad] at hPos
      exact List.count_pos_iff.mp hPos

/-- A string that a one-byte operand uses stands behind 256 other constants, where the operand
reaches it only once the pool is sorted. -/
theorem finish_fits_one_byte_crowd :
    (∃ image, (empty ⟨"", "", true, false⟩).loadAll (crowd 256 ++ [.demo]) = .ok image ∧
      image.pool.NoOverflow ∧ image.pool.ldcSlots ≤ 2 ∧
      ({ image with settings := ⟨"", "", false, false⟩ } : Image).finish.1 ≠ .ok () ∧
      ∀ fault, image.finish.1 = .error fault →
        ∀ method offset index, fault.cause ≠ .overflow method offset index) ∧
    Relocation.demoImage.finish.1 = .ok () ∧
      Relocation.demoImage.finish.2.pool.ldcWeight = Relocation.demoImage.pool.ldcWeight ∧
      ∀ ids : List EntryId, ids.Nodup →
        (∀ id ∈ ids, 0 < Relocation.demoImage.pool.ldcWeight id) → ids.length ≤ 255 := by
  constructor
  · obtain ⟨image, hLoad, hCollects, hCounters, hSlots, id, slot, hFar, hSlot, hWeight⟩ :=
      exists_late_string (Nat.le_refl 256) ⟨"", "", true, false⟩
    obtain ⟨hFits, _⟩ := finish_fits_one_byte ⟨"", "", true, false⟩ rfl (crowd 256 ++ [.demo])
    rw [← eq_addClasses_of_loadAll hLoad] at hFits
    have hWeighed : image.Weighed := by
      rw [eq_addClasses_of_loadAll hLoad]
      exact (weighed_empty _).addClasses _
    have hUnsorted : ({ image with settings := ⟨"", "", false, false⟩ } : Image).Weighed :=
      ⟨hWeighed.collecting, hWeighed.valid, hWeighed.scanned, hWeighed.count_le⟩
    exact ⟨image, hLoad, hCounters, hSlots,
      hUnsorted.finish_ne_ok rfl rfl (hCollects.mem_heldByLdc hWeight) hSlot (by omega),
      hFits hCounters (by omega)⟩
  · have hOk : Relocation.demoImage.finish.1 = .ok () := by decide +kernel
    obtain ⟨_, hFew⟩ := finish_fits_one_byte ⟨"", "", true, true⟩ rfl [.demo]
    exact ⟨hOk, hFew _ loadAll_demo hOk⟩

end Image

end ClassRom
