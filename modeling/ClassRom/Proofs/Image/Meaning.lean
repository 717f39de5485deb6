import ClassRom.Proofs.Image.Relocating

/-!
# Finished classes mean what they meant

In a finished image every body refers, through the shared pool, to the constants that it referred to
through the table of its class, and is otherwise as it was read.
-/

namespace ClassRom

set_option autoImplicit false

/-- Every constant of the body in its table has the key of the one in the pool that it was replaced
by, and all else in the body is unchanged. -/
structure Body.KeepsMeaning (table : Table) (pool : Pool) (before after : Body) : Prop where
  rest_eq : after = { before with bytecode := after.bytecode, tables := after.tables }
  bytecode : before.bytecode.Reindexed (SameConstant table pool) after.bytecode
  tables : before.tables.Reindexed (SameConstant table pool) after.tables

/-- Of the code before, only its bytes and the name of its method matter. -/
theorem Bytecode.Reindexed.of_scanned {R : UInt16 → UInt16 → Prop} {unit scanned after : Bytecode}
    (hMethod : scanned.method = unit.method) (hCode : scanned.code = unit.code)
    (h : scanned.Reindexed R after) : unit.Reindexed R after := by
  obtain ⟨hMethod', hSize, hSingle, hDouble, hElsewhere⟩ := h
  rw [hCode] at hSize hSingle hDouble hElsewhere
  rw [single?_congr hCode] at hSingle
  rw [double?_congr hCode] at hDouble
  exact ⟨hMethod'.trans hMethod, hSize, hSingle, hDouble, hElsewhere⟩

theorem Body.keepsMeaning_of_relocates {table : Table} {pool : Pool} {map : HandleMap}
    {before scanned after : Body} (hValid : pool.Valid) (hFaithful : map.Faithful table pool)
    (hScans : before.Scans scanned) (hRelocates : scanned.Relocates pool map after) :
    before.KeepsMeaning table pool after := by
  obtain ⟨hScanned, hMethod, hCode⟩ := Bytecode.scan_ok hScans.bytecode
  obtain ⟨hBytecode, _, hTables⟩ := Relocation.relocate_ok hScanned
    (fun _ _ _ => Relocation.sameConstant_of_finalIndex hValid hFaithful) hRelocates.relocate_eq
  refine ⟨?_, hBytecode.of_scanned hMethod hCode, ?_⟩
  · rw [hRelocates.rest_eq, hScans.rest_eq]
  · rwa [hScans.rest_eq] at hTables

namespace Image

/-- Whatever classes were read and added, in whatever order and with whatever settings: once the
image is finished, each loaded class is the one read, up to its bodies, and these keep their
meaning. -/
theorem finish_keeps_meaning (settings : Settings) (files : List ClassFile)
    (hRead : ∀ file ∈ files, file.IsRead) (final : Image)
    (hFinish : ((empty settings).addClasses files).finish = (.ok (), final)) :
    List.Forall₂ (fun file loaded => file.name = .ok loaded.name ∧
        file.Rewritten (Body.KeepsMeaning file.constants final.pool) loaded.file)
      ((empty settings).accepted files) final.classes := by
  have hSound := (sound_empty settings).addClasses hRead
  obtain ⟨hPool, _, hClasses⟩ := finish_ok hSound.collecting hFinish
  have hPruned : Pool.Pruned ((empty settings).addClasses files).pool final.pool :=
    hPool ▸ Settings.pruned_freeze _ hSound.valid
  obtain ⟨_, _, hLoaded⟩ := hSound.ledger
  refine Traversal.forall₂_comp (fun file loaded after hLoaded hRelocates => ?_) hLoaded hClasses
  refine ⟨by rw [hRelocates.rest_eq]; exact hLoaded.name_eq, ?_⟩
  refine ClassFile.Rewritten.comp ?_ (ClassFile.scan_rewritten hLoaded.scan_eq) hRelocates.file
  intro before scanned after hScans hBody
  exact Body.keepsMeaning_of_relocates hPruned.valid (hLoaded.faithful.mono hPruned.toExtends)
    hScans hBody

/-- Sorting moves the string to the front and compaction drops the names of attributes, so that all
constants of the body get new indices. -/
theorem finish_keeps_meaning_demo :
    ∃ final, ((empty ⟨"", "", true, true⟩).addClasses [.demo]).finish = (.ok (), final) ∧
      (final.classes.map fun loaded => loaded.file.methods.map fun method =>
        method.body.map fun body => (body.bytecode.code, body.tables)) =
        [[some (#[0x12, 1, 0x4c, 0xbb, 0, 3, 0x57, 0xb1],
          { handlers := [⟨0, 3, 6, some 5⟩]
            lines := none
            locals := some [⟨3, 5, 9, 10, 1⟩]
            frames := some [⟨6, [], [.object 5]⟩] })]] ∧
      (empty ⟨"", "", true, true⟩).accepted [.demo] = [.demo] ∧
      List.Forall₂ (fun file loaded => file.name = .ok loaded.name ∧
          file.Rewritten (Body.KeepsMeaning file.constants final.pool) loaded.file)
        ((empty ⟨"", "", true, true⟩).accepted [.demo]) final.classes := by
  have hOk : ((empty ⟨"", "", true, true⟩).addClasses [.demo]).finish.1 = .ok () := by
    decide +kernel
  refine ⟨_, Prod.ext hOk rfl, by decide +kernel, by decide +kernel, ?_⟩
  refine finish_keeps_meaning _ _ (fun file hFile => ?_) _ (Prod.ext hOk rfl)
  rw [List.mem_singleton.mp hFile]
  exact ClassFile.demo_isRead

end Image

end ClassRom
