import ClassRom.Proofs.Image.Relocating

/-!
# Why finishing fails

Whatever was added before, finishing an image for the first time fails only for one of two reasons
that lie in the classes: a one-byte operand has no room for the final index of its constant, or a
side table names an offset at which no instruction starts.
-/

namespace ClassRom

set_option autoImplicit false

open Relocation

theorem LoadedClass.Fails.cause {pool : Pool} {file : ClassFile} {loaded : LoadedClass}
    {fault : Fault} (hValid : pool.Valid) (hReady : Image.Ready pool file loaded)
    (h : loaded.Fails pool fault) :
    ∃ method ∈ file.methods, ∃ body, method.body = some body ∧
      (Overflowing file.constants pool body.bytecode fault ∨ OffBoundary body.bytecode fault) := by
  obtain ⟨method, hMethod, body, hBody, rest, hRelocate⟩ := h
  have hScan := ClassFile.scan_rewritten hReady.scan_eq
  obtain ⟨original, hOriginal, before, hOld, hScans⟩ := hScan.exists_before hMethod hBody
  obtain ⟨hScanned, hName, hCode⟩ := Bytecode.scan_ok hScans.bytecode
  have hLeads : ∀ use ∈ body.bytecode.uses ++ body.tables.uses,
      loaded.handles.Leads pool use.index := by
    intro use hUse
    refine hReady.leads use (List.mem_flatMap.mpr ⟨method, hMethod, ?_⟩)
    unfold Method.uses
    rwa [hBody]
  refine ⟨original, hOriginal, before, hOld, ?_⟩
  exact (relocate_error hScanned hValid hReady.faithful hLeads hRelocate).imp
    (.congr hName hCode) (.congr hName hCode)

/-- The example class with a handler that starts inside an instruction. -/
def ClassFile.displaced : ClassFile :=
  { demo with
    methods := [⟨9, 7, 8, some { demoBody with
      tables := { demoBody.tables with handlers := [⟨1, 3, 6, some 4⟩] } }, []⟩] }

theorem ClassFile.displaced_isRead : displaced.IsRead :=
  ⟨demoBytes.set 159 1, [], by decide +kernel⟩

namespace Image

/-- Unless a counter has started again, the first attempt to finish succeeds or blames a body of a
loaded class. -/
theorem finish_ok_or_blames_body (settings : Settings) (files : List ClassFile)
    (hRead : ∀ file ∈ files, file.IsRead)
    (hCounters : ((empty settings).addClasses files).pool.NoOverflow) :
    (((empty settings).addClasses files).finish.1 = .ok ()) ∨
      ∃ file ∈ (empty settings).accepted files, ∃ name, file.name = .ok name ∧
        ∃ method ∈ file.methods, ∃ body, method.body = some body ∧
          ∃ fault, ((empty settings).addClasses files).finish.1 = .error (.inClass name fault) ∧
            (Overflowing file.constants ((empty settings).addClasses files).finish.2.pool
                body.bytecode fault ∨
              OffBoundary body.bytecode fault) := by
  have hSound := (sound_empty settings).addClasses hRead
  rcases hFinish : ((empty settings).addClasses files).finish with ⟨fault | _, final⟩
  · obtain ⟨hPool, _, loaded, hLoaded, cause, rfl, hFails⟩ :=
      finish_error hSound.collecting hFinish
    have hValid : final.pool.Valid := hPool ▸ (Settings.pruned_freeze _ hSound.valid).valid
    have hAll := hSound.ready hCounters
    rw [← hPool] at hAll
    obtain ⟨file, hFile, hReady⟩ := Traversal.exists_left_of_mem hAll hLoaded
    obtain ⟨method, hMethod, body, hBody, hCause⟩ := hFails.cause hValid hReady
    exact .inr ⟨file, hFile, loaded.name, hReady.name_eq, method, hMethod, body, hBody, cause, rfl,
      hCause⟩
  · exact .inl rfl

theorem finish_blames_displaced :
    ((empty ⟨"", "", true, true⟩).addClasses [.demo, .displaced]).pool.NoOverflow ∧
      ((empty ⟨"", "", true, true⟩).addClasses [.demo, .displaced]).finish.1 =
        .error (.inClass "Demo"
          (.consistency (.notInstructionBoundary "Demo.run()V" "exception table" 1))) ∧
      ((((empty ⟨"", "", true, true⟩).addClasses [.demo, .displaced]).finish.1 = .ok ()) ∨
        ∃ file ∈ (empty ⟨"", "", true, true⟩).accepted [.demo, .displaced], ∃ name,
          file.name = .ok name ∧ ∃ method ∈ file.methods, ∃ body, method.body = some body ∧
            ∃ fault, ((empty ⟨"", "", true, true⟩).addClasses [.demo, .displaced]).finish.1 =
                .error (.inClass name fault) ∧
              (Overflowing file.constants
                  ((empty ⟨"", "", true, true⟩).addClasses [.demo, .displaced]).finish.2.pool
                  body.bytecode fault ∨
                OffBoundary body.bytecode fault)) := by
  have hCounters :
      ((empty ⟨"", "", true, true⟩).addClasses [.demo, .displaced]).pool.NoOverflow := by
    decide +kernel
  refine ⟨hCounters, by decide +kernel,
    finish_ok_or_blames_body _ _ (fun file hFile => ?_) hCounters⟩
  rcases List.mem_cons.mp hFile with rfl | hLast
  · exact ClassFile.demo_isRead
  · rw [List.mem_singleton.mp hLast]
    exact ClassFile.displaced_isRead

end Image

end ClassRom
