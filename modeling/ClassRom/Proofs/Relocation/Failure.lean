import ClassRom.Proofs.Relocation.Success

/-!
# Failed relocation

A relocation that fails leaves a method as it is, code and tables alike. What may change is only what
the code can be used for next: once its constants were found, an offset out of place in a table
keeps it from being relocated again.
-/

namespace ClassRom

set_option autoImplicit false

/-- The states of code: it comes as bytes, is scanned and is relocated, in any order and any number
of times, whatever comes of it. -/
inductive Bytecode.Reached : Bytecode → Prop
  | ofBytes (method : String) (code : Bytes) : Reached (Bytecode.ofBytes method code)
  | scan {unit : Bytecode} : Reached unit → Reached unit.scanInPlace.2
  | relocate {unit : Bytecode} (pool : Pool) (map : HandleMap) (tables : SideTables) :
    Reached unit → Reached (relocate pool map unit tables).2.1

/-- The fault that no instruction starts at an offset, wherever the offset stands. -/
def Fault.IsOffInstruction (fault : Fault) : Prop :=
  ∃ method table offset, fault = .consistency (.notInstructionBoundary method table offset)

namespace Relocation

variable {pool : Pool} {map : HandleMap} {unit unit' : Bytecode} {tables tables' : SideTables}
  {fault : Fault}

theorem OffBoundary.isOffInstruction (h : OffBoundary unit fault) : fault.IsOffInstruction := by
  obtain ⟨table, _, _, offset, _, rfl⟩ := h
  exact ⟨unit.method, table, offset, rfl⟩

theorem not_isOffInstruction_of_operands (h : operands pool map unit tables = .error fault) :
    ¬fault.IsOffInstruction := by
  rintro ⟨method, table, offset, rfl⟩
  rcases operands_error_cases h with ⟨use, _, hUse⟩ | ⟨_, _, _, _, _, hFault⟩
  · rcases finalIndex_error_cases hUse with hFault | ⟨_, hFault⟩ | ⟨_, hFault⟩ | hFault <;>
      cases hFault
  · cases hFault

/-- Code that is not ready for it is refused at once. -/
theorem relocate_of_not_scanned (pool : Pool) (map : HandleMap) (tables : SideTables)
    (h : unit.progress ≠ .scanned) :
    ∃ fault, relocate pool map unit tables = (.error fault, unit, tables) := by
  unfold relocate
  cases hProgress : unit.progress with
  | scanned => exact absurd hProgress h
  | unscanned => exact ⟨_, rfl⟩
  | indicesResolved => exact ⟨_, rfl⟩
  | relocated => exact ⟨_, rfl⟩

/-- A relocation that fails, with the step at which it does. -/
theorem relocate_failed (hScanned : unit.Scanned)
    (h : relocate pool map unit tables = (.error fault, unit', tables')) :
    tables' = tables ∧ ((unit' = unit ∧ ¬fault.IsOffInstruction) ∨
      (unit' = { unit with progress := .indicesResolved } ∧ OffBoundary unit fault)) := by
  rcases relocate_cases pool map tables hScanned.progress_eq with
    ⟨_, _, _, _, _, hRun⟩ | ⟨cause, progress, hCause, hRun⟩
  · rw [hRun] at h
    cases h
  · rw [hRun] at h
    cases h
    refine ⟨rfl, ?_⟩
    rcases hCause with ⟨hOperands, rfl⟩ | ⟨found, hOperands, hApply, rfl⟩
    · refine .inl ⟨?_, not_isOffInstruction_of_operands hOperands⟩
      rw [← hScanned.progress_eq]
    · exact .inr ⟨rfl, offBoundary_of_apply hScanned (found_of_operands hOperands) hApply⟩

end Relocation

namespace Bytecode

open Relocation

variable {unit : Bytecode}

theorem scanned_scanInPlace (h : unit.progress = .scanned → unit.Scanned)
    (hAfter : unit.scanInPlace.2.progress = .scanned) : unit.scanInPlace.2.Scanned := by
  rcases unit.scanInPlace_cases with ⟨fault, hScan⟩ | ⟨scanned, hOk, hScan⟩
  · rw [hScan] at hAfter ⊢
    exact h hAfter
  · rw [hScan]
    exact (scan_ok hOk).1

/-- Code that can still be relocated after a relocation was left as it is. -/
theorem scanned_relocate {unit' : Bytecode} {pool : Pool} {map : HandleMap}
    {tables tables' : SideTables} {result : Except Fault Unit}
    (h : unit.progress = .scanned → unit.Scanned)
    (hRun : ClassRom.relocate pool map unit tables = (result, unit', tables'))
    (hAfter : unit'.progress = .scanned) : unit'.Scanned := by
  by_cases hProgress : unit.progress = .scanned
  · cases result with
    | ok =>
      obtain ⟨_, hDone, _⟩ := relocate_ok (R := fun _ _ => True) (h hProgress)
        (fun _ _ _ _ => trivial) hRun
      rw [hDone] at hAfter
      cases hAfter
    | error fault =>
      rcases (relocate_failed (h hProgress) hRun).2 with ⟨rfl, _⟩ | ⟨rfl, _⟩
      · exact h hProgress
      · cases hAfter
  · obtain ⟨fault, hRefused⟩ := relocate_of_not_scanned pool map tables hProgress
    rw [hRefused] at hRun
    cases hRun
    exact absurd hAfter hProgress

theorem Reached.scanned (h : unit.Reached) : unit.progress = .scanned → unit.Scanned := by
  induction h with
  | ofBytes method code => intro hProgress; cases hProgress
  | scan _ ih => exact scanned_scanInPlace ih
  | relocate pool map tables _ ih => exact scanned_relocate ih rfl

end Bytecode

namespace Relocation

/-- A failed relocation leaves code and tables alone. Only an offset out of place in a table, found
after the constants were, moves the code on. -/
theorem failed_relocation_keeps_method {pool : Pool} {map : HandleMap} {unit unit' : Bytecode}
    {tables tables' : SideTables} {fault : Fault} (hReached : unit.Reached)
    (h : relocate pool map unit tables = (.error fault, unit', tables')) :
    tables' = tables ∧ unit' = { unit with progress := unit'.progress } ∧
      (unit'.progress ≠ unit.progress ↔ unit.progress = .scanned ∧ fault.IsOffInstruction) ∧
      (unit'.progress ≠ unit.progress →
        unit'.progress = .indicesResolved ∧ OffBoundary unit fault) := by
  by_cases hProgress : unit.progress = .scanned
  · obtain ⟨rfl, ⟨rfl, hOther⟩ | ⟨rfl, hOff⟩⟩ := relocate_failed (hReached.scanned hProgress) h
    · simp [hOther]
    · simp [hProgress, hOff, hOff.isOffInstruction]
  · obtain ⟨fault', hRefused⟩ := relocate_of_not_scanned pool map tables hProgress
    rw [hRefused] at h
    cases h
    simp [hProgress]

/-- Tables with a line that starts inside an instruction. -/
def strayTables : SideTables := { ClassFile.demoBody.tables with lines := some [⟨1, 7⟩] }

theorem reached_demoScanned : demoScanned.Reached := by
  have hScan : ClassFile.demoBody.bytecode.scanInPlace.2 = demoScanned := by
    rw [Bytecode.scanInPlace, scan_demoBody]
  rw [← hScan]
  exact .scan (.ofBytes _ _)

theorem failed_relocation_keeps_demo :
    demoScanned.Reached ∧
      ∃ fault unit' tables',
        relocate demoPool demoHandles demoScanned strayTables = (.error fault, unit', tables') ∧
        unit'.progress ≠ demoScanned.progress ∧ tables' = strayTables ∧
        unit' = { demoScanned with progress := unit'.progress } ∧
        (unit'.progress ≠ demoScanned.progress ↔
          demoScanned.progress = .scanned ∧ fault.IsOffInstruction) ∧
        (unit'.progress ≠ demoScanned.progress →
          unit'.progress = .indicesResolved ∧ OffBoundary demoScanned fault) := by
  have hFails : relocate demoPool demoHandles demoScanned strayTables =
      (.error (.consistency (.notInstructionBoundary "Demo.run()V" SideTables.linesName 1)),
        (relocate demoPool demoHandles demoScanned strayTables).2) :=
    Prod.ext (by decide +kernel) rfl
  exact ⟨reached_demoScanned, _, _, _, hFails, by decide +kernel,
    failed_relocation_keeps_method reached_demoScanned hFails⟩

end Relocation

end ClassRom
