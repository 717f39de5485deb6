import ClassRom.Proofs.Relocation.Failure

/-!
# Constants of relocated tables

Relocated tables list the final indices of what the tables listed before, use by use. Their
constants are found just if every use in the list leads to a live entry of the pool. Otherwise the
first use that does not is reported, at its offset in the list.
-/

namespace ClassRom

set_option autoImplicit false

namespace Relocation

variable {pool : Pool} {map : HandleMap} {method : String} {offset : Nat} {index final : UInt16}
  {unit unit' : Bytecode} {tables tables' : SideTables} {fault : Fault}

theorem finalIndex_ok_iff_leadsTo :
    finalIndex pool map method offset index = .ok final ↔
      ∃ slot, map.LeadsTo pool index slot ∧ final = UInt16.ofNat slot := by
  rw [finalIndex_ok_iff]
  constructor
  · rintro ⟨handle, entry, slot, hHandle, hPool, hEntry, hSlot, rfl⟩
    exact ⟨slot, ⟨handle, entry, hHandle, hPool, hEntry, hSlot⟩, rfl⟩
  · rintro ⟨slot, ⟨handle, entry, hHandle, hPool, hEntry, hSlot⟩, rfl⟩
    exact ⟨handle, entry, slot, hHandle, hPool, hEntry, hSlot, rfl⟩

/-- The use has the final index of its constant and is otherwise as before. -/
structure Renumbered (pool : Pool) (map : HandleMap) (before after : Use) : Prop where
  offset_eq : after.offset = before.offset
  single_eq : after.single = before.single
  index : ∃ slot, map.LeadsTo pool before.index slot ∧ after.index = UInt16.ofNat slot

/-- The fault belongs to the first of the uses whose constant has no final index. -/
def FirstUnresolved (pool : Pool) (map : HandleMap) (method : String) (uses : List Use)
    (fault : Fault) : Prop :=
  ∃ before use after, uses = before ++ use :: after ∧
    (∀ earlier ∈ before, ∃ slot, map.LeadsTo pool earlier.index slot) ∧
    Unresolved pool map method use.offset use.index fault

/-- Every constant that the code uses has a final index, of one byte where it has to be. -/
def CodeResolves (pool : Pool) (map : HandleMap) (unit : Bytecode) : Prop :=
  ∀ use ∈ unit.uses, ∃ slot, map.LeadsTo pool use.index slot ∧
    (use.single = true → (UInt16.ofNat slot).toNat ≤ 255)

/-! ### Constants of the tables -/

theorem renumbered_of_reindex {before after : Use}
    (h : before.reindex (finalIndex pool map method) = .ok after) :
    Renumbered pool map before after := by
  obtain ⟨index, hIndex, rfl⟩ := Use.reindex_eq_ok.mp h
  exact ⟨rfl, rfl, finalIndex_ok_iff_leadsTo.mp hIndex⟩

theorem reindex_isOk_iff {use : Use} :
    (∃ use', use.reindex (finalIndex pool map method) = .ok use') ↔
      ∃ slot, map.LeadsTo pool use.index slot := by
  simp only [Use.reindex_eq_ok, finalIndex_ok_iff_leadsTo]
  constructor
  · rintro ⟨_, _, ⟨slot, hSlot, _⟩, _⟩
    exact ⟨slot, hSlot⟩
  · rintro ⟨slot, hSlot⟩
    exact ⟨_, _, ⟨slot, hSlot, rfl⟩, rfl⟩

theorem renumbered_mapIndices (h : tables.mapIndices (finalIndex pool map method) = .ok tables') :
    List.Forall₂ (Renumbered pool map) tables.uses tables'.uses := by
  have hUses := (SideTables.agree_mapIndices _).eq_ok h
  exact (Traversal.mapM_eq_ok.mp hUses).imp fun _ _ => renumbered_of_reindex

theorem mapIndices_isOk_iff :
    (∃ tables', tables.mapIndices (finalIndex pool map method) = .ok tables') ↔
      ∀ use ∈ tables.uses, ∃ slot, map.LeadsTo pool use.index slot := by
  simp only [(SideTables.agree_mapIndices _).isOk_iff, reindex_isOk_iff]

theorem mapIndices_eq_error_iff :
    tables.mapIndices (finalIndex pool map method) = .error fault ↔
      FirstUnresolved pool map method tables.uses fault := by
  simp only [(SideTables.agree_mapIndices _).eq_error_iff, reindex_isOk_iff, Use.reindex_eq_error,
    finalIndex_error_iff]
  rfl

/-! ### Constants of the method -/

theorem singleIndex_of_le (h : finalIndex pool map method offset index = .ok final)
    (hLe : final.toNat ≤ 255) : singleIndex pool map method offset index = .ok final.toUInt8 := by
  unfold singleIndex
  rw [h]
  exact if_neg (Nat.not_lt.mpr hLe)

/-- Once the constants of the code are found, those of the tables decide. -/
theorem operands_eq_error_iff (h : CodeResolves pool map unit) :
    operands pool map unit tables = .error fault ↔
      tables.mapIndices (finalIndex pool map unit.method) = .error fault := by
  have hSingles : ∀ use ∈ unit.singleUses, ∃ operand, (do
      let final ← singleIndex pool map unit.method use.offset use.index
      return (use.offset, final)) = Except.ok operand := by
    intro use hUse
    obtain ⟨slot, hSlot, hLe⟩ := h use (List.mem_append_left _ hUse)
    obtain ⟨offset, _, rfl⟩ := List.mem_map.mp hUse
    rw [singleIndex_of_le (finalIndex_ok_iff_leadsTo.mpr ⟨slot, hSlot, rfl⟩) (hLe rfl)]
    exact ⟨_, rfl⟩
  have hDoubles : ∀ use ∈ unit.doubleUses, ∃ operand, (do
      let final ← finalIndex pool map unit.method use.offset use.index
      return (use.offset, final)) = Except.ok operand := by
    intro use hUse
    obtain ⟨slot, hSlot, _⟩ := h use (List.mem_append_right _ hUse)
    rw [finalIndex_ok_iff_leadsTo.mpr ⟨slot, hSlot, rfl⟩]
    exact ⟨_, rfl⟩
  obtain ⟨singles, hSingles⟩ := Traversal.mapM_isOk_iff.mpr hSingles
  obtain ⟨doubles, hDoubles⟩ := Traversal.mapM_isOk_iff.mpr hDoubles
  unfold operands
  rw [hSingles, hDoubles]
  change (tables.mapIndices (finalIndex pool map unit.method) >>= fun tables =>
    pure (Operands.mk singles doubles tables)) = .error fault ↔ _
  rw [Traversal.bind_eq_error]
  simp [Traversal.pure_ne_error]

theorem relocate_eq_error_iff (hScanned : unit.Scanned) :
    relocate pool map unit tables = (.error fault, unit, tables) ↔
      operands pool map unit tables = .error fault := by
  rcases relocate_cases pool map tables hScanned.progress_eq with
    ⟨found, relocated, moved, hOperands, hApply, hRun⟩ | ⟨fault', progress, hCause, hRun⟩
  · simp [hRun, hOperands]
  · rw [hRun]
    rcases hCause with ⟨hOperands, rfl⟩ | ⟨found, hOperands, hApply, rfl⟩
    · rw [hOperands, ← hScanned.progress_eq]
      simp
    · rw [hOperands]
      refine iff_of_false (fun hSame => ?_) (by simp)
      have hProgress := congrArg (·.2.1.progress) hSame
      rw [hScanned.progress_eq] at hProgress
      cases hProgress

/-- The constants that relocated tables list are those that the tables listed before, one by one and
with their final indices. They are found just if each of them leads to a live entry of the pool, and
otherwise the first in the list that does not is reported, at its offset. -/
theorem table_traversals_agree (pool : Pool) (map : HandleMap) (tables : SideTables) :
    (∀ unit unit' tables', unit.Reached →
      relocate pool map unit tables = (.ok (), unit', tables') →
      List.Forall₂ (Renumbered pool map) tables.uses tables'.uses) ∧
    (∀ method, (∃ tables', tables.mapIndices (finalIndex pool map method) = .ok tables') ↔
      ∀ use ∈ tables.uses, ∃ slot, map.LeadsTo pool use.index slot) ∧
    (∀ method fault, tables.mapIndices (finalIndex pool map method) = .error fault ↔
      FirstUnresolved pool map method tables.uses fault) ∧
    (∀ unit fault, unit.Reached → unit.progress = .scanned → CodeResolves pool map unit →
      (relocate pool map unit tables = (.error fault, unit, tables) ↔
        FirstUnresolved pool map unit.method tables.uses fault)) ∧
    (pool.Valid →
      ∀ index slot, map.LeadsTo pool index slot → (UInt16.ofNat slot).toNat = slot) := by
  refine ⟨?_, fun _ => mapIndices_isOk_iff, fun _ _ => mapIndices_eq_error_iff, ?_, ?_⟩
  · intro unit unit' tables' hReached hRun
    by_cases hProgress : unit.progress = .scanned
    · have hScanned := hReached.scanned hProgress
      obtain ⟨found, hOperands, hApply⟩ := (relocate_eq_ok hScanned).mp hRun
      have hFound := found_of_operands hOperands
      rw [(apply_ok hScanned hFound hApply).2]
      exact renumbered_mapIndices hFound.tables
    · obtain ⟨fault, hRefused⟩ := relocate_of_not_scanned pool map tables hProgress
      rw [hRefused] at hRun
      cases hRun
  · intro unit fault hReached hProgress hCode
    rw [relocate_eq_error_iff (hReached.scanned hProgress), operands_eq_error_iff hCode,
      mapIndices_eq_error_iff]
  · rintro hValid index slot ⟨handle, entry, _, _, hEntry, hSlot⟩
    exact toNat_ofNat_index hValid hEntry hSlot

/-- Tables with a variable of which neither the name nor the descriptor was merged. -/
def lostTables : SideTables := { ClassFile.demoBody.tables with locals := some [⟨3, 5, 99, 98, 1⟩] }

theorem codeResolves_demoScanned : CodeResolves demoPool demoHandles demoScanned := by
  have hBytes : ∀ use ∈ demoScanned.uses,
      (singleIndex demoPool demoHandles "Demo.run()V" use.offset use.index).isOk = true := by
    decide +kernel
  intro use hUse
  have hByte := hBytes use hUse
  cases hSingle : singleIndex demoPool demoHandles "Demo.run()V" use.offset use.index with
  | error fault =>
    rw [hSingle] at hByte
    cases hByte
  | ok byte =>
    obtain ⟨slot, hSlot, hFinal⟩ := finalIndex_ok_iff_leadsTo.mp (singleIndex_eq_ok.mp hSingle)
    refine ⟨slot, hSlot, fun _ => ?_⟩
    rw [← hFinal, UInt8.toNat_toUInt16]
    exact Nat.le_of_lt_succ byte.toNat_lt

theorem table_traversals_agree_demo :
    demoScanned.Reached ∧ CodeResolves demoPool demoHandles demoScanned ∧
      (∃ unit' tables', relocate demoPool demoHandles demoScanned ClassFile.demoBody.tables =
          (.ok (), unit', tables') ∧
        tables' ≠ ClassFile.demoBody.tables ∧
        List.Forall₂ (Renumbered demoPool demoHandles) ClassFile.demoBody.tables.uses
          tables'.uses) ∧
      FirstUnresolved demoPool demoHandles "Demo.run()V" lostTables.uses
        (.consistency (.unmergedConstant "Demo.run()V" 3 99)) ∧
      relocate demoPool demoHandles demoScanned lostTables =
        (.error (.consistency (.unmergedConstant "Demo.run()V" 3 99)), demoScanned,
          lostTables) := by
  have hAgree := table_traversals_agree demoPool demoHandles
  obtain ⟨_, _, hError, hRelocate, _⟩ := hAgree lostTables
  have hFirst := (hError "Demo.run()V" (.consistency (.unmergedConstant "Demo.run()V" 3 99))).mp
    (by decide +kernel)
  refine ⟨reached_demoScanned, codeResolves_demoScanned, ⟨_, _, relocate_demoScanned,
    by decide +kernel, (hAgree _).1 _ _ _ reached_demoScanned relocate_demoScanned⟩, hFirst, ?_⟩
  exact (hRelocate _ _ reached_demoScanned rfl codeResolves_demoScanned).mpr hFirst

end Relocation

end ClassRom
