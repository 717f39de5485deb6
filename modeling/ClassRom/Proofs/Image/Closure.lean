import ClassRom.Proofs.Image.Relocating
import ClassRom.Proofs.Pool.Export

/-!
# Finished pools are closed

Compaction looks at the uses of an entry and not at who refers to it. By the ledger, whatever an
entry refers to has a use, so no reference of a finished pool leads to a deleted entry, and all of
them can be written.
-/

namespace ClassRom

set_option autoImplicit false

namespace Pool

variable {pool before after : Pool} {holders : List EntryId} {fault : Fault}

theorem Pruned.closed (h : Pruned before after) (hValid : before.Valid)
    (hLive : ∀ id entry, before.get? id = some entry → entry.index.isSome)
    (hAccounts : before.Accounts holders) (hCounters : before.NoOverflow) : after.Closed := by
  intro id entry hEntry _ ref hRef
  have hClosed := h.valid.closed id entry.value (constant?_of_get? hEntry)
  obtain ⟨target, constant, hTarget, hAt, hAccepts⟩ := hClosed ref hRef
  obtain ⟨referred, hReferred, rfl⟩ := constant?_eq_some.mp hAt
  -- the reference was there before the new layout, so it was counted as a use of its target
  have hOld : before.source.constant? id = some entry.value := by
    rw [← h.constant?_eq]
    exact constant?_of_get? hEntry
  obtain ⟨old, hGet, hValue⟩ := constant?_eq_some.mp hOld
  have hMem : target ∈ before.references := by
    refine mem_references_iff.mpr ⟨id, old, hGet, ?_⟩
    rw [hValue]
    exact List.mem_filterMap.mpr ⟨ref, hRef, by rw [hTarget]; rfl⟩
  have hOrder := h.mem_order hValid hLive (hAccounts.usesOf_pos_of_mem_references hCounters hMem)
  obtain ⟨referred', hReferred', hIndex⟩ := h.valid.mem_order_iff.mp hOrder
  rw [hReferred] at hReferred'
  cases hReferred'
  exact ⟨target, referred, hTarget, hReferred, hIndex, hAccepts⟩

/-! ### Writing -/

/-- Of a constant whose references can be written, only a text can be too long. -/
theorem payload_error {indexOf : Ref → Except Fault UInt16} {constant : Constant}
    (hRefs : ∀ ref ∈ constant.refs, ∃ index, indexOf ref.2 = .ok index)
    (h : .error fault ∈ constant.payload indexOf) :
    ∃ text, constant = .utf8 text ∧ 65535 < text.encode.length ∧
      fault = .format (.utf8TooLong text.encode.length) := by
  have hNone : ¬.error fault ∈ constant.refs.map fun ref => (indexOf ref.2).map Wire.u16 := by
    intro hMem
    obtain ⟨ref, hRef, hEq⟩ := List.mem_map.mp hMem
    obtain ⟨index, hIndex⟩ := hRefs ref hRef
    rw [hIndex] at hEq
    cases hEq
  cases constant with
  | utf8 text =>
    by_cases hFits : text.encode.length ≤ 65535
    · simp [Constant.payload, hFits] at h
    · simp [Constant.payload, hFits] at h
      exact ⟨text, rfl, Nat.not_le.mp hFits, h⟩
  | integer _ | float _ | long _ | double _ => simp [Constant.payload] at h
  | string _ | classRef _ | nameAndType _ _ | member _ _ _ => exact absurd h hNone

theorem write_fault (hClosed : pool.Closed) (hLaidOut : pool.LaidOut)
    (h : pool.write.fault = some fault) :
    ∃ id entry text, pool.get? id = some entry ∧ entry.index.isSome ∧ entry.value = .utf8 text ∧
      65535 < text.encode.length ∧ fault = .format (.utf8TooLong text.encode.length) := by
  obtain ⟨chunk, hChunk, hFault⟩ := List.exists_of_findSome?_eq_some h
  cases chunk with
  | ok _ => cases hFault
  | error _ =>
    cases hFault
    rcases List.mem_cons.mp hChunk with hHead | hRest
    · cases hHead
    · obtain ⟨id, hId, hMem⟩ := List.mem_flatMap.mp hRest
      obtain ⟨entry, hEntry, hIndex⟩ := hLaidOut.mem_order_iff.mp hId
      rw [hEntry] at hMem
      have hPayload := (List.mem_cons.mp hMem).resolve_left (by simp)
      have hRefs : ∀ ref ∈ entry.value.refs, ∃ index, pool.finalIndex ref.2 = .ok index := by
        intro ref hRef
        obtain ⟨target, referred, hTarget, hReferred, hLive, _⟩ :=
          hClosed id entry hEntry hIndex ref hRef
        rw [hTarget]
        exact finalIndex_of_live hReferred hLive
      obtain ⟨text, hText, hLength, hCause⟩ := payload_error hRefs hPayload
      exact ⟨id, entry, text, hEntry, hIndex, hText, hLength, hCause⟩

end Pool

namespace Image

/-- Unless a counter has started again, a finished pool holds no reference that cannot be written;
only a text may be too long. -/
theorem finish_closes_pool (settings : Settings) (files : List ClassFile)
    (hRead : ∀ file ∈ files, file.IsRead)
    (hCounters : ((empty settings).addClasses files).pool.NoOverflow) (final : Image)
    (hFinish : ((empty settings).addClasses files).finish = (.ok (), final)) :
    final.pool.Closed ∧
      (final.writePool.fault = none ∨
        ∃ id entry text, final.pool.get? id = some entry ∧ entry.index.isSome ∧
          entry.value = .utf8 text ∧ 65535 < text.encode.length ∧
          final.writePool.fault = some (.plain (.format (.utf8TooLong text.encode.length)))) := by
  have hSound := (sound_empty settings).addClasses hRead
  obtain ⟨hPool, hStage, _⟩ := finish_ok hSound.collecting hFinish
  obtain ⟨holders, hAccounts, _⟩ := hSound.ledger
  have hPruned := Settings.pruned_freeze ((empty settings).addClasses files).settings hSound.valid
  rw [← hPool] at hPruned
  have hClosed := hPruned.closed hSound.valid hSound.live hAccounts hCounters
  refine ⟨hClosed, ?_⟩
  have hWrite : final.writePool.fault = final.pool.write.fault.map .plain := by
    unfold writePool
    rw [if_pos hStage]
  rw [hWrite]
  cases hFault : final.pool.write.fault with
  | none => exact .inl rfl
  | some fault =>
    obtain ⟨id, entry, text, hEntry, hIndex, hText, hLength, rfl⟩ :=
      Pool.write_fault hClosed hPruned.valid.toLaidOut hFault
    exact .inr ⟨id, entry, text, hEntry, hIndex, hText, hLength, rfl⟩

/-- Compaction deletes three texts of the example class, and the rest of the pool can be written. -/
theorem finish_closes_pool_demo :
    ∃ final, ((empty ⟨"", "", true, true⟩).addClasses [.demo]).pool.NoOverflow ∧
      ((empty ⟨"", "", true, true⟩).addClasses [.demo]).finish = (.ok (), final) ∧
      (final.pool.arena.size = 13 ∧ final.pool.order.length = 10 ∧
        final.writePool.fault = none) ∧
      final.pool.Closed ∧
      (final.writePool.fault = none ∨
        ∃ id entry text, final.pool.get? id = some entry ∧ entry.index.isSome ∧
          entry.value = .utf8 text ∧ 65535 < text.encode.length ∧
          final.writePool.fault = some (.plain (.format (.utf8TooLong text.encode.length)))) := by
  have hOk : ((empty ⟨"", "", true, true⟩).addClasses [.demo]).finish.1 = .ok () := by
    decide +kernel
  have hCounters : ((empty ⟨"", "", true, true⟩).addClasses [.demo]).pool.NoOverflow := by
    decide +kernel
  refine ⟨_, hCounters, Prod.ext hOk rfl, by decide +kernel, ?_⟩
  refine finish_closes_pool _ _ (fun file hFile => ?_) hCounters _ (Prod.ext hOk rfl)
  rw [List.mem_singleton.mp hFile]
  exact ClassFile.demo_isRead

end Image

end ClassRom
