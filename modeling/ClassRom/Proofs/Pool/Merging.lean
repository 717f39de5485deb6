import ClassRom.Proofs.Pool.Adding
import ClassRom.Proofs.Table.Spacing

/-!
# Merging tables

Merging a table into a pool adds its constants one by one. Each index of the table gets a handle to
an entry with the key that the constant at this index has in the table, and becomes a holder of it.
-/

namespace ClassRom

set_option autoImplicit false

namespace HandleMap

@[simp] theorem get?_insert (map : HandleMap) (index other : UInt16) (handle : Handle) :
    (map.insert index handle).get? other =
      if other = index then some handle else map.get? other := by
  unfold insert get?
  dsimp only
  rw [Array.getElem?_setIfInBounds]
  by_cases h : other = index
  · subst other
    rw [if_pos rfl, if_pos rfl, if_pos (by simp; omega)]
    rfl
  · have hNe : index.toNat ≠ other.toNat := fun hEq => h (UInt16.toNat_inj.mp hEq).symm
    rw [if_neg h, if_neg hNe]
    grind

@[simp] theorem get?_ofSize (size : Nat) (index : UInt16) : (ofSize size).get? index = none := by
  unfold ofSize get?
  grind

theorem lookup_eq_ok {map : HandleMap} {method : String} {offset : Nat} {index : UInt16}
    {handle : Handle} :
    map.lookup method offset index = .ok handle ↔ map.get? index = some handle := by
  unfold lookup
  cases map.get? index <;> simp

/-- Each index that is mapped leads to an entry of the pool with the key that the constant at the
index has in the table. -/
def Faithful (map : HandleMap) (table : Table) (pool : Pool) : Prop :=
  ∀ index handle, map.get? index = some handle → handle.pool = pool.id ∧
    Source.SameKey table.source pool.source index.toNat handle.entry

theorem Faithful.mono {map : HandleMap} {table : Table} {before after : Pool}
    (h : map.Faithful table before) (hExtends : Pool.Extends before after) :
    map.Faithful table after := by
  intro index handle hHandle
  obtain ⟨hPool, constant, other, key, hConstant, hKey, hOther, hKeyOther⟩ := h index handle hHandle
  exact ⟨hPool.trans hExtends.id_eq.symm, constant, other, key, hConstant, hKey,
    hExtends.constant? _ _ hOther, hKeyOther.mono hExtends.constant?⟩

/-- Each handle leads to an entry of the pool. -/
def Within (map : HandleMap) (pool : Pool) : Prop :=
  ∀ index handle, map.get? index = some handle → ∃ entry, pool.get? handle.entry = some entry

theorem Faithful.within {map : HandleMap} {table : Table} {pool : Pool}
    (h : map.Faithful table pool) : map.Within pool := by
  intro index handle hHandle
  obtain ⟨_, _, other, _, _, _, hOther, _⟩ := h index handle hHandle
  obtain ⟨entry, hEntry, _⟩ := Pool.constant?_eq_some.mp hOther
  exact ⟨entry, hEntry⟩

theorem Within.mono {map : HandleMap} {before after : Pool} (h : map.Within before)
    (hKept : ∀ id entry, before.get? id = some entry → ∃ entry', after.get? id = some entry' ∧
      entry'.value = entry.value ∧ entry'.index = entry.index) : map.Within after := by
  intro index handle hHandle
  obtain ⟨entry, hEntry⟩ := h index handle hHandle
  obtain ⟨entry', hEntry', _⟩ := hKept handle.entry entry hEntry
  exact ⟨entry', hEntry'⟩

theorem Within.insert {map : HandleMap} {pool : Pool} {handle : Handle} {entry : Entry}
    (h : map.Within pool) (index : UInt16) (hEntry : pool.get? handle.entry = some entry) :
    (map.insert index handle).Within pool := by
  intro other handle' hHandle
  rw [get?_insert] at hHandle
  split at hHandle
  · cases hHandle
    exact ⟨entry, hEntry⟩
  · exact h other handle' hHandle

end HandleMap

namespace Table

variable {table : Table}

theorem toNat_ofNat_slot {slot : Nat} {constant : Constant} (h : table.size ≤ 65535)
    (hSlot : table.slot? slot = some constant) : (UInt16.ofNat slot).toNat = slot := by
  have hLt := lt_size_of_slot? hSlot
  exact UInt16.toNat_ofNat_of_lt' (by unfold UInt16.size; omega)

theorem nodup_indices (h : table.size ≤ 65535) : table.indices.Nodup := by
  refine List.pairwise_map.mpr (table.pairwise_entries.imp_of_mem ?_)
  rintro ⟨i, a⟩ ⟨j, b⟩ hA hB hLt hEq
  have hNat := congrArg UInt16.toNat hEq
  rw [toNat_ofNat_slot h (mem_entries_iff.mp hA),
    toNat_ofNat_slot h (mem_entries_iff.mp hB)] at hNat
  exact absurd hNat (Nat.ne_of_lt hLt)

end Table

namespace Pool

variable {pool after : Pool} {table : Table} {map map' : HandleMap} {holders : List EntryId}
  {indices : List UInt16} {L : Pool → List EntryId → Prop}

/-- The handle that an index of a table got from merging the table into a pool. -/
def Merged (table : Table) (pool : Pool) (map : HandleMap) (index : UInt16) (id : EntryId) : Prop :=
  map.get? index = some ⟨pool.id, id⟩ ∧ StandsFor table.source pool index.toNat id

/-- What merging some indices of a table may lead to. -/
def MergedAll (L : Pool → List EntryId → Prop) (table : Table) (indices : List UInt16)
    (map : HandleMap) (before : Pool) (holders : List EntryId)
    (outcome : Except Fault HandleMap × Pool) : Prop :=
  Steady before outcome.2 ∧
    match outcome.1 with
    | .ok map' => (∀ index, index ∉ indices → map'.get? index = map.get? index) ∧
        ∃ ids, List.Forall₂ (Merged table outcome.2 map') indices ids ∧ L outcome.2 (ids ++ holders)
    | .error _ => ∃ extra, L outcome.2 (extra ++ holders)

theorem mergeFrom_merged (hL : IsLedger L) (hNodup : indices.Nodup) (hValid : pool.Valid)
    (hLedger : L pool holders) :
    MergedAll L table indices map pool holders (mergeFrom table indices map pool) := by
  induction indices generalizing map pool holders with
  | nil => exact ⟨.refl hValid, fun _ _ => rfl, [], .nil, hLedger⟩
  | cons index indices ih =>
    obtain ⟨hIndex, hRest⟩ := List.nodup_cons.mp hNodup
    have hAdd : Added L table.source index.toNat pool holders (pool.add table.source index.toNat) :=
      add_added hL hValid (admits_table L pool table) hLedger
    unfold MergedAll
    rw [mergeFrom]
    rcases hRun : pool.add table.source index.toNat with ⟨fault | id, middle⟩
    · rw [hRun] at hAdd
      obtain ⟨hSteady, _, hExtra⟩ := hAdd
      exact ⟨hSteady, hExtra⟩
    · rw [hRun] at hAdd
      obtain ⟨hSteady, _, hStands, hLedger'⟩ := hAdd
      have hTail := @ih middle (map.insert index ⟨middle.id, id⟩) _ hRest hSteady.valid hLedger'
      dsimp only
      rcases hMore : mergeFrom table indices (map.insert index ⟨middle.id, id⟩) middle with
        ⟨fault | map', after⟩
      · rw [hMore] at hTail
        obtain ⟨hSteady', extra, hExtra⟩ := hTail
        exact ⟨hSteady.trans hSteady', extra ++ [id], by simpa using hExtra⟩
      · rw [hMore] at hTail
        obtain ⟨hSteady', hOutside, ids, hIds, hLedger''⟩ := hTail
        refine ⟨hSteady.trans hSteady', ?_, id :: ids,
          .cons ⟨?_, hStands.mono hSteady.valid hSteady'⟩ hIds, hL.perm hLedger'' List.perm_middle⟩
        · intro other hOther
          rw [List.mem_cons, not_or] at hOther
          simp [hOutside other hOther.2, hOther.1]
        · -- no later index overwrites this handle, as indices are distinct
          rw [hOutside index hIndex, HandleMap.get?_insert, if_pos rfl, hSteady'.id_eq]

/-- What merging leads to whatever the table is like. -/
theorem mergeFrom_within (indices : List UInt16) (hValid : pool.Valid) (hMap : map.Within pool) :
    Steady pool (mergeFrom table indices map pool).2 ∧
      Confined table.source (indices.map UInt16.toNat) pool (mergeFrom table indices map pool).2 ∧
      (mergeFrom table indices map pool).2.ldcUsesAt = pool.ldcUsesAt ∧
      ∀ map', (mergeFrom table indices map pool).1 = .ok map' →
        map'.Within (mergeFrom table indices map pool).2 := by
  induction indices generalizing map pool with
  | nil =>
    refine ⟨.refl hValid, .refl _ pool, rfl, ?_⟩
    intro map' hOk
    cases hOk
    exact hMap
  | cons index indices ih =>
    have hAdd : Added (fun after _ => after.ldcUsesAt = pool.ldcUsesAt) table.source index.toNat
        pool [] (pool.add table.source index.toNat) :=
      add_added (isLedger_ldcUsesAt pool.ldcUsesAt) hValid (admits_table _ pool table) rfl
    rw [mergeFrom]
    rcases hRun : pool.add table.source index.toNat with ⟨fault | id, middle⟩
    · rw [hRun] at hAdd
      obtain ⟨hSteady, hConfined, _, hLdc⟩ := hAdd
      refine ⟨hSteady, hConfined.mono (by simp), hLdc, ?_⟩
      intro map' hOk
      cases hOk
    · rw [hRun] at hAdd
      obtain ⟨hSteady, hConfined, ⟨_, key, _, _, hFound⟩, hLdc⟩ := hAdd
      obtain ⟨entry, hEntry, _⟩ := (hSteady.valid.find?_iff key id).mp hFound
      have hMap' : (map.insert index ⟨middle.id, id⟩).Within middle :=
        (hMap.mono hSteady.kept).insert index hEntry
      obtain ⟨hSteady', hConfined', hLdc', hWithin⟩ := ih hSteady.valid hMap'
      exact ⟨hSteady.trans hSteady', hConfined.trans hConfined', hLdc'.trans hLdc, hWithin⟩

theorem merge_within (table : Table) (hValid : pool.Valid) :
    Steady pool (pool.merge table).2 ∧
      Confined table.source (table.indices.map UInt16.toNat) pool (pool.merge table).2 ∧
      (pool.merge table).2.ldcUsesAt = pool.ldcUsesAt ∧
      ∀ map', (pool.merge table).1 = .ok map' → map'.Within (pool.merge table).2 := by
  refine mergeFrom_within table.indices hValid ?_
  intro index handle hHandle
  simp at hHandle

theorem merge_merged (hL : IsLedger L) (hTable : table.WellFormed) (hValid : pool.Valid)
    (hLedger : L pool holders) :
    MergedAll L table table.indices (.ofSize table.size) pool holders (pool.merge table) :=
  mergeFrom_merged hL (Table.nodup_indices hTable.size_le) hValid hLedger

/-- What merging a whole table leads to, whatever is counted. -/
theorem merge_handles (hTable : table.WellFormed) (hValid : pool.Valid)
    (h : pool.merge table = (.ok map, after)) :
    Steady pool after ∧ (∀ index, index ∉ table.indices → map.get? index = none) ∧
      ∀ index ∈ table.indices, ∃ id, Merged table after map index id := by
  have hMerged : MergedAll (fun _ _ => True) table table.indices (.ofSize table.size) pool []
      (pool.merge table) := merge_merged isLedger_true hTable hValid trivial
  rw [h] at hMerged
  obtain ⟨hSteady, hOutside, ids, hIds, _⟩ := hMerged
  refine ⟨hSteady, ?_, ?_⟩
  · intro index hIndex
    simp [hOutside index hIndex]
  · intro index hIndex
    obtain ⟨id, _, hId⟩ := Traversal.exists_right_of_mem hIds hIndex
    exact ⟨id, hId⟩

/-- All indices of the table have handles, and no others. -/
theorem merge_isSome_iff (hTable : table.WellFormed) (hValid : pool.Valid)
    (h : pool.merge table = (.ok map, after)) (index : UInt16) :
    (map.get? index).isSome ↔ index ∈ table.indices := by
  obtain ⟨_, hOutside, hInside⟩ := merge_handles hTable hValid h
  constructor
  · intro hSome
    by_contra hIndex
    rw [hOutside index hIndex] at hSome
    cases hSome
  · intro hIndex
    obtain ⟨id, hGet, _⟩ := hInside index hIndex
    rw [hGet]
    rfl

/-- A handle leads to the live entry that stands for its constant. -/
theorem merge_standsFor {index : UInt16} {handle : Handle} (hTable : table.WellFormed)
    (hValid : pool.Valid) (h : pool.merge table = (.ok map, after))
    (hHandle : map.get? index = some handle) :
    handle.pool = after.id ∧ StandsFor table.source after index.toNat handle.entry := by
  have hIndex : index ∈ table.indices :=
    (merge_isSome_iff hTable hValid h index).mp (by rw [hHandle]; rfl)
  obtain ⟨id, hGet, hStands⟩ := (merge_handles hTable hValid h).2.2 index hIndex
  rw [hHandle] at hGet
  cases hGet
  exact ⟨rfl, hStands⟩

theorem merge_faithful (hTable : table.WellFormed) (hValid : pool.Valid)
    (h : pool.merge table = (.ok map, after)) : map.Faithful table after := by
  intro index handle hHandle
  obtain ⟨hPool, hStands⟩ := merge_standsFor hTable hValid h hHandle
  exact ⟨hPool, hStands.sameKey (merge_handles hTable hValid h).1.valid⟩

/-- Once a table is merged, each of its constants has a handle and is held once more. -/
theorem merge_ok (hL : IsLedger L) (hTable : table.WellFormed) (hValid : pool.Valid)
    (hLedger : L pool holders) (h : pool.merge table = (.ok map, after)) :
    Steady pool after ∧ map.Faithful table after ∧
      ∃ ids, List.Forall₂ (fun index id => map.get? index = some ⟨after.id, id⟩) table.indices ids ∧
        L after (ids ++ holders) := by
  have hMerged := merge_merged hL hTable hValid hLedger
  rw [h] at hMerged
  obtain ⟨hSteady, _, ids, hIds, hLedger'⟩ := hMerged
  exact ⟨hSteady, merge_faithful hTable hValid h, ids, hIds.imp fun _ _ hHead => hHead.1, hLedger'⟩

theorem merge_error {fault : Fault} (hL : IsLedger L) (hTable : table.WellFormed)
    (hValid : pool.Valid) (hLedger : L pool holders)
    (h : pool.merge table = (.error fault, after)) :
    Steady pool after ∧ ∃ extra, L after (extra ++ holders) := by
  have hMerged := merge_merged hL hTable hValid hLedger
  rw [h] at hMerged
  exact hMerged

end Pool

end ClassRom
