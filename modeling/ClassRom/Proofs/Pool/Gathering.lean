import ClassRom.Pool.Wire
import ClassRom.Proofs.Pool.Layout
import ClassRom.Proofs.Table.Spacing

/-!
# Pools from tables

The constants of a table are gathered in the arena of a new pool, those with equal keys as one entry,
before their references are turned from the table to the pool and the entries are laid out. What was
gathered has its keys in the table; after the turn each entry has the same key in the pool.
-/

namespace ClassRom

set_option autoImplicit false

/-- The keys of those constants that have one. -/
def Source.keysOf (source : Source) (constants : List Constant) : List Key :=
  constants.filterMap fun constant => (source.keyOf constant).toOption

theorem Source.keysOf_append (source : Source) (first second : List Constant) :
    source.keysOf (first ++ second) = source.keysOf first ++ source.keysOf second :=
  List.filterMap_append

theorem Source.keysOf_singleton {source : Source} {constant : Constant} {key : Key}
    (h : source.HasKey constant key) : source.keysOf [constant] = [key] := by
  unfold keysOf
  rw [List.filterMap_cons_some (b := key) (by rw [keyOf_of_hasKey h]; rfl), List.filterMap_nil]

/-- The keys of the constants in some slots of a table. -/
def Table.keysAt (table : Table) (slots : List (Nat × Constant)) : List Key :=
  slots.filterMap fun slot => (table.source.keyOf slot.2).toOption

theorem Table.keysAt_append (table : Table) (first second : List (Nat × Constant)) :
    table.keysAt (first ++ second) = table.keysAt first ++ table.keysAt second :=
  List.filterMap_append

theorem Table.keysAt_singleton {table : Table} {slot : Nat} {constant : Constant} {key : Key}
    (h : table.source.HasKey constant key) : table.keysAt [(slot, constant)] = [key] :=
  Source.keysOf_singleton h

theorem Table.mem_keysAt {table : Table} {slots : List (Nat × Constant)} {key : Key} :
    key ∈ table.keysAt slots ↔
      ∃ slot constant, (slot, constant) ∈ slots ∧ table.source.HasKey constant key := by
  unfold keysAt
  rw [List.mem_filterMap]
  simp only [Source.toOption_keyOf_eq_some, Prod.exists]

theorem Table.length_keysAt_entries_le (table : Table) :
    (table.keysAt table.entries).length ≤ table.size := by
  unfold keysAt entries size
  refine Nat.le_trans (List.length_filterMap_le _ _) (Nat.le_trans (List.length_filterMap_le _ _) ?_)
  rw [List.length_zipIdx, Array.length_toList]

namespace Pool

variable {table : Table} {pool before after : Pool} {ids : Array (Option EntryId)}
  {done rest : List (Nat × Constant)} {slot : Nat} {constant : Constant} {key : Key}
  {id existing : EntryId} {entry : Entry}

/-- The constants of all entries, live or deleted. -/
def values (pool : Pool) : List Constant := pool.arena.toList.map (·.value)

theorem getElem?_values (pool : Pool) (id : EntryId) :
    pool.values[id]? = pool.source.constant? id := by
  unfold values
  rw [List.getElem?_map, Array.getElem?_toList]
  rfl

theorem values_modify {f : Entry → Entry} (hf : Counting f) (pool : Pool) (id : EntryId) :
    (pool.modify id f).values = pool.values := by
  refine List.ext_getElem? fun i => ?_
  rw [getElem?_values, getElem?_values, source_modify hf]

/-! ### Gathering -/

/-- What gathering the constants of some slots leads to. -/
structure Gathered (table : Table) (done : List (Nat × Constant)) (pool : Pool)
    (ids : Array (Option EntryId)) : Prop where
  size_eq : ids.size = table.size
  inside : ∀ slot constant, (slot, constant) ∈ done → table.slot? slot = some constant
  standing : ∀ slot constant, (slot, constant) ∈ done → ∃ key id,
    table.source.HasKey constant key ∧ pool.find? key = some id ∧ ids[slot]?.join = some id
  find?_iff : ∀ key id, pool.find? key = some id ↔
    ∃ entry, pool.get? id = some entry ∧ table.source.HasKey entry.value key
  sublist : pool.values.Sublist (done.map Prod.snd)
  keys_eq : table.source.keysOf pool.values = (table.keysAt done).eraseDups
  total_eq : ∀ key id, pool.find? key = some id →
    (pool.usesAt id).total = (table.keysAt done).count key
  owned : pool.Owned

theorem gathered_empty (id : PoolId) (table : Table) :
    Gathered table [] (empty id) (Array.replicate table.size none) where
  size_eq := Array.size_replicate
  inside _ _ h := by cases h
  standing _ _ h := by cases h
  find?_iff key id := by
    constructor
    · intro hFound
      simp [find?, empty] at hFound
    · rintro ⟨_, hEntry, _⟩
      cases hEntry
  sublist := .refl []
  keys_eq := rfl
  total_eq key id hFound := by simp [find?, empty] at hFound
  owned _ _ hEntry := by cases hEntry

theorem join_setIfInBounds {index other : Nat} (h : index < ids.size) :
    (ids.setIfInBounds index (some id))[other]?.join =
      if other = index then some id else ids[other]?.join := by
  rw [Array.getElem?_setIfInBounds]
  by_cases hOther : other = index
  · subst other
    rw [if_pos rfl, if_pos h, if_pos rfl]
    rfl
  · rw [if_neg (Ne.symm hOther), if_neg hOther]

theorem values_enter (pool : Pool) (entry : Entry) (key : Key) :
    (pool.enter entry key).values = pool.values ++ [entry.value] := by
  simp [values, enter]

namespace Gathered

theorem mem_keysAt_iff (h : Gathered table done pool ids) :
    key ∈ table.keysAt done ↔ ∃ id, pool.find? key = some id := by
  rw [Table.mem_keysAt]
  constructor
  · rintro ⟨slot, constant, hDone, hKey⟩
    obtain ⟨key', id, hKey', hFound, _⟩ := h.standing slot constant hDone
    obtain rfl := hKey.unique hKey'
    exact ⟨id, hFound⟩
  · rintro ⟨id, hFound⟩
    obtain ⟨entry, hEntry, hKey⟩ := (h.find?_iff key id).mp hFound
    have hValue : entry.value ∈ pool.values :=
      List.mem_of_getElem? ((getElem?_values pool id).trans (constant?_of_get? hEntry))
    obtain ⟨⟨slot, constant⟩, hDone, hEq⟩ := List.mem_map.mp (h.sublist.subset hValue)
    exact ⟨slot, constant, hDone, by rw [show constant = entry.value from hEq]; exact hKey⟩

/-- What the next slot has to bring: the later pool finds what the earlier one found, and the new
constant under its own number. -/
theorem standing_next (h : Gathered table done before ids)
    (hSlot : table.slot? slot = some constant) (hKey : table.source.HasKey constant key)
    (hFound : after.find? key = some id)
    (hKept : ∀ key id, before.find? key = some id → after.find? key = some id)
    (other : Nat) (value : Constant) (hMem : (other, value) ∈ done ++ [(slot, constant)]) :
    ∃ key id', table.source.HasKey value key ∧ after.find? key = some id' ∧
      (ids.setIfInBounds slot (some id))[other]?.join = some id' := by
  have hBound : slot < ids.size := by
    rw [h.size_eq]
    exact Table.lt_size_of_slot? hSlot
  rw [join_setIfInBounds hBound]
  by_cases hOther : other = slot
  · -- a slot holds one constant, so this is the new one
    subst other
    have hValue : value = constant := by
      rcases List.mem_append.mp hMem with hOld | hNew
      · exact Option.some.inj ((h.inside slot value hOld).symm.trans hSlot)
      · cases List.mem_singleton.mp hNew
        rfl
    subst hValue
    exact ⟨key, id, hKey, hFound, if_pos rfl⟩
  · rw [if_neg hOther]
    have hOld : (other, value) ∈ done := by
      rcases List.mem_append.mp hMem with hOld | hNew
      · exact hOld
      · cases List.mem_singleton.mp hNew
        exact absurd rfl hOther
    obtain ⟨key', id', hKey', hFound', hId'⟩ := h.standing other value hOld
    exact ⟨key', id', hKey', hKept key' id' hFound', hId'⟩

theorem inside_next (h : Gathered table done pool ids) (hSlot : table.slot? slot = some constant)
    (other : Nat) (value : Constant) (hMem : (other, value) ∈ done ++ [(slot, constant)]) :
    table.slot? other = some value := by
  rcases List.mem_append.mp hMem with hOld | hNew
  · exact h.inside other value hOld
  · cases List.mem_singleton.mp hNew
    exact hSlot

theorem found (h : Gathered table done pool ids) (hSlot : table.slot? slot = some constant)
    (hKey : table.source.HasKey constant key) (hFound : pool.find? key = some existing) :
    Gathered table (done ++ [(slot, constant)]) (pool.addUse existing)
      (ids.setIfInBounds slot (some existing)) where
  size_eq := by rw [Array.size_setIfInBounds, h.size_eq]
  inside := h.inside_next hSlot
  standing := h.standing_next hSlot hKey hFound fun _ _ hKept => hKept
  find?_iff key' id := by
    unfold addUse
    rw [exists_get?_modify counting_addUse (P := fun value _ => table.source.HasKey value key')]
    exact h.find?_iff key' id
  sublist := by
    unfold addUse
    rw [values_modify counting_addUse, List.map_append]
    exact h.sublist.trans (List.sublist_append_left _ _)
  keys_eq := by
    have hMem := h.mem_keysAt_iff.mpr ⟨existing, hFound⟩
    unfold addUse
    rw [values_modify counting_addUse, h.keys_eq, Table.keysAt_append, Table.keysAt_singleton hKey,
      List.eraseDups_append]
    simp [List.removeAll, hMem]
  total_eq key' id hFound' := by
    have hTotal := h.total_eq key' id hFound'
    obtain ⟨entry, hEntry, hKey'⟩ := (h.find?_iff key' id).mp hFound'
    obtain ⟨found, hExisting, hKeyFound⟩ := (h.find?_iff key existing).mp hFound
    rw [usesAt_addUse hExisting, Table.keysAt_append, Table.keysAt_singleton hKey,
      List.count_append, ← hTotal, List.count_singleton]
    by_cases hId : id = existing
    · subst id
      rw [hEntry] at hExisting
      cases hExisting
      obtain rfl := hKey'.unique hKeyFound
      rw [if_pos rfl, Counter.total_add]
      simp
    · have hNe : key' ≠ key := by
        rintro rfl
        exact hId (Option.some.inj (hFound'.symm.trans hFound))
      rw [if_neg hId]
      simp [Ne.symm hNe]
  owned := h.owned.modify counting_addUse existing

theorem entered (h : Gathered table done pool ids) (hSlot : table.slot? slot = some constant)
    (hKey : table.source.HasKey constant key) (hNew : pool.find? key = none) :
    Gathered table (done ++ [(slot, constant)]) (pool.enter (.new pool.id constant 1 0) key)
      (ids.setIfInBounds slot (some pool.arena.size)) where
  size_eq := by rw [Array.size_setIfInBounds, h.size_eq]
  inside := h.inside_next hSlot
  standing := by
    refine h.standing_next hSlot hKey ?_ fun key' id hFound => ?_
    · simp
    · have hNe : key' ≠ key := by
        rintro rfl
        rw [hNew] at hFound
        cases hFound
      simp [hNe, hFound]
  find?_iff key' id := by
    rw [find?_enter, get?_enter]
    by_cases hId : id = pool.arena.size
    · subst id
      have hOther : pool.find? key' ≠ some pool.arena.size := by
        intro hFound
        obtain ⟨entry, hEntry, _⟩ := (h.find?_iff key' _).mp hFound
        exact ne_arena_size_of_get? hEntry rfl
      have hUnique : table.source.HasKey constant key' ↔ key' = key :=
        ⟨fun hKey' => hKey'.unique hKey, fun hEq => by rw [hEq]; exact hKey⟩
      simp [hUnique, hOther]
    · rw [if_neg hId, ← h.find?_iff]
      by_cases hKey' : key' = key
      · subst key'
        simp [hNew, Ne.symm hId]
      · rw [if_neg hKey']
  sublist := by
    rw [values_enter, List.map_append]
    exact h.sublist.append (.refl _)
  keys_eq := by
    have hMem : key ∉ table.keysAt done := by simp [h.mem_keysAt_iff, hNew]
    rw [values_enter, Entry.value_new, Source.keysOf_append, Source.keysOf_singleton hKey, h.keys_eq,
      Table.keysAt_append, Table.keysAt_singleton hKey, List.eraseDups_append]
    simp [List.removeAll, hMem, List.eraseDups_cons]
  total_eq key' id hFound := by
    rw [Table.keysAt_append, Table.keysAt_singleton hKey, List.count_append, List.count_singleton]
    rw [find?_enter] at hFound
    unfold usesAt
    rw [get?_enter]
    by_cases hKey' : key' = key
    · subst key'
      rw [if_pos rfl] at hFound
      cases hFound
      have hNone : key ∉ table.keysAt done := by simp [h.mem_keysAt_iff, hNew]
      rw [if_pos rfl, List.count_eq_zero.mpr hNone]
      simp
    · rw [if_neg hKey'] at hFound
      obtain ⟨entry, hEntry, _⟩ := (h.find?_iff key' id).mp hFound
      rw [if_neg (ne_arena_size_of_get? hEntry), ← h.total_eq key' id hFound]
      simp [usesAt, Ne.symm hKey']
  owned := h.owned.enter rfl

end Gathered

theorem collect_gathered (hSize : table.size ≤ 65535) {ids' : Array (Option EntryId)}
    (hRest : ∀ slot constant, (slot, constant) ∈ rest → table.slot? slot = some constant)
    (h : Gathered table done before ids)
    (hRun : collect table rest before ids = .ok (after, ids')) :
    Gathered table (done ++ rest) after ids' ∧ after.id = before.id := by
  induction rest generalizing done before ids with
  | nil =>
    cases hRun
    rw [List.append_nil]
    exact ⟨h, rfl⟩
  | cons head rest ih =>
    obtain ⟨slot, constant⟩ := head
    have hSlot := hRest slot constant List.mem_cons_self
    have hBound := Table.lt_size_of_slot? hSlot
    have hIndex : (UInt16.ofNat slot).toNat = slot :=
      UInt16.toNat_ofNat_of_lt' (by unfold UInt16.size; omega)
    have hTail : ∀ slot constant, (slot, constant) ∈ rest → table.slot? slot = some constant :=
      fun slot constant hMem => hRest slot constant (List.mem_cons_of_mem _ hMem)
    rw [collect] at hRun
    split at hRun
    next => cases hRun
    next key hKeyOf =>
      have hKey := Source.hasKey_of_keyOf hKeyOf
      dsimp only at hRun
      rw [hIndex] at hRun
      rw [List.append_cons]
      split at hRun
      next existing hFound =>
        obtain ⟨hGathered, hId⟩ := ih hTail (h.found hSlot hKey hFound) hRun
        exact ⟨hGathered, hId⟩
      next hNew =>
        obtain ⟨hGathered, hId⟩ := ih hTail (h.entered hSlot hKey hNew) hRun
        exact ⟨hGathered, hId⟩

theorem collect_ok (hKeys : ∀ slot constant, (slot, constant) ∈ rest →
    ∃ key, table.source.HasKey constant key) (pool : Pool) (ids : Array (Option EntryId)) :
    ∃ after ids', collect table rest pool ids = .ok (after, ids') := by
  induction rest generalizing pool ids with
  | nil => exact ⟨pool, ids, rfl⟩
  | cons head rest ih =>
    obtain ⟨slot, constant⟩ := head
    obtain ⟨key, hKey⟩ := hKeys slot constant List.mem_cons_self
    have hTail : ∀ slot constant, (slot, constant) ∈ rest → ∃ key, table.source.HasKey constant key :=
      fun slot constant hMem => hKeys slot constant (List.mem_cons_of_mem _ hMem)
    rw [collect, Source.keyOf_of_hasKey hKey]
    dsimp only
    split
    next => exact ih hTail _ _
    next => exact ih hTail _ _

/-! ### Turning references to the pool -/

/-- What a reference into the table becomes. -/
def Rebased (ids : Array (Option EntryId)) (ref : RefKind × Ref) (rebased : Ref) : Prop :=
  ∃ a b, ref.2 = .entry a ∧ ids[a]?.join = some b ∧ rebased = .entry b

def rebaseRef (ids : Array (Option EntryId)) (ref : Ref) : Except FormatFault Ref :=
  ref.resolved >>= fun tableId =>
    match ids[tableId]?.join with
    | some id => return .entry id
    | none => throw (.danglingEntry tableId)

theorem rebaseRef_eq_ok {ref : RefKind × Ref} {rebased : Ref} :
    rebaseRef ids ref.2 = .ok rebased ↔ Rebased ids ref rebased := by
  unfold rebaseRef
  rw [Traversal.bind_eq_ok]
  constructor
  · rintro ⟨a, hA, hDone⟩
    split at hDone
    next b hB => exact ⟨a, b, Source.eq_entry_of_resolved hA, hB, (Except.ok.inj hDone).symm⟩
    next => cases hDone
  · rintro ⟨a, b, hA, hB, rfl⟩
    exact ⟨a, by rw [hA]; rfl, by rw [hB]; rfl⟩

theorem rebase_eq_ok {value : Constant} :
    rebase ids constant = .ok value ↔
      ∃ refs, List.Forall₂ (Rebased ids) constant.refs refs ∧ constant.withRefs refs = value := by
  change (constant.mapRefs fun _ ref => rebaseRef ids ref) = .ok value ↔ _
  rw [Constant.mapRefs_eq, Traversal.bind_eq_ok]
  simp only [Traversal.mapM_eq_ok, rebaseRef_eq_ok, Traversal.pure_eq_ok]

/-- The pool holds what was gathered from a table, all of it in order, with references turned to the
pool. -/
structure Assembled (table : Table) (ids : Array (Option EntryId)) (loose pool : Pool) : Prop
    extends LaidOut pool where
  gathered : Gathered table table.entries loose ids
  id_eq : pool.id = loose.id
  find?_eq : pool.find? = loose.find?
  entries : ∀ id, Option.Rel
    (fun old new => rebase ids old.value = .ok new.value ∧ new.uses = old.uses ∧
      new.owner = old.owner)
    (loose.get? id) (pool.get? id)
  order_eq : pool.order = List.range pool.arena.size

theorem ofTable_assembled {poolId : PoolId} (hSize : table.size ≤ 65535)
    (h : ofTable poolId table = .ok pool) :
    pool.id = poolId ∧ ∃ ids loose, Assembled table ids loose pool := by
  obtain ⟨⟨loose, ids⟩, hCollect, h⟩ := Traversal.bind_eq_ok.mp h
  obtain ⟨arena, hArena, h⟩ := Traversal.bind_eq_ok.mp h
  obtain rfl := Traversal.pure_eq_ok.mp h
  obtain ⟨hGathered, hId⟩ := collect_gathered hSize (fun _ _ => Table.mem_entries_iff.mp)
    (gathered_empty poolId table) hCollect
  have hIn : ∀ id ∈ List.range arena.length, ∃ entry,
      ({ loose with arena := arena.toArray } : Pool).get? id = some entry := by
    intro id hRange
    have hSome : arena.toArray[id]?.isSome := by simpa using hRange
    exact Option.isSome_iff_exists.mp hSome
  obtain ⟨hLaidOut, hOrder, hRelaid, hFind⟩ := relayout_spec List.nodup_range hIn
  refine ⟨hRelaid.id_eq.trans hId, ids, loose, hLaidOut, hGathered, hRelaid.id_eq, hFind,
    fun id => ?_, ?_⟩
  · have hSteps := Traversal.getElem?_rel (Traversal.mapM_eq_ok.mp hArena) id
    rw [Array.getElem?_toList, ← List.getElem?_toArray] at hSteps
    change Option.Rel _ (loose.get? id)
      (({ loose with arena := arena.toArray } : Pool).get? id) at hSteps
    generalize loose.get? id = old at hSteps ⊢
    cases hTurned : ({ loose with arena := arena.toArray } : Pool).get? id with
    | none =>
      rw [hTurned] at hSteps
      cases hSteps
      have hNone := hRelaid.unplaced_eq id
      rw [hTurned, Option.map_none, Option.map_eq_none_iff] at hNone
      rw [hNone]
      exact .none
    | some turned =>
      rw [hTurned] at hSteps
      obtain ⟨entry, rfl, hStep⟩ := Traversal.exists_left_of_rel_some hSteps
      obtain ⟨value, hValue, hDone⟩ := Traversal.bind_eq_ok.mp hStep
      obtain rfl := Traversal.pure_eq_ok.mp hDone
      obtain ⟨index, hAfter⟩ := hRelaid.get? hTurned
      rw [hAfter]
      exact .some ⟨hValue, rfl, rfl⟩
  · rw [hOrder, hRelaid.arena_size_eq, List.size_toArray]

namespace Gathered

theorem exists_hasKey (h : Gathered table done pool ids) (hEntry : pool.get? id = some entry) :
    ∃ key, table.source.HasKey entry.value key := by
  have hValue : entry.value ∈ pool.values :=
    List.mem_of_getElem? ((getElem?_values pool id).trans (constant?_of_get? hEntry))
  obtain ⟨⟨slot, constant⟩, hMem, hEq⟩ := List.mem_map.mp (h.sublist.subset hValue)
  obtain ⟨key, _, hKey, _⟩ := h.standing slot constant hMem
  exact ⟨key, hEq ▸ hKey⟩

theorem exists_target (h : Gathered table table.entries pool ids) {ref : RefKind × Ref}
    (hKey : table.source.HasKey constant key) (hRef : ref ∈ constant.refs) :
    ∃ a b referred key' entry, ref.2 = .entry a ∧ ids[a]?.join = some b ∧
      table.source.constant? a = some referred ∧ table.source.HasKey referred key' ∧
      pool.get? b = some entry ∧ table.source.HasKey entry.value key' ∧
      entry.value.rank < constant.rank := by
  obtain ⟨a, referred, key', hA, hAt, _, hKey', hLt⟩ := hKey.exists_of_mem_refs hRef
  obtain ⟨key'', b, hKey'', hFound, hId⟩ := h.standing a referred (Table.mem_entries_iff.mpr hAt)
  obtain rfl := hKey''.unique hKey'
  obtain ⟨entry, hEntry, hHas⟩ := (h.find?_iff key'' b).mp hFound
  exact ⟨a, b, referred, key'', entry, hA, hId, hAt, hKey', hEntry, hHas,
    by rw [hHas.rank_eq hKey']; exact hLt⟩

end Gathered

theorem ofTable_ok (poolId : PoolId) (hSize : table.size ≤ 65535) (hClosed : table.Closed) :
    ∃ pool, ofTable poolId table = .ok pool := by
  have hKeys : ∀ slot constant, (slot, constant) ∈ table.entries →
      ∃ key, table.source.HasKey constant key := fun slot constant hMem =>
    (hClosed slot constant (Table.mem_entries_iff.mp hMem)).exists_hasKey hClosed
  obtain ⟨loose, ids, hCollect⟩ := collect_ok hKeys (empty poolId)
    (Array.replicate table.size none)
  obtain ⟨hGathered, _⟩ := collect_gathered hSize (fun _ _ => Table.mem_entries_iff.mp)
    (gathered_empty poolId table) hCollect
  have hRebase : ∀ entry ∈ loose.arena.toList, ∃ new, (rebase ids entry.value >>= fun value =>
      pure { entry with value }) = .ok new := by
    intro entry hMem
    obtain ⟨id, hAt⟩ := List.mem_iff_getElem?.mp hMem
    have hEntry : loose.get? id = some entry := Array.getElem?_toList.symm.trans hAt
    obtain ⟨key, hKey⟩ := hGathered.exists_hasKey hEntry
    have hTargets : ∀ ref ∈ entry.value.refs, ∃ rebased, Rebased ids ref rebased := by
      intro ref hRef
      obtain ⟨a, b, _, _, _, hA, hB, _⟩ := hGathered.exists_target hKey hRef
      exact ⟨.entry b, a, b, hA, hB, rfl⟩
    obtain ⟨refs, hRefs⟩ := Traversal.exists_forall₂ hTargets
    exact ⟨_, Traversal.bind_eq_ok.mpr ⟨_, rebase_eq_ok.mpr ⟨refs, hRefs, rfl⟩, rfl⟩⟩
  obtain ⟨arena, hArena⟩ := Traversal.exists_forall₂ hRebase
  exact ⟨_, Traversal.bind_eq_ok.mpr ⟨(loose, ids), hCollect,
    Traversal.bind_eq_ok.mpr ⟨arena, Traversal.mapM_eq_ok.mpr hArena, rfl⟩⟩⟩

/-! ### The pool is valid -/

theorem filterMap_get?_range (pool : Pool) :
    (List.range pool.arena.size).filterMap pool.get? = pool.arena.toList := by
  conv_rhs => rw [← Traversal.filterMap_getElem?_range pool.arena.toList, Array.length_toList]
  exact List.filterMap_congr fun id _ => Array.getElem?_toList.symm

theorem filterMap_constant? (pool : Pool) (ids : List EntryId) :
    ids.filterMap pool.source.constant? = (ids.filterMap pool.get?).map (·.value) :=
  List.map_filterMap.symm

/-- The cells with constants in place of entries are those of a table. -/
theorem Indexed.map_cells (h : pool.Indexed) :
    (pool.order.flatMap pool.cells).map (·.bind pool.source.constant?) =
      (pool.order.filterMap pool.source.constant?).flatMap Constant.cells := by
  have hIn : ∀ id ∈ pool.order, ∃ constant, pool.source.constant? id = some constant := by
    intro id hId
    obtain ⟨entry, hEntry, _⟩ := h.mem_order_iff.mp hId
    exact ⟨entry.value, constant?_of_get? hEntry⟩
  generalize pool.order = ids at hIn
  induction ids with
  | nil => rfl
  | cons id ids ih =>
    obtain ⟨constant, hConstant⟩ := hIn id List.mem_cons_self
    have hCells : (pool.cells id).map (·.bind pool.source.constant?) = constant.cells := by
      unfold cells Constant.cells
      rw [hConstant, List.map_cons, Option.bind_some, hConstant]
      by_cases hWide : constant.isWide <;> simp [hWide]
    rw [List.flatMap_cons, List.map_append, hCells, List.filterMap_cons_some hConstant,
      List.flatMap_cons, ih fun id' hId' => hIn id' (List.mem_cons_of_mem id hId')]

theorem Indexed.length_cells (h : pool.Indexed) : (pool.order.flatMap pool.cells).length =
    ((pool.order.filterMap pool.source.constant?).map Constant.width).sum := by
  rw [← Constant.length_flatMap_cells, ← h.map_cells, List.length_map]

theorem LaidOut.size_eq_widths (h : pool.LaidOut) :
    pool.size = 1 + ((pool.order.filterMap pool.source.constant?).map Constant.width).sum := by
  rw [h.size_eq, h.length_cells]

namespace Assembled

variable {loose : Pool}

theorem hasKey (h : Assembled table ids loose pool) (hEntry : loose.get? id = some entry)
    (hKey : table.source.HasKey entry.value key) :
    ∃ new, pool.get? id = some new ∧ pool.source.HasKey new.value key := by
  -- references lead to entries of lower rank
  induction hRank : entry.value.rank using Nat.strongRecOn generalizing id entry key with
  | _ rank ih =>
    have hRel := h.entries id
    rw [hEntry] at hRel
    obtain ⟨new, hNew, hRebase, _⟩ := Traversal.exists_right_of_some_rel hRel
    obtain ⟨refs, hRefs, hValue⟩ := rebase_eq_ok.mp hRebase
    refine ⟨new, hNew, hValue ▸ hKey.moved (List.forall₂_iff_zip.mpr ⟨hRefs.length_eq, ?_⟩)⟩
    intro ref rebased hPair
    obtain ⟨a, b, hA, hB, rfl⟩ := (List.forall₂_iff_zip.mp hRefs).2 hPair
    obtain ⟨a', b', referred, key', target, hA', hB', hAt, hKey', hTarget, hHas, hLt⟩ :=
      h.gathered.exists_target hKey (List.of_mem_zip hPair).1
    obtain rfl : a = a' := by simpa [hA] using hA'
    obtain rfl : b = b' := Option.some.inj (hB.symm.trans hB')
    obtain ⟨new', hNew', hHas'⟩ := ih _ (hRank ▸ hLt) hTarget hHas rfl
    exact ⟨a, b, hA, rfl, referred, new'.value, key', hAt, hKey', constant?_of_get? hNew', hHas'⟩

theorem exists_hasKey (h : Assembled table ids loose pool) (hEntry : pool.get? id = some entry) :
    ∃ old key, loose.get? id = some old ∧ table.source.HasKey old.value key ∧
      pool.source.HasKey entry.value key := by
  have hRel := h.entries id
  rw [hEntry] at hRel
  obtain ⟨old, hOld, _⟩ := Traversal.exists_left_of_rel_some hRel
  obtain ⟨key, hKey⟩ := h.gathered.exists_hasKey hOld
  obtain ⟨new, hNew, hHas⟩ := h.hasKey hOld hKey
  rw [hEntry] at hNew
  cases hNew
  exact ⟨old, key, hOld, hKey, hHas⟩

theorem find?_iff (h : Assembled table ids loose pool) :
    pool.find? key = some id ↔ ∃ entry, pool.get? id = some entry ∧
      pool.source.HasKey entry.value key := by
  rw [h.find?_eq, h.gathered.find?_iff]
  constructor
  · rintro ⟨old, hOld, hKey⟩
    exact h.hasKey hOld hKey
  · rintro ⟨entry, hEntry, hKey⟩
    obtain ⟨old, key', hOld, hKey', hHas⟩ := h.exists_hasKey hEntry
    exact ⟨old, hOld, hHas.unique hKey ▸ hKey'⟩

/-- What each constant has in common with the one that it was turned from. -/
theorem map_values_eq {α : Type} {f g : Constant → α} (h : Assembled table ids loose pool)
    (hStep : ∀ id old new, loose.get? id = some old → pool.get? id = some new →
      rebase ids old.value = .ok new.value → f new.value = g old.value) :
    pool.values.map f = loose.values.map g := by
  refine List.ext_getElem? fun id => ?_
  rw [List.getElem?_map, List.getElem?_map, getElem?_values, getElem?_values]
  change Option.map _ (Option.map _ (pool.get? id)) = Option.map _ (Option.map _ (loose.get? id))
  have hRel := h.entries id
  cases hOld : loose.get? id with
  | none =>
    rw [hOld] at hRel
    cases hNew : pool.get? id with
    | none => rfl
    | some new => rw [hNew] at hRel; cases hRel
  | some old =>
    rw [hOld] at hRel
    obtain ⟨new, hNew, hRebase, _⟩ := Traversal.exists_right_of_some_rel hRel
    rw [hNew]
    exact congrArg some (hStep id old new hOld hNew hRebase)

theorem wide_eq (h : Assembled table ids loose pool) :
    pool.values.map Constant.isWide = loose.values.map Constant.isWide := by
  refine h.map_values_eq fun id old new _ _ hRebase => ?_
  obtain ⟨refs, _, hValue⟩ := rebase_eq_ok.mp hRebase
  rw [← hValue, Constant.isWide_withRefs]

theorem keysOf_values (h : Assembled table ids loose pool) :
    pool.source.keysOf pool.values = (table.keysAt table.entries).eraseDups := by
  have hMap : pool.values.map (fun value => (pool.source.keyOf value).toOption) =
      loose.values.map fun value => (table.source.keyOf value).toOption := by
    refine h.map_values_eq fun id old new hOld hNew _ => ?_
    obtain ⟨old', key, hOld', hKey, hHas⟩ := h.exists_hasKey hNew
    rw [hOld] at hOld'
    cases hOld'
    rw [Source.keyOf_of_hasKey hKey, Source.keyOf_of_hasKey hHas]
  have hFilter := congrArg (List.filterMap fun key => key) hMap
  rw [List.filterMap_map, List.filterMap_map] at hFilter
  rw [← h.gathered.keys_eq]
  exact hFilter

/-- An entry is used once for each constant of the table with its key, and a table that can be
indexed has too few of them for the counter to start again. -/
theorem uses_eq_count (h : Assembled table ids loose pool) (hSize : table.size ≤ 65535)
    (hEntry : pool.get? id = some entry) (hKey : pool.source.HasKey entry.value key) :
    entry.uses.value = (table.keysAt table.entries).count key := by
  have hRel := h.entries id
  rw [hEntry] at hRel
  obtain ⟨old, hOld, _, hUses, _⟩ := Traversal.exists_left_of_rel_some hRel
  have hFound : loose.find? key = some id := by
    rw [← h.find?_eq]
    exact h.find?_iff.mpr ⟨entry, hEntry, hKey⟩
  have hTotal := h.gathered.total_eq key id hFound
  rw [usesAt_of_get? hOld, ← hUses] at hTotal
  have hCount : (table.keysAt table.entries).count key ≤ table.size :=
    Nat.le_trans List.count_le_length table.length_keysAt_entries_le
  rw [Counter.value_eq_total, hTotal]
  exact (Counter.wraps_eq_zero_iff _).mpr (by omega)

theorem filterMap_order (h : Assembled table ids loose pool) :
    pool.order.filterMap pool.source.constant? = pool.values := by
  rw [h.order_eq, filterMap_constant?, filterMap_get?_range, values]

theorem size_le (h : Assembled table ids loose pool) (hSpaced : table.Spaced) :
    pool.size ≤ table.size := by
  have hSublist := h.gathered.sublist
  rw [Table.map_snd_entries] at hSublist
  have hWidths (constants : List Constant) : constants.map Constant.width =
      (constants.map Constant.isWide).map fun wide => if wide then 2 else 1 := by
    rw [List.map_map]
    rfl
  rw [h.size_eq_widths, h.filterMap_order, hWidths, h.wide_eq, ← hWidths, hSpaced.size_eq]
  exact Nat.add_le_add_left (Constant.sum_width_le hSublist) 1

theorem mem_order (h : Assembled table ids loose pool) (hEntry : pool.get? id = some entry) :
    entry.index.isSome := by
  have hId : id ∈ pool.order := by
    rw [h.order_eq]
    exact List.mem_range.mpr (lt_size_of_get? hEntry)
  obtain ⟨entry', hEntry', hLive⟩ := h.mem_order_iff.mp hId
  rw [hEntry] at hEntry'
  cases hEntry'
  exact hLive

theorem valid (h : Assembled table ids loose pool) (hSpaced : table.Spaced)
    (hSize : table.size ≤ 65535) : pool.Valid where
  toLaidOut := h.toLaidOut
  size_le := Nat.le_trans (h.size_le hSpaced) hSize
  owned id entry hEntry := by
    have hRel := h.entries id
    rw [hEntry] at hRel
    obtain ⟨old, hOld, _, _, hOwner⟩ := Traversal.exists_left_of_rel_some hRel
    rw [hOwner, h.id_eq]
    exact h.gathered.owned id old hOld
  closed id constant hAt := by
    obtain ⟨entry, hEntry, rfl⟩ := constant?_eq_some.mp hAt
    obtain ⟨_, key, _, _, hKey⟩ := h.exists_hasKey hEntry
    exact hKey.closed
  find?_iff key id := by
    rw [h.find?_iff]
    exact exists_congr fun entry => and_congr_right fun hEntry =>
      (and_iff_right (h.mem_order hEntry)).symm

end Assembled

theorem valid_ofTable {poolId : PoolId} (hSpaced : table.Spaced) (hSize : table.size ≤ 65535)
    (h : ofTable poolId table = .ok pool) : pool.Valid := by
  obtain ⟨_, ids, loose, hAssembled⟩ := ofTable_assembled hSize h
  exact hAssembled.valid hSpaced hSize

theorem read_eq_ok {poolId : PoolId} {input rest : Bytes} {count : UInt16} :
    read poolId input = .ok ((pool, count), rest) ↔
      ∃ middle raw table, Reader.u16 input = .ok (count, middle) ∧
        Table.readEntries count middle = .ok (raw, rest) ∧ raw.resolved = .ok table ∧
        ofTable poolId table = .ok pool := by
  unfold read
  simp only [Reader.bind_eq_ok, Reader.lift_eq_ok, Reader.pure_eq_ok, Prod.mk.injEq]
  constructor
  · rintro ⟨count', middle, hCount, raw, middle', hRaw, table, _, ⟨hResolved, rfl⟩, pool', _,
      ⟨hPool, rfl⟩, ⟨rfl, rfl⟩, rfl⟩
    exact ⟨middle, raw, table, hCount, hRaw, hResolved, hPool⟩
  · rintro ⟨middle, raw, table, hCount, hRaw, hResolved, hPool⟩
    exact ⟨count, middle, hCount, raw, rest, hRaw, table, rest, ⟨hResolved, rfl⟩, pool, rest,
      ⟨hPool, rfl⟩, ⟨rfl, rfl⟩, rfl⟩

end Pool

end ClassRom
