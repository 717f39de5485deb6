import ClassRom.Proofs.Pool.Refusal

/-!
# The life of an entry

The number of an entry stays good for as long as its pool exists. No operation changes the constant
behind a number, and so none changes its key either; only its index comes and goes with the layout.
An entry that was deleted never gets an index again and is never found again. Adding its constant
once more makes another entry.

This does not depend on where the constants that are added come from. A container that wrongly
claims to be the pool itself may spoil the keys of new entries, so the invariant kept here is one
without keys.
-/

namespace ClassRom.Pool

set_option autoImplicit false

variable {pool before middle after : Pool} {source : Source} {id : EntryId} {entry : Entry}
  {key : Key} {ids : List EntryId}

/-- The slots and the indices agree, and what can be found stands in a slot. -/
structure Tracked (pool : Pool) : Prop extends LaidOut pool where
  size_le : pool.size ≤ 65535
  mem_order_of_find? : ∀ key id, pool.find? key = some id → id ∈ pool.order

theorem Valid.tracked (h : pool.Valid) : pool.Tracked :=
  ⟨h.toLaidOut, h.size_le, fun _ _ => mem_order_of_find? h⟩

theorem Tracked.indexOf?_iff (h : pool.Tracked) (index : UInt16) :
    pool.indexOf? id = some index ↔ pool.idAt? index = some id := by
  unfold indexOf? idAt?
  rw [Option.bind_eq_some_iff, Option.join_eq_some_iff, h.slot_iff]
  refine exists_congr fun entry => and_congr_right fun hEntry => ?_
  rw [Option.map_eq_some_iff]
  constructor
  · rintro ⟨slot, hSlot, rfl⟩
    -- a slot below 65536 is the same number as an index of two bytes
    have hLt : slot < pool.size := by
      by_contra hLe
      have hNone := Array.getElem?_eq_none (Nat.not_lt.mp hLe)
      rw [(h.slot_iff slot id).mpr ⟨entry, hEntry, hSlot⟩] at hNone
      cases hNone
    rw [UInt16.toNat_ofNat_of_lt' (Nat.lt_of_lt_of_le hLt (Nat.le_succ_of_le h.size_le))]
    exact hSlot
  · intro hSlot
    exact ⟨index.toNat, hSlot, UInt16.ofNat_toNat⟩

/-- The later pool has all entries of the earlier one, with their constants and their owners. What
was deleted stays deleted. -/
structure Lasting (before after : Pool) : Prop where
  tracked : after.Tracked
  id_eq : after.id = before.id
  kept : ∀ id entry, before.get? id = some entry → ∃ entry', after.get? id = some entry' ∧
    entry'.value = entry.value ∧ entry'.owner = entry.owner ∧
      (entry.index = none → entry'.index = none)

namespace Lasting

theorem refl (h : pool.Tracked) : Lasting pool pool :=
  ⟨h, rfl, fun _ entry hEntry => ⟨entry, hEntry, rfl, rfl, fun hIndex => hIndex⟩⟩

theorem trans (h : Lasting before middle) (h' : Lasting middle after) : Lasting before after where
  tracked := h'.tracked
  id_eq := h'.id_eq.trans h.id_eq
  kept id entry hEntry := by
    obtain ⟨e, hE, hValue, hOwner, hIndex⟩ := h.kept id entry hEntry
    obtain ⟨e', hE', hValue', hOwner', hIndex'⟩ := h'.kept id e hE
    exact ⟨e', hE', hValue'.trans hValue, hOwner'.trans hOwner,
      fun hNone => hIndex' (hIndex hNone)⟩

theorem constant? (h : Lasting before after) : before.source.Within after.source := by
  intro id constant hAt
  obtain ⟨entry, hEntry, rfl⟩ := constant?_eq_some.mp hAt
  obtain ⟨entry', hEntry', hValue, _⟩ := h.kept id entry hEntry
  rw [constant?_of_get? hEntry', hValue]

end Lasting

/-! ### Counting and appending -/

theorem lasting_modify {f : Entry → Entry} (hf : Counting f) (h : pool.Tracked) (id : EntryId) :
    Lasting pool (pool.modify id f) where
  tracked := ⟨h.toLaidOut.modify hf id, h.size_le, h.mem_order_of_find?⟩
  id_eq := rfl
  kept other entry hEntry := by
    obtain ⟨g, hg, hGet⟩ := get?_modify_eq hf pool id other
    refine ⟨g entry, by rw [hGet, hEntry]; rfl, hg.value_eq entry, hg.owner_eq entry,
      fun hIndex => ?_⟩
    rw [hg.index_eq, hIndex]

/-- What an operation that hands out an entry may lead to. -/
structure HandsOut (before : Pool) (outcome : Except Fault EntryId × Pool) : Prop where
  lasting : Lasting before outcome.2
  live : ∀ id, outcome.1 = .ok id → id ∈ outcome.2.order

theorem handsOut_error {fault : Fault} (h : Lasting before after) :
    HandsOut before (.error fault, after) :=
  ⟨h, fun _ hOk => by cases hOk⟩

theorem handsOut_ok (h : Lasting before after) (hLive : id ∈ after.order) :
    HandsOut before (.ok id, after) :=
  ⟨h, fun _ hOk => by cases hOk; exact hLive⟩

theorem handsOut_append (h : pool.Tracked) (value : Constant) (uses ldcUses : UInt32) (key : Key) :
    HandsOut pool (pool.append value uses ldcUses key) := by
  by_cases hSize : pool.size + value.width ≤ 65535
  · have hEntered := get?_enter_self pool (.new pool.id value uses ldcUses) key
    have hOrder : ((pool.enter (.new pool.id value uses ldcUses) key).place pool.arena.size).order =
        pool.order ++ [pool.arena.size] := order_place hEntered
    rw [append_of_le hSize]
    refine handsOut_ok ⟨⟨(h.toLaidOut.enter rfl).place hEntered rfl, ?_, ?_⟩, ?_, ?_⟩ ?_
    · rw [size_place hEntered]
      exact hSize
    · intro other id hFound
      rw [find?_place, find?_enter] at hFound
      rw [hOrder, List.mem_append, List.mem_singleton]
      split at hFound
      · exact .inr (Option.some.inj hFound).symm
      · exact .inl (h.mem_order_of_find? other id hFound)
    · exact (extends_append ..).id_eq
    · intro id old hOld
      have hNe := ne_arena_size_of_get? hOld
      refine ⟨old, ?_, rfl, rfl, fun hNone => hNone⟩
      simp [hNe, hOld]
    · rw [hOrder]
      exact List.mem_append_right _ (List.mem_singleton_self _)
  · rw [append_of_lt (Nat.not_le.mp hSize)]
    exact handsOut_error (.refl h)

theorem handsOut_appendLocal (h : pool.Tracked) (constant : Constant) (uses ldcUses : UInt32) :
    HandsOut pool (pool.appendLocal constant uses ldcUses) := by
  unfold appendLocal
  split
  next => exact handsOut_error (.refl h)
  next key _ =>
    split
    next existing hFound =>
      refine handsOut_ok (lasting_modify ?_ h existing) (h.mem_order_of_find? key existing hFound)
      exact ⟨fun _ => rfl, fun _ => rfl, fun _ => rfl⟩
    next =>
      split
      next => exact handsOut_error (.refl h)
      next => exact handsOut_append h constant uses ldcUses key

/-! ### Adding -/

section Adding

variable {again : EntryId → Pool → Except Fault EntryId × Pool}
  (hAgain : ∀ id pool, pool.Tracked → Lasting pool (again id pool).2)
include hAgain

theorem lasting_addRef (h : pool.Tracked) (ref : Ref) : Lasting pool (addRef again ref pool).2 := by
  unfold addRef
  cases ref.resolved with
  | error fault => exact .refl h
  | ok id =>
    have hId := hAgain id pool h
    rcases hRun : again id pool with ⟨fault | target, after⟩
    · rw [hRun] at hId
      simp only [hRun]
      exact hId
    · rw [hRun] at hId
      simp only [hRun]
      exact hId

theorem lasting_addRefs (h : pool.Tracked) (refs : List (RefKind × Ref)) :
    Lasting pool (refs.mapM (fun ref => addRef again ref.2) pool).2 := by
  induction refs generalizing pool with
  | nil => exact .refl h
  | cons ref refs ih =>
    have hHead := lasting_addRef hAgain h ref.2
    rw [List.mapM_cons]
    rcases hFirst : addRef again ref.2 pool with ⟨fault | ref', middle⟩
    · rw [hFirst] at hHead
      rw [bind_run_error hFirst]
      exact hHead
    · rw [hFirst] at hHead
      have hTail := ih hHead.tracked
      rw [bind_run_ok hFirst]
      rcases hRest : refs.mapM (fun ref => addRef again ref.2) middle with ⟨fault | refs', after⟩
      · rw [hRest] at hTail
        rw [bind_run_error hRest]
        exact hHead.trans hTail
      · rw [hRest] at hTail
        rw [bind_run_ok hRest]
        exact hHead.trans hTail

theorem handsOut_addNew (h : pool.Tracked) (constant : Constant) (key : Key) :
    HandsOut pool (addNew again constant key pool) := by
  have hRefs := lasting_addRefs hAgain h constant.refs
  rcases hRun : constant.refs.mapM (fun ref => addRef again ref.2) pool with ⟨fault | refs, middle⟩
  · rw [hRun] at hRefs
    rw [addNew_of_error hRun]
    exact handsOut_error hRefs
  · rw [hRun] at hRefs
    rw [addNew_of_ok hRun]
    have hAppend : HandsOut middle (middle.append (constant.withRefs refs) 1 0 key) :=
      handsOut_append hRefs.tracked _ 1 0 key
    exact ⟨hRefs.trans hAppend.lasting, hAppend.live⟩

theorem handsOut_addVia (h : pool.Tracked) (source : Source) (id : EntryId) :
    HandsOut pool (addVia source again id pool) := by
  unfold addVia
  split
  next => exact handsOut_error (.refl h)
  next constant _ =>
    split
    next => exact handsOut_error (.refl h)
    next existing hOwn =>
      refine handsOut_ok (.refl h) ?_
      unfold findOwn? at hOwn
      split at hOwn
      · cases hKeyOf : pool.source.keyOf constant with
        | error fault => rw [hKeyOf] at hOwn; cases hOwn
        | ok key =>
          rw [hKeyOf] at hOwn
          exact h.mem_order_of_find? key existing (Except.ok.inj hOwn)
      · cases hOwn
    next =>
      split
      next => exact handsOut_error (.refl h)
      next key _ =>
        split
        next existing hFound =>
          exact handsOut_ok (lasting_modify counting_addUse h existing)
            (h.mem_order_of_find? key existing hFound)
        next =>
          split
          next => exact handsOut_error (.refl h)
          next => exact handsOut_addNew hAgain h constant key

end Adding

theorem handsOut_addWithin (source : Source) (depth : Nat) (id : EntryId) (h : pool.Tracked) :
    HandsOut pool (addWithin source depth id pool) := by
  induction depth generalizing id pool with
  | zero => exact handsOut_error (.refl h)
  | succ depth ih =>
    rw [addWithin_succ]
    exact handsOut_addVia (fun id pool hPool => (ih id hPool).lasting) h source id

theorem handsOut_add (h : pool.Tracked) (source : Source) (id : EntryId) :
    HandsOut pool (pool.add source id) :=
  handsOut_addWithin source 3 id h

/-! ### Laying out -/

theorem lasting_relayout (h : pool.Tracked) (hNodup : ids.Nodup) (hSub : ids ⊆ pool.order)
    (lookup : Std.TreeMap Key EntryId Key.cmp)
    (hFind : ∀ (key : Key) id, lookup[key]? = some id → id ∈ ids) :
    Lasting pool ({ pool with lookup }.relayout ids) := by
  obtain ⟨hLaidOut, hOrder, hRelaid, hLookup⟩ := h.relayout_spec hNodup hSub lookup
  refine ⟨⟨hLaidOut, ?_, ?_⟩, hRelaid.id_eq, ?_⟩
  · exact Nat.le_trans (h.size_relayout_le hNodup hSub lookup) h.size_le
  · intro key id hFound
    rw [hLookup] at hFound
    rw [hOrder]
    exact hFind key id hFound
  · intro id entry hEntry
    obtain ⟨index, hAfter⟩ := hRelaid.get? hEntry
    refine ⟨_, hAfter, rfl, rfl, fun hDeleted => ?_⟩
    -- only entries that stood in a slot are laid out again
    cases hIndex : index with
    | none => rfl
    | some slot =>
      have hLive : id ∈ ids := by
        rw [← hOrder, hLaidOut.mem_order_iff]
        exact ⟨_, hAfter, by rw [hIndex]; rfl⟩
      obtain ⟨old, hOld, hSome⟩ := h.mem_order_iff.mp (hSub hLive)
      rw [hEntry] at hOld
      cases hOld
      rw [hDeleted] at hSome
      cases hSome

theorem lasting_sortByLdcUse (h : pool.Tracked) : Lasting pool pool.sortByLdcUse := by
  have hPerm := sortByWeight_perm pool.ldcWeight pool.order
  refine lasting_relayout h (hPerm.nodup_iff.mpr h.nodup_order) hPerm.subset pool.lookup ?_
  intro key id hFound
  exact hPerm.mem_iff.mpr (h.mem_order_of_find? key id hFound)

theorem lasting_compact (h : pool.Tracked) : Lasting pool pool.compact.2 := by
  unfold compact
  split
  · exact .refl h
  · refine lasting_relayout h (h.nodup_order.filter _) List.filter_sublist.subset _ ?_
    intro key id hFound
    obtain ⟨hOld, hUsed⟩ := getElem?_filter_isUsed.mp hFound
    exact List.mem_filter.mpr ⟨h.mem_order_of_find? key id hOld, hUsed⟩

/-! ### Histories -/

/-- The operations that change a pool. Constants may be added from any container. -/
inductive Operation where
  | add (source : Source) (id : EntryId)
  | appendLocal (constant : Constant) (uses ldcUses : UInt32)
  | addUse (id : EntryId)
  | dropUse (id : EntryId)
  | addLdcUse (id : EntryId)
  | lock
  | unlock
  | sortByLdcUse
  | compact

/-- The pool that an operation leaves, whether it succeeds or not. -/
def perform (pool : Pool) : Operation → Pool
  | .add source id => (pool.add source id).2
  | .appendLocal constant uses ldcUses => (pool.appendLocal constant uses ldcUses).2
  | .addUse id => pool.addUse id
  | .dropUse id => pool.dropUse id
  | .addLdcUse id => pool.addLdcUse id
  | .lock => pool.lock
  | .unlock => pool.unlock
  | .sortByLdcUse => pool.sortByLdcUse
  | .compact => pool.compact.2

def performAll (pool : Pool) (history : List Operation) : Pool := history.foldl perform pool

theorem lasting_perform (h : pool.Tracked) (operation : Operation) :
    Lasting pool (pool.perform operation) := by
  cases operation with
  | add source id => exact (handsOut_add h source id).lasting
  | appendLocal constant uses ldcUses =>
    exact (handsOut_appendLocal h constant uses ldcUses).lasting
  | addUse id => exact lasting_modify counting_addUse h id
  | dropUse id => exact lasting_modify counting_dropUse h id
  | addLdcUse id => exact lasting_modify counting_addLdcUse h id
  | lock | unlock =>
    exact ⟨⟨⟨⟨h.slot_iff⟩, h.slots_eq⟩, h.size_le, h.mem_order_of_find?⟩, rfl, (Lasting.refl h).kept⟩
  | sortByLdcUse => exact lasting_sortByLdcUse h
  | compact => exact lasting_compact h

theorem lasting_performAll (h : pool.Tracked) (history : List Operation) :
    Lasting pool (pool.performAll history) := by
  induction history generalizing pool with
  | nil => exact .refl h
  | cons operation history ih =>
    have hStep := lasting_perform h operation
    exact hStep.trans (ih hStep.tracked)

/-! ### What an entry's number stands for -/

/-- The number stands for an entry with the constant, which has the key, and with the owner, which is
the pool itself. Its index, if it has one, is where it stands. -/
structure Identifies (pool : Pool) (id : EntryId) (constant : Constant) (owner : PoolId)
    (key : Key) : Prop where
  get?_eq : ∃ entry, pool.get? id = some entry ∧ entry.value = constant ∧ entry.owner = some owner
  id_eq : pool.id = owner
  keyOf_eq : pool.source.keyOf constant = .ok key
  indexOf?_iff : ∀ index, pool.indexOf? id = some index ↔ pool.idAt? index = some id

/-- The entry is in the arena, but it has no index, stands in no slot, and is neither found nor
handed out. -/
structure Deleted (pool : Pool) (id : EntryId) : Prop where
  index_eq : ∃ entry, pool.get? id = some entry ∧ entry.index = none
  slot_ne : ∀ slot : Nat, pool.slots[slot]? ≠ some (some id)
  find?_ne : ∀ key, pool.find? key ≠ some id
  add_ne : ∀ source other, (pool.add source other).1 ≠ .ok id
  appendLocal_ne : ∀ constant uses ldcUses, (pool.appendLocal constant uses ldcUses).1 ≠ .ok id

theorem Lasting.not_mem_order (h : Lasting before after) (hEntry : before.get? id = some entry)
    (hIndex : entry.index = none) : id ∉ after.order := by
  obtain ⟨entry', hEntry', _, _, hStays⟩ := h.kept id entry hEntry
  intro hLive
  obtain ⟨e, hE, hSome⟩ := h.tracked.mem_order_iff.mp hLive
  rw [hEntry'] at hE
  cases hE
  rw [hStays hIndex] at hSome
  cases hSome

theorem Tracked.deleted (h : pool.Tracked) (hEntry : pool.get? id = some entry)
    (hIndex : entry.index = none) : pool.Deleted id := by
  have hNot : id ∉ pool.order := (Lasting.refl h).not_mem_order hEntry hIndex
  have hHands {outcome : Except Fault EntryId × Pool} (hOut : HandsOut pool outcome) :
      outcome.1 ≠ .ok id :=
    fun hOk => hOut.lasting.not_mem_order hEntry hIndex (hOut.live id hOk)
  refine ⟨⟨entry, hEntry, hIndex⟩, ?_, ?_, ?_, ?_⟩
  · intro slot hSlot
    exact hNot (mem_order_iff.mpr ⟨slot, hSlot⟩)
  · intro key hFound
    exact hNot (h.mem_order_of_find? key id hFound)
  · intro source other
    exact hHands (handsOut_add h source other)
  · intro constant uses ldcUses
    exact hHands (handsOut_appendLocal h constant uses ldcUses)

theorem Lasting.identifies (h : Lasting before after) (hEntry : before.get? id = some entry)
    (hOwner : entry.owner = some before.id) (hKey : before.source.HasKey entry.value key) :
    after.Identifies id entry.value before.id key where
  get?_eq := by
    obtain ⟨entry', hEntry', hValue, hSame, _⟩ := h.kept id entry hEntry
    exact ⟨entry', hEntry', hValue, hSame.trans hOwner⟩
  id_eq := h.id_eq
  keyOf_eq := Source.keyOf_of_hasKey (hKey.mono h.constant?)
  indexOf?_iff := h.tracked.indexOf?_iff

/-- Over any history an entry keeps its constant, its owner and its key, and its index names the
slot that holds it. Once it has no index, it is deleted for good. -/
theorem entry_for_life (start : Pool) (id : EntryId) (entry : Entry) (hValid : start.Valid)
    (hEntry : start.get? id = some entry) :
    ∃ key, start.source.keyOf entry.value = .ok key ∧
      (∀ history, (start.performAll history).Identifies id entry.value start.id key) ∧
      ∀ history later, (start.performAll history).indexOf? id = none →
        ((start.performAll history).performAll later).Deleted id := by
  have hClosed := hValid.closed id entry.value (constant?_of_get? hEntry)
  obtain ⟨key, hKey⟩ := hClosed.exists_hasKey hValid.closed
  refine ⟨key, Source.keyOf_of_hasKey hKey, ?_, ?_⟩
  · intro history
    exact (lasting_performAll hValid.tracked history).identifies hEntry
      (hValid.owned id entry hEntry) hKey
  · intro history later hNone
    have hMiddle := lasting_performAll hValid.tracked history
    obtain ⟨entry', hEntry', _⟩ := hMiddle.kept id entry hEntry
    have hIndex : entry'.index = none := by
      unfold indexOf? at hNone
      rw [hEntry'] at hNone
      exact Option.map_eq_none_iff.mp hNone
    have hLater := lasting_performAll hMiddle.tracked later
    obtain ⟨last, hLast, _, _, hStays⟩ := hLater.kept id entry' hEntry'
    exact hLater.tracked.deleted hLast (hStays hIndex)

/-- A pool whose only constant nothing uses. -/
def unheld : Pool := ((empty 7).appendLocal (.integer 5) 0 0).2

theorem entry_for_life_unheld :
    unheld.Valid ∧ unheld.get? 0 = some ⟨.integer 5, .start 0, .start 0, some 7, some 1⟩ ∧
      (unheld.performAll [.compact]).indexOf? 0 = none ∧
      -- the same constant gets another number
      ((unheld.performAll [.compact]).performAll [.appendLocal (.integer 5) 1 0]).indexOf? 1 =
        some 1 ∧
      ((unheld.performAll [.compact]).performAll [.appendLocal (.integer 5) 1 0]).Deleted 0 := by
  have hValid : unheld.Valid := (appendLocal_steady (valid_empty 7) (.integer 5) 0 0).valid
  have hNone : (unheld.performAll [.compact]).indexOf? 0 = none := by decide +kernel
  obtain ⟨_, _, _, hDeleted⟩ :=
    entry_for_life unheld 0 ⟨.integer 5, .start 0, .start 0, some 7, some 1⟩ hValid rfl
  exact ⟨hValid, rfl, hNone, by decide +kernel, hDeleted [.compact] _ hNone⟩

end ClassRom.Pool
