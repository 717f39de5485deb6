import ClassRom.Pool.Merge
import ClassRom.Proofs.Pool.Ledger
import ClassRom.Proofs.Table.Resolution

/-!
# Adding constants

Adding a constant of another container to a pool keeps the pool valid and changes neither the
constant nor the index of any entry it had, also when it fails half-way and whatever the container
is like. On success the entry returned has the key of the constant, and the caller has become one
more holder of it; on failure holders may have been added, but none was lost.
-/

namespace ClassRom.Pool

set_option autoImplicit false

variable {pool before middle after : Pool} {source : Source} {id : EntryId} {entry : Entry}
  {holders : List EntryId} {L : Pool → List EntryId → Prop}

/-- The later pool is valid and has all entries of the earlier one, with their constants and
indices. Entries that it has besides are live. -/
structure Steady (before after : Pool) : Prop where
  valid : after.Valid
  id_eq : after.id = before.id
  locked_eq : after.locked = before.locked
  kept : ∀ id entry, before.get? id = some entry →
    ∃ entry', after.get? id = some entry' ∧ entry'.value = entry.value ∧
      entry'.index = entry.index
  fresh : ∀ id entry, after.get? id = some entry → before.get? id = none → entry.index.isSome

namespace Steady

theorem refl (h : pool.Valid) : Steady pool pool where
  valid := h
  id_eq := rfl
  locked_eq := rfl
  kept _ entry hEntry := ⟨entry, hEntry, rfl, rfl⟩
  fresh _ _ hEntry hNone := by rw [hEntry] at hNone; cases hNone

theorem trans (h : Steady before middle) (h' : Steady middle after) : Steady before after where
  valid := h'.valid
  id_eq := h'.id_eq.trans h.id_eq
  locked_eq := h'.locked_eq.trans h.locked_eq
  kept id entry hEntry := by
    obtain ⟨e, hE, hValue, hIndex⟩ := h.kept id entry hEntry
    obtain ⟨e', hE', hValue', hIndex'⟩ := h'.kept id e hE
    exact ⟨e', hE', hValue'.trans hValue, hIndex'.trans hIndex⟩
  fresh id entry hEntry hNone := by
    cases hMiddle : middle.get? id with
    | none => exact h'.fresh id entry hEntry hMiddle
    | some e =>
      obtain ⟨e', hE', _, hIndex⟩ := h'.kept id e hMiddle
      rw [hEntry] at hE'
      cases hE'
      rw [hIndex]
      exact h.fresh id e hMiddle hNone

theorem toExtends (h : Steady before after) : Extends before after where
  id_eq := h.id_eq
  constant? id constant hAt := by
    obtain ⟨entry, hEntry, rfl⟩ := constant?_eq_some.mp hAt
    obtain ⟨entry', hEntry', hValue, _⟩ := h.kept id entry hEntry
    rw [constant?_of_get? hEntry', hValue]

theorem find? {key : Key} (h : Steady before after) (hBefore : before.Valid)
    (hFound : before.find? key = some id) : after.find? key = some id := by
  obtain ⟨entry, hEntry, hLive, hKey⟩ := (hBefore.find?_iff key id).mp hFound
  obtain ⟨entry', hEntry', hValue, hIndex⟩ := h.kept id entry hEntry
  refine (h.valid.find?_iff key id).mpr ⟨entry', hEntry', by rw [hIndex]; exact hLive, ?_⟩
  rw [hValue]
  exact hKey.mono h.toExtends.constant?

end Steady

theorem steady_modify {f : Entry → Entry} (hf : Counting f) (h : pool.Valid) (id : EntryId) :
    Steady pool (pool.modify id f) where
  valid := h.modify hf id
  id_eq := rfl
  locked_eq := rfl
  kept other entry hEntry := by
    obtain ⟨g, hg, hGet⟩ := get?_modify_eq hf pool id other
    exact ⟨g entry, by rw [hGet, hEntry]; rfl, hg.value_eq entry, hg.index_eq entry⟩
  fresh other entry hEntry hNone := by
    obtain ⟨g, _, hGet⟩ := get?_modify_eq hf pool id other
    rw [hGet, hNone] at hEntry
    cases hEntry

theorem steady_append {key : Key} (h : pool.Valid) (hIndex : entry.index = none)
    (hOwner : entry.owner = some pool.id) (hClosed : pool.source.Closed entry.value)
    (hKey : pool.source.HasKey entry.value key) (hNew : pool.find? key = none)
    (hSize : pool.size + entry.value.width ≤ 65535) :
    Steady pool ((pool.enter entry key).place pool.arena.size) where
  valid := h.append hIndex hOwner hClosed hKey hNew hSize
  id_eq := (extends_append pool entry key).id_eq
  locked_eq := by
    unfold place
    split <;> rfl
  kept id old hOld := by
    have hNe := ne_arena_size_of_get? hOld
    exact ⟨old, by simp [hNe, hOld], rfl, rfl⟩
  fresh id new hGet hNone := by
    rw [get?_place, get?_enter] at hGet
    by_cases hId : id = pool.arena.size
    · rw [if_pos hId, if_pos hId] at hGet
      cases hGet
      rfl
    · rw [if_neg hId, if_neg hId, hNone] at hGet
      cases hGet

/-- A live entry of the pool has the key of an entry of the source. -/
def StandsFor (source : Source) (pool : Pool) (id entry : EntryId) : Prop :=
  ∃ constant key, source.constant? id = some constant ∧ source.HasKey constant key ∧
    pool.find? key = some entry

theorem StandsFor.sameKey {target : EntryId} (h : StandsFor source pool id target)
    (hValid : pool.Valid) : Source.SameKey source pool.source id target := by
  obtain ⟨constant, key, hConstant, hKey, hFound⟩ := h
  obtain ⟨entry, hEntry, _, hKey'⟩ := (hValid.find?_iff key target).mp hFound
  exact ⟨constant, entry.value, key, hConstant, hKey, constant?_of_get? hEntry, hKey'⟩

theorem StandsFor.mono {target : EntryId} (h : StandsFor source before id target)
    (hBefore : before.Valid) (hSteady : Steady before after) :
    StandsFor source after id target := by
  obtain ⟨constant, key, hConstant, hKey, hFound⟩ := h
  exact ⟨constant, key, hConstant, hKey, hSteady.find? hBefore hFound⟩

/-- Every key that is new in the later pool belongs to a constant that the roots lead to. -/
def Confined (source : Source) (roots : List EntryId) (before after : Pool) : Prop :=
  ∀ key target, after.find? key = some target → before.find? key = some target ∨
    ∃ root ∈ roots, ∃ id constant, source.Reaches root id ∧ source.constant? id = some constant ∧
      source.HasKey constant key

namespace Confined

variable {roots roots' : List EntryId} {constant : Constant}

theorem refl (roots : List EntryId) (pool : Pool) : Confined source roots pool pool :=
  fun _ _ hFound => .inl hFound

theorem trans (h : Confined source roots before middle) (h' : Confined source roots' middle after) :
    Confined source (roots ++ roots') before after := by
  intro key target hFound
  rcases h' key target hFound with hMiddle | ⟨root, hRoot, hReached⟩
  · rcases h key target hMiddle with hBefore | ⟨root, hRoot, hReached⟩
    · exact .inl hBefore
    · exact .inr ⟨root, List.mem_append_left _ hRoot, hReached⟩
  · exact .inr ⟨root, List.mem_append_right _ hRoot, hReached⟩

theorem mono (hSub : roots ⊆ roots') (h : Confined source roots before after) :
    Confined source roots' before after := by
  intro key target hFound
  rcases h key target hFound with hBefore | ⟨root, hRoot, hReached⟩
  · exact .inl hBefore
  · exact .inr ⟨root, hSub hRoot, hReached⟩

theorem of_targets (hConstant : source.constant? id = some constant)
    (h : Confined source constant.targets before after) : Confined source [id] before after := by
  intro key target hFound
  rcases h key target hFound with hBefore | ⟨root, hRoot, id', constant', hReaches, hReached⟩
  · exact .inl hBefore
  · exact .inr ⟨id, List.mem_singleton_self id, id', constant', .step hConstant hRoot hReaches,
      hReached⟩

/-- The key of a constant is not among those that come with what it refers to. -/
theorem find?_eq_none {key : Key} (hKey : source.HasKey constant key)
    (h : Confined source constant.targets before after) (hNew : before.find? key = none) :
    after.find? key = none := by
  cases hFound : after.find? key with
  | none => rfl
  | some target =>
    rcases h key target hFound with hBefore | ⟨root, hRoot, id', constant', hReaches, hAt, hKey'⟩
    · rw [hNew] at hBefore
      cases hBefore
    · -- what a constant refers to has a lower rank than the constant, so another key
      obtain ⟨referred, _, hReferred, hKeyReferred, hLt⟩ := hKey.exists_of_mem_targets hRoot
      have hLe := hReaches.rank_le hReferred hKeyReferred hAt
      have hEq := hKey.rank_eq hKey'
      omega

end Confined

/-- What adding a constant may lead to. -/
def Added (L : Pool → List EntryId → Prop) (source : Source) (id : EntryId) (before : Pool)
    (holders : List EntryId) (outcome : Except Fault EntryId × Pool) : Prop :=
  Steady before outcome.2 ∧ Confined source [id] before outcome.2 ∧
    match outcome.1 with
    | .ok target => StandsFor source outcome.2 id target ∧ L outcome.2 (target :: holders)
    | .error _ => ∃ extra, L outcome.2 (extra ++ holders)

/-- Nothing in the source belongs to the pool. -/
def Foreign (source : Source) (pool : Pool) : Prop := ∀ id, source.owner? id ≠ some pool.id

theorem foreign_table (table : Table) (pool : Pool) : Foreign table.source pool := by
  intro id hOwner
  cases hOwner

theorem Owned.foreign {other : Pool} (h : other.Owned) (hId : other.id ≠ pool.id) :
    Foreign other.source pool := by
  intro id hOwner
  obtain ⟨entry, hEntry, hOwner⟩ := Option.bind_eq_some_iff.mp hOwner
  rw [h id entry hEntry] at hOwner
  exact hId (Option.some.inj hOwner)

theorem Foreign.findOwn? (h : Foreign source pool) (id : EntryId) (constant : Constant) :
    pool.findOwn? source id constant = .ok none := if_neg (h id)

/-- Nothing in the source belongs to the pool, or the source is an earlier state of this pool and no
account is kept. -/
def Admits (L : Pool → List EntryId → Prop) (pool : Pool) (source : Source) : Prop :=
  ∀ id, source.owner? id = some pool.id →
    source.AllClosed ∧ source.Within pool.source ∧ ∀ pool holders, L pool holders

theorem Admits.mono (h : Admits L before source) (hExtends : Extends before after) :
    Admits L after source := by
  intro id hOwner
  rw [hExtends.id_eq] at hOwner
  obtain ⟨hClosed, hWithin, hFree⟩ := h id hOwner
  exact ⟨hClosed, fun id constant hAt => hExtends.constant? id constant (hWithin id constant hAt),
    hFree⟩

theorem Foreign.admits (h : Foreign source pool) (L : Pool → List EntryId → Prop) :
    Admits L pool source := fun id hOwner => absurd hOwner (h id)

theorem admits_table (L : Pool → List EntryId → Prop) (pool : Pool) (table : Table) :
    Admits L pool table.source := (foreign_table table pool).admits L

/-- A function that adds constants of the source to any pool that admits them. -/
def Adds (L : Pool → List EntryId → Prop) (source : Source)
    (add : EntryId → Pool → Except Fault EntryId × Pool) : Prop :=
  ∀ id pool holders, pool.Valid → Admits L pool source → L pool holders →
    Added L source id pool holders (add id pool)

theorem added_error {fault : Fault} (h : pool.Valid) (hLedger : L pool holders) :
    Added L source id pool holders (.error fault, pool) :=
  ⟨.refl h, .refl [id] pool, [], hLedger⟩

theorem Added.after_steady {outcome : Except Fault EntryId × Pool} (hSteady : Steady before middle)
    (hConfined : Confined source [id] before middle)
    (h : Added L source id middle holders outcome) : Added L source id before holders outcome :=
  ⟨hSteady.trans h.1, (hConfined.trans h.2.1).mono (by simp), h.2.2⟩

/-! ### One call at a time -/

/-- Adds what a reference leads to. -/
def addRef (add : EntryId → Pool → Except Fault EntryId × Pool) (ref : Ref) :
    ExceptT Fault (StateM Pool) Ref := fun pool =>
  match ref.resolved with
  | .error fault => (.error (.format fault), pool)
  | .ok id =>
    match add id pool with
    | (.error fault, pool) => (.error fault, pool)
    | (.ok id, pool) => (.ok (.entry id), pool)

section Run

variable {α β : Type} {first : ExceptT Fault (StateM Pool) α}
  {next : α → ExceptT Fault (StateM Pool) β} {value : α} {fault : Fault}

theorem bind_run_ok (h : first pool = (.ok value, middle)) :
    (first >>= next) pool = next value middle := by
  change (let result := first pool; ExceptT.bindCont next result.1 result.2) = _
  rw [h]
  rfl

theorem bind_run_error (h : first pool = (.error fault, middle)) :
    (first >>= next) pool = (.error fault, middle) := by
  change (let result := first pool; ExceptT.bindCont next result.1 result.2) = _
  rw [h]
  rfl

end Run

/-- Appends a constant under its key after what it refers to. -/
def addNew (again : EntryId → Pool → Except Fault EntryId × Pool) (constant : Constant) (key : Key)
    (pool : Pool) : Except Fault EntryId × Pool :=
  match constant.mapRefs (fun _ ref => addRef again ref) pool with
  | (.error fault, pool) => (.error fault, pool)
  | (.ok value, pool) => pool.append value 1 0 key

/-- One call of the recursion that adds a constant, with the calls it makes left open. -/
def addVia (source : Source) (again : EntryId → Pool → Except Fault EntryId × Pool) (id : EntryId)
    (pool : Pool) : Except Fault EntryId × Pool :=
  match source.constant? id with
  | none => (.error (.format (.danglingEntry id)), pool)
  | some constant =>
    match pool.findOwn? source id constant with
    | .error fault => (.error (.format fault), pool)
    | .ok (some existing) => (.ok existing, pool)
    | .ok none =>
      match source.keyOf constant with
      | .error fault => (.error (.format fault), pool)
      | .ok key =>
        match pool.find? key with
        | some existing => (.ok existing, pool.addUse existing)
        | none =>
          if pool.locked then (.error (.lockedPool pool.id key.display), pool)
          else addNew again constant key pool

theorem addWithin_succ (source : Source) (depth : Nat) :
    addWithin source (depth + 1) = addVia source (addWithin source depth) := rfl

section Call

variable {again : EntryId → Pool → Except Fault EntryId × Pool} {constant : Constant} {key : Key}

theorem addNew_of_error {fault : Fault}
    (h : constant.refs.mapM (fun ref => addRef again ref.2) pool = (.error fault, middle)) :
    addNew again constant key pool = (.error fault, middle) := by
  unfold addNew
  rw [Constant.mapRefs_eq, bind_run_error h]

theorem addNew_of_ok {refs : List Ref}
    (h : constant.refs.mapM (fun ref => addRef again ref.2) pool = (.ok refs, middle)) :
    addNew again constant key pool = middle.append (constant.withRefs refs) 1 0 key := by
  unfold addNew
  rw [Constant.mapRefs_eq, bind_run_ok h]
  rfl

theorem addVia_new (hConstant : source.constant? id = some constant)
    (hForeign : Foreign source pool) (hKey : source.HasKey constant key)
    (hNew : pool.find? key = none) (hUnlocked : pool.locked = false) :
    addVia source again id pool = addNew again constant key pool := by
  unfold addVia
  simp only [hConstant, hForeign.findOwn?, Source.keyOf_of_hasKey hKey, hNew, hUnlocked,
    Bool.false_eq_true, if_false]

theorem addVia_found {existing : EntryId} (hConstant : source.constant? id = some constant)
    (hForeign : Foreign source pool) (hKey : source.HasKey constant key)
    (hFound : pool.find? key = some existing) :
    addVia source again id pool = (.ok existing, pool.addUse existing) := by
  unfold addVia
  simp only [hConstant, hForeign.findOwn?, Source.keyOf_of_hasKey hKey, hFound]

end Call

/-! ### The constants that a constant refers to -/

/-- What adding the constant behind a reference may lead to. -/
def AddedRef (L : Pool → List EntryId → Prop) (source : Source) (ref : RefKind × Ref)
    (before : Pool) (holders : List EntryId) (outcome : Except Fault Ref × Pool) : Prop :=
  Steady before outcome.2 ∧ Confined source ref.2.target?.toList before outcome.2 ∧
    match outcome.1 with
    | .ok ref' => ∃ target, ref' = .entry target ∧ source.Moved outcome.2.source ref ref' ∧
        L outcome.2 (target :: holders)
    | .error _ => ∃ extra, L outcome.2 (extra ++ holders)

/-- What adding the constants behind some references may lead to. -/
def AddedRefs (L : Pool → List EntryId → Prop) (source : Source) (refs : List (RefKind × Ref))
    (before : Pool) (holders : List EntryId) (outcome : Except Fault (List Ref) × Pool) : Prop :=
  Steady before outcome.2 ∧
    Confined source (refs.filterMap fun ref => ref.2.target?) before outcome.2 ∧
    match outcome.1 with
    | .ok refs' => ∃ ids, refs' = ids.map .entry ∧
        List.Forall₂ (source.Moved outcome.2.source) refs refs' ∧ L outcome.2 (ids ++ holders)
    | .error _ => ∃ extra, L outcome.2 (extra ++ holders)

section Refs

variable {add : EntryId → Pool → Except Fault EntryId × Pool} (hAdd : Adds L source add)
include hAdd

theorem addRef_added (ref : RefKind × Ref) (hValid : pool.Valid) (hAdmits : Admits L pool source)
    (hLedger : L pool holders) : AddedRef L source ref pool holders (addRef add ref.2 pool) := by
  unfold addRef
  cases hResolved : ref.2.resolved with
  | error fault => exact ⟨.refl hValid, .refl _ pool, [], hLedger⟩
  | ok id =>
    have hEntry := Source.eq_entry_of_resolved hResolved
    have hTarget : ref.2.target?.toList = [id] := by rw [hEntry]; rfl
    have hId := hAdd id pool holders hValid hAdmits hLedger
    rcases hRun : add id pool with ⟨fault | target, after⟩
    · rw [hRun] at hId
      obtain ⟨hSteady, hConfined, hExtra⟩ := hId
      simp only [hRun]
      exact ⟨hSteady, by rw [hTarget]; exact hConfined, hExtra⟩
    · rw [hRun] at hId
      obtain ⟨hSteady, hConfined, hStands, hLedger'⟩ := hId
      simp only [hRun]
      exact ⟨hSteady, by rw [hTarget]; exact hConfined, target, rfl,
        ⟨id, target, hEntry, rfl, hStands.sameKey hSteady.valid⟩, hLedger'⟩

theorem addRefs_added (hL : IsLedger L) (refs : List (RefKind × Ref)) (hValid : pool.Valid)
    (hAdmits : Admits L pool source) (hLedger : L pool holders) :
    AddedRefs L source refs pool holders (refs.mapM (fun ref => addRef add ref.2) pool) := by
  induction refs generalizing pool holders with
  | nil => exact ⟨.refl hValid, .refl _ pool, [], rfl, .nil, hLedger⟩
  | cons ref refs ih =>
    have hRoots : (ref :: refs).filterMap (fun ref => ref.2.target?) =
        ref.2.target?.toList ++ refs.filterMap fun ref => ref.2.target? := by
      rw [List.filterMap_cons]
      cases ref.2.target? <;> rfl
    unfold AddedRefs
    rw [List.mapM_cons, hRoots]
    have hHead := addRef_added hAdd ref hValid hAdmits hLedger
    rcases hRun : addRef add ref.2 pool with ⟨fault | ref', middle⟩
    · rw [hRun] at hHead
      obtain ⟨hSteady, hConfined, hExtra⟩ := hHead
      rw [bind_run_error hRun]
      exact ⟨hSteady, hConfined.mono (List.subset_append_left _ _), hExtra⟩
    · rw [hRun] at hHead
      obtain ⟨hSteady, hConfined, target, rfl, hMoved, hLedger'⟩ := hHead
      have hTail := ih hSteady.valid (hAdmits.mono hSteady.toExtends) hLedger'
      rw [bind_run_ok hRun]
      rcases hRest : refs.mapM (fun ref => addRef add ref.2) middle with ⟨fault | refs', after⟩
      · rw [hRest] at hTail
        obtain ⟨hSteady', hConfined', extra, hExtra⟩ := hTail
        rw [bind_run_error hRest]
        -- the uses of the references added so far are never taken back
        exact ⟨hSteady.trans hSteady', hConfined.trans hConfined', extra ++ [target],
          by simpa using hExtra⟩
      · rw [hRest] at hTail
        obtain ⟨hSteady', hConfined', ids, rfl, hRefs, hIds⟩ := hTail
        rw [bind_run_ok hRest]
        exact ⟨hSteady.trans hSteady', hConfined.trans hConfined', target :: ids, rfl,
          .cons (hMoved.mono hSteady'.toExtends.constant?) hRefs, hL.perm hIds List.perm_middle⟩

end Refs

/-! ### The constant itself -/

theorem addUse_added {constant : Constant} {key : Key} {existing : EntryId} (hL : IsLedger L)
    (hValid : pool.Valid) (hLedger : L pool holders)
    (hConstant : source.constant? id = some constant) (hKey : source.HasKey constant key)
    (hFound : pool.find? key = some existing) :
    Added L source id pool holders (.ok existing, pool.addUse existing) := by
  obtain ⟨entry, hEntry, _⟩ := (hValid.find?_iff key existing).mp hFound
  exact ⟨steady_modify counting_addUse hValid existing, Confined.refl [id] pool,
    ⟨constant, key, hConstant, hKey, hFound⟩, hL.addUse hLedger hEntry⟩

theorem append_added {constant value : Constant} {key : Key} {ids : List EntryId}
    (hL : IsLedger L) (hValid : pool.Valid) (hConstant : source.constant? id = some constant)
    (hKey : source.HasKey constant key) (hValue : pool.source.HasKey value key)
    (hNew : pool.find? key = none) (hTargets : value.targets = ids)
    (hLedger : L pool (ids ++ holders)) :
    Added L source id pool holders (pool.append value 1 0 key) := by
  by_cases hSize : pool.size + value.width ≤ 65535
  · rw [append_of_le hSize]
    refine ⟨steady_append hValid rfl rfl hValue.closed hValue hNew hSize, ?_, ?_,
      hL.append (by rw [hTargets]; exact hLedger)⟩
    · intro other target hFound
      rw [find?_place, find?_enter] at hFound
      split at hFound
      next hOther =>
        subst other
        exact .inr ⟨id, List.mem_singleton_self id, id, constant, .refl id, hConstant, hKey⟩
      next => exact .inl hFound
    · exact ⟨constant, key, hConstant, hKey, by simp⟩
  · rw [append_of_lt (Nat.not_le.mp hSize)]
    exact ⟨.refl hValid, .refl [id] pool, ids, hLedger⟩

theorem addNew_added {constant : Constant} {key : Key}
    {add : EntryId → Pool → Except Fault EntryId × Pool} (hAdd : Adds L source add)
    (hL : IsLedger L) (hValid : pool.Valid) (hAdmits : Admits L pool source)
    (hLedger : L pool holders) (hConstant : source.constant? id = some constant)
    (hKey : source.HasKey constant key) (hNew : pool.find? key = none) :
    Added L source id pool holders (addNew add constant key pool) := by
  have hRefs := addRefs_added hAdd hL constant.refs hValid hAdmits hLedger
  rcases hRun : constant.refs.mapM (fun ref => addRef add ref.2) pool with ⟨fault | refs, middle⟩
  · rw [hRun] at hRefs
    obtain ⟨hSteady, hConfined, hExtra⟩ := hRefs
    rw [addNew_of_error hRun]
    exact ⟨hSteady, hConfined.of_targets hConstant, hExtra⟩
  · rw [hRun] at hRefs
    obtain ⟨hSteady, hConfined, ids, rfl, hMoved, hIds⟩ := hRefs
    rw [addNew_of_ok hRun]
    have hLength : ids.length = constant.refs.length := by
      rw [hMoved.length_eq, List.length_map]
    refine Added.after_steady hSteady (hConfined.of_targets hConstant) ?_
    exact append_added hL hSteady.valid hConstant hKey (hKey.moved hMoved)
      (hConfined.find?_eq_none hKey hNew) (Constant.targets_withRefs hLength) hIds

theorem findOwn?_added {constant : Constant} {existing : EntryId} (hValid : pool.Valid)
    (hAdmits : Admits L pool source) (hConstant : source.constant? id = some constant)
    (hFound : pool.findOwn? source id constant = .ok (some existing)) :
    Added L source id pool holders (.ok existing, pool) := by
  unfold findOwn? at hFound
  split at hFound
  next hOwner =>
    obtain ⟨hClosed, hWithin, hFree⟩ := hAdmits id hOwner
    cases hKeyOf : pool.source.keyOf constant with
    | error fault => rw [hKeyOf] at hFound; cases hFound
    | ok key =>
      rw [hKeyOf] at hFound
      -- the key of the constant has not changed since the source was this pool
      have hKey := ((hClosed id constant hConstant).hasKey_iff hClosed hWithin).mp
        (Source.keyOf_eq_ok.mp hKeyOf)
      exact ⟨.refl hValid, .refl [id] pool, ⟨constant, key, hConstant, hKey, Except.ok.inj hFound⟩,
        hFree _ _⟩
  next => cases hFound

theorem addVia_adds {add : EntryId → Pool → Except Fault EntryId × Pool} (hL : IsLedger L)
    (hAdd : Adds L source add) : Adds L source (addVia source add) := by
  intro id pool holders hValid hAdmits hLedger
  unfold addVia
  split
  next => exact added_error hValid hLedger
  next constant hConstant =>
    split
    next => exact added_error hValid hLedger
    next existing hFound => exact findOwn?_added hValid hAdmits hConstant hFound
    next =>
      split
      next => exact added_error hValid hLedger
      next key hKeyOf =>
        have hKey := Source.keyOf_eq_ok.mp hKeyOf
        split
        next existing hFound => exact addUse_added hL hValid hLedger hConstant hKey hFound
        next hNew =>
          split
          next => exact added_error hValid hLedger
          next => exact addNew_added hAdd hL hValid hAdmits hLedger hConstant hKey hNew

theorem addWithin_adds (hL : IsLedger L) (depth : Nat) : Adds L source (addWithin source depth) := by
  induction depth with
  | zero => exact fun id pool holders hValid _ hLedger => added_error hValid hLedger
  | succ depth ih =>
    rw [addWithin_succ]
    exact addVia_adds hL ih

theorem add_added (hL : IsLedger L) (hValid : pool.Valid) (hAdmits : Admits L pool source)
    (hLedger : L pool holders) : Added L source id pool holders (pool.add source id) :=
  addWithin_adds hL 3 id pool holders hValid hAdmits hLedger

end ClassRom.Pool
