import ClassRom.Proofs.Image.Mentions
import Mathlib.Data.List.Flatten

/-!
# Exact accounts

While all classes are accepted, nothing is held that no class mentions: the uses of an entry are the
references to it and the mentions of it, and its one-byte uses are the one-byte operands that mean
it.
-/

namespace ClassRom

set_option autoImplicit false

variable {pool after : Pool} {map : HandleMap} {holders ldcHolders : List EntryId}

namespace Pool

/-- The uses of each entry and its one-byte uses are accounted for. Of one-byte uses none is ever taken
back, so the total counts them all. -/
structure Balanced (pool : Pool) (holders ldcHolders : List EntryId) : Prop where
  accounts : pool.Accounts holders
  ldcTotal_eq : ∀ id, (pool.ldcUsesAt id).total = ldcHolders.count id

theorem balanced_empty (id : PoolId) : (empty id).Balanced [] [] where
  accounts := accounts_empty id
  ldcTotal_eq other := by
    rw [ldcUsesAt, show (empty id).get? other = none from rfl, Option.elim_none,
      Counter.total_start]
    rfl

theorem isLedger_balanced (ldcHolders : List EntryId) :
    IsLedger fun pool holders => pool.Balanced holders ldcHolders where
  perm h hPerm := ⟨h.accounts.perm hPerm, h.ldcTotal_eq⟩
  addUse h hEntry := by
    refine ⟨h.accounts.addUse hEntry, fun id => ?_⟩
    rw [ldcUsesAt_addUse]
    exact h.ldcTotal_eq id
  append h := by
    refine ⟨h.accounts.append rfl, fun id => ?_⟩
    rw [ldcUsesAt_append]
    exact h.ldcTotal_eq id

namespace Balanced

theorem perm {holders' ldcHolders' : List EntryId} (h : pool.Balanced holders ldcHolders)
    (hPerm : holders.Perm holders') (hLdc : ldcHolders.Perm ldcHolders') :
    pool.Balanced holders' ldcHolders' :=
  ⟨h.accounts.perm hPerm, fun id => by rw [h.ldcTotal_eq, hLdc.count_eq]⟩

theorem dropUse {id : EntryId} (h : pool.Balanced (id :: holders) ldcHolders) :
    (pool.dropUse id).Balanced holders ldcHolders := by
  refine ⟨h.accounts.dropUse, fun other => ?_⟩
  rw [ldcUsesAt_dropUse]
  exact h.ldcTotal_eq other

end Balanced

end Pool

/-! ### Charging -/

/-- The entries that the handles of the indices lead to. -/
def HandleMap.entriesOf (map : HandleMap) (indices : List UInt16) : List EntryId :=
  indices.filterMap fun index => (map.get? index).map (·.entry)

theorem HandleMap.entriesOf_cons {index : UInt16} {handle : Handle}
    (h : map.get? index = some handle) (indices : List UInt16) :
    map.entriesOf (index :: indices) = handle.entry :: map.entriesOf indices := by
  simp [entriesOf, h]

namespace Pool

/-- Charges a use to the entry that its handle leads to. -/
def chargeOne (map : HandleMap) (pool : Pool) (use : Use) : Pool :=
  (map.get? use.index).elim pool fun handle => pool.chargeUse handle.entry use.single

/-- All uses have handles and were charged, one after the other. -/
structure Charges (map : HandleMap) (uses : List Use) (before after : Pool) : Prop where
  mapped : ∀ use ∈ uses, (map.get? use.index).isSome
  after_eq : after = uses.foldl (chargeOne map) before

theorem Charges.append {middle : Pool} {uses uses' : List Use} (h : Charges map uses pool middle)
    (h' : Charges map uses' middle after) : Charges map (uses ++ uses') pool after := by
  refine ⟨fun use hUse => ?_, by rw [List.foldl_append, ← h.after_eq, h'.after_eq]⟩
  rcases List.mem_append.mp hUse with hUse | hUse
  · exact h.mapped use hUse
  · exact h'.mapped use hUse

theorem charge_ok {method : String} {uses : List Use}
    (h : pool.charge map method uses = (.ok (), after)) : Charges map uses pool after := by
  induction uses generalizing pool with
  | nil => cases h; exact ⟨by simp, rfl⟩
  | cons use uses ih =>
    rw [charge] at h
    split at h
    next => cases h
    next handle hLookup =>
      have hHandle := HandleMap.lookup_eq_ok.mp hLookup
      have hFirst : Charges map [use] pool (pool.chargeUse handle.entry use.single) :=
        ⟨by simp [hHandle], by simp [chargeOne, hHandle]⟩
      exact hFirst.append (ih h)

theorem Accounts.chargeUse {id : EntryId} {entry : Entry} (h : pool.Accounts holders)
    (hEntry : pool.get? id = some entry) (single : Bool) :
    (pool.chargeUse id single).Accounts (id :: holders) := by
  unfold Pool.chargeUse
  cases single with
  | false => exact h.addUse hEntry
  | true => exact (h.addUse hEntry).addLdcUse

theorem usesAt_chargeUse {id other : EntryId} {entry : Entry} (hEntry : pool.get? id = some entry)
    (single : Bool) :
    (pool.chargeUse id single).usesAt other =
      if other = id then (pool.usesAt other).add 1 else pool.usesAt other := by
  unfold chargeUse
  cases single with
  | false => exact usesAt_addUse hEntry other
  | true => exact (congrFun (usesAt_addLdcUse _ _) other).trans (usesAt_addUse hEntry other)

theorem ldcTotal_chargeUse {id : EntryId} {entry : Entry} (hEntry : pool.get? id = some entry)
    (single : Bool) (other : EntryId) :
    ((pool.chargeUse id single).ldcUsesAt other).total =
      (if single then [id] else []).count other + (pool.ldcUsesAt other).total := by
  unfold chargeUse
  cases single with
  | false => simp [ldcUsesAt_addUse]
  | true =>
    obtain ⟨entry', hEntry', _⟩ := (addUse_grown pool id).toRecounted.get? hEntry
    rw [if_pos rfl, if_pos rfl, ldcUsesAt_addLdcUse hEntry', ldcUsesAt_addUse]
    by_cases hId : other = id
    · simp [hId, Nat.add_comm]
    · simp [hId, Ne.symm hId]

theorem charges_cons_iff {use : Use} {uses : List Use} :
    Charges map (use :: uses) pool after ↔ ∃ handle, map.get? use.index = some handle ∧
      Charges map uses (pool.chargeUse handle.entry use.single) after := by
  constructor
  · rintro ⟨hMapped, rfl⟩
    obtain ⟨handle, hHandle⟩ := Option.isSome_iff_exists.mp (hMapped use List.mem_cons_self)
    refine ⟨handle, hHandle, fun other hOther => ?_, ?_⟩
    · exact hMapped other (List.mem_cons_of_mem use hOther)
    · rw [List.foldl_cons, chargeOne, hHandle, Option.elim_some]
  · rintro ⟨handle, hHandle, hMapped, rfl⟩
    refine ⟨?_, by rw [List.foldl_cons, chargeOne, hHandle, Option.elim_some]⟩
    intro other hOther
    rcases List.mem_cons.mp hOther with rfl | hOther
    · rw [hHandle]
      rfl
    · exact hMapped other hOther

/-- An account that is kept of each charge is kept of all of them. -/
theorem Charges.ledger {L : Pool → List EntryId → Prop} {uses : List Use} (hL : IsLedger L)
    (hUse : ∀ {pool holders id entry}, L pool holders → pool.get? id = some entry →
      ∀ single, L (pool.chargeUse id single) (id :: holders))
    (hMap : map.Within pool) (hLedger : L pool holders) (h : Charges map uses pool after) :
    L after (map.entriesOf (uses.map Use.index) ++ holders) := by
  induction uses generalizing pool holders with
  | nil =>
    rw [h.after_eq]
    exact hLedger
  | cons use uses ih =>
    obtain ⟨handle, hHandle, hRest⟩ := charges_cons_iff.mp h
    obtain ⟨entry, hEntry⟩ := hMap use.index handle hHandle
    have hMap' := hMap.mono fun _ _ => (chargeUse_grown pool handle.entry use.single).toRecounted.get?
    rw [List.map_cons, HandleMap.entriesOf_cons hHandle]
    exact hL.perm (ih hMap' (hUse hLedger hEntry use.single) hRest) List.perm_middle

theorem Accounts.charges {uses : List Use} (hMap : map.Within pool) (h : pool.Accounts holders)
    (hCharges : Charges map uses pool after) :
    after.Accounts (map.entriesOf (uses.map Use.index) ++ holders) :=
  hCharges.ledger isLedger_accounts Accounts.chargeUse hMap h

theorem Charges.ldcTotal_eq {uses : List Use} (h : Charges map uses pool after)
    (hMap : map.Within pool) (id : EntryId) :
    (after.ldcUsesAt id).total =
      (map.entriesOf ((uses.filter Use.single).map Use.index)).count id +
        (pool.ldcUsesAt id).total := by
  induction uses generalizing pool with
  | nil => simp [h.after_eq, HandleMap.entriesOf]
  | cons use uses ih =>
    obtain ⟨handle, hHandle, hRest⟩ := charges_cons_iff.mp h
    obtain ⟨entry, hEntry⟩ := hMap use.index handle hHandle
    have hMap' := hMap.mono fun _ _ => (chargeUse_grown pool handle.entry use.single).toRecounted.get?
    rw [ih hRest hMap', ldcTotal_chargeUse hEntry, ← Nat.add_assoc, ← List.count_append]
    congr 1
    cases hSingle : use.single with
    | false => simp [hSingle]
    | true =>
      rw [List.filter_cons_of_pos hSingle, List.map_cons, HandleMap.entriesOf_cons hHandle]
      exact List.perm_append_comm.count_eq id

/-- Charging adds the entries charged to the holders. -/
theorem Balanced.charges {table : Table} {uses : List Use} (hFaithful : map.Faithful table pool)
    (h : pool.Balanced holders ldcHolders) (hCharges : Charges map uses pool after) :
    after.Balanced (map.entriesOf (uses.map Use.index) ++ holders)
      (map.entriesOf ((uses.filter Use.single).map Use.index) ++ ldcHolders) := by
  refine ⟨h.accounts.charges hFaithful.within hCharges, fun id => ?_⟩
  rw [hCharges.ldcTotal_eq hFaithful.within, List.count_append, h.ldcTotal_eq]

end Pool

theorem Bytecode.charge_ok {unit : Bytecode} (h : unit.charge map pool = (.ok (), after)) :
    Pool.Charges map unit.uses pool after := by
  unfold charge at h
  split at h
  · exact Pool.charge_ok h
  · cases h

namespace Image

theorem chargeMethods_ok {methods : List Method}
    (h : chargeMethods map methods pool = (.ok (), after)) :
    Pool.Charges map (methods.flatMap Method.uses) pool after := by
  induction methods generalizing pool with
  | nil => cases h; exact ⟨by simp, rfl⟩
  | cons method methods ih =>
    rw [chargeMethods] at h
    rw [List.flatMap_cons, Method.uses]
    cases hBody : method.body with
    | none =>
      rw [hBody] at h
      exact ih h
    | some body =>
      rw [hBody] at h
      rcases hCode : body.bytecode.charge map pool with ⟨fault | _, coded⟩
      · simp only [hCode] at h
        cases h
      · rcases hTables : coded.charge map body.bytecode.method body.tables.uses with
          ⟨fault | _, tabled⟩
        · simp only [hCode, hTables] at h
          cases h
        · simp only [hCode, hTables] at h
          exact ((Bytecode.charge_ok hCode).append (Pool.charge_ok hTables)).append (ih h)

theorem chargeClass_ok {name : String} {file : ClassFile}
    (h : chargeClass map name file pool = (.ok (), after)) :
    Pool.Charges map file.uses pool after := by
  unfold chargeClass at h
  cases hDeclared : file.declared with
  | error fault =>
    rw [hDeclared] at h
    cases h
  | ok indices =>
    rw [hDeclared, ClassFile.declared_ok hDeclared] at h
    rcases hCharge : pool.charge map name (file.declarations.map fun index => ⟨0, index, false⟩)
      with ⟨fault | _, middle⟩
    · simp only [hCharge] at h
      cases h
    · simp only [hCharge] at h
      exact (Pool.charge_ok hCharge).append (chargeMethods_ok h)

end Image

/-! ### Loading classes -/

/-- The entries that the class mentions, one for each mention. -/
noncomputable def LoadedClass.held (loaded : LoadedClass) : List EntryId :=
  loaded.handles.entriesOf loaded.file.mentions

noncomputable def LoadedClass.heldByLdc (loaded : LoadedClass) : List EntryId :=
  loaded.handles.entriesOf loaded.file.oneByteOperands

theorem LoadedClass.heldByLdc_sublist (loaded : LoadedClass) :
    loaded.heldByLdc.Sublist loaded.held :=
  loaded.file.oneByteOperands_sublist.filterMap _

namespace Image

variable {image image' : Image} {file : ClassFile} {files : List ClassFile}

/-- Adds classes one after the other, unless one is refused. -/
def loadAll (image : Image) : List ClassFile → Except ImageFault Image
  | [] => .ok image
  | file :: rest =>
    match image.addClass file with
    | (.ok _, image) => image.loadAll rest
    | (.error fault, _) => .error fault

/-- The files were loaded, nothing else was, and the accounts are exact. -/
structure Exact (image : Image) (files : List ClassFile) : Prop where
  sound : image.Sound files
  balanced : image.pool.Balanced (image.classes.flatMap LoadedClass.held)
    (image.classes.flatMap LoadedClass.heldByLdc)
  mapped : ∀ loaded ∈ image.classes, ∀ index ∈ loaded.file.mentions,
    (loaded.handles.get? index).isSome

theorem exact_empty (settings : Settings) : (empty settings).Exact [] where
  sound := sound_empty settings
  balanced := Pool.balanced_empty 0
  mapped _ hLoaded := by cases hLoaded

/-- What loading a class adds to the accounts. -/
theorem Loads.balanced {loaded : LoadedClass} (hTable : file.constants.WellFormed)
    (hValid : image.pool.Valid) (h : image.pool.Balanced holders ldcHolders)
    (hLoads : image.Loads file loaded pool) :
    pool.Balanced (loaded.held ++ holders) (loaded.heldByLdc ++ ldcHolders) ∧
      ∀ index ∈ loaded.file.mentions, (loaded.handles.get? index).isSome := by
  obtain ⟨merged, _, hScan, hMerge, hCharge⟩ := hLoads
  obtain ⟨_, hFaithful, _⟩ := release_merged hTable hValid h.accounts hMerge
  obtain ⟨_, _, ids, hIds, hMerged⟩ :=
    Pool.merge_ok (Pool.isLedger_balanced ldcHolders) hTable hValid h hMerge
  have hCharges := chargeClass_ok hCharge
  have hScanned := LoadedClass.allCode_scanned hScan
  refine ⟨?_, fun index hIndex => ?_⟩
  · have hReleased := release_undoes (L := fun pool holders => pool.Balanced holders ldcHolders)
      Pool.Balanced.dropUse hIds hMerged
    have hBalanced := hReleased.charges hFaithful hCharges
    rwa [ClassFile.map_index_uses hScanned, ClassFile.map_index_filter_uses hScanned] at hBalanced
  · rw [← ClassFile.map_index_uses hScanned] at hIndex
    obtain ⟨use, hUse, rfl⟩ := List.mem_map.mp hIndex
    exact hCharges.mapped use hUse

theorem Exact.addClass_ok (h : image.Exact files) (hRead : file.IsRead)
    (hAdd : image.addClass file = (.ok (), image')) : image'.Exact (files ++ [file]) := by
  have hSound := h.sound.addClass_ok hRead hAdd
  rcases addClass_cases image file with ⟨loaded, pool, hLoads, hAdded⟩ | ⟨fault, pool, _, hAdded⟩
  · rw [hAdded] at hAdd
    cases hAdd
    obtain ⟨hBalanced, hMapped⟩ :=
      hLoads.balanced hRead.wellFormed h.sound.valid h.balanced
    refine ⟨hSound, ?_, fun other hOther => ?_⟩
    · rw [List.flatMap_append, List.flatMap_append, List.flatMap_singleton, List.flatMap_singleton]
      exact hBalanced.perm List.perm_append_comm List.perm_append_comm
    · rcases List.mem_append.mp hOther with hOld | hNew
      · exact h.mapped other hOld
      · rw [List.mem_singleton.mp hNew]
        exact hMapped
  · rw [hAdded] at hAdd
    cases hAdd

/-- What loading one class preserves, loading many preserves. -/
theorem loadAll_induction {P : Image → List ClassFile → Prop} {Q : ClassFile → Prop}
    {more : List ClassFile}
    (hStep : ∀ {image files file image'}, P image files → Q file →
      image.addClass file = (.ok (), image') → P image' (files ++ [file]))
    (h : P image files) (hMore : ∀ file ∈ more, Q file) (hLoad : image.loadAll more = .ok image') :
    P image' (files ++ more) := by
  induction more generalizing image files with
  | nil =>
    cases hLoad
    rwa [List.append_nil]
  | cons file more ih =>
    rw [loadAll] at hLoad
    rcases hAdd : image.addClass file with ⟨fault | _, middle⟩
    · rw [hAdd] at hLoad
      cases hLoad
    · rw [hAdd] at hLoad
      have hRest := ih (hStep h (hMore file List.mem_cons_self) hAdd)
        (fun other hOther => hMore other (List.mem_cons_of_mem file hOther)) hLoad
      rwa [List.append_assoc, List.singleton_append] at hRest

theorem Exact.loadAll {more : List ClassFile} (h : image.Exact files)
    (hRead : ∀ file ∈ more, file.IsRead) (hLoad : image.loadAll more = .ok image') :
    image'.Exact (files ++ more) :=
  loadAll_induction Exact.addClass_ok h hRead hLoad

theorem eq_addClasses_of_loadAll (h : image.loadAll files = .ok image') :
    image' = image.addClasses files := by
  unfold addClasses
  induction files generalizing image with
  | nil => cases h; rfl
  | cons file files ih =>
    rw [loadAll] at h
    rcases hAdd : image.addClass file with ⟨fault | _, middle⟩
    · rw [hAdd] at h
      cases h
    · rw [hAdd] at h
      rw [List.foldl_cons, hAdd]
      exact ih h

theorem loadAll_of_isOk (h : (image.loadAll files).isOk) :
    image.loadAll files = .ok (image.addClasses files) := by
  cases hLoad : image.loadAll files with
  | error fault =>
    rw [hLoad] at h
    cases h
  | ok image' => rw [eq_addClasses_of_loadAll hLoad]

/-- The image holds the files, and each counter is exact: the uses of an entry are the references
that entries hold to it and the places where classes mention it, and its one-byte uses are the
one-byte operands among these places. -/
structure CountsExactly (image : Image) (files : List ClassFile) : Prop where
  loaded : List.Forall₂ (fun file loaded => file.scan = .ok loaded.file ∧
    loaded.handles.Faithful file.constants image.pool) files image.classes
  mapped : ∀ loaded ∈ image.classes, ∀ index ∈ loaded.file.mentions,
    (loaded.handles.get? index).isSome
  uses_eq : ∀ id entry, image.pool.get? id = some entry → entry.uses.value =
    image.pool.references.count id + (image.classes.flatMap LoadedClass.held).count id
  ldcUses_eq : ∀ id entry, image.pool.get? id = some entry →
    entry.ldcUses.value = (image.classes.flatMap LoadedClass.heldByLdc).count id
  ldcUses_le : ∀ id entry, image.pool.get? id = some entry →
    entry.ldcUses.value ≤ entry.uses.value

theorem loadAll_counts_exactly (settings : Settings) (files : List ClassFile)
    (hRead : ∀ file ∈ files, file.IsRead) (image : Image)
    (hLoad : (empty settings).loadAll files = .ok image) (hCounters : image.pool.NoOverflow) :
    image.CountsExactly files := by
  have hExact := (exact_empty settings).loadAll hRead hLoad
  obtain ⟨_, _, hClasses⟩ := hExact.sound.ledger
  have hUses (id : EntryId) (entry : Entry) (hEntry : image.pool.get? id = some entry) :
      entry.uses.value =
        image.pool.references.count id + (image.classes.flatMap LoadedClass.held).count id := by
    rw [← hExact.balanced.accounts id (hCounters.wraps_usesAt id), ← hCounters.usesOf_eq,
      Pool.usesOf_of_get? hEntry]
  have hLdc (id : EntryId) (entry : Entry) (hEntry : image.pool.get? id = some entry) :
      entry.ldcUses.value = (image.classes.flatMap LoadedClass.heldByLdc).count id := by
    rw [← hExact.balanced.ldcTotal_eq id, ← hCounters.ldcWeight_eq, Pool.ldcWeight_eq,
      Pool.ldcUsesAt_of_get? hEntry]
  refine ⟨hClasses.imp fun _ _ hLoaded => ⟨hLoaded.scan_eq, hLoaded.faithful⟩, hExact.mapped,
    hUses, hLdc, fun id entry hEntry => ?_⟩
  have hSublist := List.Sublist.flatMap_right image.classes fun loaded _ =>
    loaded.heldByLdc_sublist
  have hCount := hSublist.count_le id
  rw [hLdc id entry hEntry, hUses id entry hEntry]
  omega

/-- Two copies of the example class share all their constants. Each loads the string once, nothing
but a reference uses the name of the class, and the names of attributes are not used at all. -/
theorem loadAll_counts_exactly_demo :
    ∃ image, (empty ⟨"", "", true, true⟩).loadAll [.demo, .demo] = .ok image ∧
      image.pool.NoOverflow ∧
      (image.pool.arena.toList.map fun entry => (entry.uses.value, entry.ldcUses.value)) =
        [(1, 0), (4, 0), (1, 0), (6, 0), (1, 0), (2, 2), (2, 0), (2, 0), (0, 0), (0, 0), (0, 0),
          (2, 0), (2, 0)] ∧
      image.CountsExactly [.demo, .demo] := by
  have hOk : ((empty ⟨"", "", true, true⟩).loadAll [.demo, .demo]).isOk := by decide +kernel
  cases hLoad : (empty ⟨"", "", true, true⟩).loadAll [.demo, .demo] with
  | error fault =>
    rw [hLoad] at hOk
    cases hOk
  | ok image =>
    have hCounters : image.pool.NoOverflow := by
      rw [eq_addClasses_of_loadAll hLoad]
      decide +kernel
    refine ⟨image, rfl, hCounters, ?_,
      loadAll_counts_exactly _ _ (fun file hFile => ?_) image hLoad hCounters⟩
    · rw [eq_addClasses_of_loadAll hLoad]
      decide +kernel
    · have hDemo : file = .demo := by simpa using hFile
      exact hDemo ▸ ClassFile.demo_isRead

end Image

end ClassRom
