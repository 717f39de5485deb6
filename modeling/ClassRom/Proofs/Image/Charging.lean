import ClassRom.Image
import ClassRom.Proofs.Pool.Merging
import ClassRom.Proofs.Pool.Recounting

/-!
# Charging classes

Merging a table makes the class a holder of each of its constants; releasing takes exactly these
uses back, and charging makes it a holder of the constants that its declarations and bodies use. If
charging succeeds, everything that relocation will look up is held.
-/

namespace ClassRom

set_option autoImplicit false

/-- The entry that the handle of the index leads to is among the holders. -/
def HandleMap.Holds (map : HandleMap) (holders : List EntryId) (index : UInt16) : Prop :=
  ∃ handle, map.get? index = some handle ∧ handle.entry ∈ holders

theorem HandleMap.Holds.mono {map : HandleMap} {holders holders' : List EntryId} {index : UInt16}
    (h : map.Holds holders index) (hSub : holders ⊆ holders') : map.Holds holders' index := by
  obtain ⟨handle, hHandle, hMem⟩ := h
  exact ⟨handle, hHandle, hSub hMem⟩

/-- The constants that the body of a method uses. -/
def Method.uses (method : Method) : List Use :=
  method.body.elim [] fun body => body.bytecode.uses ++ body.tables.uses

/-- The constants that the bodies of a class use. -/
def ClassFile.bodyUses (file : ClassFile) : List Use := file.methods.flatMap Method.uses

variable {pool middle after : Pool} {map : HandleMap} {table : Table} {holders : List EntryId}

namespace Pool

/-- What charging uses may lead to: the pool is steady, holders may be added, and on success the
uses are held by those that were added. -/
def Charged (map : HandleMap) (before : Pool) (holders : List EntryId) (uses : List Use)
    (outcome : Except Fault Unit × Pool) : Prop :=
  Steady before outcome.2 ∧ ∃ extra, outcome.2.Accounts (extra ++ holders) ∧
    (outcome.1 = .ok () → ∀ use ∈ uses, map.Holds extra use.index)

theorem charged_nil (hValid : pool.Valid) (hAccounts : pool.Accounts holders) :
    Charged map pool holders [] (.ok (), pool) :=
  ⟨.refl hValid, [], hAccounts, fun _ _ hUse => by cases hUse⟩

theorem charged_error (hValid : pool.Valid) (hAccounts : pool.Accounts holders) (uses : List Use)
    (fault : Fault) : Charged map pool holders uses (.error fault, pool) :=
  ⟨.refl hValid, [], hAccounts, fun hOk => by cases hOk⟩

/-- Goes on with the pool that a first step left, unless the step failed. -/
def proceed (first : Except Fault Unit × Pool) (next : Pool → Except Fault Unit × Pool) :
    Except Fault Unit × Pool :=
  match first with
  | (.error fault, pool) => (.error fault, pool)
  | (.ok _, pool) => next pool

theorem Charged.proceed {uses uses' : List Use} {first : Except Fault Unit × Pool}
    {next : Pool → Except Fault Unit × Pool} (h : Charged map pool holders uses first)
    (hNext : ∀ middle extra, Steady pool middle → middle.Accounts (extra ++ holders) →
      Charged map middle (extra ++ holders) uses' (next middle)) :
    Charged map pool holders (uses ++ uses') (proceed first next) := by
  obtain ⟨hSteady, extra, hAccounts, hHeld⟩ := h
  rcases first with ⟨fault | _, middle⟩
  · exact ⟨hSteady, extra, hAccounts, fun hOk => by cases hOk⟩
  · obtain ⟨hSteady', extra', hAccounts', hHeld'⟩ := hNext middle extra hSteady hAccounts
    refine ⟨hSteady.trans hSteady', extra' ++ extra, ?_, ?_⟩
    · rw [List.append_assoc]
      exact hAccounts'
    intro hOk use hUse
    rcases List.mem_append.mp hUse with hFirst | hSecond
    · exact (hHeld rfl use hFirst).mono (List.subset_append_right extra' extra)
    · exact (hHeld' hOk use hSecond).mono (List.subset_append_left extra' extra)

theorem chargeUse_charged {use : Use} {handle : Handle} (hValid : pool.Valid)
    (hFaithful : map.Faithful table pool) (hAccounts : pool.Accounts holders)
    (hHandle : map.get? use.index = some handle) :
    Charged map pool holders [use] (.ok (), pool.chargeUse handle.entry use.single) := by
  obtain ⟨_, _, other, _, _, _, hOther, _⟩ := hFaithful use.index handle hHandle
  obtain ⟨entry, hEntry, _⟩ := constant?_eq_some.mp hOther
  have hUse := steady_modify counting_addUse hValid handle.entry
  have hHeld : ∀ used ∈ [use], map.Holds [handle.entry] used.index := by
    intro used hUsed
    rw [List.mem_singleton.mp hUsed]
    exact ⟨handle, hHandle, List.mem_cons_self⟩
  unfold chargeUse
  by_cases hSingle : use.single
  · rw [if_pos hSingle]
    exact ⟨hUse.trans (steady_modify counting_addLdcUse hUse.valid handle.entry), [handle.entry],
      (hAccounts.addUse hEntry).addLdcUse, fun _ => hHeld⟩
  · rw [if_neg hSingle]
    exact ⟨hUse, [handle.entry], hAccounts.addUse hEntry, fun _ => hHeld⟩

theorem charge_charged (method : String) (uses : List Use) (hValid : pool.Valid)
    (hFaithful : map.Faithful table pool) (hAccounts : pool.Accounts holders) :
    Charged map pool holders uses (pool.charge map method uses) := by
  induction uses generalizing pool holders with
  | nil => exact charged_nil hValid hAccounts
  | cons use uses ih =>
    rw [charge]
    cases hLookup : map.lookup method use.offset use.index with
    | error fault => exact charged_error hValid hAccounts _ fault
    | ok handle =>
      have hHandle := HandleMap.lookup_eq_ok.mp hLookup
      refine (chargeUse_charged hValid hFaithful hAccounts hHandle).proceed
        fun middle extra hSteady hExtra => ?_
      exact ih hSteady.valid (hFaithful.mono hSteady.toExtends) hExtra

end Pool

theorem Bytecode.charge_charged (unit : Bytecode) (hValid : pool.Valid)
    (hFaithful : map.Faithful table pool) (hAccounts : pool.Accounts holders) :
    Pool.Charged map pool holders unit.uses (unit.charge map pool) := by
  unfold charge
  split
  · exact Pool.charge_charged _ _ hValid hFaithful hAccounts
  · exact Pool.charged_error hValid hAccounts _ _

namespace Image

theorem chargeMethods_charged (methods : List Method) (hValid : pool.Valid)
    (hFaithful : map.Faithful table pool) (hAccounts : pool.Accounts holders) :
    Pool.Charged map pool holders (methods.flatMap Method.uses)
      (chargeMethods map methods pool) := by
  induction methods generalizing pool holders with
  | nil => exact Pool.charged_nil hValid hAccounts
  | cons method methods ih =>
    rw [chargeMethods, List.flatMap_cons, Method.uses]
    cases method.body with
    | none => exact ih hValid hFaithful hAccounts
    | some body =>
      rw [Option.elim_some, List.append_assoc]
      refine (body.bytecode.charge_charged hValid hFaithful hAccounts).proceed
        fun coded extra hCoded hExtra => ?_
      have hFaithful' := hFaithful.mono hCoded.toExtends
      refine (Pool.charge_charged _ _ hCoded.valid hFaithful' hExtra).proceed
        fun tabled extra' hTabled hExtra' => ?_
      exact ih hTabled.valid (hFaithful'.mono hTabled.toExtends) hExtra'

theorem chargeClass_charged (name : String) (file : ClassFile) (hValid : pool.Valid)
    (hFaithful : map.Faithful table pool) (hAccounts : pool.Accounts holders) :
    Pool.Charged map pool holders file.bodyUses (chargeClass map name file pool) := by
  unfold chargeClass
  cases file.declared with
  | error fault => exact Pool.charged_error hValid hAccounts _ _
  | ok indices =>
    have hCharged := (Pool.charge_charged name (indices.map fun index => ⟨0, index, false⟩) hValid
      hFaithful hAccounts).proceed fun middle extra hSteady hExtra =>
        chargeMethods_charged file.methods hSteady.valid (hFaithful.mono hSteady.toExtends) hExtra
    obtain ⟨hSteady, extra, hExtra, hHeld⟩ := hCharged
    exact ⟨hSteady, extra, hExtra, fun hOk use hUse =>
      hHeld hOk use (List.mem_append_right _ hUse)⟩

end Image

/-! ### Counters only -/

theorem Pool.proceed_grown {first : Except Fault Unit × Pool}
    {next : Pool → Except Fault Unit × Pool} (h : Grown pool first.2)
    (hNext : ∀ middle, Grown middle (next middle).2) :
    Grown pool (proceed first next).2 := by
  rcases first with ⟨fault | _, middle⟩
  · exact h
  · exact h.trans (hNext middle)

theorem Bytecode.charge_grown (unit : Bytecode) (map : HandleMap) (pool : Pool) :
    Pool.Grown pool (unit.charge map pool).2 := by
  unfold charge
  split
  · exact Pool.charge_grown map _ _ pool
  · exact .refl pool

namespace Image

theorem release_recounted (map : HandleMap) (indices : List UInt16) (pool : Pool) :
    Pool.Recounted pool (release map indices pool) := by
  unfold release
  induction indices generalizing pool with
  | nil => exact .refl pool
  | cons index indices ih =>
    rw [List.foldl_cons]
    refine .trans ?_ (ih _)
    cases map.get? index with
    | none => exact .refl pool
    | some handle => exact Pool.dropUse_recounted pool handle.entry

/-- Releasing the handles of a table undoes what merging it charged, in any account that dropping a
use undoes a holder of. -/
theorem release_undoes {L : Pool → List EntryId → Prop}
    (hDrop : ∀ {pool holders entry}, L pool (entry :: holders) → L (pool.dropUse entry) holders)
    {indices : List UInt16} {ids : List EntryId} {id : PoolId}
    (hIds : List.Forall₂ (fun index entry => map.get? index = some ⟨id, entry⟩) indices ids)
    (h : L pool (ids ++ holders)) : L (release map indices pool) holders := by
  unfold release
  induction hIds generalizing pool with
  | nil => exact h
  | cons hHead _ ih =>
    rw [List.foldl_cons, hHead, Option.elim_some]
    exact ih (hDrop h)

theorem chargeMethods_grown (map : HandleMap) (methods : List Method) (pool : Pool) :
    Pool.Grown pool (chargeMethods map methods pool).2 := by
  induction methods generalizing pool with
  | nil => exact .refl pool
  | cons method methods ih =>
    rw [chargeMethods]
    cases method.body with
    | none => exact ih pool
    | some body =>
      refine Pool.proceed_grown (body.bytecode.charge_grown map pool) fun coded => ?_
      exact Pool.proceed_grown (coded.charge_grown map _ _) ih

theorem chargeClass_grown (map : HandleMap) (name : String) (file : ClassFile) (pool : Pool) :
    Pool.Grown pool (chargeClass map name file pool).2 := by
  unfold chargeClass
  cases file.declared with
  | error fault => exact .refl pool
  | ok indices =>
    exact Pool.proceed_grown (pool.charge_grown map name _)
      (chargeMethods_grown map file.methods)

end Image

end ClassRom
