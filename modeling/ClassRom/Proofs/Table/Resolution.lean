import ClassRom.Table
import ClassRom.Proofs.Constant.Keys
import ClassRom.Proofs.Reading

/-!
# Resolution of tables

Resolving a table turns each raw index into the entry of the same number and changes nothing else,
although it goes slot by slot and takes each constant out of the table while resolving it. A table
that was read and then resolved is closed: every reference leads to a constant of the right kind.
Where one does not, resolution stops at the first such reference, with the slots before it resolved.
-/

namespace ClassRom

set_option autoImplicit false

/-- The entry that a raw index stands for once it was checked. -/
def Ref.direct : Ref → Ref
  | .index i => .entry i.toNat
  | .entry id => .entry id

/-- The constant with each raw index turned into an entry. -/
def Constant.direct (constant : Constant) : Constant :=
  constant.withRefs (constant.refs.map fun ref => ref.2.direct)

namespace Constant

theorem refs_direct (constant : Constant) :
    constant.direct.refs = constant.refs.map fun ref => (ref.1, ref.2.direct) := by
  unfold direct
  rw [refs_withRefs (by simp), List.zip_map_left, List.zip_map_right]
  cases constant <;> rfl

theorem direct_direct (constant : Constant) : constant.direct.direct = constant.direct := by
  cases constant with
  | string ref | classRef ref => cases ref <;> rfl
  | nameAndType a b | member _ a b => cases a <;> cases b <;> rfl
  | utf8 _ | integer _ | float _ | long _ | double _ => rfl

theorem accepts_direct (kind : RefKind) (constant : Constant) :
    kind.accepts constant.direct = kind.accepts constant := accepts_withRefs kind constant _

theorem accepts_self {constant : Constant} {ref : RefKind × Ref} (h : ref ∈ constant.refs) :
    ref.1.accepts constant = false := by
  cases constant with
  | string _ | classRef _ =>
    rw [List.mem_singleton.mp h]
    rfl
  | nameAndType _ _ | member _ _ _ =>
    rcases List.mem_cons.mp h with rfl | hLast
    · rfl
    · rw [List.mem_singleton.mp hLast]
      rfl
  | utf8 _ | integer _ | float _ | long _ | double _ => cases h

end Constant

namespace Table

variable {table result : Table} {constant : Constant} {slot index : Nat}

/-- Every raw index of the constant leads to an occupied slot of the right kind. -/
def Resolvable (table : Table) (constant : Constant) : Prop :=
  ∀ ref ∈ constant.refs, ∀ i, ref.2 = .index i → (table.slot? i.toNat).any ref.1.accepts

theorem slot?_eq_none_of_size_le (h : table.size ≤ slot) : table.slot? slot = none := by
  unfold slot?
  rw [Array.getElem?_eq_none h]
  rfl

theorem lt_size_of_slot? (h : table.slot? slot = some constant) : slot < table.size := by
  by_contra hSize
  rw [slot?_eq_none_of_size_le (by omega)] at h
  cases h

theorem slot?_set (table : Table) (slot other : Nat) (value : Option Constant)
    (h : slot < table.size) :
    (⟨table.slots.setIfInBounds slot value⟩ : Table).slot? other =
      if other = slot then value else table.slot? other := by
  unfold slot?
  rw [Array.getElem?_setIfInBounds]
  by_cases hSlot : other = slot
  · subst other
    rw [if_pos rfl, if_pos rfl, if_pos (show slot < table.slots.size from h)]
    rfl
  · rw [if_neg (Ne.symm hSlot), if_neg hSlot]

theorem resolveRef_eq_ok {kind : RefKind} {ref ref' : Ref} {source : Int} :
    table.source.resolveRef source kind ref = .ok ref' ↔
      (∀ i, ref = .index i → (table.slot? i.toNat).any kind.accepts) ∧ ref.direct = ref' := by
  cases ref with
  | entry id => simp [Source.resolveRef, Ref.direct]
  | index i =>
    simp only [Source.resolveRef, Table.source, get?, Ref.direct]
    cases h : table.slot? i.toNat with
    | none => simp [h]
    | some constant => by_cases hAccepts : kind.accepts constant <;> simp [h, hAccepts]

theorem resolve_eq_ok {resolved : Constant} {source : Int} :
    table.source.resolve source constant = .ok resolved ↔
      table.Resolvable constant ∧ constant.direct = resolved := by
  have hRefs (refs : List Ref) :
      (constant.refs.mapM fun ref => table.source.resolveRef source ref.1 ref.2) = .ok refs ↔
        table.Resolvable constant ∧ constant.refs.map (fun ref => ref.2.direct) = refs := by
    simp only [Traversal.mapM_eq_ok, resolveRef_eq_ok, List.forall₂_and_left]
    rw [← List.forall₂_map_left_iff (R := Eq), List.forall₂_eq_eq_eq]
    rfl
  unfold Source.resolve
  rw [Constant.mapRefs_eq, Traversal.bind_eq_ok]
  simp only [hRefs, Traversal.pure_eq_ok]
  constructor
  · rintro ⟨_, ⟨hResolvable, rfl⟩, rfl⟩
    exact ⟨hResolvable, rfl⟩
  · rintro ⟨hResolvable, rfl⟩
    exact ⟨_, ⟨hResolvable, rfl⟩, rfl⟩

/-- A raw index leads to an occupied slot of the kind that is asked for. -/
def Supports (table : Table) (ref : RefKind × Ref) : Prop :=
  ∀ i, ref.2 = .index i → (table.slot? i.toNat).any ref.1.accepts

theorem resolveRef_index (source : Int) (kind : RefKind) (i : UInt16) :
    table.source.resolveRef source kind (.index i) =
      if (table.slot? i.toNat).any kind.accepts then .ok (.entry i.toNat)
      else .error (.badReference source i kind) := by
  cases h : table.slot? i.toNat <;> simp [Source.resolveRef, Table.source, get?, h]

theorem resolveRef_eq_error {kind : RefKind} {ref : Ref} {source : Int} {fault : FormatFault} :
    table.source.resolveRef source kind ref = .error fault ↔
      ∃ i, ref = .index i ∧ ¬table.Supports (kind, .index i) ∧
        fault = .badReference source i kind := by
  cases ref with
  | entry id => simp [Source.resolveRef]
  | index i =>
    rw [resolveRef_index]
    by_cases hAny : (table.slot? i.toNat).any kind.accepts
    · simp [Supports, hAny]
    · rw [if_neg hAny, Except.error.injEq]
      constructor
      · rintro rfl
        exact ⟨i, rfl, fun hSupports => hAny (hSupports i rfl), rfl⟩
      · rintro ⟨_, hIndex, _, rfl⟩
        cases hIndex
        rfl

/-- A constant is not resolved because of the first of its references that leads nowhere. -/
theorem resolve_eq_error {source : Int} {fault : FormatFault} :
    table.source.resolve source constant = .error fault ↔
      ∃ before kind target after, constant.refs = before ++ (kind, .index target) :: after ∧
        (∀ ref ∈ before, table.Supports ref) ∧ ¬table.Supports (kind, .index target) ∧
        fault = .badReference source target kind := by
  have hBefore (refs : List (RefKind × Ref)) :
      (∀ ref ∈ refs, ∃ ref', table.source.resolveRef source ref.1 ref.2 = .ok ref') ↔
        ∀ ref ∈ refs, table.Supports ref := by
    simp only [resolveRef_eq_ok, exists_and_left, exists_eq', and_true]
    rfl
  unfold Source.resolve
  rw [Constant.mapRefs_eq, Traversal.bind_eq_error]
  simp only [Traversal.pure_ne_error, and_false, exists_false, or_false,
    Traversal.mapM_eq_error_iff, hBefore, resolveRef_eq_error]
  constructor
  · rintro ⟨before, ⟨kind, _⟩, after, hRefs, hSupports, target, rfl, hBad, hFault⟩
    exact ⟨before, kind, target, after, hRefs, hSupports, hBad, hFault⟩
  · rintro ⟨before, kind, target, after, hRefs, hSupports, hBad, hFault⟩
    exact ⟨before, (kind, .index target), after, hRefs, hSupports, target, rfl, hBad, hFault⟩

/-! ### Slot by slot -/

theorem ext_slot? {other : Table} (hSize : other.size = table.size)
    (hSlots : ∀ slot, other.slot? slot = table.slot? slot) : other = table := by
  obtain ⟨slots⟩ := table
  obtain ⟨slots'⟩ := other
  congr 1
  apply Array.ext hSize
  intro i hi hi'
  have hSlot := hSlots i
  unfold slot? at hSlot
  simpa only [Array.getElem?_eq_getElem hi, Array.getElem?_eq_getElem hi', Option.join_some]
    using hSlot

/-- The table with the constants in the slots below a bound resolved, and no others. -/
def directBelow (table : Table) (bound : Nat) : Table :=
  ⟨table.slots.mapIdx fun slot constant =>
    if slot < bound then constant.map Constant.direct else constant⟩

theorem size_directBelow (table : Table) (bound : Nat) :
    (table.directBelow bound).size = table.size := Array.size_mapIdx

theorem slot?_directBelow (table : Table) (bound slot : Nat) :
    (table.directBelow bound).slot? slot =
      if slot < bound then (table.slot? slot).map Constant.direct else table.slot? slot := by
  unfold directBelow slot?
  rw [Array.getElem?_mapIdx]
  cases table.slots[slot]? with
  | none => simp
  | some value => by_cases h : slot < bound <;> simp [h]

theorem directBelow_zero (table : Table) : table.directBelow 0 = table := by
  apply ext_slot? (size_directBelow table 0)
  intro slot
  simp [slot?_directBelow]

theorem directBelow_succ_of_empty (h : table.slot? slot = none) :
    table.directBelow (slot + 1) = table.directBelow slot := by
  apply ext_slot?
  · simp only [size_directBelow]
  · intro other
    rw [slot?_directBelow, slot?_directBelow]
    by_cases hOther : other = slot
    · simp [hOther, h]
    · have hIff : other < slot + 1 ↔ other < slot := by omega
      simp only [hIff]

section Step

variable (h : table.slot? slot = some constant)
include h

/-- The table while the constant of a slot is being resolved: those before it are, and it is out of
its slot. -/
theorem slot?_without (other : Nat) :
    (⟨(table.directBelow slot).slots.setIfInBounds slot none⟩ : Table).slot? other =
      if other = slot then none else (table.directBelow slot).slot? other := by
  apply slot?_set
  rw [size_directBelow]
  exact lt_size_of_slot? h

/-- That is as good as resolving it in the untouched table, as no constant asks for its own kind. -/
theorem resolve_without (source : Int) :
    (⟨(table.directBelow slot).slots.setIfInBounds slot none⟩ : Table).source.resolve source
      constant = table.source.resolve source constant := by
  unfold Source.resolve
  rw [Constant.mapRefs_eq, Constant.mapRefs_eq]
  congr 1
  apply Traversal.mapM_congr
  intro ref hRef
  obtain ⟨kind, ref⟩ := ref
  cases ref with
  | entry id => rfl
  | index i =>
    have hAny : ((⟨(table.directBelow slot).slots.setIfInBounds slot none⟩ : Table).slot?
        i.toNat).any kind.accepts = (table.slot? i.toNat).any kind.accepts := by
      rw [slot?_without h, slot?_directBelow]
      by_cases hSelf : i.toNat = slot
      · have hOwn := Constant.accepts_self hRef
        simp [hSelf, h, hOwn]
      · rw [if_neg hSelf]
        split
        · cases table.slot? i.toNat <;> simp [Constant.accepts_direct]
        · rfl
    simp only [resolveRef_index, hAny]

theorem put_unresolved :
    (⟨((table.directBelow slot).slots.setIfInBounds slot none).setIfInBounds slot
      (some constant)⟩ : Table) = table.directBelow slot := by
  apply ext_slot?
  · simp [size]
  · intro other
    rw [Array.setIfInBounds_setIfInBounds, slot?_set]
    · split
      next hSelf => simp [slot?_directBelow, hSelf, h]
      next => rfl
    · rw [size_directBelow]
      exact lt_size_of_slot? h

theorem put_resolved :
    (⟨((table.directBelow slot).slots.setIfInBounds slot none).setIfInBounds slot
      (some constant.direct)⟩ : Table) = table.directBelow (slot + 1) := by
  apply ext_slot?
  · simp [size, directBelow]
  · intro other
    rw [Array.setIfInBounds_setIfInBounds, slot?_set, slot?_directBelow, slot?_directBelow]
    · by_cases hSelf : other = slot
      · simp [hSelf, h]
      · have hIff : other < slot + 1 ↔ other < slot := by omega
        simp only [hSelf, if_false, hIff]
    · rw [size_directBelow]
      exact lt_size_of_slot? h

end Step

/-- Every constant in a slot below the bound can be resolved. -/
def ResolvableBelow (table : Table) (bound : Nat) : Prop :=
  ∀ slot constant, slot < bound → table.slot? slot = some constant → table.Resolvable constant

/-- The first reference of the table, by slots and then in the order of writing, that leads to no
constant of the kind it asks for. -/
structure FirstBad (table : Table) (slot : Nat) (kind : RefKind) (target : UInt16) : Prop where
  below : table.ResolvableBelow slot
  here : ∃ constant before after, table.slot? slot = some constant ∧
    constant.refs = before ++ (kind, .index target) :: after ∧
    (∀ ref ∈ before, table.Supports ref) ∧ ¬table.Supports (kind, .index target)

theorem FirstBad.not_resolvable {kind : RefKind} {target : UInt16}
    (h : table.FirstBad slot kind target) :
    ∃ constant, table.slot? slot = some constant ∧ ¬table.Resolvable constant := by
  obtain ⟨constant, before, after, hSlot, hRefs, _, hBad⟩ := h.here
  refine ⟨constant, hSlot, fun hResolvable => hBad (hResolvable _ ?_)⟩
  rw [hRefs]
  exact List.mem_append_right before List.mem_cons_self

/-- Resolution either reaches the end of the table or stops at the first bad reference. -/
def Outcome (table : Table) (outcome : Except FormatFault Unit × Table) : Prop :=
  (table.ResolvableBelow table.size ∧ outcome = (.ok (), table.directBelow table.size)) ∨
    ∃ slot kind target, table.FirstBad slot kind target ∧
      outcome = (.error (.badReference slot target kind), table.directBelow slot)

theorem resolveFrom_outcome (left start : Nat) (hEnd : start + left = table.size)
    (hBelow : table.ResolvableBelow start) :
    table.Outcome (resolveFrom (List.range' start left) (table.directBelow start)) := by
  induction left generalizing start with
  | zero =>
    obtain rfl : start = table.size := hEnd
    exact .inl ⟨hBelow, rfl⟩
  | succ left ih =>
    have hNext (hHere : ∀ constant, table.slot? start = some constant → table.Resolvable constant) :
        table.Outcome (resolveFrom (List.range' (start + 1) left)
          (table.directBelow (start + 1))) := by
      apply ih (start + 1) (by omega)
      intro slot constant hSlot hConstant
      by_cases hLast : slot = start
      · exact hHere constant (hLast ▸ hConstant)
      · exact hBelow slot constant (by omega) hConstant
    have hStart : (table.directBelow start).slot? start = table.slot? start := by
      simp [slot?_directBelow]
    rw [List.range'_succ, resolveFrom, hStart]
    cases hSlot : table.slot? start with
    | none =>
      rw [← directBelow_succ_of_empty hSlot]
      exact hNext fun constant hConstant => by rw [hSlot] at hConstant; cases hConstant
    | some constant =>
      dsimp only
      rw [resolve_without hSlot]
      cases hResolve : table.source.resolve start constant with
      | error fault =>
        obtain ⟨before, kind, target, after, hRefs, hSupports, hBad, rfl⟩ :=
          resolve_eq_error.mp hResolve
        refine .inr ⟨start, kind, target, ⟨hBelow, constant, before, after, hSlot, hRefs,
          hSupports, hBad⟩, ?_⟩
        dsimp only
        rw [put_unresolved hSlot]
      | ok resolved =>
        obtain ⟨hResolvable, rfl⟩ := resolve_eq_ok.mp hResolve
        dsimp only
        rw [put_resolved hSlot]
        apply hNext
        intro other hOther
        rw [hSlot] at hOther
        cases hOther
        exact hResolvable

theorem resolveAll_outcome (table : Table) : table.Outcome table.resolveAll := by
  have hBelow : table.ResolvableBelow 0 := fun _ _ hLt => absurd hLt (Nat.not_lt_zero _)
  have hOutcome := resolveFrom_outcome table.size 0 (Nat.zero_add _) hBelow
  rwa [directBelow_zero, ← List.range_eq_range'] at hOutcome

theorem resolved_eq_ok : table.resolved = .ok result ↔
    table.ResolvableBelow table.size ∧ result = table.directBelow table.size := by
  unfold resolved
  rcases resolveAll_outcome table with ⟨hBelow, hRun⟩ | ⟨slot, kind, target, hBad, hRun⟩
  · rw [hRun]
    simp [hBelow, eq_comm]
  · obtain ⟨constant, hSlot, hNot⟩ := hBad.not_resolvable
    rw [hRun]
    simp only [reduceCtorEq, false_iff, not_and]
    intro hBelow
    exact absurd (hBelow slot constant (lt_size_of_slot? hSlot) hSlot) hNot

theorem resolved_ok
    (h : ∀ slot constant, table.slot? slot = some constant → table.Resolvable constant) :
    ∃ result, table.resolved = .ok result :=
  ⟨_, resolved_eq_ok.mpr ⟨fun slot constant _ => h slot constant, rfl⟩⟩

theorem size_of_resolved (h : table.resolved = .ok result) : result.size = table.size := by
  rw [(resolved_eq_ok.mp h).2, size_directBelow]

theorem slot?_of_resolved (h : table.resolved = .ok result) (slot : Nat) :
    result.slot? slot = (table.slot? slot).map Constant.direct := by
  rw [(resolved_eq_ok.mp h).2, slot?_directBelow]
  split
  · rfl
  · rw [slot?_eq_none_of_size_le (by omega)]
    rfl

theorem Resolvable.of_direct (table : Table) (constant : Constant) :
    table.Resolvable constant.direct := by
  intro ref hRef i hIndex
  rw [Constant.refs_direct] at hRef
  obtain ⟨raw, _, rfl⟩ := List.mem_map.mp hRef
  cases hRaw : raw.2 <;> simp [hRaw, Ref.direct] at hIndex

/-- Every reference of the table leads to a constant of the kind it asks for. -/
def Closed (table : Table) : Prop :=
  ∀ slot constant, table.slot? slot = some constant → table.source.Closed constant

/-- No reference of the table was looked at yet. -/
def Raw (table : Table) : Prop :=
  ∀ slot constant, table.slot? slot = some constant →
    ∀ ref ∈ constant.refs, ∃ i, ref.2 = .index i

theorem closed_of_resolved (hRaw : table.Raw) (h : table.resolved = .ok result) :
    result.Closed := by
  intro slot resolved hSlot ref hRef
  rw [slot?_of_resolved h] at hSlot
  obtain ⟨constant, hConstant, rfl⟩ := Option.map_eq_some_iff.mp hSlot
  rw [Constant.refs_direct] at hRef
  obtain ⟨raw, hMem, rfl⟩ := List.mem_map.mp hRef
  obtain ⟨i, hIndex⟩ := hRaw slot constant hConstant raw hMem
  have hResolvable := (resolved_eq_ok.mp h).1 slot constant (lt_size_of_slot? hConstant) hConstant
  have hAny := hResolvable raw hMem i hIndex
  obtain ⟨target, hTarget, hAccepts⟩ := (Option.any_eq_true _ _).mp hAny
  refine ⟨i.toNat, target.direct, by rw [hIndex]; rfl, ?_, ?_⟩
  · change result.slot? i.toNat = some target.direct
    rw [slot?_of_resolved h, hTarget]
    rfl
  · exact (Constant.accepts_direct raw.1 target).trans hAccepts

end Table

namespace Constant

theorem readRef_yields : readRef.Yields fun ref => ∃ i, ref = .index i :=
  Reader.yields_after _ fun i => Reader.yields_pure ⟨i, rfl⟩

/-- A constant just read refers by raw index only. -/
theorem read_yields (index : UInt16) :
    (read index).Yields fun constant => ∀ ref ∈ constant.refs, ∃ i, ref.2 = .index i := by
  refine Reader.yields_after _ fun tag => ?_
  have hPlain {α : Type} (reader : Reader α) (make : α → Constant)
      (hMake : ∀ value, (make value).refs = []) :
      Reader.Yields (reader >>= fun value => pure (make value))
        fun constant => ∀ ref ∈ constant.refs, ∃ i, ref.2 = .index i :=
    Reader.yields_after _ fun value => Reader.yields_pure (by simp [hMake value])
  split
  · refine Reader.yields_after _ fun length => Reader.yields_after _ fun bytes => ?_
    split
    · exact Reader.yields_pure (by simp [refs])
    · exact Reader.yields_throw _
  · exact hPlain _ _ fun _ => rfl
  · exact hPlain _ _ fun _ => rfl
  · exact hPlain _ _ fun _ => rfl
  · exact hPlain _ _ fun _ => rfl
  · exact readRef_yields.bind fun a hA => Reader.yields_pure (by simpa [refs] using hA)
  · exact readRef_yields.bind fun a hA => Reader.yields_pure (by simpa [refs] using hA)
  · exact readRef_yields.bind fun a hA => readRef_yields.bind fun b hB =>
      Reader.yields_pure (by simpa [refs] using ⟨hA, hB⟩)
  · exact readRef_yields.bind fun a hA => readRef_yields.bind fun b hB =>
      Reader.yields_pure (by simpa [refs] using ⟨hA, hB⟩)
  · exact readRef_yields.bind fun a hA => readRef_yields.bind fun b hB =>
      Reader.yields_pure (by simpa [refs] using ⟨hA, hB⟩)
  · exact readRef_yields.bind fun a hA => readRef_yields.bind fun b hB =>
      Reader.yields_pure (by simpa [refs] using ⟨hA, hB⟩)
  · exact Reader.yields_throw _

end Constant

namespace Table

variable {table result : Table} {constant : Constant}

theorem raw_empty : empty.Raw := by
  intro slot constant hSlot
  cases slot with
  | zero => cases hSlot
  | succ n => simp [slot?, empty] at hSlot

theorem size_push (table : Table) (constant : Constant) :
    (table.push constant).size = table.size + constant.width := by
  unfold push size Constant.width
  cases constant.isWide <;> simp

theorem slot?_push (table : Table) (constant : Constant) (slot : Nat) :
    (table.push constant).slot? slot =
      if slot = table.size then some constant else table.slot? slot := by
  unfold push slot? size
  cases constant.isWide <;> grind

theorem Raw.push (h : table.Raw) (hConstant : ∀ ref ∈ constant.refs, ∃ i, ref.2 = .index i) :
    (table.push constant).Raw := by
  intro slot constant' hSlot
  rw [slot?_push] at hSlot
  split at hSlot
  · cases hSlot; exact hConstant
  · exact h slot constant' hSlot

theorem fill_ok {count : UInt16} {left : Nat} {input rest : Bytes} (hRaw : table.Raw)
    (h : fill count left table input = .ok (result, rest)) :
    result.Raw ∧ result.size = table.size + left := by
  fun_induction fill count left table input with
  | case1 table input => cases h; exact ⟨hRaw, rfl⟩
  | case2 => cases h
  | case3 => cases h
  | case4 table input constant rest' hRead hWide left ih =>
    obtain ⟨hRaw', hSize⟩ := ih (hRaw.push (Constant.read_yields _ _ _ _ hRead)) h
    refine ⟨hRaw', ?_⟩
    rw [hSize, size_push, Constant.width, if_pos hWide]
    omega
  | case5 left table input constant rest' hRead hWide ih =>
    obtain ⟨hRaw', hSize⟩ := ih (hRaw.push (Constant.read_yields _ _ _ _ hRead)) h
    refine ⟨hRaw', ?_⟩
    rw [hSize, size_push, Constant.width, if_neg hWide]
    omega

theorem readEntries_yields (count : UInt16) :
    (readEntries count).Yields fun table => table.Raw ∧ table.size = count.toNat := by
  unfold readEntries
  refine Reader.yields_ite (fun _ => Reader.yields_throw _) fun hCount => ?_
  intro input table rest hRead
  obtain ⟨hRaw, hSize⟩ := fill_ok raw_empty hRead
  have hPos : count.toNat ≠ 0 := fun h => hCount (UInt16.toNat_inj.mp h)
  refine ⟨hRaw, ?_⟩
  rw [hSize, show empty.size = 1 from rfl]
  omega

/-- Tables as class files hold them: closed, and small enough for sixteen-bit indices. -/
structure WellFormed (table : Table) : Prop where
  closed : table.Closed
  size_le : table.size ≤ 65535

theorem wellFormed_of_resolved (hRaw : table.Raw) (hSize : table.size ≤ 65535)
    (h : table.resolved = .ok result) : result.WellFormed where
  closed := closed_of_resolved hRaw h
  size_le := by rw [size_of_resolved h]; exact hSize

theorem read_yields : read.Yields fun table => table.Raw ∧ table.size ≤ 65535 := by
  refine Reader.yields_after _ fun count => (readEntries_yields count).imp fun table h => ?_
  have hCount := count.toNat_lt
  exact ⟨h.1, by omega⟩

/-! ### Tables that were read -/

theorem directBelow_directBelow (table : Table) (bound : Nat) :
    (table.directBelow bound).directBelow bound = table.directBelow bound := by
  apply ext_slot?
  · simp only [size_directBelow]
  · intro slot
    rw [slot?_directBelow, slot?_directBelow]
    split
    · cases table.slot? slot <;> simp [Constant.direct_direct]
    · rfl

/-- Nothing is left to do for a table that was resolved to its end. -/
theorem resolveAll_directBelow (table : Table) :
    (table.directBelow table.size).resolveAll = (.ok (), table.directBelow table.size) := by
  have hSize := size_directBelow table table.size
  rcases resolveAll_outcome (table.directBelow table.size) with ⟨_, hRun⟩ | ⟨slot, _, _, hBad, _⟩
  · rw [hRun, hSize, directBelow_directBelow]
  · obtain ⟨constant, hSlot, hNot⟩ := hBad.not_resolvable
    have hLt := lt_size_of_slot? hSlot
    rw [slot?_directBelow, if_pos (hSize ▸ hLt)] at hSlot
    obtain ⟨raw, _, rfl⟩ := Option.map_eq_some_iff.mp hSlot
    exact absurd (Resolvable.of_direct _ raw) hNot

/-- What resolving a table that was read leads to. It succeeds if every reference leads to a constant
of the kind it asks for; then each raw index is the entry of its number, every constant has a key,
and nothing is left to do. Otherwise the first bad reference is reported, the constants before it
are resolved, and those from there on are as they were. -/
theorem resolveAll_of_read (input rest : Bytes) (table : Table)
    (hRead : read input = .ok (table, rest)) :
    (table.resolveAll.1 = .ok () ↔ ∀ slot constant, table.slot? slot = some constant →
        ∀ ref ∈ constant.refs, ∀ i, ref.2 = .index i →
          ∃ target, table.slot? i.toNat = some target ∧ ref.1.accepts target) ∧
      (table.resolveAll.1 = .ok () → table.resolveAll.2 = table.directBelow table.size ∧
        (∀ slot constant, table.resolveAll.2.slot? slot = some constant →
          ∃ key, table.resolveAll.2.source.keyOf constant = .ok key) ∧
        table.resolveAll.2.resolveAll = (.ok (), table.resolveAll.2)) ∧
      ∀ fault, table.resolveAll.1 = .error fault → ∃ slot kind target,
        table.FirstBad slot kind target ∧ fault = .badReference slot target kind ∧
          table.resolveAll.2 = table.directBelow slot := by
  obtain ⟨hRaw, _⟩ := read_yields input table rest hRead
  rcases resolveAll_outcome table with ⟨hBelow, hRun⟩ | ⟨slot, kind, target, hBad, hRun⟩
  · rw [hRun]
    refine ⟨iff_of_true rfl ?_, fun _ => ⟨rfl, ?_, resolveAll_directBelow table⟩, by simp⟩
    · intro slot constant hSlot ref hRef i hIndex
      have hAny := hBelow slot constant (lt_size_of_slot? hSlot) hSlot ref hRef i hIndex
      exact (Option.any_eq_true _ _).mp hAny
    · intro slot constant hSlot
      have hAll : (table.directBelow table.size).source.AllClosed :=
        closed_of_resolved hRaw (resolved_eq_ok.mpr ⟨hBelow, rfl⟩)
      obtain ⟨key, hKey⟩ := (hAll slot constant hSlot).exists_hasKey hAll
      exact ⟨key, Source.keyOf_of_hasKey hKey⟩
  · obtain ⟨constant, hSlot, hNot⟩ := hBad.not_resolvable
    rw [hRun]
    refine ⟨iff_of_false (by simp) fun hAll => hNot ?_, by simp, ?_⟩
    · intro ref hRef i hIndex
      exact (Option.any_eq_true _ _).mpr (hAll slot constant hSlot ref hRef i hIndex)
    · intro fault hFault
      cases hFault
      exact ⟨slot, kind, target, hBad, rfl, rfl⟩

/-- A class that refers forward, its name, a pair whose second reference leads to the class, and a
string. -/
def mismatched : Table :=
  ⟨#[none, some (.classRef (.index 2)), some (.utf8 (.unicode "A")),
    some (.nameAndType (.index 2) (.index 1)), some (.string (.index 2))]⟩

theorem read_mismatched :
    read [0, 5, 7, 0, 2, 1, 0, 1, 65, 12, 0, 2, 0, 1, 8, 0, 2] = .ok (mismatched, []) := rfl

theorem resolveAll_of_read_mismatched :
    read [0, 5, 7, 0, 2, 1, 0, 1, 65, 12, 0, 2, 0, 1, 8, 0, 2] = .ok (mismatched, []) ∧
      mismatched.resolveAll.1 = .error (.badReference 3 1 .utf8) ∧
      ∃ slot kind target, mismatched.FirstBad slot kind target ∧
        FormatFault.badReference 3 1 .utf8 = .badReference slot target kind ∧
        mismatched.resolveAll.2 = mismatched.directBelow slot := by
  have hFault : mismatched.resolveAll.1 = .error (.badReference 3 1 .utf8) := rfl
  obtain ⟨_, _, hFailure⟩ := resolveAll_of_read _ _ _ read_mismatched
  exact ⟨read_mismatched, hFault, hFailure _ hFault⟩

end Table

end ClassRom
