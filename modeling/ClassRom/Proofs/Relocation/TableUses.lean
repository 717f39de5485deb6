import ClassRom.Fault
import ClassRom.Proofs.Traversal
import ClassRom.SideTables

/-!
# Listing and replacing the constants of side tables

The constants of the side tables are listed where uses are counted, and replaced where methods are
relocated. Both go through the tables in one order and see the same constants at the same offsets:
what is replaced is what is listed, and the fault of a replacement is that of the first use in the
list that cannot be replaced.
-/

namespace ClassRom

set_option autoImplicit false

/-- The use with its index replaced by what `f` makes of it and of the offset. -/
def Use.reindex (f : Nat → UInt16 → Except Fault UInt16) (use : Use) : Except Fault Use :=
  (f use.offset use.index).map fun index => { use with index }

/-! ### One row -/

def Handler.uses (row : Handler) : List Use :=
  row.catchType.toList.map fun index => ⟨row.handler.toNat, index, false⟩

def LocalVariable.uses (row : LocalVariable) : List Use :=
  [⟨row.start.toNat, row.name, false⟩, ⟨row.start.toNat, row.descriptor, false⟩]

def VerificationType.uses (offset : Nat) (type : VerificationType) : List Use :=
  (type.index?.map fun index => ⟨offset, index, false⟩).toList

def Frame.uses (row : Frame) : List Use :=
  (row.locals ++ row.stack).flatMap (VerificationType.uses row.offset.toNat)

section

variable (f : Nat → UInt16 → Except Fault UInt16)

def Handler.mapIndices (row : Handler) : Except Fault Handler := do
  let catchType ← row.catchType.mapM (f row.handler.toNat)
  return { row with catchType }

def LocalVariable.mapIndices (row : LocalVariable) : Except Fault LocalVariable := do
  let name ← f row.start.toNat row.name
  let descriptor ← f row.start.toNat row.descriptor
  return { row with name, descriptor }

def Frame.mapIndices (row : Frame) : Except Fault Frame := do
  let locals ← row.locals.mapM (·.mapIndex (f row.offset.toNat))
  let stack ← row.stack.mapM (·.mapIndex (f row.offset.toNat))
  return { row with locals, stack }

end

namespace SideTables

theorem uses_eq (tables : SideTables) :
    tables.uses = tables.handlers.flatMap Handler.uses ++
      (tables.locals.getD []).flatMap LocalVariable.uses ++
      (tables.frames.getD []).flatMap Frame.uses := by
  have hFrame : Frame.uses = fun row : Frame => (row.locals ++ row.stack).filterMap fun type =>
      type.index?.map fun index => ⟨row.offset.toNat, index, false⟩ := by
    funext row
    exact (List.filterMap_eq_flatMap_toList _ _).symm
  rw [hFrame]
  rfl

theorem mapIndices_eq (f : Nat → UInt16 → Except Fault UInt16) (tables : SideTables) :
    tables.mapIndices f =
      (tables.handlers.mapM (Handler.mapIndices f) >>= fun handlers =>
        tables.locals.mapM (fun rows => rows.mapM (LocalVariable.mapIndices f)) >>= fun locals =>
          tables.frames.mapM (fun rows => rows.mapM (Frame.mapIndices f)) >>= fun frames =>
            pure { tables with handlers, locals, frames }) :=
  rfl

/-! ### Agreement -/

/-- To replace in a value and then list what it uses comes to the same as to replace in the list of
what it uses, faults included. -/
def Agree {α : Type} (list : α → List Use) (step : Use → Except Fault Use)
    (visit : α → Except Fault α) : Prop :=
  ∀ value, (visit value).map list = (list value).mapM step

section

variable {α β γ : Type} {list : α → List Use} {step : Use → Except Fault Use}
  {visit : α → Except Fault α}

theorem Agree.eq_ok (h : Agree list step visit) {value value' : α}
    (hVisit : visit value = .ok value') : (list value).mapM step = .ok (list value') := by
  rw [← h value, hVisit]
  rfl

theorem Agree.isOk_iff (h : Agree list step visit) {value : α} :
    (∃ value', visit value = .ok value') ↔ ∀ use ∈ list value, ∃ use', step use = .ok use' := by
  rw [← Traversal.mapM_isOk_iff, ← h value]
  cases visit value with
  | error fault => simp [Except.map]
  | ok value' => simp [Except.map]

theorem Agree.eq_error_iff (h : Agree list step visit) {value : α} {fault : Fault} :
    visit value = .error fault ↔
      ∃ before use after, list value = before ++ use :: after ∧
        (∀ earlier ∈ before, ∃ use', step earlier = .ok use') ∧ step use = .error fault := by
  rw [← Traversal.mapM_eq_error_iff, ← h value]
  cases visit value with
  | error fault => simp [Except.map]
  | ok value' => simp [Except.map]

/-- What is put together from two results lists what each of them does. -/
theorem map_bind_bind {x : Except Fault α} {y : Except Fault β} {make : α → β → γ}
    {list : γ → List Use} {left : α → List Use} {right : β → List Use}
    (h : ∀ a b, list (make a b) = left a ++ right b) :
    (x >>= fun a => y >>= fun b => pure (make a b)).map list =
      (x.map left >>= fun as => y.map right >>= fun bs => pure (as ++ bs)) := by
  cases x with
  | error fault => rfl
  | ok a =>
    cases y with
    | error fault => rfl
    | ok b => exact congrArg Except.ok (h a b)

theorem Agree.mapM (h : Agree list step visit) (values : List α) :
    (values.mapM visit).map (·.flatMap list) = (values.flatMap list).mapM step := by
  induction values with
  | nil => rfl
  | cons value values ih =>
    rw [List.mapM_cons, List.flatMap_cons, List.mapM_append, ← h value, ← ih]
    exact map_bind_bind fun _ _ => List.flatMap_cons

theorem Agree.table (h : Agree list step visit) (rows : Option (List α)) :
    (rows.mapM fun rows : List α => rows.mapM visit).map
        (fun rows : Option (List α) => (rows.getD []).flatMap list) =
      ((rows.getD []).flatMap list).mapM step := by
  cases rows with
  | none => rfl
  | some rows =>
    rw [Option.getD_some, ← h.mapM rows, Option.mapM_some]
    cases rows.mapM visit with
    | error fault => rfl
    | ok rows => rfl

end

section Rows

variable (f : Nat → UInt16 → Except Fault UInt16)

theorem agree_handler : Agree Handler.uses (Use.reindex f) (Handler.mapIndices f) := by
  rintro ⟨start, stop, handler, catchType⟩
  cases catchType with
  | none => rfl
  | some index =>
    simp only [Handler.mapIndices, Handler.uses, Option.mapM_some, Option.toList_some,
      List.map_cons, List.map_nil, List.mapM_cons, List.mapM_nil, Use.reindex]
    cases f handler.toNat index with
    | error fault => rfl
    | ok index => rfl

theorem agree_local : Agree LocalVariable.uses (Use.reindex f) (LocalVariable.mapIndices f) := by
  intro row
  simp only [LocalVariable.mapIndices, LocalVariable.uses, List.mapM_cons, List.mapM_nil,
    Use.reindex]
  cases f row.start.toNat row.name with
  | error fault => rfl
  | ok name =>
    cases f row.start.toNat row.descriptor with
    | error fault => rfl
    | ok descriptor => rfl

theorem agree_type (offset : Nat) :
    Agree (VerificationType.uses offset) (Use.reindex f) (·.mapIndex (f offset)) := by
  intro type
  cases type with
  | object index =>
    simp only [VerificationType.mapIndex, VerificationType.uses, VerificationType.index?,
      Option.map_some, Option.toList_some, List.mapM_cons, List.mapM_nil, Use.reindex]
    cases f offset index with
    | error fault => rfl
    | ok index => rfl
  | top | integer | float | double | long | null | uninitializedThis | uninitialized _ => rfl

theorem agree_frame : Agree Frame.uses (Use.reindex f) (Frame.mapIndices f) := by
  intro row
  have hTypes := (agree_type f row.offset.toNat).mapM
  unfold Frame.uses
  rw [List.flatMap_append, List.mapM_append, ← hTypes row.locals, ← hTypes row.stack]
  exact map_bind_bind fun _ _ => List.flatMap_append

/-- The list of uses and the replacement of indices go through the tables in one order. -/
theorem agree_mapIndices : Agree uses (Use.reindex f) (mapIndices f) := by
  intro tables
  rw [mapIndices_eq, uses_eq, List.mapM_append, List.mapM_append,
    ← (agree_handler f).mapM tables.handlers, ← (agree_local f).table tables.locals,
    ← (agree_frame f).table tables.frames]
  cases tables.handlers.mapM (Handler.mapIndices f) with
  | error fault => rfl
  | ok handlers =>
    cases tables.locals.mapM fun rows => rows.mapM (LocalVariable.mapIndices f) with
    | error fault => rfl
    | ok locals =>
      cases tables.frames.mapM fun rows => rows.mapM (Frame.mapIndices f) with
      | error fault => rfl
      | ok frames => exact congrArg Except.ok (uses_eq _)

end Rows

/-! ### By place -/

/-- Catch types, names and types of local variables, classes in stack map frames. -/
def mentions (tables : SideTables) : List UInt16 :=
  tables.handlers.filterMap (·.catchType) ++
    ((tables.locals.getD []).flatMap fun row => [row.name, row.descriptor]) ++
    (tables.frames.getD []).flatMap fun row =>
      row.locals.filterMap VerificationType.index? ++ row.stack.filterMap VerificationType.index?

theorem map_index_uses (tables : SideTables) : tables.uses.map Use.index = tables.mentions := by
  unfold uses mentions
  simp only [List.map_append, List.map_flatMap, List.map_map, List.map_filterMap, Option.map_map,
    Function.comp_def, List.map_id', Option.map_id', List.map_cons, List.map_nil,
    List.filterMap_append]
  rw [List.filterMap_eq_flatMap_toList]

theorem filter_single_uses (tables : SideTables) : tables.uses.filter Use.single = [] := by
  unfold uses
  simp [List.filter_append, List.filter_flatMap, List.filter_map, List.filter_filterMap,
    Function.comp_def]

end SideTables

namespace Use

variable {f : Nat → UInt16 → Except Fault UInt16} {use use' : Use} {fault : Fault}

theorem reindex_eq_ok :
    use.reindex f = .ok use' ↔
      ∃ index, f use.offset use.index = .ok index ∧ use' = { use with index } := by
  unfold reindex
  cases f use.offset use.index with
  | error fault => simp [Except.map]
  | ok index => simp [Except.map, eq_comm]

theorem reindex_eq_error :
    use.reindex f = .error fault ↔ f use.offset use.index = .error fault := by
  unfold reindex
  cases f use.offset use.index with
  | error fault => simp [Except.map]
  | ok index => simp [Except.map]

end Use

theorem SideTables.mapIndices_error {f : Nat → UInt16 → Except Fault UInt16} {tables : SideTables}
    {fault : Fault} (h : tables.mapIndices f = .error fault) :
    ∃ use ∈ tables.uses, f use.offset use.index = .error fault := by
  obtain ⟨before, use, after, hSplit, _, hFault⟩ := (agree_mapIndices f).eq_error_iff.mp h
  refine ⟨use, ?_, Use.reindex_eq_error.mp hFault⟩
  rw [hSplit]
  exact List.mem_append_right before List.mem_cons_self

end ClassRom
