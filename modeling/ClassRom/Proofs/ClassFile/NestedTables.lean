import ClassRom.ClassFile.Body
import ClassRom.Proofs.ClassFile.SideFormats
import ClassRom.Proofs.Traversal

/-!
# Side tables among nested attributes

The data of a body is the written form of its fields in order. Nested attributes that hold no side
table are kept as they stand. Of the side tables with one name the last is kept, and an earlier one
is lost with each of its rows that the last does not repeat.
-/

namespace ClassRom

set_option autoImplicit false

/-! ### The data of a body -/

theorem Attribute.readsBack :
    read.ReadsBack wire fun attr => attr.info.length < 4294967296 := by
  intro input attr rest
  unfold read
  simp only [Reader.bind_eq_ok, Reader.u16_eq_ok, Reader.u32_eq_ok, Reader.take_eq_ok,
    Reader.pure_eq_ok, Reader.length_eq_iff]
  constructor
  · rintro ⟨name, _, rfl, _, _, rfl, info, _, ⟨⟨hFits, rfl⟩, rfl⟩, rfl, rfl⟩
    exact ⟨hFits, by simp [wire]⟩
  · rintro ⟨hFits, rfl⟩
    exact ⟨attr.name, _, by simp [wire], _, _, rfl, attr.info, _, ⟨⟨hFits, rfl⟩, rfl⟩, rfl, rfl⟩

namespace Body

/-- The fields of a body as its data has them. -/
structure Layout where
  maxStack : UInt16
  maxLocals : UInt16
  code : Bytes
  handlers : List Handler
  nested : List Attribute

namespace Layout

def wire (layout : Layout) : Bytes :=
  Wire.u16 layout.maxStack ++ Wire.u16 layout.maxLocals ++
    Wire.u32 (UInt32.ofNat layout.code.length) ++ layout.code ++
    Wire.counted Handler.wire layout.handlers ++ Wire.counted Attribute.wire layout.nested

/-- There is room for the fields: the code is not too long, and what is counted can be. -/
structure Fits (layout : Layout) : Prop where
  code : layout.code.length ≤ 65535
  handlers : SideTables.HandlersFit layout.handlers
  nested : layout.nested.length ≤ 65535 ∧
    ∀ attr ∈ layout.nested, attr.info.length < 4294967296

end Layout

/-- What is read as a body is laid out in order. -/
theorem layout_of_reader {table : Table} {method : String} {body : Body} {input rest : Bytes}
    (h : reader table method input = .ok (body, rest)) :
    ∃ layout : Layout, layout.Fits ∧ input = layout.wire ++ rest ∧
      sideTables table layout.handlers layout.nested = .ok body.tables ∧
      body.attributes = layout.nested.filter (fun attr => !isSideTable table attr) := by
  unfold reader at h
  obtain ⟨maxStack, _, hStack, h⟩ := Reader.bind_eq_ok.mp h
  obtain ⟨maxLocals, _, hLocals, h⟩ := Reader.bind_eq_ok.mp h
  obtain ⟨length, _, hLength, h⟩ := Reader.bind_eq_ok.mp h
  split at h
  next => cases h
  next hShort =>
    obtain ⟨code, _, hCode, h⟩ := Reader.bind_eq_ok.mp h
    obtain ⟨handlers, _, hHandlers, h⟩ := Reader.bind_eq_ok.mp h
    obtain ⟨nested, _, hNested, h⟩ := Reader.bind_eq_ok.mp h
    obtain ⟨tables, _, hTables, h⟩ := Reader.bind_eq_ok.mp h
    obtain rfl := Reader.u16_eq_ok.mp hStack
    obtain rfl := Reader.u16_eq_ok.mp hLocals
    obtain rfl := Reader.u32_eq_ok.mp hLength
    obtain ⟨hSize, rfl⟩ := Reader.take_eq_ok.mp hCode
    obtain ⟨hHandlersFit, rfl⟩ := (Handler.readsBack.counted _ _ _).mp hHandlers
    obtain ⟨hNestedFit, rfl⟩ := (Attribute.readsBack.counted _ _ _).mp hNested
    obtain ⟨hFound, rfl⟩ := Reader.lift_eq_ok.mp hTables
    obtain ⟨rfl, rfl⟩ := Reader.pure_eq_ok.mp h
    refine ⟨⟨maxStack, maxLocals, code, handlers, nested⟩,
      ⟨by dsimp only; omega, hHandlersFit, hNestedFit⟩, ?_, hFound, rfl⟩
    simp [Layout.wire, (Reader.length_eq_iff.mp hSize).2.symm]

/-! ### The last table of a name -/

/-- The nested attributes of a name. -/
def named (table : Table) (name : String) (nested : List Attribute) : List Attribute :=
  nested.filter fun attr => table.utf8 attr.name = .ok name

/-- Attributes of a name are read in turn, each in the place of the one before. -/
def Replaces {α : Type} (table : Table) (name : String) (item : Reader α) (nested : List Attribute)
    (before after : Option α) : Prop :=
  ∃ found : List α,
    List.Forall₂ (fun attr value => Attribute.parse name item attr.info = .ok value)
      (named table name nested) found ∧
    after = found.getLast?.or before

section Replacing

variable {α : Type} {table : Table} {name other : String} {item : Reader α}
variable {nested later : List Attribute} {attr : Attribute} {before middle after : Option α}

theorem replaces_nil : Replaces table name item [] before before :=
  ⟨[], .nil, rfl⟩

theorem Replaces.append (hFirst : Replaces table name item nested before middle)
    (hLater : Replaces table name item later middle after) :
    Replaces table name item (nested ++ later) before after := by
  obtain ⟨first, hFirst, rfl⟩ := hFirst
  obtain ⟨second, hSecond, rfl⟩ := hLater
  refine ⟨first ++ second, ?_, ?_⟩
  · rw [named, List.filter_append]
    exact List.rel_append hFirst hSecond
  · rw [List.getLast?_append, Option.or_assoc]

theorem replaces_self {value : α} (hName : table.utf8 attr.name = .ok name)
    (hValue : Attribute.parse name item attr.info = .ok value) :
    Replaces table name item [attr] before (some value) :=
  ⟨[value], by simp [named, hName, hValue], rfl⟩

theorem replaces_other (hName : table.utf8 attr.name = .ok other) (hOther : other ≠ name) :
    Replaces table name item [attr] before before :=
  ⟨[], by simp [named, hName, hOther], rfl⟩

end Replacing

/-- The tables after some nested attributes: each attribute of a table's name has replaced it. -/
structure TablesRead (table : Table) (nested : List Attribute) (before after : SideTables) :
    Prop where
  handlers_eq : after.handlers = before.handlers
  lines : Replaces table SideTables.linesName SideTables.readLines nested before.lines after.lines
  locals :
    Replaces table SideTables.localsName SideTables.readLocals nested before.locals after.locals
  frames :
    Replaces table SideTables.framesName SideTables.readFrames nested before.frames after.frames

variable {table : Table} {before after tables : SideTables} {attr : Attribute}

theorem readNested_tablesRead (h : readNested table before attr = .ok after) :
    TablesRead table [attr] before after := by
  unfold readNested at h
  obtain ⟨name, hName, h⟩ := Traversal.bind_eq_ok.mp h
  split at h
  next hLines =>
    subst hLines
    obtain ⟨rows, hRows, h⟩ := Traversal.bind_eq_ok.mp h
    cases h
    exact ⟨rfl, replaces_self hName hRows, replaces_other hName (by decide),
      replaces_other hName (by decide)⟩
  next hLines =>
    split at h
    next hLocals =>
      subst hLocals
      obtain ⟨rows, hRows, h⟩ := Traversal.bind_eq_ok.mp h
      cases h
      exact ⟨rfl, replaces_other hName hLines, replaces_self hName hRows,
        replaces_other hName (by decide)⟩
    next hLocals =>
      split at h
      next hFrames =>
        subst hFrames
        obtain ⟨rows, hRows, h⟩ := Traversal.bind_eq_ok.mp h
        cases h
        exact ⟨rfl, replaces_other hName hLines, replaces_other hName hLocals,
          replaces_self hName hRows⟩
      next hFrames =>
        cases h
        exact ⟨rfl, replaces_other hName hLines, replaces_other hName hLocals,
          replaces_other hName hFrames⟩

theorem foldlM_tablesRead {nested : List Attribute}
    (h : nested.foldlM (readNested table) before = .ok after) :
    TablesRead table nested before after := by
  induction nested generalizing before with
  | nil =>
    cases h
    exact ⟨rfl, replaces_nil, replaces_nil, replaces_nil⟩
  | cons attr nested ih =>
    rw [List.foldlM_cons] at h
    obtain ⟨middle, hStep, hRest⟩ := Traversal.bind_eq_ok.mp h
    have hFirst := readNested_tablesRead hStep
    have hLater := ih hRest
    exact ⟨hLater.handlers_eq.trans hFirst.handlers_eq, hFirst.lines.append hLater.lines,
      hFirst.locals.append hLater.locals, hFirst.frames.append hLater.frames⟩

/-! ### What a body keeps -/

/-- The attributes of a name are the written forms of tables, of which the last is kept. Rows are
lost unless it repeats those of all the others. -/
def KeepsLast {α : Type} (table : Table) (name : String) (wire : α → Bytes)
    (nested : List Attribute) (kept : Option (List α)) : Prop :=
  ∃ tables : List (List α),
    List.Forall₂ (fun attr rows => attr.info = Wire.counted wire rows) (named table name nested)
      tables ∧
    kept = tables.getLast? ∧
    ((∀ rows ∈ tables, rows ⊆ kept.getD []) ↔
      ∀ earlier ∈ tables.dropLast, ∀ last ∈ tables.getLast?, earlier ⊆ last)

theorem subset_last_iff {α : Type} {tables : List (List α)} :
    (∀ rows ∈ tables, rows ⊆ tables.getLast?.getD []) ↔
      ∀ earlier ∈ tables.dropLast, ∀ last ∈ tables.getLast?, earlier ⊆ last := by
  rcases List.eq_nil_or_concat tables with rfl | ⟨earlier, last, rfl⟩
  · simp
  · simp [or_imp, forall_and]

theorem Replaces.keepsLast {α : Type} {name : String} {item : Reader (List α)} {wire : α → Bytes}
    {Fits : List α → Prop} {nested : List Attribute} {kept : Option (List α)}
    (hFormat : ExactFormat item (Wire.counted wire) Fits)
    (h : Replaces table name item nested none kept) : KeepsLast table name wire nested kept := by
  obtain ⟨tables, hTables, rfl⟩ := h
  rw [Option.or_none]
  refine ⟨tables, hTables.imp fun attr rows hRows => ?_, rfl, subset_last_iff⟩
  exact ((hFormat.parse_iff _ _ _).mp hRows).2

theorem isSideTable_iff :
    isSideTable table attr = true ↔
      ∃ name ∈ [SideTables.linesName, SideTables.localsName, SideTables.framesName],
        table.utf8 attr.name = .ok name := by
  unfold isSideTable
  cases table.utf8 attr.name with
  | error fault => simp
  | ok name => simp [or_assoc]

/-- A body that can be read has all of its data, but of the side tables with one name only the
last. -/
theorem read_keeps_last_tables (table : Table) (method : String) (info : Bytes) (body : Body)
    (h : Body.read table method info = .ok body) :
    ∃ layout : Layout, layout.Fits ∧ info = layout.wire ∧
      body.tables.handlers = layout.handlers ∧
      body.attributes = layout.nested.filter (fun attr =>
        ¬ ∃ name ∈ [SideTables.linesName, SideTables.localsName, SideTables.framesName],
          table.utf8 attr.name = .ok name) ∧
      KeepsLast table SideTables.linesName Line.wire layout.nested body.tables.lines ∧
      KeepsLast table SideTables.localsName LocalVariable.wire layout.nested body.tables.locals ∧
      KeepsLast table SideTables.framesName Frame.wire layout.nested body.tables.frames := by
  obtain ⟨layout, hFits, hInfo, hTables, hAttributes⟩ :=
    layout_of_reader (Attribute.parse_eq_ok.mp h)
  have hRead := foldlM_tablesRead hTables
  refine ⟨layout, hFits, by rw [hInfo, List.append_nil], hRead.handlers_eq, ?_,
    hRead.lines.keepsLast Line.readsBack.counted.exactFormat,
    hRead.locals.keepsLast LocalVariable.readsBack.counted.exactFormat,
    hRead.frames.keepsLast Frame.readsBack.counted.exactFormat⟩
  rw [hAttributes]
  refine List.filter_congr fun attr _ => ?_
  rw [Bool.eq_iff_iff, Bool.not_eq_true', ← Bool.not_eq_true, isSideTable_iff, decide_eq_true_iff]

/-- The names that the example uses, from index 1 on. -/
def exampleNames : Table :=
  ⟨#[none, some (.utf8 (.unicode "LineNumberTable")), some (.utf8 (.unicode "LocalVariableTable")),
    some (.utf8 (.unicode "x")), some (.utf8 (.unicode "y")), some (.utf8 (.unicode "I"))]⟩

/-- A body with two tables of lines and two of local variables, in turn. -/
def exampleLayout : Layout where
  maxStack := 0
  maxLocals := 2
  code := [0xb1]
  handlers := []
  nested := [
    ⟨1, Wire.counted Line.wire [⟨0, 1⟩]⟩,
    ⟨2, Wire.counted LocalVariable.wire [⟨0, 1, 3, 5, 0⟩]⟩,
    ⟨1, Wire.counted Line.wire [⟨0, 2⟩]⟩,
    ⟨2, Wire.counted LocalVariable.wire [⟨0, 1, 4, 5, 1⟩]⟩]

def exampleBody : Body where
  maxStack := 0
  maxLocals := 2
  bytecode := Bytecode.ofBytes "Demo.run()V" [0xb1]
  tables := ⟨[], some [⟨0, 2⟩], some [⟨0, 1, 4, 5, 1⟩], none⟩
  attributes := []

/-- The second table of lines and the second of local variables take the place of the first. -/
theorem read_keeps_last_tables_twice :
    Body.read exampleNames "Demo.run()V" exampleLayout.wire = .ok exampleBody ∧
      ∃ layout : Layout, layout.Fits ∧ exampleLayout.wire = layout.wire ∧
        KeepsLast exampleNames SideTables.linesName Line.wire layout.nested (some [⟨0, 2⟩]) ∧
        KeepsLast exampleNames SideTables.localsName LocalVariable.wire layout.nested
          (some [⟨0, 1, 4, 5, 1⟩]) := by
  have hRead : Body.read exampleNames "Demo.run()V" exampleLayout.wire = .ok exampleBody := by
    decide +kernel
  obtain ⟨layout, hFits, hInfo, _, _, hLines, hLocals, _⟩ :=
    read_keeps_last_tables exampleNames "Demo.run()V" exampleLayout.wire exampleBody hRead
  exact ⟨hRead, layout, hFits, hInfo, hLines, hLocals⟩

/-- Rows of a nested table are not always kept: here the first line and the first variable are in
tables of the body, and in none that is read. -/
theorem read_drops_earlier_tables :
    Body.read exampleNames "Demo.run()V" exampleLayout.wire = .ok exampleBody ∧
      ⟨1, Wire.counted Line.wire [⟨0, 1⟩]⟩ ∈
        named exampleNames SideTables.linesName exampleLayout.nested ∧
      ⟨0, 1⟩ ∉ exampleBody.tables.lines.getD [] ∧
      ⟨2, Wire.counted LocalVariable.wire [⟨0, 1, 3, 5, 0⟩]⟩ ∈
        named exampleNames SideTables.localsName exampleLayout.nested ∧
      ⟨0, 1, 3, 5, 0⟩ ∉ exampleBody.tables.locals.getD [] := by
  refine ⟨?_, ?_, ?_, ?_, ?_⟩ <;> decide +kernel

end Body

end ClassRom
