import ClassRom.ClassFile.Attribute
import ClassRom.Proofs.Wire
import ClassRom.SideTables

/-!
# Formats of side tables

Each row of a side table has one written form, and so has each table: whatever can be read is the
written form of what was read. The only rows that cannot be read back are those that the format has
no room for, lists too long to be counted and a catch type of 0, which stands for none.
-/

namespace ClassRom

set_option autoImplicit false

/-! ### Rows -/

theorem Handler.readsBack : read.ReadsBack wire fun row => row.catchType ≠ some 0 := by
  intro input row rest
  unfold read
  simp only [Reader.bind_eq_ok, Reader.u16_eq_ok, Reader.pure_eq_ok]
  constructor
  · rintro ⟨start, _, rfl, stop, _, rfl, handler, _, rfl, catchType, _, rfl, rfl, rfl⟩
    by_cases hZero : catchType = 0
    · simp [wire, hZero]
    · simp [wire, hZero]
  · rintro ⟨hCatch, rfl⟩
    refine ⟨row.start, _, by simp [wire], row.stop, _, rfl, row.handler, _, rfl,
      row.catchType.getD 0, _, rfl, ?_, rfl⟩
    obtain ⟨start, stop, handler, catchType⟩ := row
    cases catchType with
    | none => rfl
    | some index =>
      have hNe : index ≠ 0 := fun hZero => hCatch (congrArg some hZero)
      simp [hNe]

theorem Line.readsBack : read.ReadsBack wire fun _ => True := by
  intro input row rest
  unfold read
  simp only [Reader.bind_eq_ok, Reader.u16_eq_ok, Reader.pure_eq_ok]
  constructor
  · rintro ⟨start, _, rfl, line, _, rfl, rfl, rfl⟩
    simp [wire]
  · rintro ⟨_, rfl⟩
    exact ⟨row.start, _, by simp [wire], row.line, _, rfl, rfl, rfl⟩

theorem LocalVariable.readsBack : read.ReadsBack wire fun _ => True := by
  intro input row rest
  unfold read
  simp only [Reader.bind_eq_ok, Reader.u16_eq_ok, Reader.pure_eq_ok]
  constructor
  · rintro ⟨start, _, rfl, length, _, rfl, name, _, rfl, descriptor, _, rfl, slot, _, rfl, rfl, rfl⟩
    simp [wire]
  · rintro ⟨_, rfl⟩
    exact ⟨row.start, _, by simp [wire], row.length, _, rfl, row.name, _, rfl, row.descriptor, _,
      rfl, row.slot, _, rfl, rfl, rfl⟩

theorem VerificationType.readsBack : read.ReadsBack wire fun _ => True := by
  intro input type rest
  unfold read
  rw [Reader.bind_eq_ok]
  constructor
  · rintro ⟨tag, middle, hTag, hType⟩
    obtain rfl := Reader.u8_eq_ok.mp hTag
    refine ⟨trivial, ?_⟩
    split at hType
    case h_8 | h_9 =>
      obtain ⟨word, _, hWord, hDone⟩ := Reader.bind_eq_ok.mp hType
      obtain rfl := Reader.u16_eq_ok.mp hWord
      obtain ⟨rfl, rfl⟩ := Reader.pure_eq_ok.mp hDone
      rfl
    case h_10 => cases hType
    all_goals
      obtain ⟨rfl, rfl⟩ := Reader.pure_eq_ok.mp hType
      rfl
  · rintro ⟨_, rfl⟩
    cases type with
    | object word | uninitialized word =>
      refine ⟨_, _, rfl, Reader.bind_eq_ok.mpr ⟨word, rest, Reader.u16_eq_ok.mpr rfl, rfl⟩⟩
    | _ => exact ⟨_, _, rfl, rfl⟩

theorem Frame.readsBack : read.ReadsBack wire fun row =>
    row.locals.length ≤ 65535 ∧ row.stack.length ≤ 65535 := by
  have hTypes := VerificationType.readsBack.counted
  intro input row rest
  unfold read
  simp only [Reader.bind_eq_ok, Reader.u16_eq_ok, Reader.pure_eq_ok, hTypes _ _ _]
  constructor
  · rintro ⟨offset, _, rfl, locals, _, ⟨⟨hLocals, _⟩, rfl⟩, stack, _, ⟨⟨hStack, _⟩, rfl⟩, rfl, rfl⟩
    exact ⟨⟨hLocals, hStack⟩, by simp [wire]⟩
  · rintro ⟨⟨hLocals, hStack⟩, rfl⟩
    exact ⟨row.offset, _, by simp [wire], row.locals, _, ⟨⟨hLocals, fun _ _ => trivial⟩, rfl⟩,
      row.stack, _, ⟨⟨hStack, fun _ _ => trivial⟩, rfl⟩, rfl, rfl⟩

/-! ### Tables -/

section Formats

variable {α : Type} {reader : Reader α} {wire : α → Bytes} {Fits : α → Prop}

/-- The data of an attribute is accepted where the reader stops at its end. -/
theorem Attribute.parse_eq_ok {label : String} {info : Bytes} {value : α} :
    parse label reader info = .ok value ↔ reader info = .ok (value, []) := by
  unfold parse
  split
  next fault hRead => simp [hRead]
  next value' rest hRead =>
    cases rest with
    | nil => simp [hRead]
    | cons byte rest => simp [hRead]

/-- A format for the values that fit: each of them is read back from its written form whatever
follows, what was read is the written form of its value, and an attribute is accepted exactly if its
data is such a form. -/
structure ExactFormat (reader : Reader α) (wire : α → Bytes) (Fits : α → Prop) : Prop where
  read_wire : ∀ value rest, Fits value → reader (wire value ++ rest) = .ok (value, rest)
  wire_of_read : ∀ input value rest, reader input = .ok (value, rest) →
    Fits value ∧ wire value ++ rest = input
  parse_iff : ∀ label info value, Attribute.parse label reader info = .ok value ↔
    Fits value ∧ info = wire value

theorem Reader.ReadsBack.exactFormat (h : reader.ReadsBack wire Fits) :
    ExactFormat reader wire Fits where
  read_wire value rest hFits := (h _ _ _).mpr ⟨hFits, rfl⟩
  wire_of_read input value rest hRead := by
    obtain ⟨hFits, rfl⟩ := (h _ _ _).mp hRead
    exact ⟨hFits, rfl⟩
  parse_iff label info value := by
    rw [Attribute.parse_eq_ok, h, List.append_nil]

end Formats

namespace SideTables

/-- The format has room for the handlers: there are not too many, and none catches class 0. -/
def HandlersFit (rows : List Handler) : Prop :=
  rows.length ≤ 65535 ∧ ∀ row ∈ rows, row.catchType ≠ some 0

/-- The format has room for the frames: neither they nor the types in one of them are too many. -/
def FramesFit (rows : List Frame) : Prop :=
  rows.length ≤ 65535 ∧ ∀ row ∈ rows, row.locals.length ≤ 65535 ∧ row.stack.length ≤ 65535

/-- The formats of all side tables are exact. -/
theorem side_formats_exact :
    ExactFormat readHandlers (Wire.counted Handler.wire) HandlersFit ∧
      ExactFormat readLines (Wire.counted Line.wire) (fun rows => rows.length ≤ 65535) ∧
      ExactFormat readLocals (Wire.counted LocalVariable.wire) (fun rows => rows.length ≤ 65535) ∧
      ExactFormat readFrames (Wire.counted Frame.wire) FramesFit := by
  -- rows of the same width fit whatever they hold
  have hPlain {α : Type} {item : Reader α} {wire : α → Bytes}
      (h : item.ReadsBack wire fun _ => True) :
      (Reader.counted item).ReadsBack (Wire.counted wire) fun rows => rows.length ≤ 65535 := by
    intro input rows rest
    simp [h.counted input rows rest]
  exact ⟨Handler.readsBack.counted.exactFormat, (hPlain Line.readsBack).exactFormat,
    (hPlain LocalVariable.readsBack).exactFormat, Frame.readsBack.counted.exactFormat⟩

/-- A frame with an instance of a class and an object just created, as a whole attribute. -/
theorem side_formats_exact_frame :
    FramesFit [⟨4, [.object 258, .long], [.uninitialized 1]⟩] ∧
      Attribute.parse framesName readFrames
        [0, 1, 0, 4, 0, 2, 7, 1, 2, 4, 0, 1, 8, 0, 1] =
          .ok [⟨4, [.object 258, .long], [.uninitialized 1]⟩] := by
  have hFits : FramesFit [⟨4, [.object 258, .long], [.uninitialized 1]⟩] := by
    simp [FramesFit]
  exact ⟨hFits, (side_formats_exact.2.2.2.parse_iff _ _ _).mpr ⟨hFits, by decide⟩⟩

end SideTables

end ClassRom
