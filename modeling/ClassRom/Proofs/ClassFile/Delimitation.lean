import ClassRom.Proofs.ClassFile.SideFormats
import ClassRom.Proofs.Image.Loading

/-!
# Where class files end

A class file does not say how long it is, but its bytes do. A reader is delimited when the bytes it
takes for a value settle the value: they are read alike whatever follows them, and input that ends
before they do is faulted for just that. Words are delimited, and whatever is read by delimited
readers one after the other is, with checks in between that look at values already read.

The data of an attribute ends where the attribute does. So a reader that is delimited accepts no
other data that agrees with what it accepts as far as both go.
-/

namespace ClassRom

set_option autoImplicit false

variable {α β : Type}

namespace Reader

/-- The bytes are read as the value whatever follows them, and are missed where the input ends before
they do. -/
structure Takes (reader : Reader α) (bytes : Bytes) (value : α) : Prop where
  followed : ∀ rest, reader (bytes ++ rest) = .ok (value, rest)
  cut_short : ∀ part, part <+: bytes → part ≠ bytes → reader part = .error .truncatedInput

/-- What the reader takes off an input for a value does not depend on the rest of the input. -/
def Delimited (reader : Reader α) : Prop :=
  ∀ input value rest, reader input = .ok (value, rest) →
    ∃ bytes, input = bytes ++ rest ∧ reader.Takes bytes value

theorem Takes.bind {reader : Reader α} {next : α → Reader β} {first second : Bytes} {a : α} {b : β}
    (h : reader.Takes first a) (h' : (next a).Takes second b) :
    Takes (reader >>= next) (first ++ second) b where
  followed rest := by
    rw [List.append_assoc, bind_of_ok (h.followed (second ++ rest)), h'.followed rest]
  cut_short part hPart hNe := by
    obtain ⟨missing, hMissing⟩ := hPart
    -- the cut is within the first bytes, or behind all of them
    rcases List.append_eq_append_iff.mp hMissing with ⟨lacking, hFirst, _⟩ | ⟨cut, hCut, hSecond⟩
    · by_cases hAll : part = first
      · have hNil : [] ≠ second := by
          intro hEmpty
          apply hNe
          rw [hAll, ← hEmpty, List.append_nil]
        have hRead := h.followed []
        rw [List.append_nil] at hRead
        rw [hAll, bind_of_ok hRead, h'.cut_short [] List.nil_prefix hNil]
      · apply bind_of_error
        exact h.cut_short part ⟨lacking, hFirst.symm⟩ hAll
    · have hStrict : cut ≠ second := by
        intro hAll
        apply hNe
        rw [hCut, hAll]
      rw [hCut, bind_of_ok (h.followed cut), h'.cut_short cut ⟨missing, hSecond.symm⟩ hStrict]

theorem takes_nil {reader : Reader α} {value : α}
    (h : ∀ rest, reader rest = .ok (value, rest)) : reader.Takes [] value where
  followed := h
  cut_short _ hPart hNe := absurd (List.prefix_nil.mp hPart) hNe

theorem Delimited.bind {reader : Reader α} {next : α → Reader β} (h : reader.Delimited)
    (hNext : ∀ value, (next value).Delimited) : Delimited (reader >>= next) := by
  intro input value rest hRead
  obtain ⟨a, middle, hFirst, hSecond⟩ := bind_eq_ok.mp hRead
  obtain ⟨first, rfl, hTakes⟩ := h input a middle hFirst
  obtain ⟨second, rfl, hTakes'⟩ := hNext a middle value rest hSecond
  exact ⟨first ++ second, (List.append_assoc ..).symm, hTakes.bind hTakes'⟩

theorem delimited_pure (value : α) : Delimited (pure value) := by
  intro input value' rest hRead
  cases hRead
  exact ⟨[], rfl, takes_nil fun _ => rfl⟩

theorem delimited_throw (fault : FormatFault) : Delimited (throw fault : Reader α) := by
  intro input value rest hRead
  cases hRead

/-- A check takes nothing off the input. -/
theorem delimited_lift (result : Except FormatFault α) : Delimited (liftM result : Reader α) := by
  cases result with
  | error fault => exact delimited_throw fault
  | ok value => exact delimited_pure value

theorem delimited_ite {condition : Prop} [Decidable condition] {first second : Reader α}
    (hFirst : first.Delimited) (hSecond : second.Delimited) :
    Delimited (if condition then first else second) := by
  split
  · exact hFirst
  · exact hSecond

/-! ### Words and lists -/

theorem delimited_u8 : Reader.u8.Delimited := by
  intro input value rest hRead
  obtain rfl := u8_eq_ok.mp hRead
  refine ⟨Wire.u8 value, rfl, fun _ => rfl, ?_⟩
  intro part hPart hNe
  rcases List.prefix_cons_iff.mp hPart with rfl | ⟨tail, rfl, hTail⟩
  · rfl
  · rw [List.prefix_nil.mp hTail] at hNe
    exact absurd rfl hNe

theorem delimited_u16 : Reader.u16.Delimited :=
  delimited_u8.bind fun _ => delimited_u8.bind fun _ => delimited_pure _

theorem delimited_u32 : Reader.u32.Delimited :=
  delimited_u16.bind fun _ => delimited_u16.bind fun _ => delimited_pure _

theorem delimited_u64 : Reader.u64.Delimited :=
  delimited_u32.bind fun _ => delimited_u32.bind fun _ => delimited_pure _

theorem delimited_take (n : Nat) : (Reader.take n).Delimited := by
  intro input chunk rest hRead
  obtain ⟨_, ⟨rfl, hLength⟩, rfl⟩ := (reads_take n input chunk rest).mp hRead
  refine ⟨_, rfl, fun rest => (reads_take n _ _ rest).mpr ⟨_, ⟨rfl, hLength⟩, rfl⟩, ?_⟩
  intro part hPart hNe
  have hShort : part.length < n := by
    rw [← hLength]
    exact Nat.lt_of_le_of_ne hPart.length_le fun hEq => hNe (hPart.eq_of_length hEq)
  unfold take
  rw [if_neg (by rw [List.length_take]; omega)]

theorem manyFrom_succ (item : Reader α) (n : Nat) (done : List α) :
    manyFrom item (n + 1) done =
      (item >>= fun value => manyFrom item n (value :: done) : Reader (List α)) := by
  funext input
  rw [manyFrom]
  cases hItem : item input with
  | error fault => rw [bind_of_error hItem]
  | ok pair => rw [bind_of_ok hItem]

theorem Delimited.manyFrom {item : Reader α} (h : item.Delimited) (n : Nat) (done : List α) :
    Delimited (manyFrom item n done) := by
  induction n generalizing done with
  | zero => exact delimited_pure done.reverse
  | succ n ih =>
    rw [manyFrom_succ]
    exact h.bind fun value => ih (value :: done)

theorem Delimited.counted {item : Reader α} (h : item.Delimited) :
    (Reader.counted item).Delimited :=
  delimited_u16.bind fun length => h.manyFrom length.toNat []

end Reader

open Reader

/-! ### Constants -/

theorem Constant.delimited_readRef : readRef.Delimited :=
  delimited_u16.bind fun _ => delimited_pure _

theorem Constant.delimited_read (index : UInt16) : (Constant.read index).Delimited := by
  refine delimited_u8.bind fun tag => ?_
  have hRef {make : Ref → Constant} : Delimited (readRef >>= fun ref => pure (make ref)) :=
    delimited_readRef.bind fun _ => delimited_pure _
  have hRefs {make : Ref → Ref → Constant} :
      Delimited (readRef >>= fun first => readRef >>= fun second => pure (make first second)) :=
    delimited_readRef.bind fun _ => delimited_readRef.bind fun _ => delimited_pure _
  split
  · -- all bytes of a text are there before it is decoded
    refine delimited_u16.bind fun length => (delimited_take length.toNat).bind fun bytes => ?_
    split
    · exact delimited_pure _
    · exact delimited_throw _
  · exact delimited_u32.bind fun _ => delimited_pure _
  · exact delimited_u32.bind fun _ => delimited_pure _
  · exact delimited_u64.bind fun _ => delimited_pure _
  · exact delimited_u64.bind fun _ => delimited_pure _
  · exact hRef
  · exact hRef
  · exact hRefs
  · exact hRefs
  · exact hRefs
  · exact hRefs
  · exact delimited_throw _

namespace Table

/-- A constant is read if any slot is left, and kept if it does not take more slots than are. -/
theorem fill_succ (count : UInt16) (left : Nat) (table : Table) :
    fill count (left + 1) table =
      (Constant.read table.nextIndex >>= fun constant =>
        if constant.width ≤ left + 1 then
          fill count (left + 1 - constant.width) (table.push constant)
        else throw (.constantCount table.nextIndex count) : Reader Table) := by
  funext input
  rw [fill.eq_def]
  dsimp only
  cases hRead : Constant.read table.nextIndex input with
  | error fault => rw [bind_of_error hRead]
  | ok pair =>
    obtain ⟨constant, rest⟩ := pair
    rw [bind_of_ok hRead]
    dsimp only
    unfold Constant.width
    by_cases hWide : constant.isWide
    · cases left with
      | zero =>
        rw [if_pos hWide, if_pos hWide, if_neg (by omega)]
        rfl
      | succ left => simp [hWide]
    · simp [hWide]

theorem delimited_fill (count : UInt16) (left : Nat) (table : Table) :
    Delimited (fill count left table) := by
  induction left using Nat.strongRecOn generalizing table with
  | _ left ih =>
    cases left with
    | zero => exact delimited_pure table
    | succ left =>
      rw [fill_succ]
      refine (Constant.delimited_read table.nextIndex).bind fun constant => ?_
      refine delimited_ite (ih _ ?_ _) (delimited_throw _)
      unfold Constant.width
      split <;> omega

theorem delimited_read : read.Delimited :=
  delimited_u16.bind fun count => delimited_ite (delimited_throw _) (delimited_fill count _ empty)

end Table

/-! ### Side tables and bodies -/

theorem Handler.delimited_read : read.Delimited :=
  delimited_u16.bind fun _ => delimited_u16.bind fun _ => delimited_u16.bind fun _ =>
    delimited_u16.bind fun _ => delimited_pure _

theorem Attribute.delimited_read : read.Delimited :=
  delimited_u16.bind fun _ => delimited_u32.bind fun length =>
    (delimited_take length.toNat).bind fun _ => delimited_pure _

theorem Body.delimited_reader (table : Table) (method : String) :
    (reader table method).Delimited := by
  refine delimited_u16.bind fun maxStack => delimited_u16.bind fun maxLocals => ?_
  refine delimited_u32.bind fun length => delimited_ite (delimited_throw _) ?_
  refine (delimited_take length.toNat).bind fun code => ?_
  refine Handler.delimited_read.counted.bind fun handlers => ?_
  refine Attribute.delimited_read.counted.bind fun nested => ?_
  exact (delimited_lift _).bind fun tables => delimited_pure _

/-- Data that is accepted is accepted at no other length. -/
theorem Reader.Takes.parse {reader : Reader α} {info : Bytes} {value : α}
    (h : reader.Takes info value) (label : String) :
    (∀ part, part <+: info → part ≠ info →
        Attribute.parse label reader part = .error .truncatedInput) ∧
      ∀ more, more ≠ [] → Attribute.parse label reader (info ++ more) =
        .error (.attributeLength label (info ++ more).length info.length) := by
  constructor
  · intro part hPart hNe
    unfold Attribute.parse
    rw [h.cut_short part hPart hNe]
  · intro more hMore
    unfold Attribute.parse
    rw [h.followed more]
    simp [hMore]

/-! ### Class files -/

theorem Method.delimited_read (table : Table) (className : String) :
    (read table className).Delimited := by
  refine (delimited_u16.bind fun bits => delimited_pure _).bind fun access => ?_
  refine delimited_u16.bind fun nameIndex => delimited_u16.bind fun descriptorIndex => ?_
  refine (delimited_lift _).bind fun name => (delimited_lift _).bind fun descriptor => ?_
  refine Attribute.delimited_read.counted.bind fun attributes => ?_
  exact (delimited_lift _).bind fun body => delimited_pure _

theorem Field.delimited_read : read.Delimited := by
  refine (delimited_u16.bind fun bits => delimited_pure _).bind fun access => ?_
  refine delimited_u16.bind fun name => delimited_u16.bind fun descriptor => ?_
  exact Attribute.delimited_read.counted.bind fun attributes => delimited_pure _

theorem ClassFile.delimited_read : read.Delimited := by
  refine delimited_u32.bind fun found => delimited_ite (delimited_throw _) ?_
  refine (delimited_u16.bind fun _ => delimited_u16.bind fun _ => delimited_pure _).bind
    fun version => ?_
  refine Table.delimited_read.bind fun raw => (delimited_lift _).bind fun constants => ?_
  refine (delimited_u16.bind fun bits => delimited_pure _).bind fun access => ?_
  refine delimited_u16.bind fun thisClass => (delimited_lift _).bind fun className => ?_
  refine delimited_u16.bind fun superClass => delimited_u16.counted.bind fun interfaces => ?_
  refine Field.delimited_read.counted.bind fun fields => ?_
  refine (Method.delimited_read constants className).counted.bind fun methods => ?_
  exact Attribute.delimited_read.counted.bind fun attributes => delimited_pure _

/-- The bytes of a class are read as that class whatever follows them, and are missed wherever the input
ends within them. The data of a body is accepted at its own length only. -/
theorem ClassFile.reading_delimited :
    (∀ input file rest, ClassFile.read input = .ok (file, rest) →
      ∃ bytes, input = bytes ++ rest ∧
        (∀ other, ClassFile.read (bytes ++ other) = .ok (file, other)) ∧
        ∀ part, part <+: bytes → part ≠ bytes → ClassFile.read part = .error .truncatedInput) ∧
    ∀ table method info body, Body.read table method info = .ok body →
      (∀ part, part <+: info → part ≠ info →
        Body.read table method part = .error .truncatedInput) ∧
      ∀ more, more ≠ [] → Body.read table method (info ++ more) =
        .error (.attributeLength "Code" (info ++ more).length info.length) := by
  constructor
  · intro input file rest hRead
    obtain ⟨bytes, hInput, hTakes⟩ := delimited_read input file rest hRead
    exact ⟨bytes, hInput, hTakes.followed, hTakes.cut_short⟩
  · intro table method info body hBody
    have hRead := Attribute.parse_eq_ok.mp hBody
    obtain ⟨bytes, hInfo, hTakes⟩ := Body.delimited_reader table method info body [] hRead
    rw [List.append_nil] at hInfo
    rw [← hInfo] at hTakes
    exact hTakes.parse Body.label

namespace ClassFile

/-- The data of the body in the example class. -/
def demoCode : Bytes := (demoBytes.drop 140).take 63

/-- A class cut in the middle of a text, and a body cut behind its handlers and with a byte added. -/
theorem reading_delimited_demo :
    ClassFile.read demoBytes = .ok (demo, []) ∧
      ClassFile.read (demoBytes ++ [0xca, 0xfe]) = .ok (demo, [0xca, 0xfe]) ∧
      ClassFile.read (demoBytes.take 30) = .error .truncatedInput ∧
      Body.read demo.constants "Demo.run()V" demoCode = .ok demoBody ∧
      Body.read demo.constants "Demo.run()V" (demoCode.take 26) = .error .truncatedInput ∧
      Body.read demo.constants "Demo.run()V" (demoCode ++ [0]) =
        .error (.attributeLength "Code" 64 63) := by
  have hRead : ClassFile.read demoBytes = .ok (demo, []) := by decide +kernel
  have hBody : Body.read demo.constants "Demo.run()V" demoCode = .ok demoBody := by
    decide +kernel
  obtain ⟨bytes, hBytes, hFollowed, hCut⟩ := reading_delimited.1 demoBytes demo [] hRead
  obtain ⟨hShort, hLong⟩ := reading_delimited.2 demo.constants "Demo.run()V" demoCode demoBody hBody
  rw [List.append_nil] at hBytes
  rw [← hBytes] at hFollowed hCut
  exact ⟨hRead, hFollowed _, hCut _ (List.take_prefix ..) (by decide), hBody,
    hShort _ (List.take_prefix ..) (by decide), hLong [0] (by decide)⟩

end ClassFile

end ClassRom
