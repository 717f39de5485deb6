import ClassRom.Constant.Wire
import ClassRom.Proofs.Constant.Keys
import ClassRom.Proofs.Text.Encoding
import ClassRom.Proofs.Wire

/-!
# Constants and their bytes

Which bytes are read as which constant, and which bytes a constant is written as. A text can be read
from several sequences of bytes, of which the encoder writes one; every other constant has only one
spelling.
-/

namespace ClassRom

set_option autoImplicit false

/-- The index under which a reference is written as it is. -/
def Ref.raw : Ref → UInt16
  | .index i => i
  | .entry id => UInt16.ofNat id

namespace Constant

variable {constant : Constant} {bytes rest : Bytes} {index : UInt16}

/-- The bytes are read as the constant. -/
inductive SpelledBy : Constant → Bytes → Prop where
  | utf8 {payload : Bytes} {text : Text} : payload.length ≤ 65535 →
      Text.decode? payload = some text →
      SpelledBy (.utf8 text) (1 :: (Wire.u16 (UInt16.ofNat payload.length) ++ payload))
  | integer (bits : UInt32) : SpelledBy (.integer bits) (3 :: Wire.u32 bits)
  | float (bits : UInt32) : SpelledBy (.float bits) (4 :: Wire.u32 bits)
  | long (bits : UInt64) : SpelledBy (.long bits) (5 :: Wire.u64 bits)
  | double (bits : UInt64) : SpelledBy (.double bits) (6 :: Wire.u64 bits)
  | classRef (name : UInt16) : SpelledBy (.classRef (.index name)) (7 :: Wire.u16 name)
  | string (text : UInt16) : SpelledBy (.string (.index text)) (8 :: Wire.u16 text)
  | member (kind : MemberKind) (owner signature : UInt16) :
      SpelledBy (.member kind (.index owner) (.index signature))
        ((Constant.member kind (.index owner) (.index signature)).tag ::
          (Wire.u16 owner ++ Wire.u16 signature))
  | nameAndType (name descriptor : UInt16) :
      SpelledBy (.nameAndType (.index name) (.index descriptor))
        (12 :: (Wire.u16 name ++ Wire.u16 descriptor))

theorem readRef_reads :
    readRef.Reads fun ref bytes => ∃ i, bytes = Wire.u16 i ∧ ref = .index i :=
  Reader.reads_u16.map Ref.index

theorem readRefs_reads (make : Ref → Ref → Constant) :
    Reader.Reads (readRef >>= fun a => readRef >>= fun b => pure (make a b))
      fun constant bytes => ∃ i j, constant = make (.index i) (.index j) ∧
        bytes = Wire.u16 i ++ Wire.u16 j := by
  refine (readRef_reads.bind fun a => readRef_reads.map (make a)).congr fun constant bytes => ?_
  constructor
  · rintro ⟨_, _, _, ⟨i, rfl, rfl⟩, ⟨_, ⟨j, rfl, rfl⟩, rfl⟩, rfl⟩
    exact ⟨i, j, rfl, rfl⟩
  · rintro ⟨i, j, rfl, rfl⟩
    exact ⟨_, _, _, ⟨i, rfl, rfl⟩, ⟨_, ⟨j, rfl, rfl⟩, rfl⟩, rfl⟩

theorem readText_reads (index : UInt16) :
    Reader.Reads (Reader.u16 >>= fun length => Reader.take length.toNat >>= fun payload =>
        match Text.decode? payload with
        | some text => pure (Constant.utf8 text)
        | none => throw (.malformedUtf8 index))
      fun constant bytes => ∃ payload text, payload.length ≤ 65535 ∧
        Text.decode? payload = some text ∧ constant = Constant.utf8 text ∧
        bytes = Wire.u16 (UInt16.ofNat payload.length) ++ payload := by
  have hDecode (payload : Bytes) : Reader.Reads (match Text.decode? payload with
      | some text => pure (Constant.utf8 text)
      | none => throw (.malformedUtf8 index)) fun constant bytes =>
        ∃ text, Text.decode? payload = some text ∧ constant = Constant.utf8 text ∧ bytes = [] := by
    cases hText : Text.decode? payload with
    | none => exact (Reader.reads_throw _).congr fun _ _ => by simp
    | some text => exact (Reader.reads_pure _).congr fun _ _ => by simp
  refine (Reader.reads_u16.bind fun length => (Reader.reads_take length.toNat).bind
    hDecode).congr fun constant bytes => ?_
  constructor
  · rintro ⟨length, _, _, rfl, ⟨_, payload, _, ⟨rfl, hLength⟩, ⟨text, hText, rfl, rfl⟩, rfl⟩, rfl⟩
    have hLt := length.toNat_lt
    refine ⟨payload, text, by omega, hText, rfl, ?_⟩
    rw [hLength, UInt16.ofNat_toNat, List.append_nil]
  · rintro ⟨payload, text, hLength, hText, rfl, rfl⟩
    refine ⟨_, _, _, rfl, ⟨payload, _, _, ⟨rfl, ?_⟩, ⟨text, hText, rfl, rfl⟩,
      (List.append_nil _).symm⟩, rfl⟩
    exact (UInt16.toNat_ofNat_of_lt' (by unfold UInt16.size; omega)).symm

/-- The reader of constants accepts exactly the spellings of constants. -/
theorem read_reads (index : UInt16) : (read index).Reads SpelledBy := by
  intro input constant rest
  constructor
  · intro h
    obtain ⟨tag, middle, hTag, hBody⟩ := Reader.bind_eq_ok.mp h
    obtain ⟨_, rfl, rfl⟩ := (Reader.reads_u8 _ _ _).mp hTag
    split at hBody
    · obtain ⟨_, ⟨payload, text, hLength, hText, rfl, rfl⟩, rfl⟩ :=
        (readText_reads index _ _ _).mp hBody
      exact ⟨_, .utf8 hLength hText, rfl⟩
    · obtain ⟨_, ⟨bits, rfl, rfl⟩, rfl⟩ := (Reader.reads_u32.map Constant.integer _ _ _).mp hBody
      exact ⟨_, .integer bits, rfl⟩
    · obtain ⟨_, ⟨bits, rfl, rfl⟩, rfl⟩ := (Reader.reads_u32.map Constant.float _ _ _).mp hBody
      exact ⟨_, .float bits, rfl⟩
    · obtain ⟨_, ⟨bits, rfl, rfl⟩, rfl⟩ := (Reader.reads_u64.map Constant.long _ _ _).mp hBody
      exact ⟨_, .long bits, rfl⟩
    · obtain ⟨_, ⟨bits, rfl, rfl⟩, rfl⟩ := (Reader.reads_u64.map Constant.double _ _ _).mp hBody
      exact ⟨_, .double bits, rfl⟩
    · obtain ⟨_, ⟨_, ⟨name, rfl, rfl⟩, rfl⟩, rfl⟩ :=
        (readRef_reads.map Constant.classRef _ _ _).mp hBody
      exact ⟨_, .classRef name, rfl⟩
    · obtain ⟨_, ⟨_, ⟨text, rfl, rfl⟩, rfl⟩, rfl⟩ :=
        (readRef_reads.map Constant.string _ _ _).mp hBody
      exact ⟨_, .string text, rfl⟩
    · obtain ⟨_, ⟨i, j, rfl, rfl⟩, rfl⟩ := (readRefs_reads (.member .field) _ _ _).mp hBody
      exact ⟨_, .member .field i j, rfl⟩
    · obtain ⟨_, ⟨i, j, rfl, rfl⟩, rfl⟩ := (readRefs_reads (.member .method) _ _ _).mp hBody
      exact ⟨_, .member .method i j, rfl⟩
    · obtain ⟨_, ⟨i, j, rfl, rfl⟩, rfl⟩ :=
        (readRefs_reads (.member .interfaceMethod) _ _ _).mp hBody
      exact ⟨_, .member .interfaceMethod i j, rfl⟩
    · obtain ⟨_, ⟨i, j, rfl, rfl⟩, rfl⟩ := (readRefs_reads .nameAndType _ _ _).mp hBody
      exact ⟨_, .nameAndType i j, rfl⟩
    · cases hBody
  · rintro ⟨_, hSpelled, rfl⟩
    -- the tag selects the branch, in which the rest of the spelling is read
    cases hSpelled with
    | utf8 hLength hText =>
      exact Reader.bind_eq_ok.mpr ⟨1, _, rfl, (readText_reads index _ _ _).mpr
        ⟨_, ⟨_, _, hLength, hText, rfl, rfl⟩, rfl⟩⟩
    | integer bits =>
      exact Reader.bind_eq_ok.mpr ⟨3, _, rfl, (Reader.reads_u32.map Constant.integer _ _ _).mpr
        ⟨_, ⟨bits, rfl, rfl⟩, rfl⟩⟩
    | float bits =>
      exact Reader.bind_eq_ok.mpr ⟨4, _, rfl, (Reader.reads_u32.map Constant.float _ _ _).mpr
        ⟨_, ⟨bits, rfl, rfl⟩, rfl⟩⟩
    | long bits =>
      exact Reader.bind_eq_ok.mpr ⟨5, _, rfl, (Reader.reads_u64.map Constant.long _ _ _).mpr
        ⟨_, ⟨bits, rfl, rfl⟩, rfl⟩⟩
    | double bits =>
      exact Reader.bind_eq_ok.mpr ⟨6, _, rfl, (Reader.reads_u64.map Constant.double _ _ _).mpr
        ⟨_, ⟨bits, rfl, rfl⟩, rfl⟩⟩
    | classRef name =>
      exact Reader.bind_eq_ok.mpr ⟨7, _, rfl, (readRef_reads.map Constant.classRef _ _ _).mpr
        ⟨_, ⟨_, ⟨name, rfl, rfl⟩, rfl⟩, rfl⟩⟩
    | string text =>
      exact Reader.bind_eq_ok.mpr ⟨8, _, rfl, (readRef_reads.map Constant.string _ _ _).mpr
        ⟨_, ⟨_, ⟨text, rfl, rfl⟩, rfl⟩, rfl⟩⟩
    | member kind owner signature =>
      cases kind with
      | field =>
        exact Reader.bind_eq_ok.mpr ⟨9, _, rfl, (readRefs_reads (.member .field) _ _ _).mpr
          ⟨_, ⟨owner, signature, rfl, rfl⟩, rfl⟩⟩
      | method =>
        exact Reader.bind_eq_ok.mpr ⟨10, _, rfl, (readRefs_reads (.member .method) _ _ _).mpr
          ⟨_, ⟨owner, signature, rfl, rfl⟩, rfl⟩⟩
      | interfaceMethod =>
        exact Reader.bind_eq_ok.mpr ⟨11, _, rfl,
          (readRefs_reads (.member .interfaceMethod) _ _ _).mpr
            ⟨_, ⟨owner, signature, rfl, rfl⟩, rfl⟩⟩
    | nameAndType name descriptor =>
      exact Reader.bind_eq_ok.mpr ⟨12, _, rfl, (readRefs_reads .nameAndType _ _ _).mpr
        ⟨_, ⟨name, descriptor, rfl, rfl⟩, rfl⟩⟩

/-! ### Writing -/

/-- The bytes that a constant with raw references is written as. -/
def wire : Constant → Bytes
  | .utf8 text => 1 :: (Wire.u16 (UInt16.ofNat text.encode.length) ++ text.encode)
  | .integer bits => 3 :: Wire.u32 bits
  | .float bits => 4 :: Wire.u32 bits
  | .long bits => 5 :: Wire.u64 bits
  | .double bits => 6 :: Wire.u64 bits
  | .classRef name => 7 :: Wire.u16 name.raw
  | .string text => 8 :: Wire.u16 text.raw
  | .member kind owner signature =>
    (Constant.member kind owner signature).tag :: (Wire.u16 owner.raw ++ Wire.u16 signature.raw)
  | .nameAndType name descriptor => 12 :: (Wire.u16 name.raw ++ Wire.u16 descriptor.raw)

/-- Texts have to be short enough for their length to be written. -/
def Fits : Constant → Prop
  | .utf8 text => text.encode.length ≤ 65535
  | _ => True

def Normal : Constant → Prop
  | .utf8 text => text.Normal
  | _ => True

def reindex (indexOf : Ref → UInt16) (constant : Constant) : Constant :=
  constant.withRefs (constant.refs.map fun ref => .index (indexOf ref.2))

theorem refs_reindex (indexOf : Ref → UInt16) (constant : Constant) :
    (constant.reindex indexOf).refs =
      constant.refs.map fun ref => (ref.1, .index (indexOf ref.2)) := by
  unfold reindex
  rw [refs_withRefs (by simp), List.zip_map_left, List.zip_map_right]
  cases constant <;> rfl

theorem fits_reindex {indexOf : Ref → UInt16} : (constant.reindex indexOf).Fits ↔ constant.Fits := by
  cases constant <;> exact .rfl

theorem normal_reindex {indexOf : Ref → UInt16} :
    (constant.reindex indexOf).Normal ↔ constant.Normal := by
  cases constant <;> exact .rfl

theorem spelledBy_wire (hFits : constant.Fits) (hNormal : constant.Normal)
    (hRaw : ∀ ref ∈ constant.refs, ∃ i, ref.2 = .index i) : constant.SpelledBy constant.wire := by
  cases constant with
  | utf8 text => exact .utf8 hFits hNormal.decode?_encode
  | integer bits => exact .integer bits
  | float bits => exact .float bits
  | long bits => exact .long bits
  | double bits => exact .double bits
  | string text =>
    obtain ⟨i, rfl⟩ : ∃ i, text = .index i := hRaw _ List.mem_cons_self
    exact .string i
  | classRef name =>
    obtain ⟨i, rfl⟩ : ∃ i, name = .index i := hRaw _ List.mem_cons_self
    exact .classRef i
  | nameAndType name descriptor =>
    obtain ⟨i, rfl⟩ : ∃ i, name = .index i := hRaw _ List.mem_cons_self
    obtain ⟨j, rfl⟩ : ∃ j, descriptor = .index j := hRaw _ (List.mem_cons_of_mem _ List.mem_cons_self)
    exact .nameAndType i j
  | member kind owner signature =>
    obtain ⟨i, rfl⟩ : ∃ i, owner = .index i := hRaw _ List.mem_cons_self
    obtain ⟨j, rfl⟩ : ∃ j, signature = .index j := hRaw _ (List.mem_cons_of_mem _ List.mem_cons_self)
    exact .member kind i j

theorem emits_refs {refs : List (RefKind × Ref)} {indexOf : Ref → Except Fault UInt16}
    {f : Ref → UInt16} (hf : ∀ ref i, indexOf ref = .ok i → f ref = i) :
    Output.Emits (refs.map fun ref => (indexOf ref.2).map Wire.u16) bytes ↔
      (∀ ref ∈ refs, ∃ i, indexOf ref.2 = .ok i) ∧
        bytes = refs.flatMap fun ref => Wire.u16 (f ref.2) := by
  rw [← List.flatMap_singleton' (refs.map _), List.flatMap_map]
  refine Output.emits_flatMap fun ref _ bytes => ?_
  rw [Output.emits_singleton]
  cases hIndex : indexOf ref.2 with
  | error fault => simp [Except.map]
  | ok i => simp [Except.map, hf _ _ hIndex, eq_comm]

/-- What a constant puts out, whatever gives the indices of its references. -/
theorem emits_chunks {indexOf : Ref → Except Fault UInt16} {f : Ref → UInt16}
    (hf : ∀ ref i, indexOf ref = .ok i → f ref = i) :
    Output.Emits (constant.chunks indexOf) bytes ↔
      (constant.Fits ∧ ∀ ref ∈ constant.refs, ∃ i, indexOf ref.2 = .ok i) ∧
        bytes = (constant.reindex f).wire := by
  have hTag (tag : UInt8) (chunks : List (Except Fault Bytes)) :
      Output.Emits (.ok (Wire.u8 tag) :: chunks) bytes ↔
        ∃ rest, Output.Emits chunks rest ∧ bytes = tag :: rest := by
    rw [← List.singleton_append, Output.emits_append]
    simp only [Output.emits_singleton, Except.ok.injEq]
    constructor
    · rintro ⟨_, y, rfl, hY, rfl⟩
      exact ⟨y, hY, rfl⟩
    · rintro ⟨y, hY, rfl⟩
      exact ⟨_, y, rfl, hY, rfl⟩
  unfold chunks
  rw [hTag]
  cases constant with
  | utf8 text =>
    unfold payload
    dsimp only
    by_cases hLength : text.encode.length ≤ 65535
    · rw [if_pos hLength]
      simp only [Output.emits_singleton, Except.ok.injEq]
      simp [Fits, hLength, refs, reindex, withRefs, wire, tag]
    · rw [if_neg hLength]
      simp [Output.emits_singleton, Fits, hLength]
  | integer bits | float bits | long bits | double bits =>
    simp [payload, Output.emits_singleton, Fits, refs, reindex, withRefs, wire, tag]
  | string _ | classRef _ | nameAndType _ _ =>
    unfold payload
    simp only [emits_refs hf]
    simp [Fits, refs, reindex, withRefs, wire, tag, Ref.raw]
  | member kind _ _ =>
    unfold payload
    simp only [emits_refs hf]
    cases kind <;> simp [Fits, refs, reindex, withRefs, wire, tag, Ref.raw]

/-! ### Texts in the input -/

/-- The bytes of the text at the front of the input, if there is one. -/
def textBytes? : Bytes → Option Bytes
  | [] => none
  | tag :: rest =>
    if tag = 1 then
      match Reader.u16 rest with
      | .ok (length, rest) => some (rest.take length.toNat)
      | .error _ => none
    else none

theorem textBytes?_append {payload : Bytes} (hLength : payload.length ≤ 65535) (rest : Bytes) :
    textBytes? (1 :: (Wire.u16 (UInt16.ofNat payload.length) ++ payload) ++ rest) =
      some payload := by
  have hRead := (Reader.reads_u16 (Wire.u16 (UInt16.ofNat payload.length) ++ (payload ++ rest))
    (UInt16.ofNat payload.length) (payload ++ rest)).mpr ⟨_, rfl, rfl⟩
  rw [List.cons_append, List.append_assoc, textBytes?, if_pos rfl, hRead]
  dsimp only
  rw [UInt16.toNat_ofNat_of_lt' (by unfold UInt16.size; omega), List.take_left']
  rfl

/-- A spelling whose text is in the form of the encoder is what the constant is written as. -/
theorem SpelledBy.eq_wire (h : constant.SpelledBy bytes)
    (hCanonical : ∀ payload ∈ textBytes? (bytes ++ rest), ∃ text : Text, text.encode = payload) :
    bytes = constant.wire ∧ constant.Fits := by
  cases h with
  | @utf8 payload text hLength hText =>
    obtain ⟨other, hOther⟩ := hCanonical payload (textBytes?_append hLength rest)
    have hEncode := Text.encode_of_decode? hText hOther
    refine ⟨?_, ?_⟩
    · rw [wire, hEncode]
    · rw [Fits, hEncode]
      exact hLength
  | integer _ | float _ | long _ | double _ | string _ | classRef _ | nameAndType _ _
  | member _ _ _ => exact ⟨rfl, trivial⟩

end Constant

end ClassRom
