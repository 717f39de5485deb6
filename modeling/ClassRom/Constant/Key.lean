import ClassRom.Constant
import ClassRom.Decimal
import Std.Data.TreeMap

/-!
# Keys

The key of a constant spells out the texts that its references lead to, so that keys can be compared
across containers. Two constants are interchangeable exactly when their keys are equal. Keys are
ordered by their spelling, which makes them usable in search trees.
-/

namespace ClassRom

set_option autoImplicit false

inductive Key where
  | utf8 (text : Text)
  | integer (bits : UInt32)
  | float (bits : UInt32)
  | long (bits : UInt64)
  | double (bits : UInt64)
  | string (text : Text)
  | classRef (name : Text)
  | nameAndType (name descriptor : Text)
  | member (kind : MemberKind) (owner name descriptor : Text)
  deriving DecidableEq, Repr

/-- A text as numbers: the form it is kept in, then its content. -/
def Text.spelling : Text → List Nat
  | .unicode string => 0 :: string.toList.map Char.toNat
  | .raw units => 1 :: units.map UInt16.toNat

theorem Text.spelling_inj {a b : Text} (h : a.spelling = b.spelling) : a = b := by
  cases a with
  | unicode s =>
    cases b with
    | unicode t =>
      simp only [Text.spelling, List.cons.injEq, true_and] at h
      have hChar : ∀ x y : Char, x.toNat = y.toNat → x = y := fun x y hxy =>
        Char.ext (UInt32.toNat_inj.mp hxy)
      exact congrArg Text.unicode (String.toList_inj.mp (List.map_inj_right hChar |>.mp h))
    | raw u => simp [Text.spelling] at h
  | raw u =>
    cases b with
    | unicode t => simp [Text.spelling] at h
    | raw v =>
      simp only [Text.spelling, List.cons.injEq, true_and] at h
      exact congrArg Text.raw (List.map_inj_right (fun _ _ => UInt16.toNat_inj.mp) |>.mp h)

namespace Key

/-- A key as numbers: its kind, then what it holds. -/
def spelling : Key → List (List Nat)
  | .utf8 text => [[0], text.spelling]
  | .integer bits => [[1], [bits.toNat]]
  | .float bits => [[2], [bits.toNat]]
  | .long bits => [[3], [bits.toNat]]
  | .double bits => [[4], [bits.toNat]]
  | .string text => [[5], text.spelling]
  | .classRef name => [[6], name.spelling]
  | .nameAndType name descriptor => [[7], name.spelling, descriptor.spelling]
  | .member .field owner name descriptor =>
    [[8], owner.spelling, name.spelling, descriptor.spelling]
  | .member .method owner name descriptor =>
    [[9], owner.spelling, name.spelling, descriptor.spelling]
  | .member .interfaceMethod owner name descriptor =>
    [[10], owner.spelling, name.spelling, descriptor.spelling]

theorem spelling_inj {a b : Key} (h : a.spelling = b.spelling) : a = b := by
  rcases a with t | n | n | n | n | t | t | ⟨t, u⟩ | ⟨_ | _ | _, t, u, v⟩ <;>
    rcases b with t' | n' | n' | n' | n' | t' | t' | ⟨t', u'⟩ | ⟨_ | _ | _, t', u', v'⟩ <;>
    simp_all [spelling, UInt32.toNat_inj, UInt64.toNat_inj] <;>
    grind [Text.spelling_inj]

def cmp (a b : Key) : Ordering := compareOn spelling a b

instance : Std.TransCmp cmp := inferInstanceAs (Std.TransCmp (compareOn spelling))

instance : Std.LawfulEqCmp cmp where
  compare_self := by simp [cmp, compareOn]
  eq_of_compare h := spelling_inj (Std.LawfulEqOrd.eq_of_compare h)

/-- The number that 32 bits stand for in two's complement. -/
def signed32 (bits : UInt32) : Int :=
  if bits.toNat < 0x80000000 then bits.toNat else bits.toNat - 0x100000000

/-- The number that 64 bits stand for in two's complement. -/
def signed64 (bits : UInt64) : Int :=
  if bits.toNat < 0x8000000000000000 then bits.toNat else bits.toNat - 0x10000000000000000

/-- The constant as shown in messages. -/
def display : Key → String
  | .utf8 text => s!"Utf8 \"{text.display}\""
  | .integer bits => s!"Integer {signed32 bits}"
  | .float bits => s!"Float {Decimal.singleText bits}"
  | .long bits => s!"Long {signed64 bits}"
  | .double bits => s!"Double {Decimal.doubleText bits}"
  | .string text => s!"String \"{text.display}\""
  | .classRef name => s!"Class {name.display}"
  | .nameAndType name descriptor => s!"NameAndType {name.display}:{descriptor.display}"
  | .member kind owner name descriptor =>
    s!"{kind.name}ref {owner.display}.{name.display}:{descriptor.display}"

end Key

/-- What a container of constants shows to those who follow references into it. -/
structure Source where
  /-- The pool that owns an entry, unless it belongs to one class only. -/
  owner? : EntryId → Option PoolId
  constant? : EntryId → Option Constant
  /-- The entry now standing at an index. -/
  entryAt? : UInt16 → Option EntryId

namespace Source

/-- The text of the constant that a reference leads to. -/
def textAt (source : Source) (ref : Ref) : Except FormatFault Text := do
  let id ← ref.resolved
  match source.constant? id with
  | some (.utf8 text) => return text
  | _ => throw (.danglingEntry id)

/-- The key of a constant whose references lead into the source. -/
def keyOf (source : Source) : Constant → Except FormatFault Key
  | .utf8 text => return .utf8 text
  | .integer bits => return .integer bits
  | .float bits => return .float bits
  | .long bits => return .long bits
  | .double bits => return .double bits
  | .string text => return .string (← source.textAt text)
  | .classRef name => return .classRef (← source.textAt name)
  | .nameAndType name descriptor =>
    return .nameAndType (← source.textAt name) (← source.textAt descriptor)
  | .member kind owner signature => do
    let ownerId ← owner.resolved
    match source.constant? ownerId with
    | some (.classRef ownerName) =>
      let ownerText ← source.textAt ownerName
      let signatureId ← signature.resolved
      match source.constant? signatureId with
      | some (.nameAndType name descriptor) =>
        return .member kind ownerText (← source.textAt name) (← source.textAt descriptor)
      | _ => throw (.danglingEntry signatureId)
    | _ => throw (.danglingEntry ownerId)

/-- The entry of the source that a raw index leads to, which has to be of the kind asked for. What is
resolved already stays as it is. -/
def resolveRef (source : Source) (index : Int) (kind : RefKind) : Ref → Except FormatFault Ref
  | .entry id => .ok (.entry id)
  | .index i =>
    match source.entryAt? i with
    | some id =>
      if (source.constant? id).any kind.accepts then .ok (.entry id)
      else .error (.badReference index i kind)
    | none => .error (.badReference index i kind)

/-- The constant with raw indices replaced by entries of the source. -/
def resolve (source : Source) (index : Int) (constant : Constant) : Except FormatFault Constant :=
  constant.mapRefs (source.resolveRef index)

end Source

end ClassRom
