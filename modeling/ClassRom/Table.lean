import ClassRom.Constant.Key
import ClassRom.Constant.Wire

/-!
# Constant tables of classes

The constants of one class, exactly as its class file lays them out: slot 0 and the slot behind an
eight-byte number are empty. Indices that leave the table are sixteen bits wide, whatever its size.
-/

namespace ClassRom

set_option autoImplicit false

structure Table where
  slots : Array (Option Constant)
  deriving DecidableEq, Repr

namespace Table

def empty : Table := ⟨#[none]⟩

/-- The number of slots, slot 0 included. -/
def size (table : Table) : Nat := table.slots.size

/-- The index that the next constant gets. -/
def nextIndex (table : Table) : UInt16 := UInt16.ofNat table.size

def push (table : Table) (constant : Constant) : Table :=
  let slots := table.slots.push (some constant)
  ⟨if constant.isWide then slots.push none else slots⟩

/-- The constant in a slot. -/
def slot? (table : Table) (slot : Nat) : Option Constant := table.slots[slot]?.join

def get? (table : Table) (index : UInt16) : Option Constant := table.slot? index.toNat

/-- The occupied slots in order. -/
def entries (table : Table) : List (Nat × Constant) :=
  table.slots.toList.zipIdx.filterMap fun (constant, slot) => constant.map (slot, ·)

def source (table : Table) : Source where
  owner? _ := none
  constant? := table.slot?
  entryAt? index := (table.get? index).map fun _ => index.toNat

/-- Reads constants into the slots still left, of `count` in all. -/
def fill (count : UInt16) : Nat → Table → Bytes → Except FormatFault (Table × Bytes)
  | 0, table, input => .ok (table, input)
  | left + 1, table, input =>
    match Constant.read table.nextIndex input with
    | .error fault => .error fault
    | .ok (constant, rest) =>
      if constant.isWide then
        match left with
        | 0 => .error (.constantCount table.nextIndex count)
        | left + 1 => fill count left (table.push constant) rest
      else fill count left (table.push constant) rest

/-- Reads the constants that fill exactly `count` slots, slot 0 included. -/
def readEntries (count : UInt16) : Reader Table :=
  if count = 0 then throw (.constantCount 0 0) else fill count (count.toNat - 1) empty

/-- Reads the number of slots, then the constants. References stay raw indices. -/
def read : Reader Table := do
  let count ← Reader.u16
  readEntries count

/-- The text at an index. Names may not hold unpaired surrogates. -/
def utf8 (table : Table) (index : UInt16) : Except FormatFault String :=
  match table.get? index with
  | some (.utf8 (.unicode string)) => .ok string
  | some (.utf8 (.raw _)) => .error (.malformedUtf8 index)
  | _ => .error (.badReference 0 index .utf8)

/-- The name of the class at an index. -/
def className (table : Table) (index : UInt16) : Except FormatFault String :=
  match table.get? index with
  | some (.classRef (.index name)) => table.utf8 name
  | some (.classRef (.entry id)) => table.utf8 (UInt16.ofNat id)
  | _ => .error (.badReference 0 index .classRef)

/-- Resolves the constants in the given slots one after the other, up to the first that has a bad
reference. A constant is out of its slot while it is resolved, so none can refer to itself. -/
def resolveFrom : List Nat → Table → Except FormatFault Unit × Table
  | [], table => (.ok (), table)
  | slot :: rest, table =>
    match table.slot? slot with
    | none => resolveFrom rest table
    | some constant =>
      let others : Table := ⟨table.slots.setIfInBounds slot none⟩
      match others.source.resolve slot constant with
      | .error fault => (.error fault, ⟨others.slots.setIfInBounds slot (some constant)⟩)
      | .ok resolved => resolveFrom rest ⟨others.slots.setIfInBounds slot (some resolved)⟩

/-- Resolves every reference of the table against the table itself. -/
def resolveAll (table : Table) : Except FormatFault Unit × Table :=
  resolveFrom (List.range table.size) table

/-- The table with every reference resolved. -/
def resolved (table : Table) : Except FormatFault Table :=
  match table.resolveAll with
  | (.ok _, resolved) => .ok resolved
  | (.error fault, _) => .error fault

end Table

end ClassRom
