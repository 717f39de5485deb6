import ClassRom.Constant.Key
import ClassRom.Counter
import ClassRom.Record

/-!
# Shared constant pools

Entries live in an arena and never move there, so that their numbers stay good. Beside it stands the
layout that will be written: each slot is empty or holds an entry, slot 0 is empty, and an eight-byte
number is followed by an empty slot. No two live entries have the same key, and the search tree leads
from each key to the live entry that has it.

Operations that can fail half-way return the pool as they left it beside their result.
-/

namespace ClassRom

set_option autoImplicit false

structure Entry where
  value : Constant
  /-- The number of uses, from classes and from other entries. -/
  uses : Counter
  /-- The uses by one-byte operands. -/
  ldcUses : Counter
  /-- The pool that the entry was made in. -/
  owner : Option PoolId
  /-- The slot the entry stands in, unless it was deleted. -/
  index : Option Nat
  deriving DecidableEq, Repr

/-- An entry made in a pool, which stands in no slot yet. -/
def Entry.new (owner : PoolId) (value : Constant) (uses ldcUses : UInt32) : Entry :=
  ⟨value, .start uses, .start ldcUses, some owner, none⟩

structure Pool where
  id : PoolId
  arena : Array Entry
  slots : Array (Option EntryId)
  lookup : Std.TreeMap Key EntryId Key.cmp
  locked : Bool

namespace Pool

def empty (id : PoolId) : Pool := ⟨id, #[], #[none], ∅, false⟩

/-- The number of slots, slot 0 included. -/
def size (pool : Pool) : Nat := pool.slots.size

/-- The live entries in the order of their slots. -/
def order (pool : Pool) : List EntryId := pool.slots.toList.filterMap fun slot => slot

def lock (pool : Pool) : Pool := { pool with locked := true }

def unlock (pool : Pool) : Pool := { pool with locked := false }

/-- An entry, live or deleted. -/
def get? (pool : Pool) (id : EntryId) : Option Entry := pool.arena[id]?

/-- The entry that stands at an index. -/
def idAt? (pool : Pool) (index : UInt16) : Option EntryId := pool.slots[index.toNat]?.join

def entryAt? (pool : Pool) (index : UInt16) : Option Entry := (pool.idAt? index).bind pool.get?

/-- The index at which a live entry stands. -/
def indexOf? (pool : Pool) (id : EntryId) : Option UInt16 :=
  (pool.get? id).bind fun entry => entry.index.map UInt16.ofNat

def source (pool : Pool) : Source where
  owner? id := (pool.get? id).bind (·.owner)
  constant? id := (pool.get? id).map (·.value)
  entryAt? := pool.idAt?

/-- The live entry that has a key. -/
def find? (pool : Pool) (key : Key) : Option EntryId := pool.lookup[key]?

/-- The constant of an entry as shown in messages. -/
def describe (pool : Pool) (id : EntryId) : String :=
  match pool.get? id with
  | none => entryName id
  | some entry =>
    match pool.source.keyOf entry.value with
    | .ok key => key.display
    | .error _ => entry.value.record

/-- Changes the counters of an entry, if there is one of that number. -/
def modify (pool : Pool) (id : EntryId) (f : Entry → Entry) : Pool :=
  { pool with arena := pool.arena.modify id f }

def addUse (pool : Pool) (id : EntryId) : Pool :=
  pool.modify id fun entry => { entry with uses := entry.uses.add 1 }

/-- Takes back one use, if there is one. -/
def dropUse (pool : Pool) (id : EntryId) : Pool :=
  pool.modify id fun entry => { entry with uses := entry.uses.drop }

/-- Notes that one of the uses is by a one-byte operand. -/
def addLdcUse (pool : Pool) (id : EntryId) : Pool :=
  pool.modify id fun entry => { entry with ldcUses := entry.ldcUses.add 1 }

/-- Puts an entry of the arena into the next free slots. -/
def place (pool : Pool) (id : EntryId) : Pool :=
  match pool.arena[id]? with
  | none => pool
  | some entry =>
    let index := pool.slots.size
    let slots := pool.slots.push (some id)
    { pool with
      arena := pool.arena.setIfInBounds id { entry with index := some index }
      slots := if entry.value.isWide then slots.push none else slots }

/-- Makes an entry for a constant and places it. The largest index that can be used is 65534. -/
def append (pool : Pool) (value : Constant) (uses ldcUses : UInt32) (key : Key) :
    Except Fault EntryId × Pool :=
  if 65535 < pool.size + value.width then
    (.error (.poolOverflow key.display pool.size), pool)
  else
    let id := pool.arena.size
    let pool :=
      { pool with
        arena := pool.arena.push (.new pool.id value uses ldcUses)
        lookup := pool.lookup.insert key id }
    (.ok id, pool.place id)

/-- The entry that already stands for a constant of the source, if the entry of the source is owned by
this very pool. -/
def findOwn? (pool : Pool) (source : Source) (id : EntryId) (constant : Constant) :
    Except FormatFault (Option EntryId) :=
  if source.owner? id = some pool.id then
    (pool.source.keyOf constant).map pool.find?
  else .ok none

/-- Adds a constant of the source and, first, those it refers to, down to `depth` constants deep. -/
def addWithin (source : Source) : Nat → EntryId → Pool → Except Fault EntryId × Pool
  | 0, id, pool => (.error (.format (.danglingEntry id)), pool)
  | depth + 1, id, pool =>
    match source.constant? id with
    | none => (.error (.format (.danglingEntry id)), pool)
    | some constant =>
      match pool.findOwn? source id constant with
      | .error fault => (.error (.format fault), pool)
      | .ok (some existing) => (.ok existing, pool)
      | .ok none =>
        match source.keyOf constant with
        | .error fault => (.error (.format fault), pool)
        | .ok key =>
          match pool.find? key with
          | some existing => (.ok existing, pool.addUse existing)
          | none =>
            if pool.locked then
              (.error (.lockedPool pool.id key.display), pool)
            else
              let addRef (_ : RefKind) (ref : Ref) : ExceptT Fault (StateM Pool) Ref :=
                fun pool =>
                  match ref.resolved with
                  | .error fault => (.error (.format fault), pool)
                  | .ok id =>
                    match addWithin source depth id pool with
                    | (.error fault, pool) => (.error fault, pool)
                    | (.ok id, pool) => (.ok (.entry id), pool)
              match constant.mapRefs addRef pool with
              | (.error fault, pool) => (.error fault, pool)
              | (.ok value, pool) => pool.append value 1 0 key

/-- The entry that stands for a constant of the source, made if there is none. A new entry starts
with one use and an entry found gets one more, except that an entry of this very pool comes back as
it is. A constant that has a key is at most three constants deep. -/
def add (pool : Pool) (source : Source) (id : EntryId) : Except Fault EntryId × Pool :=
  addWithin source 3 id pool

/-- The entry that stands for a constant already expressed in entries of this pool. Its counters are
added to those of an entry found. -/
def appendLocal (pool : Pool) (constant : Constant) (uses ldcUses : UInt32) :
    Except Fault EntryId × Pool :=
  match pool.source.keyOf constant with
  | .error fault => (.error (.format fault), pool)
  | .ok key =>
    match pool.find? key with
    | some existing =>
      (.ok existing, pool.modify existing fun entry =>
        { entry with uses := entry.uses.add uses, ldcUses := entry.ldcUses.add ldcUses })
    | none =>
      if pool.locked then (.error (.lockedPool pool.id key.display), pool)
      else pool.append constant uses ldcUses key

end Pool

end ClassRom
