import ClassRom.ClassFile
import ClassRom.Pool.Layout
import ClassRom.Pool.Merge
import ClassRom.Pool.Usage
import ClassRom.Pool.Wire
import ClassRom.Relocation

/-!
# Images

An image collects classes whose constants are shared in one pool. Once all classes are in, finishing
it freezes the pool and relocates every method against it. Finishing happens at most once, and a
failure is final.
-/

namespace ClassRom

set_option autoImplicit false

structure Settings where
  /-- The directory into which the pool is saved. -/
  outputDirectory : String
  /-- The name of the file that holds the pool. -/
  poolFile : String
  /-- Whether constants most used by one-byte operands are moved to the front. -/
  sort : Bool
  /-- Whether constants without uses are dropped. -/
  compact : Bool
  deriving DecidableEq, Repr

def Settings.defaultPoolFile : String := "SharedConstantPool.bin"

/-- The pool in its final layout, closed to new constants. -/
def Settings.freeze (settings : Settings) (pool : Pool) : Pool :=
  let pool := pool.lock
  let pool := if settings.sort then pool.sortByLdcUse else pool
  if settings.compact then pool.compact.2 else pool

inductive Stage where
  /-- Classes can be added. -/
  | collecting
  /-- The pool is final and every method was relocated against it. -/
  | finished
  /-- Finishing failed part way. -/
  | failed
  deriving DecidableEq, Repr

def Stage.name : Stage → String
  | .collecting => "Collecting"
  | .finished => "Finished"
  | .failed => "Failed"

/-- A class whose constants were merged into the shared pool. -/
structure LoadedClass where
  name : String
  file : ClassFile
  handles : HandleMap

structure Image where
  settings : Settings
  /-- The number of the next pool made. -/
  nextPool : PoolId
  pool : Pool
  classes : List LoadedClass
  stage : Stage

namespace ClassFile

/-- The class with the code of every method scanned. -/
def scan (file : ClassFile) : Except Fault ClassFile := do
  let methods ← file.methods.mapM fun method => do
    let body ← method.body.mapM fun body => do
      let bytecode ← body.bytecode.scan
      return { body with bytecode }
    return { method with body }
  return { file with methods }

/-- The constants that an attribute of a field uses: its name and its value, if it gives the initial
value of the field. -/
def initialValue (file : ClassFile) (attr : Attribute) : Except FormatFault (List UInt16) := do
  let name ← file.constants.utf8 attr.name
  if name = "ConstantValue" then
    let (value, _) ← Reader.u16 attr.info
    return [attr.name, value]
  else return []

/-- The constants that the declarations of a class use: the names of the class, its superclass and
its interfaces, the names, types and initial values of fields, the names and types of methods. -/
def declared (file : ClassFile) : Except FormatFault (List UInt16) := do
  let fields ← file.fields.mapM fun field => do
    let values ← field.attributes.mapM file.initialValue
    return field.name :: field.descriptor :: values.flatten
  let methods := file.methods.flatMap fun method => [method.name, method.descriptor]
  let superClass := if file.superClass = 0 then [] else [file.superClass]
  return file.thisClass :: superClass ++ file.interfaces ++ fields.flatten ++ methods

end ClassFile

namespace Image

def empty (settings : Settings) : Image := ⟨settings, 1, Pool.empty 0, [], .collecting⟩

/-- A fresh pool with a number of its own. -/
def newPool (image : Image) : Pool × Image :=
  (Pool.empty image.nextPool, { image with nextPool := image.nextPool + 1 })

/-- Takes back the use that merging charged for each constant of a table. -/
def release (map : HandleMap) (indices : List UInt16) (pool : Pool) : Pool :=
  indices.foldl (fun pool index => (map.get? index).elim pool fun handle =>
    pool.dropUse handle.entry) pool

/-- Charges the constants that the bodies of methods use, in code and in side tables. -/
def chargeMethods (map : HandleMap) : List Method → Pool → Except Fault Unit × Pool
  | [], pool => (.ok (), pool)
  | method :: rest, pool =>
    match method.body with
    | none => chargeMethods map rest pool
    | some body =>
      match body.bytecode.charge map pool with
      | (.error fault, pool) => (.error fault, pool)
      | (.ok _, pool) =>
        match pool.charge map body.bytecode.method body.tables.uses with
        | (.error fault, pool) => (.error fault, pool)
        | (.ok _, pool) => chargeMethods map rest pool

/-- Charges every constant that a class uses: those of its declarations, then those of its methods. -/
def chargeClass (map : HandleMap) (name : String) (file : ClassFile) (pool : Pool) :
    Except Fault Unit × Pool :=
  match file.declared with
  | .error fault => (.error (.format fault), pool)
  | .ok indices =>
    match pool.charge map name (indices.map fun index => ⟨0, index, false⟩) with
    | (.error fault, pool) => (.error fault, pool)
    | (.ok _, pool) => chargeMethods map file.methods pool

/-- Merges the constants of a class into the shared pool. What keeps an entry alive is a use by the
class or by another entry, not the table of the class as such. -/
def addClass (image : Image) (file : ClassFile) : Except ImageFault Unit × Image :=
  match file.name with
  | .error fault => (.error (.plain (.format fault)), image)
  | .ok name =>
    match file.scan with
    | .error fault => (.error (.inClass name fault), image)
    | .ok file =>
      match image.pool.merge file.constants with
      | (.error fault, pool) => (.error (.inClass name fault), { image with pool })
      | (.ok map, pool) =>
        match chargeClass map name file (release map file.constants.indices pool) with
        | (.error fault, pool) => (.error (.inClass name fault), { image with pool })
        | (.ok _, pool) =>
          (.ok (), { image with pool, classes := image.classes ++ [⟨name, file, map⟩] })

/-- Relocates methods one after the other, up to the first that cannot be. -/
def relocateMethods (pool : Pool) (map : HandleMap) :
    List Method → Except Fault Unit × List Method
  | [] => (.ok (), [])
  | method :: rest =>
    match method.body with
    | none =>
      let (result, rest) := relocateMethods pool map rest
      (result, method :: rest)
    | some body =>
      let (result, bytecode, tables) := relocate pool map body.bytecode body.tables
      let method := { method with body := some { body with bytecode, tables } }
      match result with
      | .error fault => (.error fault, method :: rest)
      | .ok _ =>
        let (result, rest) := relocateMethods pool map rest
        (result, method :: rest)

/-- Relocates classes one after the other, up to the first that cannot be. -/
def relocateClasses (pool : Pool) :
    List LoadedClass → Except ImageFault Unit × List LoadedClass
  | [] => (.ok (), [])
  | loaded :: rest =>
    let (result, methods) := relocateMethods pool loaded.handles loaded.file.methods
    let relocated := { loaded with file := { loaded.file with methods } }
    match result with
    | .error fault => (.error (.inClass loaded.name fault), relocated :: rest)
    | .ok _ =>
      let (result, rest) := relocateClasses pool rest
      (result, relocated :: rest)

/-- The fault of using a pool that is not final. -/
def notFinished (image : Image) : ImageFault :=
  .plain (.consistency (.poolNotFinished image.pool.id))

/-- Freezes the pool and relocates every method. -/
def finish (image : Image) : Except ImageFault Unit × Image :=
  match image.stage with
  | .finished => (.ok (), image)
  | .failed => (.error image.notFinished, image)
  | .collecting =>
    let pool := image.settings.freeze image.pool
    match relocateClasses pool image.classes with
    | (.error fault, classes) => (.error fault, { image with pool, classes, stage := .failed })
    | (.ok _, classes) => (.ok (), { image with pool, classes, stage := .finished })

/-- The bytes of the finished pool. -/
def writePool (image : Image) : Output ImageFault :=
  if image.stage = .finished then
    let output := image.pool.write
    ⟨output.bytes, output.fault.map .plain⟩
  else ⟨[], some image.notFinished⟩

end Image

end ClassRom
