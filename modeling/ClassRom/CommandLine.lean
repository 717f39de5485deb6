import ClassRom.Disk
import ClassRom.Record

/-!
# Command line

Arguments are taken from left to right and the first that is wrong decides. Options and class files
may come in any order; behind a double dash everything is a class file. An option may be given once.
-/

namespace ClassRom.CommandLine

set_option autoImplicit false

/-- What the arguments taken so far ask for. -/
structure Options where
  outputDirectory : Option String
  poolFile : Option String
  noSort : Bool
  noCompact : Bool
  inputs : List String

inductive Request where
  | run (settings : Settings) (inputs : List String)
  | version
  | help
  /-- The arguments make no sense. -/
  | usage

/-- The options that there are. -/
inductive Name where
  | outputDirectory
  | poolFile
  | noSort
  | noCompact
  | version
  | help

def Name.ofLong? (name : String) : Option Name :=
  if name = "output-dir" then some .outputDirectory
  else if name = "pool-file" then some .poolFile
  else if name = "no-sort" then some .noSort
  else if name = "no-compact" then some .noCompact
  else if name = "version" then some .version
  else if name = "help" then some .help
  else none

def Name.ofShort? (letter : Char) : Option Name :=
  if letter = 'o' then some .outputDirectory
  else if letter = 'V' then some .version
  else if letter = 'h' then some .help
  else none

/-- What an argument is by its looks. -/
inductive Argument where
  /-- The double dash. -/
  | dashes
  | input (path : String)
  /-- An option, with the value attached to it. -/
  | option (name : Name) (value : Option String)
  | unknown

/-- A long option, with its value behind the first equals sign. -/
def Argument.long (text : List Char) : Argument :=
  let name := text.takeWhile (· ≠ '=')
  match Name.ofLong? (String.ofList name) with
  | none => .unknown
  | some found =>
    match text.drop name.length with
    | [] => .option found none
    | _ :: value => .option found (some (String.ofList value))

/-- A short option, with its value behind it. Asking for the version or for help ends all reading, so
what stands behind such a letter does not matter. -/
def Argument.short (letter : Char) (text : List Char) : Argument :=
  match Name.ofShort? letter with
  | none => .unknown
  | some .outputDirectory =>
    match text with
    | [] => .option .outputDirectory none
    | '=' :: value => .option .outputDirectory (some (String.ofList value))
    | value => .option .outputDirectory (some (String.ofList value))
  | some found => .option found none

def Argument.ofString (text : String) : Argument :=
  match text.toList with
  | ['-', '-'] => .dashes
  | '-' :: '-' :: rest => .long rest
  | '-' :: letter :: rest => .short letter rest
  | _ => .input text

/-- The settings and class files asked for. There has to be at least one class file, and none may
have an empty path. -/
def Options.request (options : Options) : Request :=
  if options.inputs.isEmpty || options.inputs.contains "" then .usage
  else
    .run
      { outputDirectory := options.outputDirectory.getD "."
        poolFile := options.poolFile.getD Settings.defaultPoolFile
        sort := !options.noSort
        compact := !options.noCompact }
      options.inputs

def Options.addOutputDirectory? (options : Options) (value : String) : Option Options :=
  if options.outputDirectory.isSome || value.isEmpty then none
  else some { options with outputDirectory := some value }

def Options.addPoolFile? (options : Options) (value : String) : Option Options :=
  if options.poolFile.isSome then none else some { options with poolFile := some value }

/-- Takes arguments on top of those taken before. -/
def parseFrom : List String → Options → Request
  | [], options => options.request
  | argument :: rest, options =>
    match Argument.ofString argument with
    | .unknown => .usage
    | .dashes => { options with inputs := options.inputs ++ rest }.request
    | .input path =>
      if path.isEmpty then .usage
      else parseFrom rest { options with inputs := options.inputs ++ [path] }
    | .option .version none => .version
    | .option .help none => .help
    | .option .noSort none =>
      if options.noSort then .usage else parseFrom rest { options with noSort := true }
    | .option .noCompact none =>
      if options.noCompact then .usage else parseFrom rest { options with noCompact := true }
    | .option .outputDirectory (some value) =>
      match options.addOutputDirectory? value with
      | some options => parseFrom rest options
      | none => .usage
    | .option .poolFile (some value) =>
      match options.addPoolFile? value with
      | some options => parseFrom rest options
      | none => .usage
    | .option .outputDirectory none =>
      match rest with
      | [] => .usage
      | value :: rest =>
        match Argument.ofString value, options.addOutputDirectory? value with
        | .input _, some options => parseFrom rest options
        | _, _ => .usage
    | .option .poolFile none =>
      match rest with
      | [] => .usage
      | value :: rest =>
        match Argument.ofString value, options.addPoolFile? value with
        | .input _, some options => parseFrom rest options
        | _, _ => .usage
    | .option _ (some _) => .usage

def parse (arguments : List String) : Request := parseFrom arguments ⟨none, none, false, false, []⟩

/-- How a run ends. -/
structure Outcome where
  code : Nat
  stdout : String
  stderr : String

def versionText : String := "Class file romizer 0.1.0\n"

def usageText : String :=
  "Usage: classrom [-o DIRECTORY] [--pool-file FILE_NAME] [--no-sort] [--no-compact] INPUT...\n"

variable {m : Type → Type} [Monad m]

/-- Adds the class files in order, finishes the image and saves its pool. -/
def build (disk : Disk m) (settings : Settings) (inputs : List String) :
    m (Except ImageFault Unit) := do
  match ← (Image.empty settings).readClasses disk inputs with
  | (.error fault, _) => return .error fault
  | (.ok _, image) =>
    match image.finish with
    | (.error fault, _) => return .error fault
    | (.ok _, image) => return (← image.savePool disk).map fun _ => ()

/-- Does what the arguments ask for. -/
def run (disk : Disk m) (arguments : List String) : m Outcome := do
  match parse arguments with
  | .version => return ⟨0, versionText, ""⟩
  | .help => return ⟨0, usageText, ""⟩
  | .usage => return ⟨2, "", usageText⟩
  | .run settings inputs =>
    match ← build disk settings inputs with
    | .ok _ => return ⟨0, "", ""⟩
    | .error fault => return ⟨1, "", "Error: " ++ fault.record ++ "\n"⟩

end ClassRom.CommandLine
