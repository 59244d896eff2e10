import Doclets.Ledger
import Doclets.Text.Pieces

/-!
The arguments of the program. Options may stand anywhere among the files, in a long form or, most
of them, as a letter; letters may be joined, and a value may be attached to its option. What
follows two dashes are files. Values are judged once it is clear that no more of them follow.
-/

namespace Doclets

/-- An option that takes a value. -/
inductive Setting where
  | configure
  | encoding
  | destination
  | package
  | parser
  deriving DecidableEq

/-- An option without a value. -/
inductive Switch where
  | recurse
  | explain
  | debug
  | verbose
  | pedantic
  | noColor
  deriving DecidableEq

inductive CommandOption where
  | setting (s : Setting)
  | switch (s : Switch)
  | help
  | version

namespace CommandOption

def ofWord? : String → Option CommandOption
  | "configure" => some (.setting .configure)
  | "encoding" => some (.setting .encoding)
  | "destination" => some (.setting .destination)
  | "package" => some (.setting .package)
  | "parser" => some (.setting .parser)
  | "recurse" => some (.switch .recurse)
  | "explain" => some (.switch .explain)
  | "debug" => some (.switch .debug)
  | "verbose" => some (.switch .verbose)
  | "pedantic" => some (.switch .pedantic)
  | "no-color" => some (.switch .noColor)
  | "help" => some .help
  | "version" => some .version
  | _ => none

def ofLetter? : Char → Option CommandOption
  | 'c' => some (.setting .configure)
  | 'e' => some (.setting .encoding)
  | 'd' => some (.setting .destination)
  | 'P' => some (.setting .package)
  | 'r' => some (.switch .recurse)
  | 'X' => some (.switch .explain)
  | 'h' => some .help
  | 'V' => some .version
  | _ => none

end CommandOption

/-- Whether the value of an option is a path, which may not be empty. -/
def Setting.isPath : Setting → Bool
  | configure | destination | package => true
  | encoding | parser => false

/-- Why arguments start no run. -/
inductive ArgumentError where
  | unknownOption
  /-- A value is missing or may not be what it is. -/
  | invalidValue
  | repeatedOption
  /-- A value is attached to an option that takes none. -/
  | unwantedValue
  | helpWanted
  | versionWanted
  deriving DecidableEq

structure Arguments where
  files : List String
  settings : List (Setting × String)
  switches : List Switch

namespace Arguments

def empty : Arguments := ⟨[], [], []⟩

def setting? (a : Arguments) (s : Setting) : Option String := Ledger.get? s a.settings

def isOn (a : Arguments) (s : Switch) : Bool := a.switches.contains s

/-- How much is to be logged, if anything is. -/
def logLevel? (a : Arguments) : Option String :=
  if a.isOn .debug then some "debug" else if a.isOn .verbose then some "info" else none

/-- Gives an option its value. -/
def assign (a : Arguments) (s : Setting) (values : List String) :
    Except ArgumentError Arguments :=
  match values with
  | [value] =>
    if (a.setting? s).isSome then .error .repeatedOption
    else if s.isPath && value.isEmpty then .error .invalidValue
    else .ok { a with settings := a.settings ++ [(s, value)] }
  | _ => .error .invalidValue

def addFiles (a : Arguments) (files : List String) : Except ArgumentError Arguments :=
  if files.any String.isEmpty then .error .invalidValue
  else .ok { a with files := a.files ++ files }

end Arguments

/-- Values that have not been judged yet. -/
inductive Pending where
  | none
  | files (values : List String)
  | setting (s : Setting) (values : List String)

/-- Arguments that are being read. -/
structure Intake where
  settled : Arguments
  pending : Pending
  /-- Whether two dashes have passed. -/
  onlyFiles : Bool

namespace Intake

def start : Intake := ⟨.empty, .none, false⟩

/-- Judges the values that were pending. -/
def settle (i : Intake) : Except ArgumentError Intake :=
  match i.pending with
  | .none => .ok i
  | .files values => (i.settled.addFiles values).map fun a => { i with settled := a, pending := .none }
  | .setting s values =>
    (i.settled.assign s values).map fun a => { i with settled := a, pending := .none }

def addFile (i : Intake) (file : String) : Except ArgumentError Intake :=
  match i.pending with
  | .files values => .ok { i with pending := .files (values ++ [file]) }
  | _ => i.settle.map fun i => { i with pending := .files [file] }

def takeSetting (i : Intake) (s : Setting) (attached : Option String) :
    Except ArgumentError Intake := do
  let i ← i.settle
  match attached with
  | some value => return { i with settled := ← i.settled.assign s [value] }
  | none => return { i with pending := .setting s [] }

def takeSwitch (i : Intake) (s : Switch) : Except ArgumentError Intake := do
  let i ← i.settle
  if i.settled.isOn s then throw .repeatedOption
  return { i with settled := { i.settled with switches := i.settled.switches ++ [s] } }

/-- Takes an option without an attached value. -/
def takeBare (i : Intake) : CommandOption → Except ArgumentError Intake
  | .setting s => i.takeSetting s none
  | .switch s => i.takeSwitch s
  | .help => i.settle.bind fun _ => .error .helpWanted
  | .version => i.settle.bind fun _ => .error .versionWanted

/-- Takes an option in its long form, with what stands behind an equals sign. -/
def takeWord (i : Intake) (cs : List Char) : Except ArgumentError Intake :=
  let word := String.ofList (cs.takeWhile (· ≠ '='))
  match CommandOption.ofWord? word, cs.dropWhile (· ≠ '=') with
  | none, _ => .error .unknownOption
  | some o, [] => i.takeBare o
  | some (.setting s), _ :: value => i.takeSetting s (some (String.ofList value))
  | some _, _ => .error .unwantedValue

/-- Takes joined letters. The first option with a value takes what is left of them, less an equals
sign in front. -/
def takeLetters (i : Intake) : List Char → Except ArgumentError Intake
  | [] => .ok i
  | c :: rest =>
    match CommandOption.ofLetter? c, rest with
    | none, _ => .error .unknownOption
    | some (.setting s), '=' :: value => i.takeSetting s (some (String.ofList value))
    | some (.setting s), _ :: _ => i.takeSetting s (some (String.ofList rest))
    | some o, _ => (i.takeBare o).bind fun i => i.takeLetters rest

/-- Takes one argument. -/
def take (i : Intake) (argument : String) : Except ArgumentError Intake :=
  if i.onlyFiles then i.addFile argument
  else
    match argument.toList, i.pending with
    | ['-', '-'], _ => .ok { i with onlyFiles := true }
    | '-' :: '-' :: cs, _ => i.takeWord cs
    | '-' :: c :: cs, _ => i.takeLetters (c :: cs)
    | _, .setting s [] => .ok { i with pending := .setting s [argument] }
    | _, _ => i.addFile argument

end Intake

/-- Reads the arguments of the program, its name left out. -/
def Arguments.ofList (arguments : List String) : Except ArgumentError Arguments := do
  let i ← arguments.foldlM Intake.take .start
  return (← i.settle).settled

end Doclets
