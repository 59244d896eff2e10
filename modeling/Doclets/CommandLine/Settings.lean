import Doclets.CommandLine.Arguments
import Doclets.Json.Reader
import Doclets.Source.Selection

/-!
The settings of a run: those of a configuration file, with the arguments of the program over them.
A configuration is JSON. Every group of settings is an object whose unknown members do not matter,
or an array of values in order; what is missing keeps its default.
-/

namespace Doclets

open Json (Value)

/-- What a run does with what it produces. -/
structure OutputRules where
  destination : Option String
  /-- The manifest of the package. -/
  package : Option String
  recurse : Bool
  explain : Bool
  pedantic : Bool

structure Settings where
  source : SourceRules
  /-- How deep directories are walked through if they are walked through at all. -/
  recurseDepth : Nat
  parser : String
  encoding : String
  output : OutputRules

namespace Settings

/-- Without a configuration, every JSON file counts. -/
def default : Settings where
  source := ⟨[], [], some "**/*.json", none⟩
  recurseDepth := 10
  parser := "estree"
  encoding := "utf8"
  output := ⟨none, none, false, false, false⟩

/-! ### Reading -/

/-- One setting of a group: its name, and how its value is put into the group. -/
structure Field (σ : Type) where
  key : String
  put : Value → σ → Option σ

variable {σ : Type}

/-- Reads the members of an object. A setting may be given once; `given` are those that were. -/
def putMembers (fields : List (Field σ)) (given : List String) (group : σ) :
    List (String × Value) → Option σ
  | [] => some group
  | (key, v) :: rest =>
    match fields.find? fun f => f.key = key with
    | none => putMembers fields given group rest
    | some f =>
      if given.contains key then none
      else (f.put v group).bind fun group => putMembers fields (key :: given) group rest

/-- Reads the items of an array, of which there may be no more than settings. -/
def putItems (group : σ) : List (Field σ) → List Value → Option σ
  | _, [] => some group
  | [], _ :: _ => none
  | f :: fields, v :: rest => (f.put v group).bind fun group => putItems group fields rest

/-- Reads a group of settings. -/
def putGroup (fields : List (Field σ)) (v : Value) (group : σ) : Option σ :=
  match v with
  | .obj members => putMembers fields [] group members
  | .arr items => putItems group fields items
  | _ => none

def texts? (v : Value) : Option (List String) := v.items?.bind (List.mapM Value.str?)

/-- A text, or null for none. -/
def optional? : Value → Option (Option String)
  | .null => some none
  | v => v.str?.map some

/-- A number that fits 64 bits. -/
def count? (v : Value) : Option Nat := v.nat?.filter fun n => n < 0x10000000000000000

def sourceFields : List (Field SourceRules) :=
  [⟨"include", fun v s => (texts? v).map fun paths => { s with paths := paths }⟩,
    ⟨"exclude", fun v s => (texts? v).map fun paths => { s with exclude := paths }⟩,
    ⟨"includePattern", fun v s => (optional? v).map fun text => { s with includePattern := text }⟩,
    ⟨"excludePattern", fun v s => (optional? v).map fun text => { s with excludePattern := text }⟩]

def outputFields : List (Field OutputRules) :=
  [⟨"destination", fun v s => (optional? v).map fun path => { s with destination := path }⟩,
    ⟨"package", fun v s => (optional? v).map fun path => { s with package := path }⟩,
    ⟨"recurse", fun v s => v.bool?.map fun on => { s with recurse := on }⟩,
    ⟨"explain", fun v s => v.bool?.map fun on => { s with explain := on }⟩,
    ⟨"pedantic", fun v s => v.bool?.map fun on => { s with pedantic := on }⟩]

def fields : List (Field Settings) :=
  [⟨"source", fun v s => (putGroup sourceFields v default.source).map fun source =>
      { s with source := source }⟩,
    ⟨"recurseDepth", fun v s => (count? v).map fun depth => { s with recurseDepth := depth }⟩,
    ⟨"parser", fun v s => v.str?.map fun parser => { s with parser := parser }⟩,
    ⟨"encoding", fun v s => v.str?.map fun encoding => { s with encoding := encoding }⟩,
    ⟨"opts", fun v s => (putGroup outputFields v default.output).map fun output =>
      { s with output := output }⟩]

/-- How a configuration is read: every member is kept, so that a setting that is given twice shows,
and what has no value reads as a float, which no setting takes. -/
def policy : Json.Policy := ⟨fun key v members => members ++ [(key, v)], some (.float 0), none⟩

/-- The settings of a configuration. -/
def ofText? (text : String) : Option Settings :=
  (Value.read? policy text).bind fun v => putGroup fields v default

/-! ### Use -/

/-- The settings with the arguments of the program over them; the files among these are read in
addition to what the settings name. -/
def withArguments (s : Settings) (a : Arguments) : Settings :=
  { s with
    source := { s.source with paths := s.source.paths ++ a.files }
    encoding := (a.setting? .encoding).getD s.encoding
    parser := (a.setting? .parser).getD s.parser
    output :=
      { destination := (a.setting? .destination).or s.output.destination
        package := (a.setting? .package).or s.output.package
        recurse := s.output.recurse || a.isOn .recurse
        explain := s.output.explain || a.isOn .explain
        pedantic := s.output.pedantic || a.isOn .pedantic } }

/-- How deep directories are walked through: only what stands in them, unless they recurse. -/
def scanDepth (s : Settings) : Nat := if s.output.recurse then max s.recurseDepth 1 else 1

/-- The file that the output goes to, if it does not go to the terminal. -/
def outputPath? (s : Settings) (d : Disk) : Option String :=
  match s.output.destination with
  | none | some "console" => none
  | some path => some (if d.isDirectory path then Path.join path "doclets.json" else path)

end Settings

end Doclets
