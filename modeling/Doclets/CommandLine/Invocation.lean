import Doclets.CommandLine.Settings
import Doclets.Doclet.Json
import Doclets.Pipeline.Run
import Doclets.Report

/-!
One invocation of the program: settings are loaded, sources selected and processed, and doclets
written. A manifest among the sources is no unit; the last one, unless the settings name another,
makes the doclet of the package.
-/

namespace Doclets

open Json (Value)

/-- Why an invocation comes to nothing. -/
inductive InvocationError where
  | unreadableConfig (path : String)
  | invalidConfig (path : String)
  | invalidPattern (error : InvalidPattern)
  | setup (error : SetupError)
  | directoryNotMade (path : String)
  | fileNotWritten (path : String)
  deriving DecidableEq

def InvocationError.message : InvocationError → String
  | unreadableConfig path => "failed to read config file " ++ path
  | invalidConfig path => "invalid config file " ++ path
  | invalidPattern error => error.message
  | setup error => error.message
  | directoryNotMade path => "failed to create " ++ path
  | fileNotWritten path => "failed to write " ++ path

/-- Why a manifest cannot be used. -/
inductive ManifestError where
  | unreadable (path : String) (failure : TextFailure)
  | invalid (path : String)
  deriving DecidableEq

def ManifestError.message : ManifestError → String
  | unreadable path failure => "failed to read " ++ path ++ ": " ++ failure.message
  | invalid path => "invalid package manifest " ++ path

/-- What an invocation comes to. -/
structure Outcome where
  /-- The units, in order. -/
  files : List String
  doclets : List Doclet
  diagnostics : List Diagnostic

/-- The doclets as they are written. -/
def Outcome.text (o : Outcome) : String :=
  (Value.arr (o.doclets.map (Doclet.json varsObject))).pretty

/-- The name of a manifest, in capital or small letters. -/
def isManifest (path : String) : Bool :=
  (Path.fileName? path).any fun name => name.toLower = "package.json"

/-- The arrays and objects that may be open at once in a manifest. -/
def maxManifestDepth : Nat := 127

def Disk.manifest (d : Disk) (path : String) : Except ManifestError Value :=
  match d.text path with
  | .error failure => .error (.unreadable path failure)
  | .ok text =>
    match Value.read? { Json.Policy.plain with limit := some maxManifestDepth } text with
    | some manifest => .ok manifest
    | none => .error (.invalid path)

namespace Settings

/-- The settings that the arguments ask for. -/
def load (d : Disk) (a : Arguments) : Except InvocationError Settings :=
  match (a.setting? .configure).map (Path.join d.directory) with
  | none => .ok (default.withArguments a)
  | some path =>
    match d.text path with
    | .error _ => .error (.unreadableConfig path)
    | .ok text =>
      match ofText? text with
      | none => .error (.invalidConfig path)
      | some settings => .ok (settings.withArguments a)

/-- Gives a run the manifest at `path`, if there is to be one. One that cannot be used makes an
unnamed package, and a diagnostic. -/
def withManifest (d : Disk) (path : Option String) (run : Run (Option String)) :
    List Diagnostic × Run (Option String) :=
  match path with
  | none => ([], run)
  | some path =>
    match d.manifest path with
    | .ok manifest => ([], { run with manifest := some manifest })
    | .error e => ([⟨.error, path, e.message⟩], { run with manifest := some .null })

/-- Selects the sources and processes them. -/
def run (s : Settings) (d : Disk) : Except InvocationError Outcome := do
  let encoding ← (Encoding.ofName s.encoding).mapError .setup
  let selection ← (Selection.ofRules s.source d.directory).mapError .invalidPattern
  let (manifests, files) :=
    (d.select selection s.scanDepth s.source.paths).partition isManifest
  let run ← (Run.documenting (some s.parser)).mapError .setup
  let named := s.output.package.map (Path.join d.directory)
  let (diagnostics, run) := withManifest d (named.or manifests.getLast?) run
  let run := run.process d encoding files
  return {
    files := files
    doclets := run.results.filter fun doclet => s.output.explain || !doclet.undocumented
    diagnostics := diagnostics ++ run.diagnostics.toList }

/-- Writes the output where the settings say, unless that is the terminal. -/
def write (s : Settings) (d : Disk) (o : Outcome) : Except InvocationError Disk :=
  match s.outputPath? d with
  | none => .ok d
  | some path =>
    let parent := (Path.parent? path).getD ""
    match if parent = "" then .ok d else d.makeDirectory parent with
    | .error _ => .error (.directoryNotMade parent)
    | .ok d =>
      match d.write path o.text.toUTF8 with
      | .error _ => .error (.fileNotWritten path)
      | .ok d => .ok d

end Settings

end Doclets
