import Doclets.Doclet.Package
import Doclets.Pipeline.Documenter
import Doclets.Pipeline.Walk
import Doclets.Registry.Borrows
import Doclets.Registry.Inheritance
import Doclets.Source.Unit

/-!
Runs over units. Each unit is read, turned into a tree and walked; one that fails leaves a
diagnostic and nothing else. A whole run then adds the doclet of the package and the members that
symbols inherit and borrow.
-/

namespace Doclets

/-- A run: who takes part in it, and what it has produced so far. -/
structure Run (σ : Type) where
  provider : Provider
  watchers : Watchers σ
  state : σ
  registry : Registry
  diagnostics : Array Diagnostic
  /-- The units that were read and turned into trees. -/
  files : Array String
  /-- The manifest of the package, if there is to be a doclet of it. -/
  manifest : Option Json.Value

namespace Run

variable {σ : Type}

/-- A run that has produced nothing yet. -/
def start (provider : Provider) (watchers : Watchers σ) (state : σ) : Run σ :=
  ⟨provider, watchers, state, .empty, #[], #[], none⟩

/-- A run with the handler that makes doclets of comments and symbols, and no other. -/
def documenting (backend : Option String) : Except SetupError (Run (Option String)) :=
  match Provider.ofBackend (backend.getD "estree") with
  | .error e => .error e
  | .ok provider => .ok (start provider ⟨[Documenter.handler .whole], []⟩ none)

/-- Forgets all that was produced. The manifest stays, and so does the state of the handlers. -/
def reset (run : Run σ) : Run σ :=
  { run with registry := .empty, diagnostics := #[], files := #[] }

def results (run : Run σ) : List Doclet := run.registry.resultDoclets

def announce {ε : Type} (answer : Handler σ → Listener σ ε) (e : ε) (run : Run σ) :
    Flow × Run σ :=
  let (flow, s) := Handler.announce answer e run.watchers.handlers run.state
  (flow, { run with state := s })

def relay {ε : Type} (answer : Handler σ → Editor σ ε) (e : ε) (run : Run σ) :
    Flow × ε × Run σ :=
  let (flow, e, s) := Handler.relay answer run.watchers.handlers e run.state
  (flow, e, { run with state := s })

/-! ### Units -/

def report (run : Run σ) (file : String) (error : UnitError) : Run σ :=
  { run with diagnostics := run.diagnostics.push ⟨.error, file, error.message⟩ }

/-- Walks a tree as the next unit. -/
def walk (run : Run σ) (file : String) (t : Tree) : Flow × Run σ :=
  let (unit, r) := run.registry.nextUnit
  let t := { t with unit := unit }
  let (flow, walk) := run.watchers.passAll file t.stops ⟨t, r, run.state⟩
  (flow, { run with
    registry := walk.registry, state := walk.state, files := run.files.push file })

/-- Shows a source to the handlers, turns it into a tree and walks it. -/
def readSource (run : Run σ) (file source : String) : Flow × Run σ :=
  let (flow, found, run) := run.relay Handler.sourceFound ⟨file, source⟩
  if flow.isContinue then
    match run.provider.build found.file found.source with
    | .ok t => run.walk found.file t
    | .error e => (.continue, run.report found.file (.notATree found.file e))
  else (flow, run)

/-- Finds the source of a unit, and reads it unless it is empty. -/
def readUnit (run : Run σ) (disk : Disk) (encoding : Encoding) (file : String)
    (own : Option String) : Flow × Run σ :=
  let source : Except UnitError String := match own with
    | some text => .ok ((Text.after? "\uFEFF" text).getD text)
    | none => disk.readText encoding file
  match source with
  | .error e => (.continue, run.report file e)
  | .ok source => if source.isEmpty then (.continue, run) else run.readSource file source

/-- The file name of a unit and, if it is one, its own source. A unit that is its own source is
called by its position. -/
def nameUnit (position : Nat) (unit : String) : String × Option String :=
  match Text.after? inlineMark unit with
  | some source => ("[[string" ++ toString position ++ "]]", some source)
  | none => (unit, none)

/-- Passes one unit. Only the wish to end the run goes beyond it. -/
def passUnit (run : Run σ) (disk : Disk) (encoding : Encoding) (position : Nat) (unit : String) :
    Flow × Run σ :=
  let (file, own) := nameUnit position unit
  match run.announce Handler.fileBegin file with
  | (.abort, run) => (.abort, run)
  | (.skipUnit, run) => (.continue, run)
  | (.continue, run) =>
    let (flow, run) := run.readUnit disk encoding file own
    let (complete, run) := run.announce Handler.fileComplete file
    (if flow.merge complete = .abort then .abort else .continue, run)

/-- Passes unit after unit, from a position on, until a handler ends the run. -/
def passUnits (disk : Disk) (encoding : Encoding) :
    Nat → List String → Run σ → Flow × Run σ
  | _, [], run => (.continue, run)
  | position, unit :: rest, run =>
    match run.passUnit disk encoding position unit with
    | (.abort, run) => (.abort, run)
    | (_, run) => passUnits disk encoding (position + 1) rest run

/-- Passes the units, between the checkpoints at their beginning and end. -/
def passAll (run : Run σ) (disk : Disk) (encoding : Encoding) (units : List String) :
    Flow × Run σ :=
  match run.relay Handler.parseBegin units with
  | (.abort, _, run) => (.abort, run)
  | (_, units, run) =>
    let (flow, run) := passUnits disk encoding 0 units run
    let (complete, run) := run.announce Handler.parseComplete (run.files.toList, run.results)
    (flow.merge complete, run)

/-! ### Whole runs -/

def resolveAugments (run : Run σ) : Run σ :=
  { run with registry := run.registry.resolveAugments }

def resolveBorrows (run : Run σ) : Run σ :=
  { run with registry := run.registry.resolveBorrows }

/-- Adds the doclet of the package, if there is to be one. -/
def addPackage (run : Run σ) : Run σ :=
  match run.manifest with
  | none => run
  | some manifest =>
    let (_, _, r, s) := run.watchers.register [Doclet.ofManifest manifest run.files.toList]
      run.registry run.state
    { run with registry := r, state := s }

def complete (run : Run σ) : Flow × Run σ :=
  run.announce Handler.processingComplete run.results

/-- Reads units without completing what they produce. -/
def parse (run : Run σ) (disk : Disk) (encoding : Encoding) (units : List String) : Run σ :=
  (run.passAll disk encoding units).2

/-- Reads units and completes what they produce, unless a handler ends the run before. -/
def process (run : Run σ) (disk : Disk) (encoding : Encoding) (units : List String) : Run σ :=
  match run.passAll disk encoding units with
  | (.abort, run) => run
  | (_, run) => run.addPackage.resolveAugments.resolveBorrows.complete.2

end Run

end Doclets
