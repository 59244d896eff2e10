import Doclets.Pipeline.Flow
import Doclets.Registry

/-!
The checkpoints of a run and those who watch them. For every unit a run passes the beginning of the
file, the source before it is read, the comments and symbols of its tree, each new doclet, and the
end of the file. Handlers share one state `σ`; an answer may change it, and what the checkpoint
lets them change.
-/

namespace Doclets

/-- The source of a unit, which handlers may replace. -/
structure SourceFound where
  file : String
  source : String

/-- A documentation comment. Handlers may change it and add doclets. -/
structure CommentFound where
  comment : String
  file : String
  line : Nat
  column : Nat
  doclets : List Doclet

/-- A symbol, with the comment that documents it, or the empty text. Handlers add doclets. -/
structure SymbolFound where
  comment : String
  file : String
  line : Nat
  column : Nat
  node : NodeIndex
  code : Symbol
  doclets : List Doclet

/-- What handlers may look at. -/
structure Context where
  registry : Registry
  tree : Tree

/-- An answer to a checkpoint that cannot be changed. -/
abbrev Listener (σ ε : Type) := ε → σ → Flow × σ

/-- An answer to a checkpoint that may be changed on the way. -/
abbrev Editor (σ ε : Type) := ε → σ → Flow × ε × σ

def Listener.silent {σ ε : Type} : Listener σ ε := fun _ s => (.continue, s)

def Editor.silent {σ ε : Type} : Editor σ ε := fun e s => (.continue, e, s)

/-- A watcher of the checkpoints; it lets those pass that it does not name. -/
structure Handler (σ : Type) where
  /-- The units of a run, before the first. -/
  parseBegin : Editor σ (List String) := .silent
  fileBegin : Listener σ String := .silent
  sourceFound : Editor σ SourceFound := .silent
  commentFound : Context → Editor σ CommentFound := fun _ => .silent
  symbolFound : Context → Editor σ SymbolFound := fun _ => .silent
  /-- A doclet, before it is stored. -/
  newDoclet : Editor σ Doclet := .silent
  fileComplete : Listener σ String := .silent
  /-- The units that were read, and all results. -/
  parseComplete : Listener σ (List String × List Doclet) := .silent
  /-- All results, after the passes that complete them. -/
  processingComplete : Listener σ (List Doclet) := .silent

/-- Sees every node before the handlers do, and may change the checkpoint of a symbol. -/
structure Visitor (σ : Type) where
  node : Tree → NodeIndex → String → σ → σ
  symbol : Tree → String → SymbolFound → σ → SymbolFound × σ

namespace Handler

variable {σ ε : Type}

/-- Asks every handler in order, and merges the answers. -/
def announce (answer : Handler σ → Listener σ ε) (e : ε) : List (Handler σ) → σ → Flow × σ
  | [], s => (.continue, s)
  | h :: rest, s =>
    let (flow, s) := answer h e s
    let (others, s) := announce answer e rest s
    (flow.merge others, s)

/-- Asks every handler in order, each about what the one before made of the checkpoint, and merges
the answers. -/
def relay (answer : Handler σ → Editor σ ε) : List (Handler σ) → Editor σ ε
  | [], e, s => (.continue, e, s)
  | h :: rest, e, s =>
    let (flow, e, s) := answer h e s
    let (others, e, s) := relay answer rest e s
    (flow.merge others, e, s)

end Handler

end Doclets
