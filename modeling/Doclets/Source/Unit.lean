import Doclets.Diagnostic
import Doclets.Source.Disk
import Doclets.Source.Encoding
import Doclets.Tree.Estree

/-!
Source units. A unit is the path of a file, or its source itself behind a mark; a provider turns
the source into a tree.
-/

namespace Doclets

/-- Stands in front of a unit that is its own source. -/
def inlineMark : String := "javascript:"

/-- Builds the tree of a unit from its file name and source. -/
structure Provider where
  name : String
  build : String → String → Except TreeError Tree

/-- Reads ESTree JSON. -/
def Provider.estree : Provider := ⟨"estree", Estree.ofText⟩

/-- Why a unit is left out. -/
inductive UnitError where
  | unreadable (path : String) (failure : ReadFailure)
  | undecodable (path : String) (encoding : Encoding)
  | notATree (path : String) (error : TreeError)
  deriving DecidableEq

def UnitError.message : UnitError → String
  | unreadable path failure => "cannot read " ++ path ++ ": " ++ failure.message
  | undecodable path encoding => path ++ " is not valid " ++ encoding.name
  | notATree path error => "cannot build a syntax tree for " ++ path ++ ": " ++ error.message

/-- Why no run can start. -/
inductive SetupError where
  | unknownBackend (name : String)
  | unknownEncoding (name : String)
  deriving DecidableEq

def SetupError.message : SetupError → String
  | unknownBackend name => "the AST backend \"" ++ name ++ "\" is not recognized"
  | unknownEncoding name => "the source encoding \"" ++ name ++ "\" is not recognized"

def Provider.ofBackend (name : String) : Except SetupError Provider :=
  if name = "estree" || name = "js" then .ok .estree else .error (.unknownBackend name)

def Encoding.ofName (name : String) : Except SetupError Encoding :=
  match ofName? name with
  | some encoding => .ok encoding
  | none => .error (.unknownEncoding name)

/-- The text of a file. -/
def Disk.readText (d : Disk) (encoding : Encoding) (path : String) : Except UnitError String :=
  match d.read path with
  | .error failure => .error (.unreadable path failure)
  | .ok bytes =>
    match encoding.decode? bytes with
    | some text => .ok text
    | none => .error (.undecodable path encoding)

end Doclets
