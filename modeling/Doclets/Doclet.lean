import Doclets.Doclet.Kind
import Doclets.Json.Value
import Doclets.Longname.Text
import Doclets.Tree.Node

/-!
Doclets: the documentation of one symbol, or of a name that only a comment mentions.
-/

namespace Doclets

/-- One request to borrow the documentation of another symbol, under another name if one is
given. -/
structure Borrow where
  source : String
  newName : Option String
  deriving DecidableEq

/-- A tag that is kept as it is written. -/
structure Tag where
  title : String
  value : String
  deriving DecidableEq

/-- What the code says about a symbol: its name as it is written there, the node its doclet is
registered for, its value and parameters. -/
structure CodeOrigin where
  name : String
  node : NodeId
  kind : NodeKind
  value : Option Json.Value
  params : List String
  /-- The longname of the function scope that declares an assigned name. -/
  funcscope : Option String

/-- Where a doclet comes from. -/
structure Origin where
  file : String
  line : Nat
  column : Nat
  code : Option CodeOrigin
  /-- The names declared in the scope that the symbol opens, with their longnames once known. -/
  vars : List (String × Option String)

def Origin.at (file : String) (line column : Nat) : Origin := ⟨file, line, column, none, []⟩

/-- What the manifest of a package says. -/
structure PackageDetails where
  version : Option String
  licenses : List String
  homepage : Option String
  keywords : List String
  /-- The units that were read. -/
  files : List String

structure Doclet where
  name : Option String
  longname : String
  memberof : Option String
  scope : Option Scope
  kind : Option DocletKind
  description : Option String
  comment : String
  /-- The longname that `this` stands for inside the symbol. -/
  thisName : Option String
  undocumented : Bool
  borrowed : Option (List Borrow)
  isEnum : Bool
  /-- Copies of the members of an enumeration. -/
  properties : List Doclet
  typeNames : Option (List String)
  defaultValue : Option Json.Value
  /-- The parents whose members are inherited. -/
  augments : List String
  mixes : List String
  /-- The interfaces that a class implements, or the interface members that a member does. -/
  implements : List String
  /-- The longname of the member that an inherited one is a copy of. -/
  inherits : Option String
  inherited : Bool
  /-- The longname of the parent's member that this one takes the place of. -/
  overrides : Option String
  mixed : Bool
  package : Option PackageDetails
  tags : List Tag
  origin : Origin

namespace Doclet

def empty : Doclet where
  name := none
  longname := ""
  memberof := none
  scope := none
  kind := none
  description := none
  comment := ""
  thisName := none
  undocumented := false
  borrowed := none
  isEnum := false
  properties := []
  typeNames := none
  defaultValue := none
  augments := []
  mixes := []
  implements := []
  inherits := none
  inherited := false
  overrides := none
  mixed := false
  package := none
  tags := []
  origin := .at "" 0 0

instance : Inhabited Doclet := ⟨empty⟩

/-- The doclet of the scope around all units. -/
def globalScope : Doclet := { empty with longname := Longname.global, undocumented := true }

/-- Stands in for a function without a doclet, so that the scope it opens is known. -/
def placeholder (code : CodeOrigin) (file : String) (line : Nat) : Doclet :=
  { empty with
    longname := Longname.anonymous
    undocumented := true
    origin := { Origin.at file line 0 with code := some code } }

/-- The parent that a text names: prototypes are spelled out, and the global scope and the
punctuation behind it are left out. The empty text names none. -/
def parentOf (text : String) : Option String :=
  let own := match Text.after? Longname.global text with
    | some rest => String.ofList (rest.toList.drop 1)
    | none => text
  let spelled := Longname.spellPrototypes own
  if spelled.isEmpty then none else some spelled

def withMemberof (d : Doclet) (parent : String) : Doclet := { d with memberof := parentOf parent }

def hasBorrows (d : Doclet) : Bool := !(d.borrowed.getD []).isEmpty

def codeName (d : Doclet) : Option String := d.origin.code.map CodeOrigin.name

/-- Records a parent, once. -/
def augment (d : Doclet) (parent : String) : Doclet :=
  if parent.isEmpty || d.augments.contains parent then d
  else { d with augments := d.augments ++ [parent] }

def isClass (d : Doclet) : Bool := d.kind = some .class

def isModule (d : Doclet) : Bool := d.kind = some .module

end Doclet

end Doclets
