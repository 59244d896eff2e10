import Doclets.Doclet

/-!
Doclets as JSON. A field that says nothing is left out: an absent option, a false flag, an empty
list or text. Only the longname and the origin are always written.
-/

namespace Doclets

open Json (Value memberIf memberUnlessEmpty)

def memberIfTrue (key : String) (flag : Bool) : List (String × Value) :=
  if flag then [(key, .bool true)] else []

def memberUnlessBlank (key text : String) : List (String × Value) :=
  if text.isEmpty then [] else [(key, .str text)]

def memberUnlessZero (key : String) (n : Nat) : List (String × Value) :=
  if n = 0 then [] else [(key, .ofNat n)]

def Borrow.json (b : Borrow) : Value :=
  .obj (("from", .str b.source) :: memberIf "as" .str b.newName)

def Tag.json (t : Tag) : Value := .obj (("title", .str t.title) :: memberUnlessBlank "value" t.value)

def NodeId.json (id : NodeId) : Value :=
  .obj [("unit", .ofNat id.unit), ("index", .ofNat (NodeRef.number id.index))]

def CodeOrigin.json (c : CodeOrigin) : Value :=
  .obj ([("name", .str c.name), ("node", c.node.json), ("type", .str c.kind.name)] ++
    memberIf "value" id c.value ++
    memberUnlessEmpty "paramnames" Value.strings c.params ++
    memberIf "funcscope" .str c.funcscope)

/-- Declared names as an object, from name to longname. -/
def varsObject (vars : List (String × Option String)) : Value :=
  .obj (vars.map fun (name, longname) => (name, .ofOption .str longname))

/-- An origin, with declared names written by `vars`. -/
def Origin.json (vars : List (String × Option String) → Value) (o : Origin) : Value :=
  .obj (memberUnlessBlank "filename" o.file ++
    memberUnlessZero "lineno" o.line ++
    memberUnlessZero "columnno" o.column ++
    memberIf "code" CodeOrigin.json o.code ++
    memberUnlessEmpty "vars" vars o.vars)

def PackageDetails.members (p : PackageDetails) : List (String × Value) :=
  memberIf "version" .str p.version ++
    memberUnlessEmpty "licenses" Value.strings p.licenses ++
    memberIf "homepage" .str p.homepage ++
    memberUnlessEmpty "keywords" Value.strings p.keywords ++
    [("files", .strings p.files)]

mutual

/-- A doclet, with declared names written by `vars`. -/
def Doclet.json (vars : List (String × Option String) → Value) : Doclet → Value
  | ⟨name, longname, memberof, scope, kind, description, comment, thisName, undocumented, borrowed,
      isEnum, properties, typeNames, defaultValue, augments, mixes, implements, inherits,
      inherited, overrides, mixed, package, tags, origin⟩ =>
    .obj (memberIf "name" .str name ++
      [("longname", .str longname)] ++
      memberIf "memberof" .str memberof ++
      memberIf "scope" (fun s => .str s.name) scope ++
      memberIf "kind" (fun k => .str k.name) kind ++
      memberIf "description" .str description ++
      memberUnlessBlank "comment" comment ++
      memberIf "this" .str thisName ++
      memberIfTrue "undocumented" undocumented ++
      memberIf "borrowed" (fun list => .arr (list.map Borrow.json)) borrowed ++
      memberIfTrue "isEnum" isEnum ++
      memberUnlessEmpty "properties" .arr (Doclet.jsonList vars properties) ++
      memberIf "type" (fun names => .obj [("names", .strings names)]) typeNames ++
      memberIf "defaultvalue" id defaultValue ++
      memberUnlessEmpty "augments" Value.strings augments ++
      memberUnlessEmpty "mixes" Value.strings mixes ++
      memberUnlessEmpty "implements" Value.strings implements ++
      memberIf "inherits" .str inherits ++
      memberIfTrue "inherited" inherited ++
      memberIf "overrides" .str overrides ++
      memberIfTrue "mixed" mixed ++
      (package.map PackageDetails.members).getD [] ++
      memberUnlessEmpty "tags" (fun list => .arr (list.map Tag.json)) tags ++
      [("meta", origin.json vars)])

def Doclet.jsonList (vars : List (String × Option String) → Value) : List Doclet → List Value
  | [] => []
  | d :: rest => d.json vars :: Doclet.jsonList vars rest

end

end Doclets
