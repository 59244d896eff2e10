import Doclets.Doclet

/-!
The identity of a doclet: its name, the parent it is a member of, its scope and its longname, made
to agree. A name that is qualified already is taken apart; a parent that ends in punctuation is
joined as it is; an unqualified name that a function scope declares becomes an inner member of
that function.
-/

namespace Doclets.Doclet

open Longname (Parts shorten)

/-- The function scope that declares the name, when the code says so. -/
def funcscope? (d : Doclet) : Option String :=
  (d.origin.code.bind CodeOrigin.funcscope).filter fun scope => !scope.isEmpty

/-- Spells out the prototypes in the name, and qualifies a name without a parent by the function
scope that declares it. Gives the name to go on with. -/
def qualifyName (d : Doclet) : String × Doclet :=
  let name := (d.name.map Longname.spellPrototypes).getD ""
  if name.isEmpty then (name, d)
  else
    let d := { d with name := some name }
    if (d.memberof.getD "").isEmpty then
      match d.funcscope? with
      | some scope =>
        let name := scope ++ Scope.inner.punctuation ++ name
        (name, { d with longname := name })
      | none => (name, d)
    else (name, d)

/-- The path of a name below a parent, taken apart, if parent and scope settle it. A name equal to
its parent is a static member of it, unless both are a module that documents itself. -/
def divideBelow (d : Doclet) (name parent : String) : Option Parts × Doclet :=
  if name.isEmpty then (none, d)
  else if Longname.isMemberPath name parent then (some (shorten name), d)
  else if name = parent then
    if Longname.isModule name then (some (shorten name), d)
    else
      let scope := d.scope.getD .static
      (some (shorten (parent ++ scope.punctuation ++ name)), { d with scope := some scope })
  else if Longname.endsJoined parent then (some (shorten (parent ++ name)), d)
  else
    match d.scope with
    | some .global => (some (shorten name), d)
    | some scope => (some (shorten (parent ++ scope.punctuation ++ name)), d)
    | none => (none, d)

/-- The path of a doclet taken apart, if name, parent and scope settle it. -/
def divide (d : Doclet) (name : String) : Option Parts × Doclet :=
  let parent := d.memberof.getD ""
  if parent.isEmpty then (some (shorten name), d)
  else d.divideBelow name (Longname.spellPrototypes parent)

/-- Takes name and parent from a path, and the longname if there is none yet or only the name. -/
def adopt (d : Doclet) (path : Parts) : Doclet :=
  let d := if path.name.isEmpty then d else { d with name := some path.name }
  let d := if path.memberof.isEmpty then d else d.withMemberof path.memberof
  if !path.longname.isEmpty && (d.longname.isEmpty || d.name = some d.longname) then
    { d with longname := path.longname }
  else d

/-- The scope that the name in the code suggests. -/
def scopeInCode (d : Doclet) : Option Scope :=
  (d.codeName.bind fun name => (shorten name).scope).bind Scope.ofPunctuation

/-- Joins name and parent of a doclet that has no longname. The scope is that of the punctuation
the name begins with, or else that of the name in the code, or else static. -/
def join (d : Doclet) : Doclet :=
  match d.name, d.memberof with
  | some name, some parent =>
    let leading := name.toList.head?.bind Scope.ofPunctuation
    let own := if leading.isSome then String.ofList (name.toList.drop 1) else name
    let scope := (leading.or d.scopeInCode).getD .static
    { d with
      scope := some scope
      longname := parent ++ scope.punctuation ++ own
      name := some own }
  | _, _ => d

/-- Settles the scope. A global has no parent, and its longname is its name. -/
def settle (d : Doclet) (path : Option Parts) : Doclet :=
  if d.scope = some .global then
    { d with longname := d.name.getD "", memberof := none }
  else
    match path.bind fun p => p.scope.map fun c => (p, c) with
    | some (p, c) =>
      { d with
        scope := if p.memberof = Longname.global then some .global else Scope.ofPunctuation c }
    | none => if d.longname.isEmpty then d.join else d

/-- Makes name, parent, scope and longname agree, from what the comment and the code say. -/
def resolve (d : Doclet) : Doclet :=
  let (name, d) := d.qualifyName
  let (path, d) := d.divide name
  let d := match path with
    | some p => d.adopt p
    | none => d
  let d := d.settle path
  if d.longname.isEmpty then { d with longname := d.name.getD "" } else d

end Doclets.Doclet
