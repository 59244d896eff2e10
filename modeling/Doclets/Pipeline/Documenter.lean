import Doclets.Doclet.Tags
import Doclets.Pipeline.Handler
import Doclets.Registry.Scopes

/-!
The handler that turns comments and symbols into doclets. A comment that names what it documents
makes a doclet of its own; every other comment documents the symbol it stands in front of.
-/

namespace Doclets

/-- Where a handler keeps the longname of the module that the unit declares, in the shared
state. -/
structure ModuleSlot (σ : Type) where
  get : σ → Option String
  set : Option String → σ → σ

/-- A slot that is all of the state. -/
def ModuleSlot.whole : ModuleSlot (Option String) := ⟨id, fun module _ => module⟩

namespace Documenter

/-- What follows `target` in a path that begins with it: nothing, or the path behind the dot. -/
def below? (target name : String) : Option String :=
  match Text.after? target name with
  | some rest => if rest.isEmpty then some rest else Text.after? "." rest
  | none => none

/-- A name without the basename in front and the punctuation behind that. -/
def withoutBasename (name basename : String) : String :=
  match Text.after? basename name with
  | some rest =>
    if !rest.isEmpty && Longname.basename? name = some basename then
      String.ofList (rest.toList.drop 1)
    else name
  | none => name

/-- What follows the last punctuation of a name, or all of it. -/
def lastSegment (name : String) : String :=
  String.ofList (name.toList.reverse.takeWhile fun c => !isPunctuation c).reverse

/-- Whether a longname is that of a prototype, which is not documented itself. -/
def isPrototype (longname : String) : Bool := longname.toList.getLast? = some '#'

def isNamedExport (t : Tree) (node : NodeRef) : Bool :=
  t.isKind (t.parent node) .exportNamedDeclaration ||
    (t.isKind node .variableDeclarator &&
      t.isKind (t.parent (t.parent node)) .exportNamedDeclaration)

/-- Makes a doclet without a parent a member of the module: static if the symbol is exported, and
inner otherwise, where no tag says so. -/
def inModule (module : Option String) (exported : Bool) (d : Doclet) : Doclet :=
  match module with
  | none => d
  | some module =>
    if d.memberof.isSome || d.name = some module then d
    else
      let d := if d.scope.isSome then d
        else { d with scope := some (if exported then .static else .inner) }
      if d.scope = some .global then d else d.withMemberof module

/-! ### Comments -/

/-- The doclet that one part of a comment makes on its own, and the module declared from then on.
Only a part that names what it documents makes one. -/
def ofCommentPart (event : CommentFound) (module : Option String) (part : String) :
    Option Doclet × Option String :=
  let d := Doclet.ofComment part (.at event.file event.line event.column)
  if d.name.isNone then (none, module)
  else
    let d := if d.isModule then d else inModule module false d
    let d := d.resolve
    let d := if d.memberof.isNone && d.scope.isNone && !d.isModule then
        { d with scope := some .global }
      else d
    let module := if d.isModule then some d.longname else module
    (if isPrototype d.longname then none else some d, module)

/-- The doclets that the parts of a comment make on their own, in order. -/
def ofCommentParts (event : CommentFound) :
    Option String → List String → List Doclet × Option String
  | module, [] => ([], module)
  | module, part :: rest =>
    let (d, module) := ofCommentPart event module part
    let (others, module) := ofCommentParts event module rest
    (d.toList ++ others, module)

/-! ### Symbols -/

/-- The name and parent of a symbol on `this`. -/
def onThis (ctx : Context) (node : NodeRef) (rest : String) (d : Doclet) : Doclet :=
  let owner := ctx.registry.this ctx.tree node
  let d := { d with name := some rest }
  if owner.isEmpty || rest.isEmpty then d
  else { d.withMemberof owner with scope := some .perInstance }

/-- The name and parent of a symbol on the exports of a module. -/
def onExports (module rest : String) (d : Doclet) : Doclet :=
  if rest.isEmpty then { d with name := some module }
  else { ({ d with name := some rest } : Doclet).withMemberof module with scope := some .static }

/-- The name of a symbol relative to its owner. -/
def localName (ctx : Context) (node : NodeRef) (name : String) (owner : Owner) : String :=
  match owner.basename with
  | some basename => withoutBasename name basename
  | none => if ctx.tree.isKind node .methodDefinition then lastSegment name else name

/-- The name and parent of a symbol by the scopes around it. -/
def inScope (ctx : Context) (module : Option String) (node : NodeRef) (name : String)
    (d : Doclet) : Doclet :=
  let owner := ctx.registry.owner ctx.tree node
  match owner.memberof.filter fun parent => !parent.isEmpty with
  | some parent =>
    ({ d with name := some (localName ctx node name owner) } : Doclet).withMemberof parent
  | none => inModule module (isNamedExport ctx.tree node) d

/-- The path below the exports of the module, if a name is one. -/
def exported? (module : Option String) (name : String) : Option (String × String) :=
  match module with
  | none => none
  | some module =>
    ((below? "module.exports" name).or (below? "exports" name)).map fun rest => (module, rest)

/-- Works out from the code what a symbol belongs to. -/
def placed (ctx : Context) (module : Option String) (node : NodeRef) (d : Doclet) : Doclet :=
  let name := d.name.getD ""
  match below? "this" name with
  | some rest => onThis ctx node rest d
  | none =>
    match exported? module name with
    | some (module, rest) => onExports module rest d
    | none => inScope ctx module node name d

/-- The class that a class extends, by the name in the code. -/
def superName? (t : Tree) (node : NodeRef) : Option String :=
  match t.payload? node with
  | some (.class _ superClass _) => if superClass.isSome then some (t.name superClass) else none
  | _ => none

/-- Fills in what the code says about the kind, scope and parents of a resolved doclet. -/
def completed (ctx : Context) (module : Option String) (event : SymbolFound) (d : Doclet) :
    Doclet :=
  let d := { d with kind := some (d.kind.getD (event.code.impliedKind ctx.tree event.node)) }
  let d := if d.memberof.isNone && !d.isModule && !decide (module = d.name) then
      { d with scope := some .global }
    else d
  let d := match event.code.docletKind with
    | some kind => if d.kind = some DocletKind.member then { d with kind := some kind } else d
    | none => d
  if d.isClass then
    match superName? ctx.tree event.code.node with
    | some parent => d.augment parent
    | none => d
  else d

/-- The doclet of a symbol and one part of its comment, before it is placed. A part that names what
it documents has made a doclet already, and leaves the symbol without documentation. -/
def described (ctx : Context) (event : SymbolFound) (part : String) : Doclet :=
  let origin := { Origin.at event.file event.line event.column with
    code := some (event.code.origin ctx.tree) }
  let d := Doclet.ofComment part origin
  if d.name.isSome then Doclet.ofComment "" origin else d

/-- The doclet of a symbol and one part of its comment, if the symbol has a name. -/
def ofSymbolPart (ctx : Context) (module : Option String) (event : SymbolFound) (part : String) :
    Option Doclet :=
  if event.code.name.isEmpty then none
  else
    let d := { described ctx event part with name := some event.code.name }
    let d := if d.memberof.isNone then placed ctx module (some event.node) d else d
    if (d.name.getD "").isEmpty then none
    else
      let d := completed ctx module event d.resolve
      if isPrototype d.longname then none else some d

/-- The doclets of a symbol, one for each part of its comment. -/
def ofSymbol (ctx : Context) (module : Option String) (event : SymbolFound) : List Doclet :=
  (Comment.parts event.comment).filterMap (ofSymbolPart ctx module event)

/-- Turns comments and symbols into doclets. A module lasts until its unit ends. -/
def handler {σ : Type} (slot : ModuleSlot σ) : Handler σ where
  fileBegin := fun _ s => (.continue, slot.set none s)
  commentFound := fun _ event s =>
    let (doclets, module) := ofCommentParts event (slot.get s) (Comment.parts event.comment)
    (.continue, { event with doclets := event.doclets ++ doclets }, slot.set module s)
  symbolFound := fun ctx event s =>
    let doclets := ofSymbol ctx (slot.get s) event
    (.continue, { event with doclets := event.doclets ++ doclets }, s)
  fileComplete := fun _ s => (.continue, slot.set none s)

end Documenter

end Doclets
