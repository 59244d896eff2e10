import Doclets.Registry.Scopes

/-!
What remains to be done for a symbol after its doclets are stored.
-/

namespace Doclets

inductive FollowUp where
  /-- Note the longname that a declared name resolved to, with the doclet of its scope. -/
  | trackName (scope : DocletId)
  /-- Copy the member of an enumeration onto it. -/
  | joinEnum
  /-- Merge a constructor with its class. -/
  | joinClass
  deriving DecidableEq

namespace Registry

/-- Copies a member onto one of its owners, if that is an enumeration. The member takes the type
of the enumeration if it has none and its own value as default value, and counts as documented. -/
def joinEnumOf (member : DocletId) (r : Registry) (owner : DocletId) : Registry :=
  if (r.doclet owner).isEnum then
    let types := (r.doclet owner).typeNames
    let r := r.modify member fun d =>
      { d with
        typeNames := d.typeNames.or types
        defaultValue := d.origin.code.bind CodeOrigin.value }
    let r := r.setUndocumented member false
    let copy := r.doclet member
    r.modify owner fun d => { d with properties := d.properties ++ [copy] }
  else r

def joinEnum (r : Registry) (t : Tree) (property : NodeRef) (member : DocletId) : Registry :=
  (r.propertyOwners t property).foldl (joinEnumOf member) r

/-- The doclet of a class, with what it lacks taken from that of its constructor. -/
def mergedClass (primary secondary : Doclet) : Doclet :=
  let params := ((secondary.origin.code.map CodeOrigin.params).getD [])
  { primary with
    description := primary.description.or secondary.description
    thisName := primary.thisName.or secondary.thisName
    tags := secondary.tags.foldl
      (fun tags tag => if tags.contains tag then tags else tags ++ [tag]) primary.tags
    origin := { primary.origin with
      code := primary.origin.code.map fun code =>
        if code.params.isEmpty then { code with params := params } else code } }

/-- Merges a constructor with its class, if that is documented: the merged doclet becomes a
result, and the two it is made of count as undocumented. -/
def joinClass (r : Registry) (t : Tree) (method : NodeRef) (constructor : DocletId) : Registry :=
  match r.idOfNode? t (t.parent (t.parent method)) with
  | none => r
  | some owner =>
    if owner = constructor || (r.doclet owner).undocumented then r
    else
      let merged := mergedClass (r.doclet owner) (r.doclet constructor)
      let r := r.setUndocumented owner true
      let r := r.setUndocumented constructor true
      (r.addDoclet merged).2

/-- Does what remains for the symbol at `node`, called `name` in the code, whose last doclet is
`id`. -/
def follow (t : Tree) (node : NodeRef) (name : String) (id : DocletId) (r : Registry) :
    FollowUp → Registry
  | .trackName scope =>
    let d := r.doclet id
    if d.memberof.isSome then r.declare scope name (some d.longname) else r
  | .joinEnum => r.joinEnum t node id
  | .joinClass => r.joinClass t node id

end Registry

end Doclets
