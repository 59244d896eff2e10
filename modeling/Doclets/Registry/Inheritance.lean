import Doclets.Registry

/-!
Members that a symbol receives from others: from the mixins it names, from the interfaces it
implements and from the parents it augments, in this order. Every received member is a copy under
the longname of the receiver. A member that the receiver documents itself is kept.
-/

namespace Doclets

/-- How a received member relates to the one it is a copy of. -/
inductive Relation where
  | mixed
  | implemented
  | inherited
  deriving DecidableEq

/-- The longnames a doclet names in a relation; one without documentation names none. -/
def Doclet.related (d : Doclet) (relation : Relation) : List String :=
  if d.undocumented then []
  else
    match relation with
    | .mixed => d.mixes
    | .implemented => d.implements
    | .inherited => d.augments

/-- The scope of a member that is passed on. -/
def Doclet.sharedScope? (d : Doclet) : Option Scope :=
  if d.undocumented then none
  else d.scope.filter fun scope => scope = .static || scope = .perInstance

/-- The name of a member below its parent. -/
def Doclet.ownName (d : Doclet) : String := d.name.getD (Longname.shorten d.longname).name

/-- The copy of a member that `receiver` gets under `longname`. -/
def Doclet.copyFor (d : Doclet) (relation : Relation) (receiver longname : String) : Doclet :=
  let copy :=
    { d with longname := longname, memberof := some receiver, borrowed := none, overrides := none }
  match relation with
  | .mixed => { copy with mixed := true }
  | .implemented => { copy with implements := [d.longname] }
  | .inherited => { copy with inherited := true, inherits := some d.longname }

@[simp] theorem Doclet.longname_copyFor (d : Doclet) (relation : Relation)
    (receiver longname : String) : (d.copyFor relation receiver longname).longname = longname := by
  cases relation <;> rfl

@[simp] theorem Doclet.memberof_copyFor (d : Doclet) (relation : Relation)
    (receiver longname : String) :
    (d.copyFor relation receiver longname).memberof = some receiver := by
  cases relation <;> rfl

@[simp] theorem Doclet.undocumented_copyFor (d : Doclet) (relation : Relation)
    (receiver longname : String) :
    (d.copyFor relation receiver longname).undocumented = d.undocumented := by
  cases relation <;> rfl

/-- A member of the receiver's own that takes the place of `source`. -/
def Doclet.inPlaceOf (d : Doclet) (relation : Relation) (source : String) : Doclet :=
  match relation with
  | .mixed => d
  | .implemented =>
    if d.implements.contains source then d else { d with implements := d.implements ++ [source] }
  | .inherited =>
    if d.inherited || d.overrides.isSome then d else { d with overrides := some source }

namespace Registry

/-- Passes one member on to `receiver`. -/
def passOn (relation : Relation) (receiver : String) (r : Registry) (member : DocletId) :
    Registry :=
  let d := r.doclet member
  match d.sharedScope? with
  | none => r
  | some scope =>
    let longname := receiver ++ scope.punctuation ++ d.ownName
    match (r.index.documentedAt longname).getLast? with
    | some own => r.modify own fun existing => existing.inPlaceOf relation d.longname
    | none => (r.addDoclet (d.copyFor relation receiver longname)).2

/-- Passes the members of `parent` on to a receiver. -/
def copyMembers (relation : Relation) (receiver : DocletId) (r : Registry) (parent : String) :
    Registry :=
  let longname := (r.doclet receiver).longname
  if longname = parent then r
  else (r.index.membersOf parent).foldl (passOn relation longname) r

/-- Gives a receiver the members of all it names in a relation. -/
def receive (relation : Relation) (r : Registry) (receiver : DocletId) : Registry :=
  ((r.doclet receiver).related relation).foldl (copyMembers relation receiver) r

/-- The results that name something in a relation. -/
def receivers (r : Registry) (relation : Relation) : List DocletId :=
  r.results.toList.filter fun id => !((r.doclet id).related relation).isEmpty

/-- The receivers whose parents are not among those that wait themselves; if all of them wait for
each other, all. -/
def nextBatch (r : Registry) (pending : List DocletId) : List DocletId :=
  let waiting := pending.map fun id => (r.doclet id).longname
  let ready := pending.filter fun id => (r.doclet id).augments.all fun p => !waiting.contains p
  if ready.isEmpty then pending else ready

/-- Lets the pending receivers inherit, parents first, so that what a parent inherits is passed on.
Every round handles one of them at least, so their number is enough fuel. -/
def inheritFrom : Nat → List DocletId → Registry → Registry
  | 0, _, r => r
  | fuel + 1, pending, r =>
    if pending.isEmpty then r
    else
      let batch := r.nextBatch pending
      inheritFrom fuel (pending.filter fun id => !batch.contains id)
        (batch.foldl (receive .inherited) r)

def inherit (r : Registry) : Registry :=
  let pending := (r.receivers .inherited).eraseDups
  inheritFrom pending.length pending r

/-- Adds mixed-in, implemented and inherited members. -/
def resolveAugments (r : Registry) : Registry :=
  let r := (r.receivers .mixed).foldl (receive .mixed) r
  let r := (r.receivers .implemented).foldl (receive .implemented) r
  r.inherit

end Registry

end Doclets
