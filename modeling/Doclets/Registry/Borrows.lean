import Doclets.Registry

/-!
Borrowed documentation: a copy of every doclet that a symbol asked to borrow, under its own
longname. All units have been read before, since a later one may hold what is borrowed.
-/

namespace Doclets

/-- The scope and the name that a request gives to what is borrowed: instance members are told by
a `#`, or by `prototype.` in front. -/
def Borrow.target (b : Borrow) : Scope × String :=
  let newName := b.newName.getD b.source
  let newName := match Text.after? "prototype." newName with
    | some rest => "#" ++ rest
    | none => newName
  let pieces := Text.splitAt '#' newName.toList
  (if pieces.length = 2 then .perInstance else .static,
    String.ofList (pieces.getLast?.getD []))

/-- The copy of a doclet that `borrower` gets. -/
def Doclet.lentTo (d : Doclet) (borrower : String) (scope : Scope) (name : String) : Doclet :=
  { d with
    borrowed := none
    scope := some scope
    longname := borrower ++ scope.punctuation ++ name
    name := some name
    memberof := some borrower }

namespace Registry

/-- Meets one request of `borrower`. -/
def meet (borrower : String) (r : Registry) (b : Borrow) : Registry :=
  let (scope, name) := b.target
  (Ledger.listAt b.source r.index.longname).foldl
    (fun r source => (r.addDoclet ((r.doclet source).lentTo borrower scope name)).2) r

/-- Meets the requests of a doclet, and drops them from it. -/
def meetAll (r : Registry) (borrower : DocletId) : Registry :=
  match (r.doclet borrower).borrowed with
  | none => r
  | some requests =>
    let r := r.modify borrower fun d => { d with borrowed := none }
    requests.foldl (meet (r.doclet borrower).longname) r

/-- Meets all requests that are pending. -/
def resolveBorrows (r : Registry) : Registry :=
  let pending := r.index.borrowed
  pending.foldl meetAll { r with index := { r.index with borrowed := [] } }

end Registry

end Doclets
