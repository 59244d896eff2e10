import Doclets.Proofs.Doclet.Identity
import Doclets.Proofs.Longname.Words

/-!
The ways to spell a member. A comment may give its whole path, or its name and its parent with the
punctuation between them on either side, or say the scope outright; all of this is resolved to one
identity.
-/

namespace Doclets.Doclet

open Longname (Qualified Word Words member shorten)

/-- A way to say which member of which parent a doclet documents. -/
inductive Spelling where
  /-- The whole path, and no parent. -/
  | path
  /-- The name, below the parent with the punctuation behind it. -/
  | joinedParent
  /-- The name, below the parent, in the scope that the punctuation stands for. -/
  | inScope
  /-- The whole path, below the parent. -/
  | pathBelow
  /-- The name with the punctuation in front of it, below the parent. -/
  | markedName
  deriving DecidableEq

/-- A doclet whose name, parent and scope say that it documents a member. -/
def spelled (d : Doclet) (parent : String) (c : Char) (name : String) : Spelling → Doclet
  | .path => { d with name := some (member parent c name), memberof := none, scope := none }
  | .joinedParent =>
    { d with name := some name, memberof := some (parent ++ String.singleton c), scope := none }
  | .inScope =>
    { d with name := some name, memberof := some parent, scope := Scope.ofPunctuation c }
  | .pathBelow =>
    { d with name := some (member parent c name), memberof := some parent, scope := none }
  | .markedName =>
    { d with name := some (String.singleton c ++ name), memberof := some parent, scope := none }

variable {d : Doclet} {parent name : String} {c : Char}

/-- All spellings of a member are resolved to its name, its parent, the scope that the punctuation
stands for and the path. -/
theorem resolve_spelled (unnamed : d.longname = "") (undeclared : d.funcscope? = none)
    (qualified : Qualified parent) (punctuation : isPunctuation c = true) (word : Word name)
    (spelling : Spelling) : (d.spelled parent c name spelling).resolve = { d with
      name := some name, memberof := some parent, scope := Scope.ofPunctuation c,
      longname := member parent c name } := by
  have whole := qualified.whole
  have segment := word.segment
  cases spelling with
  | path =>
    exact resolve_path (d := d.spelled parent c name .path) whole punctuation segment rfl rfl
      undeclared unnamed nofun
  | joinedParent =>
    exact resolve_joined (d := d.spelled parent c name .joinedParent) whole punctuation segment rfl
      rfl unnamed nofun
  | inScope =>
    obtain ⟨s, scope, joins⟩ := exists_scope_of_isPunctuation punctuation
    exact resolve_scoped (d := d.spelled parent c name .inScope) whole segment rfl rfl unnamed scope
      joins
  | pathBelow =>
    exact resolve_path_below (d := d.spelled parent c name .pathBelow) whole punctuation segment rfl
      rfl unnamed nofun
  | markedName =>
    exact resolve_marked (d := d.spelled parent c name .markedName) whole punctuation segment
      (qualified.ne_marked punctuation) rfl rfl unnamed rfl

/-- A member that is called like its parent. -/
theorem resolve_spelled_namesake :
    empty.longname = "" ∧ empty.funcscope? = none ∧ Qualified "Cart" ∧ isPunctuation '#' = true ∧
      Word "Cart" ∧ (empty.spelled "Cart" '#' "Cart" .inScope).resolve = { empty with
        name := some "Cart", memberof := some "Cart", scope := some .perInstance,
        longname := "Cart#Cart" } := by
  have word : Word "Cart" := by decide +kernel
  have qualified : Qualified "Cart" := .words (.one word)
  have path : member "Cart" '#' "Cart" = "Cart#Cart" := by decide +kernel
  refine ⟨rfl, rfl, qualified, rfl, word, ?_⟩
  rw [resolve_spelled rfl rfl qualified rfl word .inScope, path]
  rfl

end Doclets.Doclet
