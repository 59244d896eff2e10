import Doclets.Proofs.Doclet.Tags
import Doclets.Proofs.Tree.Paths
import Doclets.Proofs.Tree.Shape

/-!
What a tree declares by an identifier: functions and variables, nested in each other to any depth.
-/

namespace Doclets

open Longname (Segment)

namespace Tree

variable {t : Tree} {i : NodeIndex} {name : String}

/-- A function declaration or a declarator that an identifier names. -/
inductive Declares (t : Tree) (i : NodeIndex) (name : String) : Prop where
  | function {id body : NodeRef} {params : List NodeRef} {isAsync isGenerator : Bool}
    (kind : t.kind? (some i) = some .functionDeclaration)
    (payload : t.payload? (some i) = some (.function id params body isAsync isGenerator))
    (named : t.payload? id = some (.identifier name))
  | declarator {id init : NodeRef}
    (payload : t.payload? (some i) = some (.variableDeclarator id init))
    (named : t.payload? id = some (.identifier name))

/-- A declaration whose name means nothing else, and that no tag names or places. -/
structure DeclaresPlainly (t : Tree) (i : NodeIndex) (name : String) : Prop where
  declares : t.Declares i name
  segment : Segment name
  not_this : name ≠ "this"
  not_exports : name ≠ "exports"
  unplaced : ∀ part ∈ Comment.parts (t.docText i), ∀ origin,
    (Doclet.ofComment part origin).Unplaced

/-- Plain declarations by their names, from the outermost inwards: the innermost scope around each
of them is the one before it, and around the first one the node `s`. -/
inductive Nests (t : Tree) : NodeIndex → List (NodeIndex × String) → Prop where
  | nil {s : NodeIndex} : Nests t s []
  | cons {s i : NodeIndex} {name : String} {inner : List (NodeIndex × String)}
    (scope : t.scope (some i) = some s) (declares : t.DeclaresPlainly i name)
    (deeper : Nests t i inner) : Nests t s ((i, name) :: inner)

theorem Declares.lt_size (declares : t.Declares i name) : i < t.nodes.size := by
  have stored {payload : Payload} (known : t.payload? (some i) = some payload) :
      i < t.nodes.size := by
    obtain ⟨v, same, bound⟩ := index_of_payload known
    exact Option.some.inj same ▸ bound
  cases declares with
  | function _ payload => exact stored payload
  | declarator payload => exact stored payload

theorem name_of_identifier {r : NodeRef} (payload : t.payload? r = some (.identifier name)) :
    t.name r = name := by
  rw [Tree.name, nameWithin_of_identifier payload]
  rfl

/-- A declaration is a symbol of that name; a function stands for itself. -/
theorem Grown.symbol_of_declares (h : t.Grown) (declares : t.Declares i name) :
    ∃ kind code, t.kind? (some i) = some kind ∧
      (kind = .functionDeclaration ∨ kind = .variableDeclarator) ∧
      Symbol.ofNode? t (some i) = some code ∧ code.name = name ∧
      (t.OpensScope i → code.node = some i) := by
  cases declares with
  | @function id body params isAsync isGenerator known payload named =>
    obtain ⟨n, stored, shape⟩ := Option.map_eq_some_iff.mp payload
    have kind : n.kind = .functionDeclaration := by
      rw [kind?, stored] at known
      exact Option.some.inj known
    have called : t.name (some i) = name := by
      rw [Tree.name, nameWithin, stored]
      dsimp only
      rw [shape]
      dsimp only
      rw [nameWithin_of_identifier named]
      rfl
    refine ⟨_, Symbol.ofSelf t (t.name (some i)) (some i), known, Or.inl rfl, ?_, called,
      fun _ => rfl⟩
    unfold Symbol.ofNode?
    rw [stored]
    dsimp only
    rw [kind, shape]
    rfl
  | @declarator id init payload named =>
    obtain ⟨n, stored, shape, listed⟩ := h.stored_of_payload payload
    have kind : n.kind = .variableDeclarator := by simpa [Payload.kinds] using listed
    have known : t.kind? (some i) = some .variableDeclarator := by
      rw [kind?, stored, Option.map_some, kind]
    have called (init : NodeRef) : (Symbol.ofInit t (t.name id) (some i) init).name = name := by
      rw [name_of_identifier named]
      unfold Symbol.ofInit
      split <;> rfl
    have symbol : ∃ code, Symbol.ofNode? t (some i) = some code ∧ code.name = name := by
      unfold Symbol.ofNode?
      rw [stored]
      dsimp only
      rw [kind, shape]
      refine ⟨_, rfl, ?_⟩
      split <;> exact called init
    obtain ⟨code, symbol, named⟩ := symbol
    refine ⟨_, code, known, Or.inr rfl, symbol, named, ?_⟩
    rintro ⟨kind, same, opens⟩
    obtain rfl := Option.some.inj (same.symm.trans known)
    cases opens

end Tree

end Doclets
