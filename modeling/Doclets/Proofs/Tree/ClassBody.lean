import Doclets.Proofs.Longname.Whole
import Doclets.Proofs.Tree.Growth
import Doclets.Symbol

/-!
The bodies of classes in a tree. The scope of a member is its class, and no symbol stands for the
body itself.
-/

namespace Doclets

open Longname (EndsIn Segment)

namespace Tree

variable {t : Tree} {a b c f i x : NodeIndex} {key : String}

/-- A node directly in the body of a class. -/
structure InClass (t : Tree) (c i : NodeIndex) : Prop where
  ofClass : ∃ kind, t.kind? (some c) = some kind ∧ kind.isClass = true
  inBody : ∃ b : NodeIndex, t.kind? (some b) = some .classBody ∧ t.parent (some i) = some b ∧
    t.parent (some b) = some c

/-- A class field called `key`. -/
structure IsField (t : Tree) (i : NodeIndex) (key : String) : Prop where
  payload : ∃ name value isStatic computed,
    t.payload? (some i) = some (.classProperty name value isStatic computed) ∧ t.name name = key
  segment : Segment key
  other : key ≠ "this"

/-- A method or accessor called `key`, behind the path of its class. -/
structure IsMethod (t : Tree) (i : NodeIndex) (isStatic : Bool) (key : String) : Prop where
  payload : ∃ name value form computed, form ≠ .constructor ∧
    t.payload? (some i) = some (.methodDefinition name value form isStatic computed) ∧
    t.name name = key
  segment : Segment key
  ends : EndsIn key (t.name (some i))
  longer : t.name (some i) ≠ key

/-- The constructor of a class called `last`, with the function that it runs. -/
structure Constructs (t : Tree) (i : NodeIndex) (value : NodeRef) (last : String) : Prop where
  payload : ∃ name isStatic computed, t.payload? (some i) =
    some (.methodDefinition name value .constructor isStatic computed)
  segment : Segment last
  ends : EndsIn last (t.name (some i))
  other : t.name (some i) ≠ "this"

/-- An assignment to the member `x` of `this` that is a statement in the body of a function. -/
structure AssignsThis (t : Tree) (f a : NodeIndex) (x : String) : Prop where
  payload : ∃ operator left right,
    t.payload? (some a) = some (.assignment operator left right) ∧ t.name left = "this." ++ x
  segment : Segment x
  statement : ∃ s b : NodeIndex, t.kind? (some s) = some .expressionStatement ∧
    t.kind? (some b) = some .blockStatement ∧ t.parent (some a) = some s ∧
    t.parent (some s) = some b ∧ t.parent (some b) = some f

theorem scopeBelow_of_kind {kind : NodeKind} (known : t.kind? (some i) = some kind) (r : NodeRef) :
    t.scopeBelow i r = if kind.opensScope then some i else r := by
  rw [scopeBelow_eq, known, Option.any_some]

theorem Grown.scope_of_inClass (h : t.Grown) (inside : t.InClass c i) :
    t.scope (some i) = some c := by
  obtain ⟨kind, known, isClass⟩ := inside.ofClass
  obtain ⟨b, body, up, above⟩ := inside.inBody
  rw [(h.linked i b up).2, scopeBelow_of_kind body, if_neg (by decide), (h.linked b c above).2,
    scopeBelow_of_kind known, if_pos (NodeKind.opensScope_of_isClass isClass)]

theorem node_ofInit (name : String) (r value : NodeRef) :
    (Symbol.ofInit t name r value).node = r ∨ (Symbol.ofInit t name r value).node = value := by
  unfold Symbol.ofInit
  split
  · exact Or.inr rfl
  · exact Or.inl rfl

/-- A symbol stands for its own node or for a child of it. -/
theorem Grown.node_of_symbol (h : t.Grown) {code : Symbol}
    (symbol : Symbol.ofNode? t (some i) = some code) (here : code.node = some x) :
    x = i ∨ x ∈ t.childrenOf i := by
  unfold Symbol.ofNode? at symbol
  split at symbol
  next => cases symbol
  next n stored =>
    have payload : t.payload? (some i) = some n.payload := congrArg (Option.map Node.payload) stored
    have own (same : code.node = some i) : x = i := Option.some.inj (here.symm.trans same)
    have child {r : NodeRef} (same : code.node = r) (listed : r ∈ n.payload.refs) :
        x ∈ t.childrenOf i := by
      rw [← same, here] at listed
      exact (h.shaped i n.payload payload).2 x listed
    split at symbol
    · split at symbol
      next id init shape =>
        have node : code.node = (Symbol.ofInit t (t.name id) (some i) init).node := by
          rw [← Option.some.inj symbol]
          split <;> rfl
        rcases node_ofInit (t.name id) (some i) init with self | value
        · exact Or.inl (own (node.trans self))
        · exact Or.inr (child (node.trans value) (by simp [shape, Payload.refs]))
      next operator left right shape =>
        cases symbol
        exact Or.inr (child rfl (by simp [shape, Payload.refs, Symbol.ofValue]))
      next key value _ _ _ shape =>
        cases symbol
        exact Or.inr (child rfl (by simp [shape, Payload.refs, Symbol.ofValue]))
      next key value _ _ shape =>
        cases symbol
        rcases node_ofInit (t.name key) (some i) value with self | other
        · exact Or.inl (own self)
        · exact Or.inr (child other (by simp [shape, Payload.refs]))
      next key value _ _ _ shape =>
        cases symbol
        exact Or.inr (child rfl (by simp [shape, Payload.refs, Symbol.ofValue]))
      next =>
        cases symbol
        exact Or.inl (own rfl)
    · cases symbol

theorem Grown.stored_of_payload (h : t.Grown) {payload : Payload}
    (known : t.payload? (some i) = some payload) :
    ∃ n, t.node? (some i) = some n ∧ n.payload = payload ∧ n.kind ∈ payload.kinds := by
  obtain ⟨n, stored, shape⟩ := Option.map_eq_some_iff.mp known
  obtain ⟨⟨kind, listed, same⟩, _⟩ := h.shaped i _ known
  rw [kind?, stored] at same
  exact ⟨n, stored, shape, Option.some.inj same ▸ listed⟩

/-- A method stands for the function that it runs. -/
theorem Grown.symbol_of_method (h : t.Grown) {name value : NodeRef} {form : MethodKind}
    {isStatic computed : Bool} (payload : t.payload? (some i) =
      some (.methodDefinition name value form isStatic computed)) :
    t.kind? (some i) = some .methodDefinition ∧
      Symbol.ofNode? t (some i) = some (Symbol.ofValue t (t.name (some i)) value) := by
  obtain ⟨n, stored, shape, listed⟩ := h.stored_of_payload payload
  have kind : n.kind = .methodDefinition := by simpa [Payload.kinds] using listed
  refine ⟨by rw [kind?, stored, Option.map_some, kind], ?_⟩
  unfold Symbol.ofNode?
  rw [stored]
  dsimp only
  rw [kind, shape]
  rfl

/-- A class field stands for its value, or for itself. -/
theorem Grown.symbol_of_field (h : t.Grown) {name value : NodeRef} {isStatic computed : Bool}
    (payload : t.payload? (some i) = some (.classProperty name value isStatic computed)) :
    (∃ kind, t.kind? (some i) = some kind ∧
      (kind = .classProperty ∨ kind = .classPrivateProperty)) ∧
      Symbol.ofNode? t (some i) = some (Symbol.ofInit t (t.name name) (some i) value) := by
  obtain ⟨n, stored, shape, listed⟩ := h.stored_of_payload payload
  have field : n.kind = .classProperty ∨ n.kind = .classPrivateProperty := by
    simpa [Payload.kinds] using listed
  have stands : n.kind.isSymbol = true := by
    rcases field with kind | kind <;> rw [kind] <;> rfl
  refine ⟨⟨n.kind, by rw [kind?, stored, Option.map_some], field⟩, ?_⟩
  unfold Symbol.ofNode?
  rw [stored]
  dsimp only
  rw [if_pos stands, shape]

/-- An assignment stands for what it assigns. -/
theorem Grown.symbol_of_assignment (h : t.Grown) {operator : String} {left right : NodeRef}
    (payload : t.payload? (some i) = some (.assignment operator left right)) :
    t.kind? (some i) = some .assignmentExpression ∧
      Symbol.ofNode? t (some i) = some (Symbol.ofValue t (t.name left) right) := by
  obtain ⟨n, stored, shape, listed⟩ := h.stored_of_payload payload
  have kind : n.kind = .assignmentExpression := by simpa [Payload.kinds] using listed
  refine ⟨by rw [kind?, stored, Option.map_some, kind], ?_⟩
  unfold Symbol.ofNode?
  rw [stored]
  dsimp only
  rw [kind, shape]
  rfl

theorem class_of_kinds {payload : Payload} {kind : NodeKind} (listed : kind ∈ payload.kinds)
    (isClass : kind.isClass = true) :
    ∃ id superClass body, payload = .class id superClass body := by
  have either : kind = .classDeclaration ∨ kind = .classExpression := by
    cases kind <;> first | exact Or.inl rfl | exact Or.inr rfl | cases isClass
  rcases either with rfl | rfl <;> cases payload <;> simp [Payload.kinds] at listed ⊢

theorem function_of_kinds {payload : Payload} {kind : NodeKind} (listed : kind ∈ payload.kinds)
    (function : kind.isFunction = true) :
    ∃ id params body isAsync isGenerator, payload = .function id params body isAsync isGenerator := by
  have either : kind = .functionDeclaration ∨ kind = .functionExpression ∨
      kind = .arrowFunctionExpression := by
    cases kind <;> first
      | exact Or.inl rfl
      | exact Or.inr (Or.inl rfl)
      | exact Or.inr (Or.inr rfl)
      | cases function
  rcases either with rfl | rfl | rfl <;> cases payload <;> simp [Payload.kinds] at listed ⊢

/-- Functions and classes stand for themselves. -/
theorem Grown.symbol_of_scope (h : t.Grown) {kind : NodeKind}
    (known : t.kind? (some i) = some kind) (opens : kind.opensScope = true) :
    Symbol.ofNode? t (some i) = some (Symbol.ofSelf t (t.name (some i)) (some i)) := by
  obtain ⟨n, stored, rfl⟩ := Option.map_eq_some_iff.mp known
  have payload : t.payload? (some i) = some n.payload := congrArg (Option.map Node.payload) stored
  obtain ⟨m, again, _, listed⟩ := h.stored_of_payload payload
  obtain rfl := Option.some.inj (stored.symm.trans again)
  unfold Symbol.ofNode?
  rw [stored]
  dsimp only
  rw [if_pos (NodeKind.isSymbol_of_opensScope opens)]
  rcases Bool.or_eq_true_iff.mp opens with function | isClass
  · obtain ⟨id, params, body, isAsync, isGenerator, shape⟩ := function_of_kinds listed function
    rw [shape]
  · obtain ⟨id, superClass, body, shape⟩ := class_of_kinds listed isClass
    rw [shape]

/-- No symbol stands for the body of a class. -/
theorem Grown.not_symbol_of_body (h : t.Grown) {code : Symbol}
    (inside : t.kind? (some b) = some .classBody) (above : t.parent (some b) = some c)
    {kind : NodeKind} (known : t.kind? (some c) = some kind)
    (isClass : kind.isClass = true) (symbol : Symbol.ofNode? t (some i) = some code) :
    code.node ≠ some b := by
  intro here
  rcases h.node_of_symbol symbol here with rfl | child
  · obtain ⟨n, stored, same⟩ := Option.map_eq_some_iff.mp inside
    unfold Symbol.ofNode? at symbol
    rw [stored] at symbol
    dsimp only at symbol
    rw [same] at symbol
    cases symbol
  · -- the class is the only node that lists its body, and it stands for itself
    have up := (h.linked b c above).1
    obtain rfl := h.unique i c b child up
    have itself := h.symbol_of_scope known (NodeKind.opensScope_of_isClass isClass)
    obtain rfl := Option.some.inj (itself.symm.trans symbol)
    have same : i = b := Option.some.inj here
    exact Nat.lt_irrefl _ (same ▸ h.below i b up)

/-- A function without a name of its own. -/
def IsAnonymous (t : Tree) (f : NodeIndex) : Prop :=
  ∃ params body isAsync isGenerator,
    t.payload? (some f) = some (.function none params body isAsync isGenerator)

theorem name_of_anonymous (anonymous : t.IsAnonymous f) : t.name (some f) = "" := by
  obtain ⟨params, body, isAsync, isGenerator, payload⟩ := anonymous
  obtain ⟨n, stored, shape⟩ := Option.map_eq_some_iff.mp payload
  unfold name
  rw [nameWithin, stored]
  dsimp only
  rw [shape]
  rfl

theorem symbol_of_anonymous {code : Symbol} (anonymous : t.IsAnonymous f)
    (symbol : Symbol.ofNode? t (some f) = some code) : code.name = "" := by
  have unnamed := name_of_anonymous anonymous
  obtain ⟨params, body, isAsync, isGenerator, payload⟩ := anonymous
  obtain ⟨n, stored, shape⟩ := Option.map_eq_some_iff.mp payload
  unfold Symbol.ofNode? at symbol
  rw [stored] at symbol
  dsimp only at symbol
  rw [shape] at symbol
  split at symbol
  · cases symbol
    exact unnamed
  · cases symbol

/-- The scope of a statement in the body of a function is the function. -/
theorem Grown.scope_of_assigns (h : t.Grown) (anonymous : t.IsAnonymous f)
    (assigns : t.AssignsThis f a key) :
    t.scope (some a) = some f ∧ t.isConstructor (t.parent (some a)) = false := by
  obtain ⟨params, body, isAsync, isGenerator, payload⟩ := anonymous
  obtain ⟨⟨kind, listed, known⟩, _⟩ := h.shaped f _ payload
  have opens : kind.opensScope = true := by
    simp only [Payload.kinds, List.mem_cons, List.not_mem_nil, or_false] at listed
    rcases listed with rfl | rfl | rfl <;> rfl
  obtain ⟨s, b, statement, block, here, up, above⟩ := assigns.statement
  constructor
  · rw [(h.linked a s here).2, scopeBelow_of_kind statement, if_neg (by decide),
      (h.linked s b up).2, scopeBelow_of_kind block, if_neg (by decide), (h.linked b f above).2,
      scopeBelow_of_kind known, if_pos opens]
  · rw [here, isConstructor]
    split
    next method =>
      obtain ⟨⟨other, only, same⟩, _⟩ := h.shaped s _ method
      obtain rfl : other = .methodDefinition := by simpa [Payload.kinds] using only
      rw [statement] at same
      cases same
    next => rfl

/-- The comment that documents a node. -/
def docText (t : Tree) (i : NodeIndex) : String := ((t.doc? (some i)).map Comment.raw).getD ""

end Tree

end Doclets
