import Doclets.Registry.Scopes

/-!
Names that are declared in scopes: what they own, and what it changes to note another one.
-/

namespace Doclets

/-! ### Owners -/

namespace Registry

variable {r : Registry} {t : Tree} {node parent : NodeRef} {base : String}

/-- The parent of a symbol is what its name is declared as, if it is. -/
theorem ownerByName_of_declared {longname : Option String}
    (leads : Longname.basename? (t.name node) = some base)
    (declared : r.declared? t node base = some longname) :
    r.ownerByName t node parent = ⟨longname, some base⟩ := by
  unfold ownerByName
  rw [leads]
  dsimp only
  rw [declared]

/-- The parent of a symbol is what documents the node around it, if its name is not declared. -/
theorem ownerByName_of_undeclared (leads : Longname.basename? (t.name node) = some base)
    (undeclared : r.declared? t node base = none) : r.ownerByName t node parent =
      match r.ofNode? t parent with
      | some d => .parent d.longname
      | none => .unknown := by
  cases around : r.ofNode? t parent <;> simp [ownerByName, leads, undeclared, around]

end Registry

/-! ### Noting a name -/

theorem join_findSome?_eq_none {α β : Type} {f g : α → Option (Option β)} {x y : Option (Option β)}
    (alike : ∀ a, g a = f a ∨ g a = some none) (last : y = x ∨ y = some none) (items : List α)
    (unknown : ((items.findSome? f).or x).join = none) :
    ((items.findSome? g).or y).join = none := by
  induction items with
  | nil =>
    rcases last with rfl | rfl
    · exact unknown
    · rfl
  | cons a rest ih =>
    rw [List.findSome?_cons] at unknown ⊢
    rcases alike a with same | noted
    · rw [same]
      cases here : f a with
      | none =>
        rw [here] at unknown
        exact ih unknown
      | some found =>
        rw [here] at unknown
        exact unknown
    · rw [noted]
      rfl

namespace Registry

variable (r : Registry) {t : Tree} {node : NodeRef} {base name : String} (scope : DocletId)

/-- What a scope says of a name, where another one or the same is noted. -/
theorem get?_vars_declare (longname : Option String) (id : DocletId) :
    (base ≠ name → Ledger.get? base ((r.declare scope name longname).doclet id).origin.vars =
      Ledger.get? base (r.doclet id).origin.vars) ∧
    (Ledger.get? base ((r.declare scope name longname).doclet id).origin.vars =
        Ledger.get? base (r.doclet id).origin.vars ∨
      Ledger.get? base ((r.declare scope name longname).doclet id).origin.vars =
        some longname) := by
  unfold declare
  rw [doclet_modify]
  split
  · refine ⟨fun other => Ledger.get?_insert_of_ne other _ _, ?_⟩
    by_cases same : base = name
    · exact Or.inr (by rw [same]; exact Ledger.get?_insert_self _ _ _)
    · exact Or.inl (Ledger.get?_insert_of_ne same _ _)
  · exact ⟨fun _ => rfl, Or.inl rfl⟩

/-- To note one name says nothing of the others. -/
theorem declared?_declare_of_ne (longname : Option String) (other : base ≠ name) :
    (r.declare scope name longname).declared? t node base = r.declared? t node base := by
  have same (id : DocletId) := (r.get?_vars_declare scope longname id).1 other
  unfold declared?
  rw [show (r.declare scope name longname).global = r.global from rfl, same]
  dsimp only
  congr 2
  funext s
  unfold ofNode?
  rw [show (r.declare scope name longname).idOfNode? t (some s) = r.idOfNode? t (some s) from rfl]
  cases r.idOfNode? t (some s) with
  | none => rfl
  | some id => exact same id

/-- To note a name without a longname gives it none. -/
theorem declared?_declare_none (unknown : (r.declared? t node base).join = none) :
    ((r.declare scope name none).declared? t node base).join = none := by
  refine join_findSome?_eq_none ?_ (r.get?_vars_declare scope none _).2 _ unknown
  intro s
  unfold ofNode?
  rw [show (r.declare scope name none).idOfNode? t (some s) = r.idOfNode? t (some s) from rfl]
  cases r.idOfNode? t (some s) with
  | none => exact Or.inl rfl
  | some id => exact (r.get?_vars_declare scope none id).2

variable {s : NodeIndex}

theorem get?_vars_declare_self (longname : Option String) (stored : scope < r.doclets.size) :
    Ledger.get? name ((r.declare scope name longname).doclet scope).origin.vars =
      some longname := by
  rw [r.doclet_declare_self name longname stored]
  exact Ledger.get?_insert_self _ _ _

theorem ofNode?_declare (longname : Option String)
    (known : r.idOfNode? t (some s) = some scope) :
    (r.declare scope name longname).ofNode? t (some s) =
      some ((r.declare scope name longname).doclet scope) := by
  unfold ofNode?
  rw [show (r.declare scope name longname).idOfNode? t (some s) = some scope from known,
    if_neg (by simp)]
  rfl

/-- A name that was just noted in the scope around a node is looked up there. -/
theorem declared?_declare_here (longname : Option String) (around : t.scope node = some s)
    (known : r.idOfNode? t (some s) = some scope) (stored : scope < r.doclets.size) :
    (r.declare scope name longname).declared? t node name = some longname := by
  obtain ⟨limit, outwards⟩ := Nat.exists_eq_succ_of_ne_zero (show maxScopeWalk ≠ 0 by decide)
  unfold declared?
  rw [outwards, Tree.scopesAround]
  simp only [around, List.findSome?_cons, r.ofNode?_declare scope longname known, Option.bind_some,
    r.get?_vars_declare_self scope longname stored, Option.some_or]

/-- So the search for the scope that declares the name ends where it begins. -/
theorem declaringScope_declare_here (longname : Option String) (around : t.scope node = some s)
    (inside : t.isKind node .functionDeclaration = false)
    (known : r.idOfNode? t (some s) = some scope) (stored : scope < r.doclets.size) :
    (r.declare scope name longname).declaringScope t node name = (r.doclet scope).longname := by
  have listed : Ledger.contains name
      ((r.declare scope name longname).doclet scope).origin.vars = true := by
    unfold Ledger.contains
    rw [r.get?_vars_declare_self scope longname stored]
    rfl
  have same : ((r.declare scope name longname).doclet scope).longname =
      (r.doclet scope).longname := by
    rw [r.doclet_declare_self name longname stored]
  obtain ⟨limit, outwards⟩ := Nat.exists_eq_succ_of_ne_zero (show maxScopeWalk ≠ 0 by decide)
  unfold declaringScope
  rw [outwards, Tree.scopesWithinDeclaration]
  simp only [inside, Bool.false_eq_true, if_false, around, List.findSome?_cons,
    r.ofNode?_declare scope longname known, Option.bind_some, listed, if_true, same,
    Option.getD_some]

end Registry

end Doclets
