import Doclets.Proofs.Tree.Enclosing
import Doclets.Registry.Scopes

/-!
What walks outwards find. The limit of such a walk is above the number of levels that a tree may
have, so that each search over the scopes around a node answers from the innermost scope that has an
answer, wherever that scope is.
-/

namespace Doclets.Registry

/-- The scope `s` declares a name, which resolved to a longname or to none. -/
def Declares (r : Registry) (t : Tree) (name : String) (longname : Option String)
    (s : NodeIndex) : Prop :=
  ∃ d, r.ofNode? t (some s) = some d ∧ Ledger.get? name d.origin.vars = some longname

/-- The scope `s` is the class `c`, or an instance member of that class. -/
inductive OfClass (r : Registry) (t : Tree) (c : DocletId) (s : NodeIndex) : Prop where
  | itself (registered : r.idOfNode? t (some s) = some c) (isClass : (r.doclet c).isClass = true)
  | member {id : DocletId} (registered : r.idOfNode? t (some s) = some id)
      (other : (r.doclet id).isClass = false)
      (asInstance : (Longname.shorten (r.doclet id).longname).scope = some '#')
      (owner : r.idOfLongname? (Longname.shorten (r.doclet id).longname).memberof = some c)
      (isClass : (r.doclet c).isClass = true)

/-- The owner of a symbol that is named by a path: what the name in front is in the innermost scope
around the symbol that declares it, or else around all units, or else whatever documents the parent
of the node. -/
inductive OwnedByName (r : Registry) (t : Tree) (node : NodeRef) : Owner → Prop where
  | unnamed (unnamed : Longname.basename? (t.name node) = none) : OwnedByName r t node .unknown
  | inScope {name : String} {s : NodeIndex} {longname : Option String}
      (named : Longname.basename? (t.name node) = some name)
      (innermost : t.Innermost (fun s => t.Encloses s node ∧ ∃ any, r.Declares t name any s) s)
      (declares : r.Declares t name longname s) : OwnedByName r t node ⟨longname, some name⟩
  | global {name : String} {longname : Option String}
      (named : Longname.basename? (t.name node) = some name)
      (undeclared : ∀ s any, t.Encloses s node → ¬ r.Declares t name any s)
      (declares : Ledger.get? name (r.doclet r.global).origin.vars = some longname) :
      OwnedByName r t node ⟨longname, some name⟩
  | parent {name : String} {d : Doclet} (named : Longname.basename? (t.name node) = some name)
      (undeclared : ∀ s any, t.Encloses s node → ¬ r.Declares t name any s)
      (unknown : Ledger.get? name (r.doclet r.global).origin.vars = none)
      (documented : r.ofNode? t (t.parent node) = some d) :
      OwnedByName r t node (.parent d.longname)
  | nothing {name : String} (named : Longname.basename? (t.name node) = some name)
      (undeclared : ∀ s any, t.Encloses s node → ¬ r.Declares t name any s)
      (unknown : Ledger.get? name (r.doclet r.global).origin.vars = none)
      (undocumented : r.ofNode? t (t.parent node) = none) : OwnedByName r t node .unknown

/-- The longname of the innermost scope that declares a name among those that are met before a
function declaration has to be left; the empty text if none of them does. -/
inductive DeclaredIn (r : Registry) (t : Tree) (node : NodeRef) (name : String) :
    String → Prop where
  | inScope {s : NodeIndex} {d : Doclet}
      (innermost : t.Innermost
        (fun s => t.MetWithinDeclaration node s ∧ ∃ any, r.Declares t name any s) s)
      (documented : r.ofNode? t (some s) = some d) : DeclaredIn r t node name d.longname
  | nowhere (undeclared : ∀ s any, t.MetWithinDeclaration node s → ¬ r.Declares t name any s) :
      DeclaredIn r t node name ""

variable {r : Registry} {t : Tree} {node : NodeRef} {name : String} {s : NodeIndex}

/-! ### One scope -/

/-- What a name declared in a scope resolved to. -/
theorem declares_iff {longname : Option String} : r.Declares t name longname s ↔
    (r.ofNode? t (some s)).bind (fun d => Ledger.get? name d.origin.vars) = some longname := by
  rw [Option.bind_eq_some_iff]
  exact Iff.rfl

theorem exists_declares_iff : (∃ longname, r.Declares t name longname s) ↔
    ((r.ofNode? t (some s)).bind fun d => Ledger.get? name d.origin.vars).isSome = true := by
  rw [Option.isSome_iff_exists]
  exact exists_congr fun _ => declares_iff

theorem exists_declares_iff_contains {d : Doclet} (documented : r.ofNode? t (some s) = some d) :
    (∃ longname, r.Declares t name longname s) ↔ Ledger.contains name d.origin.vars = true := by
  rw [exists_declares_iff, documented, Option.bind_some]
  exact Iff.rfl

theorem exists_declares_iff_answers : (∃ longname, r.Declares t name longname s) ↔
    ((r.ofNode? t (some s)).bind fun d =>
      if Ledger.contains name d.origin.vars then some d.longname else none).isSome = true := by
  cases documented : r.ofNode? t (some s) with
  | none => simp [exists_declares_iff, documented]
  | some d =>
    rw [exists_declares_iff_contains documented, Option.bind_some]
    cases Ledger.contains name d.origin.vars <;> simp

theorem classAt?_eq_some_iff {c : DocletId} : r.classAt? t s = some c ↔ r.OfClass t c s := by
  unfold classAt?
  constructor
  · intro found
    split at found
    next => cases found
    next id registered =>
      dsimp only at found
      split at found
      next isClass =>
        cases found
        exact .itself registered isClass
      next other =>
        split at found
        next asInstance =>
          obtain ⟨owner, isClass⟩ := Option.filter_eq_some_iff.mp found
          exact .member registered (Bool.eq_false_iff.mpr other) asInstance owner isClass
        next => cases found
  · intro ofClass
    cases ofClass with
    | itself registered isClass =>
      rw [registered]
      exact if_pos isClass
    | member registered other asInstance owner isClass =>
      rw [registered]
      simp only [other, Bool.false_eq_true, if_false, asInstance, if_true, owner]
      exact Option.filter_eq_some_iff.mpr ⟨rfl, isClass⟩

/-! ### The scopes around a node -/

theorem levels_lt_maxScopeWalk : maxTreeDepth < maxScopeWalk := by decide

section

variable (h : t.Scoped)

include h

theorem declared?_of_innermost {longname : Option String}
    (innermost : t.Innermost (fun s => t.Encloses s node ∧ ∃ any, r.Declares t name any s) s)
    (declares : r.Declares t name longname s) : r.declared? t node name = some longname := by
  have lists := h.listsOutward_scopesAround levels_lt_maxScopeWalk node
  simp only [exists_declares_iff] at innermost
  unfold declared?
  rw [(h.findSome?_eq_some_iff lists).mpr ⟨s, innermost, declares_iff.mp declares⟩, Option.some_or]

theorem declared?_of_undeclared
    (undeclared : ∀ s any, t.Encloses s node → ¬ r.Declares t name any s) :
    r.declared? t node name = Ledger.get? name (r.doclet r.global).origin.vars := by
  have lists := h.listsOutward_scopesAround levels_lt_maxScopeWalk node
  unfold declared?
  rw [(Tree.Scoped.findSome?_eq_none_iff lists).mpr fun s encloses =>
    Option.eq_none_iff_forall_ne_some.mpr fun any declares =>
      undeclared s any encloses (declares_iff.mpr declares), Option.none_or]

/-- A name is declared in an innermost scope, or in no scope around the node. -/
theorem exists_innermost_or_undeclared (node : NodeRef) (name : String) :
    (∃ s longname,
      t.Innermost (fun s => t.Encloses s node ∧ ∃ any, r.Declares t name any s) s ∧
        r.Declares t name longname s) ∨
      ∀ s any, t.Encloses s node → ¬ r.Declares t name any s := by
  have lists := h.listsOutward_scopesAround levels_lt_maxScopeWalk node
  cases found : (t.scopesAround maxScopeWalk node).findSome? fun s =>
      (r.ofNode? t (some s)).bind fun d => Ledger.get? name d.origin.vars with
  | some longname =>
    obtain ⟨s, innermost, answers⟩ := (h.findSome?_eq_some_iff lists).mp found
    simp only [← exists_declares_iff] at innermost
    exact Or.inl ⟨s, longname, innermost, declares_iff.mpr answers⟩
  | none =>
    have silent := (Tree.Scoped.findSome?_eq_none_iff lists).mp found
    refine Or.inr fun s any encloses declares => ?_
    rw [declares_iff, silent s encloses] at declares
    cases declares

theorem ownerByName_eq_iff (node : NodeRef) (owner : Owner) :
    r.ownerByName t node (t.parent node) = owner ↔ r.OwnedByName t node owner := by
  constructor
  · rintro rfl
    unfold ownerByName
    split
    next unnamed => exact .unnamed unnamed
    next name named =>
      rcases exists_innermost_or_undeclared h node name with
        ⟨s, longname, innermost, declares⟩ | undeclared
      · rw [declared?_of_innermost h innermost declares]
        exact .inScope named innermost declares
      · rw [declared?_of_undeclared h undeclared]
        cases declares : Ledger.get? name (r.doclet r.global).origin.vars with
        | some longname => exact .global named undeclared declares
        | none =>
          cases documented : r.ofNode? t (t.parent node) with
          | some d => exact .parent named undeclared declares documented
          | none => exact .nothing named undeclared declares documented
  · intro owned
    unfold ownerByName
    cases owned with
    | unnamed unnamed => rw [unnamed]
    | inScope named innermost declares =>
      simp only [named, declared?_of_innermost h innermost declares]
    | global named undeclared declares =>
      simp only [named, declared?_of_undeclared h undeclared, declares]
    | parent named undeclared unknown documented =>
      simp only [named, declared?_of_undeclared h undeclared, unknown, documented]
    | nothing named undeclared unknown undocumented =>
      simp only [named, declared?_of_undeclared h undeclared, unknown, undocumented]

theorem declaringScope_eq_iff (node : NodeRef) (name longname : String) :
    r.declaringScope t node name = longname ↔ r.DeclaredIn t node name longname := by
  have lists := h.listsOutward_scopesWithinDeclaration levels_lt_maxScopeWalk node
  unfold declaringScope
  constructor
  · rintro rfl
    cases found : (t.scopesWithinDeclaration maxScopeWalk node).findSome? fun s =>
        (r.ofNode? t (some s)).bind fun d =>
          if Ledger.contains name d.origin.vars then some d.longname else none with
    | some longname =>
      obtain ⟨s, innermost, answers⟩ := (h.findSome?_eq_some_iff lists).mp found
      simp only [← exists_declares_iff_answers] at innermost
      obtain ⟨d, documented, same⟩ := Option.bind_eq_some_iff.mp answers
      cases (Option.ite_none_right_eq_some.mp same).2
      exact .inScope innermost documented
    | none =>
      have silent := (Tree.Scoped.findSome?_eq_none_iff lists).mp found
      refine .nowhere fun s any met declares => ?_
      have speaks := exists_declares_iff_answers.mp ⟨any, declares⟩
      rw [silent s met] at speaks
      cases speaks
  · intro declared
    cases declared with
    | inScope innermost documented =>
      have declares := (exists_declares_iff_contains documented).mp innermost.holds.2
      simp only [exists_declares_iff_answers] at innermost
      rw [(h.findSome?_eq_some_iff lists).mpr ⟨_, innermost, by
        rw [documented, Option.bind_some, if_pos declares]⟩]
      rfl
    | nowhere undeclared =>
      rw [(Tree.Scoped.findSome?_eq_none_iff lists).mpr fun s met => ?_]
      · rfl
      · rw [← Option.not_isSome_iff_eq_none, ← exists_declares_iff_answers]
        exact fun ⟨any, declares⟩ => undeclared s any met declares

theorem classAround?_eq_some_iff (node : NodeRef) (c : DocletId) :
    r.classAround? t node = some c ↔
      ∃ s, t.Innermost (fun s => t.Encloses s node ∧ ∃ any, r.OfClass t any s) s ∧
        r.OfClass t c s := by
  have lists := h.listsOutward_scopesAround levels_lt_maxScopeWalk node
  simp only [← classAt?_eq_some_iff, ← Option.isSome_iff_exists]
  exact h.findSome?_eq_some_iff lists

end

/-! ### Trees that were read -/

/-- In a tree that was read no walk over scopes reaches its limit. So a name is looked up in the
innermost scope that declares it, then around all units, then at the parent of the node; a variable
in the innermost scope that declares it inside a function declaration; and the class around a node
is that of the innermost scope that is a class or an instance member of one. -/
theorem lexical_ofValue {file : String} {v : Json.Value} {parsed : Tree}
    (read : Estree.ofValue file v = .ok parsed) (unit : Nat) (r : Registry) (node : NodeRef) :
    let t := parsed.inUnit unit
    ((t.scopesAround maxScopeWalk node).length < maxScopeWalk ∧
      (t.scopesWithinDeclaration maxScopeWalk node).length < maxScopeWalk) ∧
    (∀ owner, r.ownerByName t node (t.parent node) = owner ↔ r.OwnedByName t node owner) ∧
    (∀ name longname,
      r.declaringScope t node name = longname ↔ r.DeclaredIn t node name longname) ∧
    ∀ c, r.classAround? t node = some c ↔
      ∃ s, t.Innermost (fun s => t.Encloses s node ∧ ∃ any, r.OfClass t any s) s ∧
        r.OfClass t c s := by
  intro t
  have h : t.Scoped := (Tree.scoped_ofValue read).inUnit unit
  refine ⟨⟨?_, ?_⟩, ownerByName_eq_iff h node, declaringScope_eq_iff h node,
    classAround?_eq_some_iff h node⟩
  · exact Nat.lt_of_le_of_lt (h.length_scopesAround_le _ node) levels_lt_maxScopeWalk
  · exact Nat.lt_of_le_of_lt (h.length_scopesWithinDeclaration_le _ node) levels_lt_maxScopeWalk

/-- The class of `Estree.cartUnit`, registered. -/
def withCart : Registry :=
  let cart : Doclet := { Doclet.empty with kind := some .class, longname := "Cart" }
  (empty.insert cart).2.register (.node ⟨0, some 6⟩) 1

/-- Around the body of its method, behind the function, is the class. -/
theorem lexical_cartUnit :
    Estree.ofValue "cart.js" Estree.cartUnit = .ok (Estree.treeOf "cart.js" Estree.cartUnit) ∧
    let t := (Estree.treeOf "cart.js" Estree.cartUnit).inUnit 0
    withCart.classAround? t (some 2) = some 1 ∧
      ∃ s, t.Innermost (fun s => t.Encloses s (some 2) ∧ ∃ any, withCart.OfClass t any s) s ∧
        withCart.OfClass t 1 s := by
  have read : Estree.ofValue "cart.js" Estree.cartUnit =
      .ok (Estree.treeOf "cart.js" Estree.cartUnit) := rfl
  have found : withCart.classAround? ((Estree.treeOf "cart.js" Estree.cartUnit).inUnit 0)
      (some 2) = some 1 := by decide +kernel
  exact ⟨read, found, ((lexical_ofValue read 0 withCart (some 2)).2.2.2 1).mp found⟩

end Doclets.Registry
