import Doclets.Proofs.Registry.Retention
import Doclets.Proofs.Tree.Units

/-!
A unit in a registry that holds others already, beside the same unit on its own. The doclets of the
unit lie on top of the old ones, in the same order and alike; only the doclet of the scope around
all units is shared, and what is declared in it is what the unit declares, or else what was declared
before. Whatever a walk does to a registry keeps this so.
-/

namespace Doclets

/-- Doclets that no walk tells from one another. -/
structure Doclet.Alike (d e : Doclet) : Prop extends SameIdentity d e where
  undocumented : d.undocumented = e.undocumented
  isEnum : d.isEnum = e.isEnum
  vars : d.origin.vars = e.origin.vars

theorem Doclet.Alike.refl (d : Doclet) : d.Alike d := ⟨.refl d, rfl, rfl, rfl⟩

theorem Doclet.Alike.isClass {d e : Doclet} (h : d.Alike e) : d.isClass = e.isClass := by
  unfold Doclet.isClass
  rw [h.kind]

namespace Registry

/-- Where a doclet lies on top of `n` others. The first one is shared. -/
def above (n : Nat) : Nat → Nat
  | 0 => 0
  | id + 1 => n + id

theorem above_of_pos {n id : Nat} (pos : 0 < id) : above n id = n + (id - 1) := by
  cases id with
  | zero => cases pos
  | succ id => rfl

theorem above_inj {n id other : Nat} (some : 0 < n) : above n id = above n other ↔ id = other := by
  constructor
  · intro same
    cases id <;> cases other <;> simp only [above] at same <;> omega
  · exact congrArg (above n)

/-- A registry `r` that holds on top of `old`, as the unit `u`, what `s` holds as the unit `v`. -/
structure Stacked (old : Registry) (u v : Nat) (r s : Registry) : Prop where
  inhabited : 0 < old.doclets.size
  size : r.doclets.size + 1 = old.doclets.size + s.doclets.size
  alike : ∀ id : Nat, 0 < id → id < s.doclets.size →
    (r.doclet (above old.doclets.size id)).Alike (s.doclet id)
  rooted : r.Rooted ∧ s.Rooted
  hidden : (r.doclet 0).undocumented = true ∧ (s.doclet 0).undocumented = true
  vars : ∀ name, Ledger.get? name (r.doclet 0).origin.vars =
    (Ledger.get? name (s.doclet 0).origin.vars).or (Ledger.get? name (old.doclet 0).origin.vars)
  byNode : ∀ x, r.byNode.all (.node ⟨u, x⟩) =
    (s.byNode.all (.node ⟨v, x⟩)).map (above old.doclets.size)
  registered : ∀ x, ∀ id : Nat, id ∈ s.byNode.all (.node ⟨v, x⟩) → 0 < id ∧ id < s.doclets.size
  byLongname : ∀ l, ∃ new : List Nat, (∀ id ∈ new, 0 < id ∧ id < s.doclets.size) ∧
    r.byLongname.all l = old.byLongname.all l ++ new.map (above old.doclets.size) ∧
    s.byLongname.all l = empty.byLongname.all l ++ new
  results : r.results.toList =
    old.results.toList ++ s.results.toList.map (above old.doclets.size)
  listed : ∀ id : Nat, id ∈ s.results → 0 < id ∧ id < s.doclets.size
  remembers : old.Remembers r ∧ empty.Remembers s

namespace Stacked

variable {old r s : Registry} {u v : Nat} {d e : Doclet} {f g : Doclet → Doclet} {id : Nat}

/-- A unit that is about to be walked. -/
theorem start (sound : old.Sound) (rooted : old.Rooted) (numbered : old.Numbered) :
    Stacked old old.units 0 old.nextUnit.2 empty.nextUnit.2 where
  inhabited := rooted.stored
  size := rfl
  alike id pos bound := by
    have one : empty.nextUnit.2.doclets.size = 1 := rfl
    omega
  rooted := ⟨rooted.nextUnit, rooted_empty.nextUnit⟩
  hidden := ⟨rooted.undocumented sound.toAnchored, rfl⟩
  vars name := rfl
  byNode x := by
    rw [show old.nextUnit.2.byNode = old.byNode from rfl, numbered _ (Nat.le_refl _) x,
      show empty.nextUnit.2.byNode = empty.byNode from rfl, numbered_empty 0 (Nat.zero_le _) x]
    rfl
  registered x id listed := by
    rw [show empty.nextUnit.2.byNode = empty.byNode from rfl,
      numbered_empty 0 (Nat.zero_le _) x] at listed
    cases listed
  byLongname l := ⟨[], by simp, (List.append_nil _).symm, (List.append_nil _).symm⟩
  results := by simp [nextUnit, empty]
  listed id listed := by simp [nextUnit, empty] at listed
  remembers := ⟨old.remembers_nextUnit, empty.remembers_nextUnit⟩

theorem above_pos (h : Stacked old u v r s) (pos : 0 < id) : 0 < above old.doclets.size id := by
  have some := h.inhabited
  rw [above_of_pos pos]
  omega

theorem above_lt (h : Stacked old u v r s) (pos : 0 < id) (bound : id < s.doclets.size) :
    above old.doclets.size id < r.doclets.size := by
  have size := h.size
  rw [above_of_pos pos]
  omega

theorem above_size (h : Stacked old u v r s) :
    above old.doclets.size s.doclets.size = r.doclets.size := by
  have size := h.size
  have some := h.rooted.2.stored
  rw [above_of_pos some]
  omega

/-! ### Storing -/

theorem insert (h : Stacked old u v r s) (alike : d.Alike e) :
    Stacked old u v (r.insert d).2 (s.insert e).2 where
  inhabited := h.inhabited
  size := by
    have size := h.size
    simp only [doclets_size_insert]
    omega
  alike id pos bound := by
    rw [doclet_insert, doclet_insert, ← h.above_size]
    by_cases new : id = s.doclets.size
    · rw [if_pos (congrArg _ new), if_pos new]
      exact alike
    · rw [if_neg fun same => new ((above_inj h.inhabited).mp same), if_neg new]
      rw [doclets_size_insert] at bound
      exact h.alike id pos (Nat.lt_of_le_of_ne (Nat.le_of_lt_succ bound) new)
  rooted := ⟨h.rooted.1.retains (r.retains_insert d), h.rooted.2.retains (s.retains_insert e)⟩
  hidden := by
    rw [r.doclet_insert_of_lt d h.rooted.1.stored, s.doclet_insert_of_lt e h.rooted.2.stored]
    exact h.hidden
  vars name := by
    rw [r.doclet_insert_of_lt d h.rooted.1.stored, s.doclet_insert_of_lt e h.rooted.2.stored]
    exact h.vars name
  byNode := h.byNode
  registered x id listed := by
    rw [doclets_size_insert]
    exact ⟨(h.registered x id listed).1, Nat.lt_succ_of_lt (h.registered x id listed).2⟩
  byLongname l := by
    obtain ⟨new, inside, first, second⟩ := h.byLongname l
    refine ⟨new, fun id listed => ?_, first, second⟩
    rw [doclets_size_insert]
    exact ⟨(inside id listed).1, Nat.lt_succ_of_lt (inside id listed).2⟩
  results := h.results
  listed id result := by
    rw [doclets_size_insert]
    exact ⟨(h.listed id result).1, Nat.lt_succ_of_lt (h.listed id result).2⟩
  remembers := ⟨h.remembers.1.trans (r.retains_insert d).toRemembers,
    h.remembers.2.trans (s.retains_insert e).toRemembers⟩

theorem addDoclet (h : Stacked old u v r s) (alike : d.Alike e) :
    Stacked old u v (r.addDoclet d).2 (s.addDoclet e).2 :=
  { h.insert alike with
    rooted :=
      ⟨h.rooted.1.retains (r.retains_addDoclet d), h.rooted.2.retains (s.retains_addDoclet e)⟩
    results := by
      rw [results_addDoclet, results_addDoclet, h.results, List.map_append, List.append_assoc,
        ← h.above_size]
      rfl
    listed := by
      intro id result
      rw [doclets_size_addDoclet]
      rcases mem_results_addDoclet.mp result with before | new
      · exact ⟨(h.listed id before).1, Nat.lt_succ_of_lt (h.listed id before).2⟩
      · rw [new]
        exact ⟨h.rooted.2.stored, Nat.lt_succ_self _⟩
    remembers := ⟨h.remembers.1.trans (r.retains_addDoclet d).toRemembers,
      h.remembers.2.trans (s.retains_addDoclet e).toRemembers⟩ }

/-! ### Changing doclets -/

/-- A change of two doclets that lie upon each other, which keeps them alike. -/
theorem modify (h : Stacked old u v r s) (pos : 0 < id)
    (alike : ∀ d e, d.Alike e → (f d).Alike (g e)) (same : ∀ d, (f d).SameIdentity d)
    (also : ∀ d, (g d).SameIdentity d) :
    Stacked old u v (r.modify (above old.doclets.size id) f) (s.modify id g) where
  inhabited := h.inhabited
  size := by simpa using h.size
  alike other some bound := by
    rw [doclets_size_modify] at bound
    rw [doclet_modify, doclet_modify]
    by_cases here : id = other
    · rw [if_pos ⟨congrArg _ here, h.above_lt some bound⟩, if_pos ⟨here, bound⟩]
      exact alike _ _ (h.alike other some bound)
    · rw [if_neg fun both => here ((above_inj h.inhabited).mp both.1),
        if_neg fun both => here both.1]
      exact h.alike other some bound
  rooted := ⟨h.rooted.1.retains (r.retains_modify _ same),
    h.rooted.2.retains (s.retains_modify _ also)⟩
  hidden := by
    rw [doclet_modify_of_ne _ _ (Nat.ne_of_gt (h.above_pos pos)),
      doclet_modify_of_ne _ _ (Nat.ne_of_gt pos)]
    exact h.hidden
  vars name := by
    rw [doclet_modify_of_ne _ _ (Nat.ne_of_gt (h.above_pos pos)),
      doclet_modify_of_ne _ _ (Nat.ne_of_gt pos)]
    exact h.vars name
  byNode := h.byNode
  registered := by simpa using h.registered
  byLongname l := by simpa using h.byLongname l
  results := h.results
  listed := by simpa using h.listed
  remembers := ⟨h.remembers.1.trans (r.retains_modify _ same).toRemembers,
    h.remembers.2.trans (s.retains_modify _ also).toRemembers⟩

theorem setUndocumented (h : Stacked old u v r s) (pos : 0 < id) (hidden : Bool) :
    Stacked old u v (r.setUndocumented (above old.doclets.size id) hidden)
      (s.setUndocumented id hidden) :=
  have changed : Stacked old u v
      (r.modify (above old.doclets.size id) fun d => { d with undocumented := hidden })
      (s.modify id fun d => { d with undocumented := hidden }) :=
    h.modify pos (fun _ _ alike => { alike with undocumented := rfl })
      (fun _ => ⟨rfl, rfl, rfl, rfl, rfl, rfl⟩) fun _ => ⟨rfl, rfl, rfl, rfl, rfl, rfl⟩
  { changed with
    rooted := ⟨h.rooted.1.retains (r.retains_setUndocumented _ hidden),
      h.rooted.2.retains (s.retains_setUndocumented _ hidden)⟩
    remembers := ⟨h.remembers.1.trans (r.retains_setUndocumented _ hidden).toRemembers,
      h.remembers.2.trans (s.retains_setUndocumented _ hidden).toRemembers⟩ }

/-- A name that is declared in the scope around all units. The doclet of that scope is not alike on
both sides: what it declares is compared name by name. -/
theorem declare_global (h : Stacked old u v r s) (name : String) (longname : Option String) :
    Stacked old u v (r.declare 0 name longname) (s.declare 0 name longname) where
  inhabited := h.inhabited
  size := by simpa [Registry.declare] using h.size
  alike other pos bound := by
    rw [r.doclet_declare_of_ne name longname (Nat.ne_of_lt (h.above_pos pos)),
      s.doclet_declare_of_ne name longname (Nat.ne_of_lt pos)]
    exact h.alike other pos (by simpa [Registry.declare] using bound)
  rooted := ⟨h.rooted.1.retains (r.retains_declare _ name longname),
    h.rooted.2.retains (s.retains_declare _ name longname)⟩
  hidden := by
    rw [r.doclet_declare_self name longname h.rooted.1.stored,
      s.doclet_declare_self name longname h.rooted.2.stored]
    exact h.hidden
  vars other := by
    rw [r.doclet_declare_self name longname h.rooted.1.stored,
      s.doclet_declare_self name longname h.rooted.2.stored]
    by_cases same : other = name
    · rw [same, Ledger.get?_insert_self, Ledger.get?_insert_self]
      rfl
    · rw [Ledger.get?_insert_of_ne same, Ledger.get?_insert_of_ne same]
      exact h.vars other
  byNode := h.byNode
  registered := by simpa [Registry.declare] using h.registered
  byLongname := by simpa [Registry.declare] using h.byLongname
  results := h.results
  listed := by simpa [Registry.declare] using h.listed
  remembers := ⟨h.remembers.1.trans (r.retains_declare _ name longname).toRemembers,
    h.remembers.2.trans (s.retains_declare _ name longname).toRemembers⟩

/-- A name that is declared in a scope of the unit, or in the one around all units. -/
theorem declare (h : Stacked old u v r s) (id : Nat) (name : String) (longname : Option String) :
    Stacked old u v (r.declare (above old.doclets.size id) name longname)
      (s.declare id name longname) := by
  cases id with
  | zero => exact h.declare_global name longname
  | succ id =>
    refine h.modify (Nat.succ_pos id) (fun d e alike => ?_)
      (fun _ => ⟨rfl, rfl, rfl, rfl, rfl, rfl⟩) fun _ => ⟨rfl, rfl, rfl, rfl, rfl, rfl⟩
    exact { alike with vars := by dsimp only; rw [alike.vars] }

/-! ### Registering -/

theorem register (h : Stacked old u v r s) (pos : 0 < id) (bound : id < s.doclets.size)
    (x : NodeRef) : Stacked old u v
      (r.register (.node ⟨u, x⟩) (above old.doclets.size id)) (s.register (.node ⟨v, x⟩) id) := by
  have longname := (h.alike id pos bound).longname
  refine { h with
    rooted := ⟨h.rooted.1.register _ _, h.rooted.2.register _ _⟩
    byNode := ?_
    registered := ?_
    byLongname := ?_
    remembers := ⟨h.remembers.1.trans (r.remembers_register _ _),
      h.remembers.2.trans (s.remembers_register _ _)⟩ }
  · intro y
    unfold Registry.register
    dsimp only
    by_cases here : x = y
    · rw [here, History.all_put_self, History.all_put_self, h.byNode y, List.map_append]
      rfl
    · rw [History.all_put_of_ne _ (by simpa using here),
        History.all_put_of_ne _ (by simpa using here)]
      exact h.byNode y
  · intro y other listed
    unfold Registry.register at listed
    dsimp only at listed
    rcases History.mem_all_put.mp listed with before | ⟨_, rfl⟩
    · exact h.registered y other before
    · exact ⟨pos, bound⟩
  · intro l
    obtain ⟨new, inside, first, second⟩ := h.byLongname l
    unfold Registry.register
    dsimp only
    rw [longname]
    by_cases here : (s.doclet id).longname = l
    · refine ⟨new ++ [id], fun other listed => ?_, ?_, ?_⟩
      · rcases List.mem_append.mp listed with before | last
        · exact inside other before
        · rw [List.mem_singleton.mp last]
          exact ⟨pos, bound⟩
      · rw [here, History.all_put_self, first, List.map_append, List.append_assoc]
        rfl
      · rw [here, History.all_put_self, second, List.append_assoc]
    · rw [History.all_put_of_ne _ here, History.all_put_of_ne _ here]
      exact ⟨new, inside, first, second⟩

/-- A key is known on both sides, or on neither. -/
theorem contains (h : Stacked old u v r s) (x : NodeRef) :
    r.byNode.contains (.node ⟨u, x⟩) = s.byNode.contains (.node ⟨v, x⟩) := by
  rw [Bool.eq_iff_iff]
  constructor
  · intro known
    refine s.contains_of_all_ne_nil fun none => h.rooted.1.filled _ known ?_
    rw [h.byNode x, none, List.map_nil]
  · intro known
    refine r.contains_of_all_ne_nil fun none => h.rooted.2.filled _ known ?_
    exact List.map_eq_nil_iff.mp ((h.byNode x).symm.trans none)

theorem registerNode (h : Stacked old u v r s) (t : Tree) (node : NodeRef) (last : Option Nat)
    (listed : ∀ id ∈ last, 0 < id ∧ id < s.doclets.size) (code : Symbol) : Stacked old u v
      (r.registerNode (t.inUnit u) node (last.map (above old.doclets.size)) code)
      (s.registerNode (t.inUnit v) node last code) := by
  unfold Registry.registerNode
  dsimp only
  cases last with
  | some id =>
    obtain ⟨pos, bound⟩ := listed id rfl
    exact h.register pos bound node
  | none =>
    have same : (!((t.inUnit u).kind? node).any NodeKind.isFunction ||
        r.byNode.contains (.node ((t.inUnit u).nodeId node))) =
        (!((t.inUnit v).kind? node).any NodeKind.isFunction ||
          s.byNode.contains (.node ((t.inUnit v).nodeId node))) := by
      rw [Tree.nodeId_inUnit, Tree.nodeId_inUnit, h.contains node]
      rfl
    rw [Option.map_none]
    dsimp only
    rw [same]
    split
    · exact h
    · have stored := h.insert (d := Doclet.placeholder (code.origin (t.inUnit u))
        (t.inUnit u).fileName ((((t.inUnit u).node? node).map fun n => n.position.line).getD 0))
        (e := Doclet.placeholder (code.origin (t.inUnit v)) (t.inUnit v).fileName
          ((((t.inUnit v).node? node).map fun n => n.position.line).getD 0))
        ⟨⟨rfl, rfl, rfl, rfl, rfl, rfl⟩, rfl, rfl, rfl⟩
      have last := stored.register h.rooted.2.stored (by simp) node
      rw [h.above_size] at last
      exact last

/-! ### Looking up -/

variable (t : Tree) (node : NodeRef) (name : String)

theorem idOfNode? (h : Stacked old u v r s) : r.idOfNode? (t.inUnit u) node =
    (s.idOfNode? (t.inUnit v) node).map (above old.doclets.size) := by
  unfold Registry.idOfNode?
  rw [History.latest?_eq_getLast?, History.latest?_eq_getLast?]
  cases node with
  | none =>
    change (r.byNode.all .global).getLast? =
      (s.byNode.all .global).getLast?.map (above old.doclets.size)
    rw [h.rooted.1.outermost, h.rooted.2.outermost]
    rfl
  | some x =>
    rw [if_neg (by simp), if_neg (by simp), Tree.nodeId_inUnit, Tree.nodeId_inUnit,
      h.byNode (some x), List.getLast?_map]

theorem pos_of_idOfNode? (h : Stacked old u v r s) {x : NodeIndex}
    (found : s.idOfNode? (t.inUnit v) (some x) = some id) : 0 < id ∧ id < s.doclets.size := by
  unfold Registry.idOfNode? at found
  rw [if_neg (by simp), History.latest?_eq_getLast?] at found
  exact h.registered (some x) id (List.mem_of_getLast? found)

/-- A node has doclets on both sides, which are alike, or on neither. -/
theorem ofNode? (h : Stacked old u v r s) :
    Option.Rel Doclet.Alike (r.ofNode? (t.inUnit u) node) (s.ofNode? (t.inUnit v) node) := by
  unfold Registry.ofNode?
  cases node with
  | none => exact .none
  | some x =>
    rw [if_neg (by simp), if_neg (by simp), h.idOfNode?]
    cases found : s.idOfNode? (t.inUnit v) (some x) with
    | none => exact .none
    | some id =>
      obtain ⟨pos, bound⟩ := h.pos_of_idOfNode? t found
      exact .some (h.alike id pos bound)

/-- What is read off the doclet of a node is the same on both sides, if alike doclets agree on
it. -/
theorem bind_ofNode? {β : Type} (h : Stacked old u v r s) {f : Doclet → Option β}
    (same : ∀ d e, d.Alike e → f d = f e) :
    (r.ofNode? (t.inUnit u) node).bind f = (s.ofNode? (t.inUnit v) node).bind f := by
  have both := h.ofNode? t node
  generalize r.ofNode? (t.inUnit u) node = x at both
  generalize s.ofNode? (t.inUnit v) node = y at both
  cases both with
  | none => rfl
  | some alike => exact same _ _ alike

/-- A name is declared as in the unit on its own, or else as it was before. -/
theorem declared? (h : Stacked old u v r s) : r.declared? (t.inUnit u) node name =
    (s.declared? (t.inUnit v) node name).or
      (Ledger.get? name (old.doclet 0).origin.vars) := by
  have scopes : (fun x => (r.ofNode? (t.inUnit u) (some x)).bind fun d =>
      Ledger.get? name d.origin.vars) =
      fun x => (s.ofNode? (t.inUnit v) (some x)).bind fun d => Ledger.get? name d.origin.vars := by
    funext x
    exact h.bind_ofNode? t (some x) fun d e alike => by rw [alike.vars]
  unfold Registry.declared?
  dsimp only
  rw [Tree.scopesAround_inUnit, Tree.scopesAround_inUnit, scopes, h.rooted.1.global,
    h.rooted.2.global, h.vars name, Option.or_assoc]

end Stacked

end Registry

end Doclets
