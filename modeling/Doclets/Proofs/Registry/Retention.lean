import Doclets.Proofs.Registry.Soundness

/-!
What a walk leaves as it is. A doclet that is stored keeps its identity, whatever else is noted of
it later, and a node keeps its doclet until another one is registered for it; no node of a unit
that is still to be numbered has any.
-/

namespace Doclets

/-- What tells one doclet from another, and what scopes are resolved with. -/
structure Doclet.SameIdentity (d e : Doclet) : Prop where
  name : d.name = e.name
  longname : d.longname = e.longname
  memberof : d.memberof = e.memberof
  scope : d.scope = e.scope
  kind : d.kind = e.kind
  thisName : d.thisName = e.thisName

theorem Doclet.SameIdentity.refl (d : Doclet) : d.SameIdentity d := ⟨rfl, rfl, rfl, rfl, rfl, rfl⟩

theorem Doclet.SameIdentity.trans {c d e : Doclet} (first : d.SameIdentity c)
    (second : e.SameIdentity d) : e.SameIdentity c where
  name := second.name.trans first.name
  longname := second.longname.trans first.longname
  memberof := second.memberof.trans first.memberof
  scope := second.scope.trans first.scope
  kind := second.kind.trans first.kind
  thisName := second.thisName.trans first.thisName

namespace Registry

/-- A registry that lost no doclet, nor what it was told by, and no result; nothing but new doclets
became results. -/
structure Remembers (r s : Registry) : Prop where
  size_le : r.doclets.size ≤ s.doclets.size
  results : ∀ id ∈ r.results, id ∈ s.results
  fresh : ∀ id ∈ s.results, id ∈ r.results ∨ r.doclets.size ≤ id
  doclet : ∀ id < r.doclets.size, (s.doclet id).SameIdentity (r.doclet id)
  global : s.global = r.global

/-- A registry after a step that registers nothing for a node. -/
structure Retains (r s : Registry) : Prop extends Remembers r s where
  units : s.units = r.units
  byNode : s.byNode = r.byNode

theorem Remembers.refl (r : Registry) : r.Remembers r :=
  ⟨Nat.le_refl _, fun _ listed => listed, fun _ => Or.inl, fun _ _ => .refl _, rfl⟩

theorem Remembers.trans {r s t : Registry} (first : r.Remembers s) (second : s.Remembers t) :
    r.Remembers t where
  size_le := Nat.le_trans first.size_le second.size_le
  results id listed := second.results id (first.results id listed)
  fresh id listed := by
    rcases second.fresh id listed with before | new
    · exact first.fresh id before
    · exact Or.inr (Nat.le_trans first.size_le new)
  doclet id bound :=
    (first.doclet id bound).trans (second.doclet id (Nat.lt_of_lt_of_le bound first.size_le))
  global := second.global.trans first.global

theorem Retains.refl (r : Registry) : r.Retains r := ⟨.refl r, rfl, rfl⟩

theorem Retains.trans {r s t : Registry} (first : r.Retains s) (second : s.Retains t) :
    r.Retains t where
  toRemembers := first.toRemembers.trans second.toRemembers
  units := second.units.trans first.units
  byNode := second.byNode.trans first.byNode

theorem remembers_nextUnit (r : Registry) : r.Remembers r.nextUnit.2 :=
  ⟨Nat.le_refl _, fun _ listed => listed, fun _ => Or.inl, fun _ _ => .refl _, rfl⟩

theorem retains_foldl {α : Type} {f : Registry → α → Registry} (items : List α)
    (step : ∀ r a, Retains r (f r a)) (r : Registry) : r.Retains (items.foldl f r) := by
  induction items generalizing r with
  | nil => exact .refl r
  | cons a rest ih => exact (step r a).trans (ih (f r a))

theorem retains_insert (r : Registry) (d : Doclet) : r.Retains (r.insert d).2 where
  size_le := by simp
  results _ listed := listed
  fresh _ := Or.inl
  doclet id bound := by
    rw [r.doclet_insert_of_lt d bound]
    exact .refl _
  global := rfl
  units := rfl
  byNode := rfl

theorem retains_addDoclet (r : Registry) (d : Doclet) : r.Retains (r.addDoclet d).2 where
  size_le := by simp
  results _ listed := mem_results_addDoclet.mpr (Or.inl listed)
  fresh _ listed := (mem_results_addDoclet.mp listed).imp_right (Nat.le_of_eq ·.symm)
  doclet id bound := by
    rw [doclet_addDoclet_of_lt bound]
    exact .refl _
  global := rfl
  units := rfl
  byNode := rfl

theorem retains_modify (r : Registry) (id : DocletId) {f : Doclet → Doclet}
    (alike : ∀ d, (f d).SameIdentity d) : r.Retains (r.modify id f) where
  size_le := Nat.le_of_eq (doclets_size_modify r id f).symm
  results _ listed := listed
  fresh _ := Or.inl
  doclet other _ := by
    rw [doclet_modify]
    split
    · exact alike _
    · exact .refl _
  global := rfl
  units := rfl
  byNode := rfl

theorem retains_setUndocumented (r : Registry) (id : DocletId) (hidden : Bool) :
    r.Retains (r.setUndocumented id hidden) := by
  have kept : r.Retains (r.modify id fun d => { d with undocumented := hidden }) :=
    r.retains_modify id fun _ => ⟨rfl, rfl, rfl, rfl, rfl, rfl⟩
  exact ⟨⟨kept.size_le, kept.results, kept.fresh, kept.doclet, rfl⟩, kept.units, kept.byNode⟩

theorem retains_declare (r : Registry) (scope : DocletId) (name : String)
    (longname : Option String) : r.Retains (r.declare scope name longname) :=
  r.retains_modify scope fun _ => ⟨rfl, rfl, rfl, rfl, rfl, rfl⟩

/-! ### Follow-ups -/

theorem retains_joinEnumOf (member : DocletId) (r : Registry) (owner : DocletId) :
    r.Retains (joinEnumOf member r owner) := by
  unfold joinEnumOf
  split
  · dsimp only
    refine ((retains_modify r member ?_).trans (retains_setUndocumented _ member false)).trans
      (retains_modify _ owner ?_)
    · exact fun _ => ⟨rfl, rfl, rfl, rfl, rfl, rfl⟩
    · exact fun _ => ⟨rfl, rfl, rfl, rfl, rfl, rfl⟩
  · exact .refl r

theorem retains_joinClass (r : Registry) (t : Tree) (method : NodeRef) (constructor : DocletId) :
    r.Retains (r.joinClass t method constructor) := by
  unfold joinClass
  split
  · exact .refl r
  · dsimp only
    split
    · exact .refl r
    · exact ((r.retains_setUndocumented _ true).trans (retains_setUndocumented _ _ true)).trans
        (retains_addDoclet _ _)

theorem retains_follow (t : Tree) (node : NodeRef) (name : String) (id : DocletId) (r : Registry)
    (followUp : FollowUp) : r.Retains (follow t node name id r followUp) := by
  cases followUp with
  | trackName scope =>
    unfold follow
    dsimp only
    split
    · exact r.retains_declare scope name _
    · exact .refl r
  | joinEnum => exact retains_foldl _ (retains_joinEnumOf id) r
  | joinClass => exact r.retains_joinClass t node id

/-! ### Registrations -/

/-- The doclet that is registered last for a node keeps its place until another one is registered
for the node. -/
theorem all_registerNode_of_ne (r : Registry) (t : Tree) (node : NodeRef) (last : Option DocletId)
    (code : Symbol) {key : ScopeKey} (other : ScopeKey.node (t.nodeId node) ≠ key) :
    (r.registerNode t node last code).byNode.all key = r.byNode.all key := by
  unfold registerNode
  dsimp only
  cases last with
  | some id => exact History.all_put_of_ne _ other id
  | none =>
    dsimp only
    split
    · rfl
    · exact History.all_put_of_ne _ other _

theorem remembers_register (r : Registry) (key : ScopeKey) (id : DocletId) :
    r.Remembers (r.register key id) :=
  ⟨Nat.le_refl _, fun _ listed => listed, fun _ => Or.inl, fun _ _ => .refl _, rfl⟩

theorem remembers_registerNode (r : Registry) (t : Tree) (node : NodeRef) (last : Option DocletId)
    (code : Symbol) : r.Remembers (r.registerNode t node last code) ∧
      (r.registerNode t node last code).units = r.units := by
  unfold registerNode
  dsimp only
  cases last with
  | some id => exact ⟨r.remembers_register _ id, rfl⟩
  | none =>
    dsimp only
    split
    · exact ⟨.refl r, rfl⟩
    · have kept := r.retains_insert (Doclet.placeholder (code.origin t) t.fileName
        (((t.node? node).map fun n => n.position.line).getD 0))
      exact ⟨kept.toRemembers.trans (remembers_register _ _ _), kept.units⟩

theorem contains_of_all_ne_nil (r : Registry) {key : ScopeKey} (some : r.byNode.all key ≠ []) :
    r.byNode.contains key = true := by
  unfold History.all at some
  unfold History.contains
  split at some
  next ids found => rw [Std.TreeMap.contains_eq_isSome_getElem?, found, Option.isSome_some]
  next => exact absurd rfl some

/-- A node that has a doclet keeps it where another symbol without one stands for it. -/
theorem all_registerNode_none (r : Registry) (t : Tree) (x : NodeIndex) (code : Symbol)
    (known : r.byNode.all (.node (t.nodeId (some x))) ≠ []) :
    r.registerNode t (some x) none code = r := by
  unfold registerNode
  simp [r.contains_of_all_ne_nil known]

/-- The doclet of a node is the same as long as none is registered for it. -/
theorem Remembers.ofNode? {r s : Registry} (h : r.Remembers s) (stored : r.Anchored) {t : Tree}
    {x : NodeIndex} {d : Doclet} (same : s.byNode.all (.node (t.nodeId (some x))) =
      r.byNode.all (.node (t.nodeId (some x)))) (known : r.ofNode? t (some x) = some d) :
    ∃ e, s.ofNode? t (some x) = some e ∧ e.SameIdentity d := by
  unfold Registry.ofNode? Registry.idOfNode? at known ⊢
  rw [if_neg (by simp), if_neg (by simp), History.latest?_eq_getLast?] at known
  obtain ⟨id, last, rfl⟩ := Option.map_eq_some_iff.mp known
  have bound := stored.stored _ id (List.mem_of_getLast? last)
  refine ⟨s.doclet id, ?_, h.doclet id bound⟩
  rw [if_neg (by simp), if_neg (by simp), History.latest?_eq_getLast?, same, last]
  rfl

/-! ### The scope around all units -/

/-- The scope around all units has the first doclet, from the beginning on, which is no result, and
nothing is registered for a key without a doclet. -/
structure Rooted (r : Registry) : Prop where
  global : r.global = 0
  stored : 0 < r.doclets.size
  hidden : 0 ∉ r.results
  outermost : r.byNode.all .global = [0]
  filled : ∀ key, r.byNode.contains key = true → r.byNode.all key ≠ []

theorem rooted_empty : empty.Rooted := by
  refine ⟨rfl, by decide, by simp [empty], ?_, fun key known => ?_⟩
  · rw [show empty.byNode = History.empty.put .global 0 from rfl, History.all_put_self,
      History.all_empty]
    rfl
  · by_cases global : ScopeKey.global = key
    · rw [← global, show empty.byNode = History.empty.put .global 0 from rfl,
        History.all_put_self]
      simp
    · have none : empty.byNode.contains key = false := by
        simp [show empty.byNode = History.empty.put .global 0 from rfl, History.contains,
          History.put, History.empty, Std.TreeMap.contains_alter, global]
      rw [none] at known
      cases known

theorem Rooted.retains {r s : Registry} (h : r.Rooted) (kept : r.Retains s) : s.Rooted where
  global := kept.global.trans h.global
  stored := Nat.lt_of_lt_of_le h.stored kept.size_le
  hidden listed := by
    rcases kept.fresh 0 listed with before | new
    · exact h.hidden before
    · exact Nat.ne_of_gt h.stored (Nat.le_zero.mp new)
  outermost := kept.byNode ▸ h.outermost
  filled := kept.byNode ▸ h.filled

theorem Rooted.nextUnit {r : Registry} (h : r.Rooted) : r.nextUnit.2.Rooted :=
  ⟨h.global, h.stored, h.hidden, h.outermost, h.filled⟩

theorem Rooted.register {r : Registry} (h : r.Rooted) (id : NodeId) (last : DocletId) :
    (r.register (.node id) last).Rooted where
  global := h.global
  stored := h.stored
  hidden := h.hidden
  outermost := by
    rw [show (r.register (.node id) last).byNode = r.byNode.put (.node id) last from rfl,
      History.all_put_of_ne _ (by simp)]
    exact h.outermost
  filled key known := by
    rw [show (r.register (.node id) last).byNode = r.byNode.put (.node id) last from rfl] at known ⊢
    by_cases here : ScopeKey.node id = key
    · rw [← here, History.all_put_self]
      simp
    · rw [History.all_put_of_ne _ here]
      apply h.filled
      simpa [History.contains, History.put, Std.TreeMap.contains_alter, here] using known

theorem Rooted.registerNode {r : Registry} (h : r.Rooted) (t : Tree) (node : NodeRef)
    (last : Option DocletId) (code : Symbol) : (r.registerNode t node last code).Rooted := by
  unfold Registry.registerNode
  dsimp only
  cases last with
  | some id => exact h.register _ id
  | none =>
    dsimp only
    split
    · exact h
    · exact (h.retains (r.retains_insert _)).register _ _

/-- Whatever has documentation is a result, so the scope around all units has none. -/
theorem Rooted.undocumented {r : Registry} (h : r.Rooted) (anchored : r.Anchored) :
    (r.doclet 0).undocumented = true := by
  cases shown : (r.doclet 0).undocumented with
  | true => rfl
  | false => exact absurd (anchored.documented 0 h.stored shown) h.hidden

/-! ### Units -/

/-- No node of a unit that is still to be numbered has a doclet. -/
def Numbered (r : Registry) : Prop :=
  ∀ unit, r.units ≤ unit → ∀ node, r.byNode.all (.node ⟨unit, node⟩) = []

variable {r s : Registry}

theorem numbered_empty : empty.Numbered := by
  intro unit _ node
  rw [show empty.byNode = History.empty.put .global 0 from rfl, History.all_put_of_ne _ (by simp),
    History.all_empty]

theorem Numbered.retains (h : r.Numbered) (kept : r.Retains s) : s.Numbered := by
  intro unit later node
  rw [kept.byNode]
  exact h unit (kept.units ▸ later) node

theorem Numbered.nextUnit (h : r.Numbered) : r.nextUnit.2.Numbered :=
  fun unit later => h unit (Nat.le_of_succ_le later)

theorem Numbered.registerNode (h : r.Numbered) {t : Tree} (known : t.unit < r.units)
    (node : NodeRef) (last : Option DocletId) (code : Symbol) :
    (r.registerNode t node last code).Numbered := by
  intro unit later other
  have units := (r.remembers_registerNode t node last code).2
  rw [all_registerNode_of_ne]
  · exact h unit (units ▸ later) other
  · intro same
    have here : t.unit = unit := congrArg NodeId.unit (ScopeKey.node.inj same)
    omega

/-! ### Passes -/

/-- Passing members on registers nothing for a node. -/
theorem retains_resolveAugments (r : Registry) (consistent : r.Consistent) :
    r.Retains r.resolveAugments := by
  have kept : PassInvariant fun s => s.Consistent ∧ r.Retains s := by
    refine ⟨And.left, fun {s relation receiver parent member} both _ => ?_⟩
    have passed := passedOn_passOn relation (s.doclet receiver).longname s member
    refine ⟨passed.consistent both.1, both.2.trans ?_⟩
    generalize passOn relation (s.doclet receiver).longname s member = next at passed
    cases passed with
    | withheld => exact .refl s
    | kept =>
      refine s.retains_modify _ fun d => ?_
      unfold Doclet.inPlaceOf
      split
      · exact .refl d
      · split <;> exact ⟨rfl, rfl, rfl, rfl, rfl, rfl⟩
      · split <;> exact ⟨rfl, rfl, rfl, rfl, rfl, rfl⟩
    | copied => exact s.retains_addDoclet _
  exact (kept.resolveAugments ⟨consistent, .refl r⟩).1.2

/-- Nor does lending. -/
theorem retains_resolveBorrows (r : Registry) : r.Retains r.resolveBorrows := by
  have lend (borrower : String) (s : Registry) (b : Borrow) : s.Retains (meet borrower s b) :=
    retains_foldl _ (fun r _ => r.retains_addDoclet _) s
  have step (s : Registry) (borrower : DocletId) : s.Retains (s.meetAll borrower) := by
    unfold meetAll
    split
    · exact .refl s
    · refine Retains.trans ?_ (retains_foldl _ (lend _) _)
      exact s.retains_modify borrower fun _ => ⟨rfl, rfl, rfl, rfl, rfl, rfl⟩
  have start : r.Retains { r with index := { r.index with borrowed := [] } } :=
    ⟨⟨Nat.le_refl _, fun _ listed => listed, fun _ => Or.inl, fun _ _ => .refl _, rfl⟩, rfl, rfl⟩
  exact start.trans (retains_foldl _ step _)

end Registry

end Doclets
