import Doclets.Doclet.Identity
import Doclets.Proofs.Registry.Repetition

/-!
What becomes of members whose longnames differ in more than scope and name. A copy is called after
the scope and the name of its original, so a receiver gets one copy for each scope and name, that of
the first member that has them. Members of one name that only their variations tell apart are not
all received.
-/

namespace Doclets

theorem Doclet.passedName?_eq_some {d : Doclet} {owner l : String}
    (h : d.passedName? owner = some l) : ∃ scope, d.sharedScope? = some scope ∧
      d.scope = some scope ∧ (scope = .static ∨ scope = .perInstance) ∧
      l = owner ++ scope.punctuation ++ d.ownName := by
  obtain ⟨scope, shared, rfl⟩ := Option.map_eq_some_iff.mp h
  obtain ⟨_, own, kinds⟩ := sharedScope?_eq_some shared
  exact ⟨scope, shared, own, kinds, rfl⟩

/-- Members are passed on under one longname exactly if scope and name are the same. -/
theorem Doclet.passedName?_eq_iff {d e : Doclet} {owner a b : String}
    (first : d.passedName? owner = some a) (second : e.passedName? owner = some b) :
    a = b ↔ d.scope = e.scope ∧ d.ownName = e.ownName := by
  obtain ⟨scope, _, own, kinds, rfl⟩ := passedName?_eq_some first
  obtain ⟨scope', _, own', kinds', rfl⟩ := passedName?_eq_some second
  rw [own, own', ← String.toList_inj]
  rcases kinds with rfl | rfl <;> rcases kinds' with rfl | rfl <;>
    simp [Scope.punctuation, Scope.punctuation?, String.toList_append, String.toList_inj]

/-- The copies of two versions of a member differ in what they stand for at most. -/
theorem Doclet.Succeeds.copyFor {d e : Doclet} (h : e.Succeeds d) (relation : Relation)
    (owner longname : String) :
    (e.copyFor relation owner longname).Succeeds (d.copyFor relation owner longname) := by
  obtain ⟨implements, overrides, more, rfl⟩ := h
  cases relation with
  | mixed => exact ⟨implements, none, more, rfl⟩
  | implemented => exact ⟨_, none, List.Subset.refl _, rfl⟩
  | inherited => exact ⟨implements, none, more, rfl⟩

namespace Registry

variable {r s : Registry} {relation : Relation} {receiver member : DocletId}
  {parent owner l : String} {members : List DocletId}

/-- The copy that a receiver has under a longname: that of the first member it is passed under it. -/
structure CopiedAs (r s : Registry) (relation : Relation) (owner : String)
    (members : List DocletId) (l : String) (copy : DocletId) : Prop where
  single : s.index.documentedAt l = [copy]
  result : copy ∈ s.results
  fresh : r.doclets.size ≤ copy
  first : ∃ original, members.find? (fun id => (r.doclet id).passedName? owner = some l) =
      some original ∧
    (s.doclet copy).Succeeds ((r.doclet original).copyFor relation owner l)

theorem CopiedAs.longname {copy : DocletId} (h : r.CopiedAs s relation owner members l copy) :
    (s.doclet copy).longname = l := by
  obtain ⟨_, _, later⟩ := h.first
  rw [later.filedAlike.longname, Doclet.longname_copyFor]

theorem spares_documentedAt (kept : r.index.documentedAt l ≠ [] ∨
      (r.doclet member).passedName? owner ≠ some l) :
    r.Spares (·.documentedAt l) (passOn relation owner r member) := by
  have step := passedOn_passOn relation owner r member
  refine ⟨step.onward, ?_⟩
  generalize passOn relation owner r member = s at step
  cases step with
  | withheld => rfl
  | kept => rfl
  | copied shared absent =>
    rw [documentedAt_copied shared, if_neg, List.append_nil]
    intro same
    rcases kept with present | apart
    · exact present (same ▸ absent)
    · exact apart (by rw [Doclet.passedName?, shared, Option.map_some, same])

/-- A copy is made where nothing documents its longname. -/
theorem copied_passOn (relation : Relation)
    (passed : (r.doclet member).passedName? owner = some l)
    (fresh : r.index.documentedAt l = []) :
    (passOn relation owner r member).index.documentedAt l = [r.doclets.size] ∧
      r.doclets.size ∈ (passOn relation owner r member).results ∧
      r.doclets.size < (passOn relation owner r member).doclets.size ∧
      (passOn relation owner r member).doclet r.doclets.size =
        (r.doclet member).copyFor relation owner l := by
  obtain ⟨scope, shared, _, _, same⟩ := Doclet.passedName?_eq_some passed
  have made : passOn relation owner r member =
      (r.addDoclet ((r.doclet member).copyFor relation owner l)).2 := by
    unfold passOn
    dsimp only
    rw [shared]
    dsimp only
    rw [← same, fresh]
    rfl
  rw [made]
  refine ⟨?_, mem_results_addDoclet.mpr (Or.inr rfl), ?_, doclet_addDoclet_self⟩
  · rw [documentedAt_copied shared, fresh, if_pos rfl, List.nil_append]
  · rw [doclets_size_addDoclet]
    exact Nat.lt_succ_self _

/-- Members that are passed on under other longnames, or under one that is documented, leave its
documentation as it is. -/
theorem spares_foldl_passOn (relation : Relation) (owner : String)
    (bound : ∀ id ∈ members, id < r.doclets.size)
    (kept : r.index.documentedAt l ≠ [] ∨
      ∀ id ∈ members, (r.doclet id).passedName? owner ≠ some l) :
    r.Spares (·.documentedAt l) (members.foldl (passOn relation owner) r) := by
  refine .foldl fun id listed s spares => spares_documentedAt ?_
  have same : s.index.documentedAt l = r.index.documentedAt l := spares.same
  rw [same, (spares.onward.doclet id (bound id listed)).passedName?]
  exact kept.imp_right fun apart => apart id listed

/-- The members passed on leave one copy under each of their longnames that nothing documented. -/
theorem exists_copiedAs (relation : Relation) (bound : ∀ id ∈ members, id < r.doclets.size)
    (listed : member ∈ members) (passed : (r.doclet member).passedName? owner = some l)
    (fresh : r.index.documentedAt l = []) :
    ∃ copy, r.CopiedAs (members.foldl (passOn relation owner) r) relation owner members l copy := by
  obtain ⟨original, found⟩ : ∃ original,
      members.find? (fun id => (r.doclet id).passedName? owner = some l) = some original :=
    Option.isSome_iff_exists.mp (List.find?_isSome.mpr ⟨member, listed, by simpa using passed⟩)
  obtain ⟨same, before, after, split, early⟩ := List.find?_eq_some_iff_append.mp found
  rw [decide_eq_true_eq] at same
  rw [split, List.forall_mem_append, List.forall_mem_cons] at bound
  obtain ⟨boundBefore, boundOriginal, boundAfter⟩ := bound
  -- what is passed on before the original goes under other longnames
  have first := spares_foldl_passOn relation owner boundBefore
    (Or.inr fun id listed => by simpa using early id listed)
  have run : members.foldl (passOn relation owner) r = after.foldl (passOn relation owner)
      (passOn relation owner (before.foldl (passOn relation owner) r) original) := by
    rw [split, List.foldl_append, List.foldl_cons]
  generalize before.foldl (passOn relation owner) r = t at first run
  have source := first.onward.doclet original boundOriginal
  have passes : (t.doclet original).passedName? owner = some l :=
    (source.passedName? owner).trans same
  obtain ⟨single, result, size, copy⟩ := copied_passOn relation passes (first.same.trans fresh)
  have second := (passedOn_passOn relation owner t original).onward
  generalize passOn relation owner t original = u at run single result size copy second
  -- what is passed on after it finds the copy
  have rest := spares_foldl_passOn relation owner
    (fun id listed => Nat.lt_of_lt_of_le (boundAfter id listed)
      (Nat.le_trans first.onward.size_le second.size_le))
    (Or.inl (single ▸ List.cons_ne_nil _ _))
  rw [← run] at rest
  have last := rest.onward.doclet t.doclets.size size
  rw [copy] at last
  exact ⟨t.doclets.size, rest.same.trans single, rest.onward.mem_results result,
    first.onward.size_le, original, found, (source.copyFor relation owner l).trans last⟩

/-- Received members are kept apart by scope and name alone. What a receiver is passed under a
longname that nothing documents, it gets in one copy, and the copies of two members are one exactly
if these have the same scope and the same name. For members whose longnames are made of nothing else,
that is exactly if they have the same longname. -/
theorem copies_apart_iff (h : r.Consistent) (relation : Relation) (receiver : DocletId)
    (other : (r.doclet receiver).longname ≠ parent) {first second : DocletId} {a b : String}
    (firstListed : first ∈ r.index.membersOf parent)
    (secondListed : second ∈ r.index.membersOf parent)
    (firstPassed : (r.doclet first).passedName? (r.doclet receiver).longname = some a)
    (secondPassed : (r.doclet second).passedName? (r.doclet receiver).longname = some b)
    (firstFresh : r.index.documentedAt a = []) (secondFresh : r.index.documentedAt b = []) :
    ∃ c d, r.CopiedAs (copyMembers relation receiver r parent) relation
        (r.doclet receiver).longname (r.index.membersOf parent) a c ∧
      r.CopiedAs (copyMembers relation receiver r parent) relation
        (r.doclet receiver).longname (r.index.membersOf parent) b d ∧
      (c = d ↔ a = b) ∧
      (a = b ↔ (r.doclet first).scope = (r.doclet second).scope ∧
        (r.doclet first).ownName = (r.doclet second).ownName) ∧
      ((r.doclet first).passedName? parent = some (r.doclet first).longname →
        (r.doclet second).passedName? parent = some (r.doclet second).longname →
        (a = b ↔ (r.doclet first).longname = (r.doclet second).longname)) := by
  have bound (id : DocletId) (listed : id ∈ r.index.membersOf parent) : id < r.doclets.size := by
    rw [h.memberof, List.mem_filter, Array.mem_toList_iff] at listed
    exact h.valid id listed.1
  have run : copyMembers relation receiver r parent =
      (r.index.membersOf parent).foldl (passOn relation (r.doclet receiver).longname) r := by
    unfold copyMembers
    exact if_neg other
  rw [run]
  obtain ⟨c, left⟩ := exists_copiedAs relation bound firstListed firstPassed firstFresh
  obtain ⟨d, right⟩ := exists_copiedAs relation bound secondListed secondPassed secondFresh
  have names := Doclet.passedName?_eq_iff firstPassed secondPassed
  refine ⟨c, d, left, right, ?_, names, ?_⟩
  · constructor
    · rintro rfl
      exact left.longname.symm.trans right.longname
    · rintro rfl
      exact (List.cons.inj (left.single.symm.trans right.single)).1
  · intro firstOwn secondOwn
    rw [names, ← Doclet.passedName?_eq_iff firstOwn secondOwn]

/-- A method of which only the longname says which overload it is. -/
def overload (longname : String) : Doclet :=
  { Doclet.empty with
    name := some "f", longname := longname, memberof := some "P", scope := some .perInstance,
    kind := some .function }

/-- A class with two overloads of a method, and a class that receives its members in every way. -/
def overloads : Registry :=
  ofDoclets [
    { Doclet.empty with longname := "P", kind := some .class },
    overload "P#f(1)",
    overload "P#f(2)",
    { Doclet.empty with
      longname := "R", kind := some .class, mixes := ["P"], implements := ["P"],
      augments := ["P"] }]

/-- The overloads are what is documented under their longnames. The receiver documents no member,
and gets one for the two. -/
theorem overload_dropped : overloads.Consistent ∧
    (∀ longname ∈ ["P#f(1)", "P#f(2)"],
      let d := Doclet.resolve { Doclet.empty with name := some longname }
      (d.name, d.longname, d.memberof, d.scope) =
        ((overload longname).name, longname, (overload longname).memberof,
          (overload longname).scope)) ∧
    overloads.resultDoclets.map Doclet.longname = ["P", "P#f(1)", "P#f(2)", "R"] ∧
    overloads.index.membersOf "R" = [] ∧
    ∀ relation ∈ [Relation.mixed, .implemented, .inherited],
      "P" ∈ (overloads.doclet 4).related relation ∧
      (copyMembers relation 4 overloads "P").resultDoclets.map Doclet.longname =
        ["P", "P#f(1)", "P#f(2)", "R", "R#f"] :=
  ⟨consistent_ofDoclets _, by decide +kernel, by decide +kernel, by decide +kernel,
    by decide +kernel⟩

/-- The one copy is that of the overload documented first. -/
theorem copies_apart_iff_overloads : overloads.Consistent ∧
    (overloads.doclet 2).longname ≠ (overloads.doclet 3).longname ∧
    ∃ copy, overloads.CopiedAs (copyMembers .inherited 4 overloads "P") .inherited "R" [2, 3] "R#f"
      copy := by
  have sound : overloads.Consistent := consistent_ofDoclets _
  have members : overloads.index.membersOf "P" = [2, 3] := by decide +kernel
  have receiver : (overloads.doclet 4).longname = "R" := by decide +kernel
  refine ⟨sound, by decide +kernel, ?_⟩
  have first : 2 ∈ overloads.index.membersOf "P" := by simp [members]
  have second : 3 ∈ overloads.index.membersOf "P" := by simp [members]
  have other : (overloads.doclet 4).longname ≠ "P" := receiver ▸ by decide
  have passed : (overloads.doclet 2).passedName? (overloads.doclet 4).longname = some "R#f" := by
    decide +kernel
  have passed' : (overloads.doclet 3).passedName? (overloads.doclet 4).longname = some "R#f" := by
    decide +kernel
  have fresh : overloads.index.documentedAt "R#f" = [] := by decide +kernel
  obtain ⟨copy, _, copied, _⟩ :=
    copies_apart_iff sound .inherited 4 other first second passed passed' fresh fresh
  rw [members, receiver] at copied
  exact ⟨copy, copied⟩

end Registry

end Doclets
