import Doclets.Doclet.Identity
import Doclets.Proofs.Longname.Whole

/-!
How name, parent and scope of a doclet are made to agree, where each is what the code spells: a
segment below a whole parent, or a path that holds its parent itself.
-/

namespace Doclets.Doclet

open Longname (Apart EndsIn Path Segment Spelled Whole member shorten)

variable {d : Doclet} {name parent path : String} {c : Char} {s : Scope}

/-! ### The steps -/

theorem qualifyName_of_kept (named : d.name = some name) (filled : name ≠ "")
    (kept : Longname.spellPrototypes name = name)
    (settled : (d.memberof.getD "" ≠ "") ∨ d.funcscope? = none) : d.qualifyName = (name, d) := by
  have same : { d with name := some name } = d := by
    cases d
    cases named
    rfl
  unfold qualifyName
  simp only [named, Option.map_some, Option.getD_some, kept, same]
  rcases settled with known | free
  · simp [filled, known]
  · simp [filled, free]

theorem qualifyName_of_spelled (named : d.name = some name) (filled : name ≠ "")
    (spelled : Spelled name.toList) (settled : (d.memberof.getD "" ≠ "") ∨ d.funcscope? = none) :
    d.qualifyName = (name, d) :=
  qualifyName_of_kept named filled (Longname.spellPrototypes_of_spelled spelled) settled

theorem adopt_member (whole : Whole parent) (segment : Segment name)
    (unnamed : d.longname = "" ∨ d.longname = member parent c name) :
    d.adopt ⟨member parent c name, parent, some c, name, none⟩ =
      { d with
        name := some name, memberof := some parent, longname := member parent c name } := by
  have filled := Longname.member_ne_empty parent c name
  rcases unnamed with fresh | same
  · simp [adopt, withMemberof, whole.parentOf, segment.ne_empty, whole.ne_empty, fresh, filled]
  · simp [adopt, withMemberof, whole.parentOf, segment.ne_empty, whole.ne_empty, same]

theorem settle_member (whole : Whole parent) (limited : d.scope ≠ some .global) :
    d.settle (some ⟨member parent c name, parent, some c, name, none⟩) =
      { d with scope := Scope.ofPunctuation c } := by
  have other : parent ≠ Longname.global := by
    rintro rfl
    exact whole.not_global (List.prefix_refl _)
  simp [settle, limited, other]

/-- A path that was taken apart settles everything, if the longname is not another one yet. -/
theorem resolve_of_divided {q between : Doclet} (qualified : d.qualifyName = (path, q))
    (divided : q.divide path = (some ⟨member parent c name, parent, some c, name, none⟩, between))
    (whole : Whole parent) (segment : Segment name)
    (unnamed : between.longname = "" ∨ between.longname = member parent c name)
    (limited : between.scope ≠ some .global) :
    d.resolve = { between with
      name := some name, memberof := some parent, longname := member parent c name,
      scope := Scope.ofPunctuation c } := by
  have filled := Longname.member_ne_empty parent c name
  unfold resolve
  simp only [qualified, divided, adopt_member whole segment unnamed]
  rw [settle_member whole (by exact limited)]
  simp [filled]

/-! ### Names below a parent -/

theorem divide_below (filled : parent ≠ "") (known : d.memberof = some parent)
    (spelled : Spelled parent.toList) : d.divide name = d.divideBelow name parent := by
  unfold divide
  simp [known, filled, Longname.spellPrototypes_of_spelled spelled]

/-- A name below a parent that ends in punctuation. -/
theorem resolve_joined (whole : Whole parent) (punctuation : isPunctuation c = true)
    (segment : Segment name) (named : d.name = some name)
    (known : d.memberof = some (parent ++ String.singleton c)) (unnamed : d.longname = "")
    (limited : d.scope ≠ some .global) :
    d.resolve = { d with
      memberof := some parent, longname := member parent c name,
      scope := Scope.ofPunctuation c } := by
  have text : (parent ++ String.singleton c).toList = parent.toList ++ [c] := by simp
  have filled : parent ++ String.singleton c ≠ "" := by
    intro none
    rw [none] at text
    simp at text
  have other : name ≠ parent ++ String.singleton c := by
    rintro rfl
    have plain := Longname.isPunctuation_of_not_isMark (segment.plain c (by simp))
    rw [plain] at punctuation
    cases punctuation
  have joined : Longname.endsJoined (parent ++ String.singleton c) = true := by
    simp [Longname.endsJoined, punctuation]
  have divided : d.divide name =
      (some ⟨member parent c name, parent, some c, name, none⟩, d) := by
    rw [divide_below filled known (text ▸ whole.spelled.join punctuation Longname.spelled_nil)]
    unfold divideBelow
    rw [if_neg (by simpa using segment.ne_empty), Longname.isMemberPath_of_plain segment.plain,
      if_neg Bool.false_ne_true, if_neg other, if_pos joined]
    exact Prod.ext (congrArg some (Longname.shorten_member whole.toPath punctuation segment)) rfl
  have qualified := qualifyName_of_spelled named segment.ne_empty segment.spelled
    (Or.inl (by simp [known]))
  rw [resolve_of_divided qualified divided whole segment (Or.inl unnamed) limited, ← named]

theorem punctuation_eq (punctuation : s.punctuation? = some c) :
    s.punctuation = String.singleton c := by
  simp [Scope.punctuation, punctuation]

theorem isPunctuation_of_scope (punctuation : s.punctuation? = some c) :
    isPunctuation c = true := by
  cases s <;> cases punctuation <;> rfl

theorem exists_scope_of_isPunctuation (punctuation : isPunctuation c = true) :
    ∃ s, Scope.ofPunctuation c = some s ∧ s.punctuation? = some c := by
  simp only [isPunctuation, Bool.or_eq_true, decide_eq_true_eq] at punctuation
  rcases punctuation with (rfl | rfl) | rfl <;> exact ⟨_, rfl, rfl⟩

/-- A name below a parent, in a scope that is known. -/
theorem resolve_scoped (whole : Whole parent) (segment : Segment name)
    (named : d.name = some name) (known : d.memberof = some parent) (unnamed : d.longname = "")
    (scope : d.scope = some s) (punctuation : s.punctuation? = some c) :
    d.resolve = { d with longname := member parent c name } := by
  have limited : s ≠ .global := by
    rintro rfl
    cases punctuation
  have parts := congrArg some (Longname.shorten_member whole.toPath
    (isPunctuation_of_scope punctuation) segment)
  have divided : d.divide name =
      (some ⟨member parent c name, parent, some c, name, none⟩, d) := by
    rw [divide_below whole.ne_empty known whole.spelled]
    unfold divideBelow
    rw [if_neg (by simpa using segment.ne_empty), Longname.isMemberPath_of_plain segment.plain,
      if_neg Bool.false_ne_true, segment.not_module, if_neg Bool.false_ne_true, scope,
      whole.not_joined, if_neg Bool.false_ne_true, Option.getD_some]
    split
    · dsimp only
      rw [punctuation_eq punctuation]
      refine Prod.ext parts ?_
      cases d
      cases scope
      rfl
    · cases s with
      | global => exact absurd rfl limited
      | static | perInstance | inner =>
        cases punctuation
        exact Prod.ext parts rfl
  have qualified := qualifyName_of_spelled named segment.ne_empty segment.spelled
    (Or.inl (by simp [known, whole.ne_empty]))
  have resolved := resolve_of_divided qualified divided whole segment (Or.inl unnamed)
    (by simp [scope, limited])
  rw [resolved, Scope.ofPunctuation_eq_some_iff.mpr punctuation]
  cases d
  cases named
  cases known
  cases scope
  rfl

/-- The punctuation that a path begins with is not its last character. -/
theorem getLast?_own (own : Path path) : (if (path.toList.head?.bind Scope.ofPunctuation).isSome then
    String.ofList (path.toList.drop 1) else path).toList.getLast? = path.toList.getLast? := by
  split
  next leading =>
    obtain ⟨scope, leading⟩ := Option.isSome_iff_exists.mp leading
    obtain ⟨first, head, mark⟩ := Option.bind_eq_some_iff.mp leading
    have punctuation := isPunctuation_of_scope (Scope.ofPunctuation_eq_some_iff.mp mark)
    cases text : path.toList with
    | nil => simp [text] at head
    | cons c rest =>
      cases rest with
      | nil =>
        rw [text, List.head?_cons] at head
        have joined := own.not_joined
        rw [Longname.endsJoined, text, List.getLast?_singleton, Option.some.inj head] at joined
        exact absurd punctuation (by simpa using joined)
      | cons next rest => simp
  next => rfl

/-- A path below a parent that settles no scope stays below it. -/
theorem resolve_unscoped (whole : Whole parent) (own : Path path)
    (apart : Apart parent path)
    (named : d.name = some path) (known : d.memberof = some parent) (unnamed : d.longname = "")
    (scope : d.scope = none) : d.resolve.memberof = some parent ∧
      d.resolve.longname.toList.getLast? = path.toList.getLast? := by
  have divided : d.divide path = (none, d) := by
    rw [divide_below whole.ne_empty known whole.spelled]
    unfold divideBelow
    rw [if_neg (by simpa using own.ne_empty), apart.not_member, if_neg Bool.false_ne_true,
      if_neg apart.ne, whole.not_joined, if_neg Bool.false_ne_true, scope]
  have qualified := qualifyName_of_spelled named own.ne_empty own.spelled
    (Or.inl (by simp [known, whole.ne_empty]))
  have settled : d.settle none = d.join := by simp [settle, scope, unnamed]
  have last := getLast?_own own
  unfold resolve
  simp only [qualified, divided, settled]
  unfold join
  simp only [named, known]
  generalize (if (path.toList.head?.bind Scope.ofPunctuation).isSome then
    String.ofList (path.toList.drop 1) else path) = text at last ⊢
  generalize ((path.toList.head?.bind Scope.ofPunctuation).or d.scopeInCode).getD .static = s
  have filled : text.toList ≠ [] := by
    intro none
    rw [none] at last
    have empty := List.getLast?_eq_none_iff.mp last.symm
    exact own.ne_empty (by simpa using empty)
  rw [if_neg (by simp [whole.ne_empty])]
  refine ⟨rfl, ?_⟩
  rw [String.toList_append, List.getLast?_append_of_ne_nil _ filled]
  exact last

/-- A name equal to its parent is a static member of it. -/
theorem resolve_same (whole : Whole name) (segment : Segment name) (named : d.name = some name)
    (known : d.memberof = some name) (unnamed : d.longname = "") (scope : d.scope = none) :
    d.resolve.memberof = some name ∧ d.resolve.longname = member name '.' name := by
  have static : isPunctuation '.' = true := rfl
  have divided : d.divide name = (some ⟨member name '.' name, name, some '.', name, none⟩,
      { d with scope := some .static }) := by
    rw [divide_below whole.ne_empty known whole.spelled]
    unfold divideBelow
    rw [if_neg (by simpa using segment.ne_empty), Longname.isMemberPath_of_plain segment.plain,
      if_neg Bool.false_ne_true, if_pos rfl, segment.not_module, if_neg Bool.false_ne_true, scope]
    exact Prod.ext (congrArg some (Longname.shorten_member whole.toPath static segment)) rfl
  have qualified := qualifyName_of_spelled named segment.ne_empty segment.spelled
    (Or.inl (by simp [known, whole.ne_empty]))
  rw [resolve_of_divided qualified divided whole segment (Or.inl unnamed) (by simp)]
  exact ⟨rfl, rfl⟩

/-- Where nothing else settles the scope, the name in the code does. -/
theorem resolve_of_undivided (qualified : d.qualifyName = (name, d))
    (divided : d.divide name = (none, d)) (named : d.name = some name)
    (known : d.memberof = some parent) (unnamed : d.longname = "") (scope : d.scope = none)
    (bare : name.toList.head?.bind Scope.ofPunctuation = none)
    (punctuation : (d.scopeInCode.getD .static).punctuation? = some c) :
    d.resolve = { d with
      name := some name, memberof := some parent, longname := member parent c name,
      scope := Scope.ofPunctuation c } := by
  have joined : d.join = { d with
      name := some name, memberof := some parent, longname := member parent c name,
      scope := Scope.ofPunctuation c } := by
    unfold join
    simp only [named, known, bare, Option.none_or]
    rw [punctuation_eq punctuation, Scope.ofPunctuation_eq_some_iff.mpr punctuation]
    rfl
  have filled : d.join.longname ≠ "" := by
    rw [joined]
    exact Longname.member_ne_empty parent c name
  have settled : d.settle none = d.join := by simp [settle, scope, unnamed]
  rw [← joined]
  unfold resolve
  simp only [qualified, divided, settled]
  rw [if_neg (by simpa using filled)]

/-- A name that begins with punctuation says the scope itself. -/
theorem resolve_marked (whole : Whole parent) (punctuation : isPunctuation c = true)
    (segment : Segment name) (other : parent ≠ String.singleton c ++ name)
    (named : d.name = some (String.singleton c ++ name)) (known : d.memberof = some parent)
    (unnamed : d.longname = "") (scope : d.scope = none) :
    d.resolve = { d with
      name := some name, memberof := some parent, longname := member parent c name,
      scope := Scope.ofPunctuation c } := by
  obtain ⟨s, mark, joins⟩ := exists_scope_of_isPunctuation punctuation
  have text : (String.singleton c ++ name).toList = c :: name.toList := by simp
  have filled : String.singleton c ++ name ≠ "" := by
    intro none
    rw [none] at text
    cases text
  have spelled : Spelled (String.singleton c ++ name).toList := by
    rw [text]
    exact Longname.spelled_nil.join punctuation segment.spelled
  have apart : Longname.isMemberPath (String.singleton c ++ name) parent = false := by
    unfold Longname.isMemberPath
    split
    next e rest found =>
      rw [List.isPrefixOf?_eq_some_iff_append_eq, text] at found
      cases chars : parent.toList with
      | nil => exact absurd (String.toList_injective chars) whole.ne_empty
      | cons first tail =>
        rw [chars, List.cons_append] at found
        have inside : e ∈ name.toList := by
          rw [← (List.cons.inj found).2]
          simp
        exact Longname.isPunctuation_of_not_isMark (segment.plain e inside)
    · rfl
  have divided : d.divide (String.singleton c ++ name) = (none, d) := by
    rw [divide_below whole.ne_empty known whole.spelled]
    unfold divideBelow
    rw [if_neg (by simp), apart, if_neg Bool.false_ne_true, if_neg (Ne.symm other),
      whole.not_joined, if_neg Bool.false_ne_true, scope]
  have qualified := qualifyName_of_spelled named filled spelled
    (Or.inl (by simp [known, whole.ne_empty]))
  have settled : d.settle none = d.join := by simp [settle, scope, unnamed]
  have joined : d.join = { d with
      name := some name, memberof := some parent, longname := member parent c name,
      scope := Scope.ofPunctuation c } := by
    unfold join
    simp only [named, known, text, List.head?_cons, Option.bind_some, mark, Option.isSome_some,
      if_true, List.drop_one, List.tail_cons, String.ofList_toList, Option.some_or,
      Option.getD_some]
    rw [punctuation_eq joins]
    rfl
  have long : d.join.longname ≠ "" := by
    rw [joined]
    exact Longname.member_ne_empty parent c name
  rw [← joined]
  unfold resolve
  simp only [qualified, divided, settled]
  rw [if_neg (by simpa using long)]

theorem head?_of_plain (plain : Longname.Plain name.toList) :
    name.toList.head?.bind Scope.ofPunctuation = none := by
  cases text : name.toList with
  | nil => rfl
  | cons c rest =>
    have other := Longname.isPunctuation_of_not_isMark (plain c (by simp [text]))
    rw [List.head?_cons, Option.bind_some, Option.eq_none_iff_forall_ne_some]
    intro s mark
    have also := isPunctuation_of_scope (Scope.ofPunctuation_eq_some_iff.mp mark)
    rw [other] at also
    cases also

/-- A plain name below a parent is a static member of it, if the name in the code suggests no other
scope. -/
theorem resolve_static (whole : Whole parent) (filled : name ≠ "")
    (plain : Longname.Plain name.toList) (named : d.name = some name)
    (known : d.memberof = some parent) (unnamed : d.longname = "") (scope : d.scope = none)
    (untold : d.scopeInCode = none) : d.resolve.memberof = some parent ∧
      d.resolve.longname = member parent '.' name := by
  by_cases same : name = parent
  · subst same
    have other : name.toList ≠ Longname.prototypeWord := fun word => by
      have ended := whole.spelled [] [] (by simp [word]) (Or.inl rfl)
      cases ended
    exact resolve_same whole ⟨filled, plain, other⟩ named known unnamed scope
  · have divided : d.divide name = (none, d) := by
      rw [divide_below whole.ne_empty known whole.spelled]
      unfold divideBelow
      rw [if_neg (by simpa using filled), Longname.isMemberPath_of_plain plain,
        if_neg Bool.false_ne_true, if_neg same, whole.not_joined, if_neg Bool.false_ne_true, scope]
    have qualified := qualifyName_of_kept named filled (Longname.spellPrototypes_of_plain plain)
      (Or.inl (by simp [known, whole.ne_empty]))
    have static : (d.scopeInCode.getD .static).punctuation? = some '.' := by
      rw [untold]
      rfl
    rw [resolve_of_undivided qualified divided named known unnamed scope (head?_of_plain plain)
      static]
    exact ⟨rfl, rfl⟩

/-! ### Paths -/

theorem divide_alone (free : d.memberof = none) : d.divide path = (some (shorten path), d) := by
  unfold divide
  simp [free]

/-- A path without a parent is taken apart. -/
theorem resolve_path (whole : Whole parent) (punctuation : isPunctuation c = true)
    (segment : Segment name) (named : d.name = some (member parent c name))
    (free : d.memberof = none) (undeclared : d.funcscope? = none) (unnamed : d.longname = "")
    (limited : d.scope ≠ some .global) :
    d.resolve = { d with
      name := some name, memberof := some parent, longname := member parent c name,
      scope := Scope.ofPunctuation c } := by
  have path := whole.toPath.join punctuation segment.path
  have qualified := qualifyName_of_spelled named path.ne_empty path.spelled (Or.inr undeclared)
  apply resolve_of_divided qualified _ whole segment (Or.inl unnamed) limited
  rw [divide_alone free, Longname.shorten_member whole.toPath punctuation segment]

theorem isMemberPath_member (punctuation : isPunctuation c = true) :
    Longname.isMemberPath (member parent c name) parent = true := by
  have front : parent.toList.isPrefixOf? (member parent c name).toList = some (c :: name.toList) := by
    rw [List.isPrefixOf?_eq_some_iff_append_eq, Longname.toList_member]
  unfold Longname.isMemberPath
  rw [front]
  exact punctuation

/-- A path below the parent that it begins with is taken apart as it is. -/
theorem resolve_path_below (whole : Whole parent) (punctuation : isPunctuation c = true)
    (segment : Segment name) (named : d.name = some (member parent c name))
    (known : d.memberof = some parent) (unnamed : d.longname = "")
    (limited : d.scope ≠ some .global) :
    d.resolve = { d with
      name := some name, memberof := some parent, longname := member parent c name,
      scope := Scope.ofPunctuation c } := by
  have path := whole.toPath.join punctuation segment.path
  have divided : d.divide (member parent c name) =
      (some ⟨member parent c name, parent, some c, name, none⟩, d) := by
    rw [divide_below whole.ne_empty known whole.spelled]
    unfold divideBelow
    rw [if_neg (by simpa using path.ne_empty), if_pos (isMemberPath_member punctuation),
      Longname.shorten_member whole.toPath punctuation segment]
  have qualified := qualifyName_of_spelled named path.ne_empty path.spelled
    (Or.inl (by simp [known, whole.ne_empty]))
  exact resolve_of_divided qualified divided whole segment (Or.inl unnamed) limited

/-- What a function scope declares is an inner member of it. -/
theorem qualifyName_of_funcscope {spelled scope : String} (named : d.name = some name)
    (spells : Longname.spellPrototypes name = spelled) (filled : spelled ≠ "")
    (free : d.memberof = none) (declared : d.funcscope? = some scope) :
    d.qualifyName = (member scope '~' spelled,
      { d with name := some spelled, longname := member scope '~' spelled }) := by
  have within : ({ d with name := some spelled } : Doclet).funcscope? = some scope := declared
  unfold qualifyName
  simp only [named, Option.map_some, Option.getD_some, spells, within]
  simp [filled, free, member, punctuation_eq (s := .inner) rfl]

/-- A segment without a parent is its own longname. -/
theorem resolve_segment (segment : Segment name) (named : d.name = some name)
    (free : d.memberof = none) (undeclared : d.funcscope? = none) (unnamed : d.longname = "")
    (limited : d.scope ≠ some .global) : d.resolve = { d with longname := name } := by
  have qualified := qualifyName_of_spelled named segment.ne_empty segment.spelled
    (Or.inr undeclared)
  unfold resolve
  simp only [qualified, divide_alone free, Longname.shorten_segment segment]
  unfold adopt settle
  simp only [unnamed, ← named]
  simp [segment.ne_empty, limited]

/-- A segment that a function scope declares is an inner member of that function. -/
theorem resolve_of_funcscope {scope : String} (whole : Whole scope) (segment : Segment name)
    (named : d.name = some name) (free : d.memberof = none) (declared : d.funcscope? = some scope)
    (limited : d.scope ≠ some .global) :
    d.resolve = { d with
      memberof := some scope, longname := member scope '~' name, scope := some .inner } := by
  have qualified := qualifyName_of_funcscope named
    (Longname.spellPrototypes_of_spelled segment.spelled) segment.ne_empty free declared
  let within : Doclet := { d with name := some name, longname := member scope '~' name }
  have divided : within.divide (member scope '~' name) =
      (some (shorten (member scope '~' name)), within) := divide_alone free
  rw [Longname.shorten_member whole.toPath rfl segment] at divided
  rw [resolve_of_divided qualified divided whole segment (Or.inr rfl) limited, ← named]
  rfl

theorem scopeInCode_of_segment (segment : Segment name) (code : d.codeName = some name) :
    d.scopeInCode = none := by
  unfold scopeInCode
  rw [code, Option.bind_some, Longname.shorten_segment segment]
  rfl

theorem divide_within (whole : Whole parent) (filled : path ≠ "")
    (apart : Apart parent path) (known : d.memberof = some parent)
    (scope : d.scope = some s) (punctuation : s.punctuation? = some c) :
    d.divide path = (some (shorten (member parent c path)), d) := by
  rw [divide_below whole.ne_empty known whole.spelled]
  unfold divideBelow
  rw [if_neg (by simpa using filled), apart.not_member, if_neg Bool.false_ne_true,
    if_neg apart.ne, whole.not_joined, if_neg Bool.false_ne_true, scope]
  cases s with
  | global => cases punctuation
  | static | perInstance | inner =>
    cases punctuation
    rfl

/-- A path within a parent, in a scope that is known, is a path below the parent. -/
theorem resolve_path_within {outer : String} {e : Char} (whole : Whole outer) (own : Path parent)
    (mark : isPunctuation c = true) (segment : Segment name)
    (named : d.name = some (member parent c name)) (known : d.memberof = some outer)
    (apart : Apart outer (member parent c name)) (unnamed : d.longname = "")
    (scope : d.scope = some s) (punctuation : s.punctuation? = some e) :
    d.resolve = { d with
      name := some name, memberof := some (member outer e parent),
      longname := member (member outer e parent) c name, scope := Scope.ofPunctuation c } := by
  have limited : s ≠ .global := by
    rintro rfl
    cases punctuation
  have path := own.join mark segment.path
  have below := whole.join (isPunctuation_of_scope punctuation) own
  have divided := divide_within whole path.ne_empty apart known scope punctuation
  have joined : member outer e (member parent c name) = member (member outer e parent) c name := by
    simp only [member, String.append_assoc]
  rw [joined, Longname.shorten_member below.toPath mark segment] at divided
  have qualified := qualifyName_of_spelled named path.ne_empty path.spelled
    (Or.inl (by simp [known, whole.ne_empty]))
  exact resolve_of_divided qualified divided below segment (Or.inl unnamed)
    (by simp [scope, limited])

/-- The longname of a path that was taken apart is the path as it is spelled out, if that is not
another one yet. -/
theorem longname_of_shortened {q between : Doclet} (filled : Longname.spellPrototypes path ≠ "")
    (qualified : d.qualifyName = (name, q))
    (divided : q.divide name = (some (shorten path), between))
    (unnamed : between.longname = "" ∨ between.longname = Longname.spellPrototypes path)
    (limited : between.scope ≠ some .global) :
    d.resolve.longname = Longname.spellPrototypes path := by
  have text : (shorten path).longname = Longname.spellPrototypes path := rfl
  have adopted : (between.adopt (shorten path)).longname = Longname.spellPrototypes path ∧
      (between.adopt (shorten path)).scope = between.scope := by
    unfold adopt withMemberof
    simp only [text]
    rcases unnamed with fresh | same
    · split <;> split <;> simp [filled, fresh]
    · split <;> split <;> split <;> simp [same]
  have settled : ((between.adopt (shorten path)).settle (some (shorten path))).longname =
      Longname.spellPrototypes path := by
    unfold settle
    rw [if_neg (by rw [adopted.2]; exact limited)]
    split
    · exact adopted.1
    · rw [if_neg (by simp [adopted.1, filled])]
      exact adopted.1
  unfold resolve
  simp only [qualified, divided]
  rw [if_neg (by simp [settled, filled])]
  exact settled

/-- The longname of a path that is spelled out already is the path. -/
theorem longname_of_divided {q between : Doclet} (filled : path ≠ "")
    (kept : Longname.spellPrototypes path = path) (qualified : d.qualifyName = (name, q))
    (divided : q.divide name = (some (shorten path), between))
    (unnamed : between.longname = "" ∨ between.longname = path)
    (limited : between.scope ≠ some .global) : d.resolve.longname = path := by
  rw [← kept] at filled unnamed
  exact (longname_of_shortened filled qualified divided unnamed limited).trans kept

/-- A path without a parent is its own longname. -/
theorem longname_resolve_alone (own : Path path) (named : d.name = some path)
    (free : d.memberof = none) (undeclared : d.funcscope? = none) (unnamed : d.longname = "")
    (limited : d.scope ≠ some .global) : d.resolve.longname = path :=
  longname_of_divided own.ne_empty (Longname.spellPrototypes_of_spelled own.spelled)
    (qualifyName_of_spelled named own.ne_empty own.spelled (Or.inr undeclared))
    (divide_alone free) (Or.inl unnamed) limited

/-- A path below a parent, in a scope that is known. -/
theorem resolve_within (whole : Whole parent) (segment : Segment name) (ends : EndsIn name path)
    (named : d.name = some path) (known : d.memberof = some parent)
    (apart : path ≠ name → Apart parent path) (unnamed : d.longname = "")
    (scope : d.scope = some s) (punctuation : s.punctuation? = some c) :
    d.resolve.longname = member parent c path ∧
      d.resolve.memberof = some (shorten (member parent c path)).memberof := by
  have mark := isPunctuation_of_scope punctuation
  cases ends with
  | alone =>
    rw [resolve_scoped whole segment named known unnamed scope punctuation,
      Longname.shorten_member whole.toPath mark segment]
    exact ⟨rfl, known⟩
  | @joined front e inner inside =>
    have longer : member front e name ≠ name := by
      intro same
      have length := congrArg List.length (congrArg String.toList same)
      rw [Longname.toList_member, List.length_append, List.length_cons] at length
      omega
    have joined : member parent c (member front e name) = member (member parent c front) e name := by
      simp only [member, String.append_assoc]
    rw [resolve_path_within whole inner.toPath inside segment named known (apart longer) unnamed
      scope punctuation, joined,
      Longname.shorten_member (whole.toPath.join mark inner.toPath) inside segment]
    exact ⟨rfl, rfl⟩

/-- A path below a parent, in the scope that its name suggests. -/
theorem resolve_suggested (whole : Whole parent) (segment : Segment name) (ends : EndsIn name path)
    (named : d.name = some path) (known : d.memberof = some parent)
    (apart : path ≠ name → Apart parent path) (unnamed : d.longname = "")
    (scope : d.scope = none) : d.resolve.memberof = some parent ∧
      d.resolve.longname.toList.getLast? = path.toList.getLast? := by
  by_cases same : path = parent
  · subst same
    by_cases alone : path = name
    · subst alone
      obtain ⟨above, longname⟩ := resolve_same whole segment named known unnamed scope
      refine ⟨above, ?_⟩
      rw [longname, Longname.toList_member, List.getLast?_append_of_ne_nil _ (by simp),
        List.getLast?_cons_of_ne_nil (by simpa using segment.ne_empty)]
    · exact absurd rfl (apart alone).ne
  · refine resolve_unscoped whole (ends.path segment) ?_ named known unnamed scope
    by_cases alone : path = name
    · exact ⟨same, Longname.isMemberPath_of_plain (alone ▸ segment.plain)⟩
    · exact apart alone

/-! ### What has no part in the identity -/

/-- Doclets that differ in nothing but name, longname, parent and scope. -/
def SameContent (d e : Doclet) : Prop := ∃ name longname memberof scope,
  e = { d with name := name, longname := longname, memberof := memberof, scope := scope }

theorem SameContent.refl (d : Doclet) : d.SameContent d := by
  refine ⟨d.name, d.longname, d.memberof, d.scope, ?_⟩
  cases d
  rfl

theorem SameContent.trans {c d e : Doclet} (first : c.SameContent d) (second : d.SameContent e) :
    c.SameContent e := by
  obtain ⟨_, _, _, _, rfl⟩ := first
  obtain ⟨name, longname, memberof, scope, rfl⟩ := second
  exact ⟨name, longname, memberof, scope, rfl⟩

theorem SameContent.kind {d e : Doclet} (same : d.SameContent e) : e.kind = d.kind := by
  obtain ⟨_, _, _, _, rfl⟩ := same
  rfl

theorem SameContent.thisName {d e : Doclet} (same : d.SameContent e) : e.thisName = d.thisName := by
  obtain ⟨_, _, _, _, rfl⟩ := same
  rfl

theorem SameContent.comment {d e : Doclet} (same : d.SameContent e) : e.comment = d.comment := by
  obtain ⟨_, _, _, _, rfl⟩ := same
  rfl

theorem SameContent.undocumented {d e : Doclet} (same : d.SameContent e) :
    e.undocumented = d.undocumented := by
  obtain ⟨_, _, _, _, rfl⟩ := same
  rfl

theorem SameContent.properties {d e : Doclet} (same : d.SameContent e) :
    e.properties = d.properties := by
  obtain ⟨_, _, _, _, rfl⟩ := same
  rfl

theorem sameContent_qualifyName (d : Doclet) : d.SameContent d.qualifyName.2 := by
  unfold qualifyName
  dsimp only
  split
  · exact .refl d
  · split
    · split <;> exact ⟨_, _, _, _, rfl⟩
    · exact ⟨_, _, _, _, rfl⟩

theorem sameContent_divide (d : Doclet) (name : String) : d.SameContent (d.divide name).2 := by
  unfold divide divideBelow
  dsimp only
  split
  · exact .refl d
  · split
    · exact .refl d
    · split
      · exact .refl d
      · split
        · split
          · exact .refl d
          · exact ⟨_, _, _, _, rfl⟩
        · split
          · exact .refl d
          · split <;> exact .refl d

theorem sameContent_adopt (d : Doclet) (path : Longname.Parts) : d.SameContent (d.adopt path) := by
  unfold adopt withMemberof
  dsimp only
  split <;> split <;> split <;> first | exact .refl d | exact ⟨_, _, _, _, rfl⟩

theorem sameContent_settle (d : Doclet) (path : Option Longname.Parts) :
    d.SameContent (d.settle path) := by
  unfold settle join
  split
  · exact ⟨_, _, _, _, rfl⟩
  · split
    · exact ⟨_, _, _, _, rfl⟩
    · split
      · split
        · exact ⟨_, _, _, _, rfl⟩
        · exact .refl d
      · exact .refl d

/-- A doclet is resolved without regard to what it says. -/
theorem sameContent_resolve (d : Doclet) : d.SameContent d.resolve := by
  have qualified := sameContent_qualifyName d
  unfold resolve
  generalize d.qualifyName = first at qualified
  obtain ⟨name, between⟩ := first
  have divided := qualified.trans (sameContent_divide between name)
  dsimp only
  generalize between.divide name = second at divided
  obtain ⟨path, between⟩ := second
  dsimp only
  have last (e : Doclet) (same : d.SameContent e) : d.SameContent
      (if e.longname.isEmpty then { e with longname := e.name.getD "" } else e) := by
    split
    · exact same.trans ⟨_, _, _, _, rfl⟩
    · exact same
  cases path with
  | none => exact last _ (divided.trans (sameContent_settle between none))
  | some p =>
    exact last _ ((divided.trans (sameContent_adopt between p)).trans (sameContent_settle _ (some p)))

end Doclets.Doclet
