import Doclets.Proofs.Doclet.Identity
import Doclets.Proofs.Longname.Words

/-!
The four fields of an identity agree once a doclet is resolved, whatever the comment and the code
said of it in plain words: a longname is the parent, the punctuation of the scope and the name, and
what has no parent is called by its name alone.
-/

namespace Doclets.Doclet

open Longname (Qualified Segment Whole Word Words member shorten)

/-- Name, parent, scope and longname say the same. -/
structure Agrees (d : Doclet) : Prop where
  below : ∀ s parent, d.scope = some s → s ≠ .global → d.memberof = some parent →
    d.longname = parent ++ s.punctuation ++ d.name.getD ""
  global : d.scope = some .global → d.memberof = none ∧ d.longname = d.name.getD ""
  alone : d.memberof = none → d.longname = d.name.getD ""
  name_ne_empty : d.name.getD "" ≠ ""
  longname_ne_empty : d.longname ≠ ""

/-- A plain parent, with the punctuation that joins its members behind it or without. -/
inductive PlainParent : String → Prop where
  | whole {path : String} (qualified : Qualified path) : PlainParent path
  | joined {path : String} {c : Char} (qualified : Qualified path)
    (punctuation : isPunctuation c = true) : PlainParent (path ++ String.singleton c)

/-- The fields are in plain words, and say no longname yet. -/
structure Plain (d : Doclet) (name : String) : Prop where
  named : d.name = some name
  words : Words name
  unnamed : d.longname = ""
  parent : ∀ parent, d.memberof = some parent → PlainParent parent
  funcscope : ∀ scope, d.origin.code.bind CodeOrigin.funcscope = some scope → Qualified scope

variable {d q between : Doclet} {name parent text path : String} {c : Char} {s : Scope}

/-! ### Globals -/

theorem name_adopt (named : d.name.getD "" ≠ "") (p : Longname.Parts) :
    (d.adopt p).name.getD "" ≠ "" ∧ (d.adopt p).scope = d.scope := by
  unfold adopt withMemberof
  dsimp only
  by_cases empty : p.name.isEmpty = true
  · rw [if_pos empty]
    split <;> split <;> exact ⟨named, rfl⟩
  · rw [if_neg empty]
    have filled : p.name ≠ "" := by simpa using empty
    split <;> split <;> exact ⟨filled, rfl⟩

theorem name_divide (d : Doclet) (name : String) (global : d.scope = some .global) :
    (d.divide name).2.name = d.name ∧ (d.divide name).2.scope = some .global := by
  unfold divide divideBelow
  rw [global]
  dsimp only
  split
  · exact ⟨rfl, global⟩
  · split
    · exact ⟨rfl, global⟩
    · split
      · exact ⟨rfl, global⟩
      · split
        · split
          · exact ⟨rfl, global⟩
          · exact ⟨rfl, rfl⟩
        · split <;> exact ⟨rfl, global⟩

theorem name_qualifyName (named : d.name = some name) (words : Words name) :
    d.qualifyName.2.name = some name ∧ d.qualifyName.2.scope = d.scope := by
  unfold qualifyName
  simp only [named, Option.map_some, Option.getD_some,
    Longname.spellPrototypes_of_spelled words.path.spelled]
  rw [if_neg (by simpa using words.path.ne_empty)]
  split
  · split <;> exact ⟨rfl, rfl⟩
  · exact ⟨rfl, rfl⟩

/-- A global has no parent, and is called by the last word of its name. -/
theorem agrees_of_global (named : d.name = some name) (words : Words name)
    (global : d.scope = some .global) : d.resolve.Agrees := by
  obtain ⟨qualified, still⟩ := name_qualifyName named words
  unfold resolve
  generalize d.qualifyName = first at qualified still
  obtain ⟨text, q⟩ := first
  obtain ⟨divided, limited⟩ := name_divide q text (still.trans global)
  dsimp only
  generalize q.divide text = second at divided limited
  obtain ⟨path, between⟩ := second
  have settled (b : Doclet) (filled : b.name.getD "" ≠ "") (global : b.scope = some .global) :
      Agrees (if (b.settle path).longname.isEmpty then
        { b.settle path with longname := (b.settle path).name.getD "" } else b.settle path) := by
    unfold settle
    rw [if_pos global]
    dsimp only
    rw [if_neg (by simpa using filled)]
    refine ⟨?_, fun _ => ⟨rfl, rfl⟩, fun _ => rfl, filled, filled⟩
    intro s parent _ _ known
    cases known
  have filled : between.name.getD "" ≠ "" := by
    rw [show between.name = some name from divided.trans qualified]
    exact words.path.ne_empty
  dsimp only at limited ⊢
  cases path with
  | none => exact settled between filled limited
  | some p =>
    obtain ⟨filled, scope⟩ := name_adopt filled p
    exact settled _ filled (scope.trans limited)

/-! ### Members -/

theorem agrees_member (punctuation : isPunctuation c = true) (filled : name ≠ "") :
    Agrees { d with
      name := some name, memberof := some parent, longname := member parent c name,
      scope := Scope.ofPunctuation c } := by
  obtain ⟨s, mark, joins⟩ := exists_scope_of_isPunctuation punctuation
  have limited : s ≠ .global := by
    rintro rfl
    cases joins
  refine ⟨?_, ?_, ?_, filled, Longname.member_ne_empty parent c name⟩
  · intro other parent scope _ known
    cases known
    obtain rfl := Option.some.inj (mark.symm.trans scope)
    rw [punctuation_eq joins]
    rfl
  · intro global
    exact absurd (Option.some.inj (mark.symm.trans global)) limited
  · intro none
    cases none

/-- What is joined to a whole parent in plain words ends in one of them. -/
theorem exists_member (whole : Whole parent) (punctuation : isPunctuation c = true)
    (words : Words name) : ∃ front e last, Whole front ∧ isPunctuation e = true ∧ Segment last ∧
      member parent c name = member front e last := by
  rcases words.segment_or_join with segment | ⟨front, e, last, inner, mark, segment, rfl⟩
  · exact ⟨parent, c, name, whole, punctuation, segment, rfl⟩
  · refine ⟨member parent c front, e, last, whole.join punctuation inner.path, mark, segment, ?_⟩
    simp only [member, String.append_assoc]

theorem agrees_of_divided (qualified : d.qualifyName = (path, q))
    (divided : q.divide path = (some (shorten (member parent c name)), between))
    (whole : Whole parent) (punctuation : isPunctuation c = true) (segment : Segment name)
    (unnamed : between.longname = "" ∨ between.longname = member parent c name)
    (limited : between.scope ≠ some .global) : d.resolve.Agrees := by
  rw [Longname.shorten_member whole.toPath punctuation segment] at divided
  rw [resolve_of_divided qualified divided whole segment unnamed limited]
  exact agrees_member punctuation segment.ne_empty

/-- Plain words behind a whole parent are taken apart at their last word. -/
theorem agrees_of_joined (qualified : d.qualifyName = (path, q))
    (divided : q.divide path = (some (shorten (member parent c name)), between))
    (whole : Whole parent) (punctuation : isPunctuation c = true) (words : Words name)
    (unnamed : between.longname = "" ∨ between.longname = member parent c name)
    (limited : between.scope ≠ some .global) : d.resolve.Agrees := by
  obtain ⟨front, e, last, inner, mark, segment, same⟩ := exists_member whole punctuation words
  rw [same] at divided unnamed
  exact agrees_of_divided qualified divided inner mark segment unnamed limited

/-! ### Names without a parent -/

/-- What a function scope declares is an inner member of it. -/
theorem agrees_of_funcscope (plain : d.Plain name) (free : d.memberof = none)
    (declared : d.origin.code.bind CodeOrigin.funcscope = some text)
    (limited : d.scope ≠ some .global) : d.resolve.Agrees := by
  have whole := (plain.funcscope text declared).whole
  have within : d.funcscope? = some text := by simp [funcscope?, declared, whole.ne_empty]
  have path := plain.words.path
  have qualified := qualifyName_of_funcscope plain.named
    (Longname.spellPrototypes_of_spelled path.spelled) path.ne_empty free within
  exact agrees_of_joined qualified (divide_alone free) whole rfl plain.words (Or.inr rfl) limited

/-- A word on its own is its own longname. -/
theorem agrees_of_segment (segment : Segment name) (named : d.name = some name)
    (free : d.memberof = none) (undeclared : d.funcscope? = none) (unnamed : d.longname = "")
    (limited : d.scope ≠ some .global) : d.resolve.Agrees := by
  rw [resolve_segment segment named free undeclared unnamed limited]
  refine ⟨?_, fun global => absurd global limited, fun _ => by simp [named], ?_, segment.ne_empty⟩
  · intro _ parent _ _ known
    rw [free] at known
    cases known
  · simpa [named] using segment.ne_empty

theorem agrees_alone (plain : d.Plain name) (free : d.memberof = none)
    (limited : d.scope ≠ some .global) : d.resolve.Agrees := by
  cases declared : d.origin.code.bind CodeOrigin.funcscope with
  | some scope => exact agrees_of_funcscope plain free declared limited
  | none =>
    have undeclared : d.funcscope? = none := by simp [funcscope?, declared]
    have path := plain.words.path
    have qualified := qualifyName_of_spelled plain.named path.ne_empty path.spelled
      (Or.inr undeclared)
    rcases plain.words.segment_or_join with segment | ⟨front, c, last, inner, mark, segment, rfl⟩
    · exact agrees_of_segment segment plain.named free undeclared plain.unnamed limited
    · exact agrees_of_divided qualified (divide_alone free) inner.whole mark segment
        (Or.inl plain.unnamed) limited

/-! ### Names below a parent -/

/-- A name that holds its parent is taken apart as it is. -/
theorem agrees_of_memberPath (plain : d.Plain name) (known : d.memberof = some parent)
    (filled : parent ≠ "") (spelled : Longname.Spelled parent.toList)
    (inside : Longname.isMemberPath name parent = true) (limited : d.scope ≠ some .global) :
    d.resolve.Agrees := by
  have path := plain.words.path
  have divided : d.divide name = (some (shorten name), d) := by
    rw [divide_below filled known spelled]
    unfold divideBelow
    rw [if_neg (by simpa using path.ne_empty), if_pos inside]
  have qualified := qualifyName_of_spelled plain.named path.ne_empty path.spelled
    (Or.inl (by simp [known, filled]))
  rcases plain.words.segment_or_join with segment | ⟨front, e, last, inner, mark, segment, rfl⟩
  · rw [Longname.isMemberPath_of_plain segment.plain] at inside
    cases inside
  · exact agrees_of_divided qualified divided inner.whole mark segment (Or.inl plain.unnamed)
      limited

/-- The scope that the name in the code suggests is one of members. -/
theorem exists_punctuation_scopeInCode (d : Doclet) :
    ∃ c, (d.scopeInCode.getD .static).punctuation? = some c := by
  cases suggested : d.scopeInCode with
  | none => exact ⟨'.', rfl⟩
  | some s =>
    obtain ⟨c, -, mark⟩ := Option.bind_eq_some_iff.mp suggested
    exact ⟨c, Scope.ofPunctuation_eq_some_iff.mp mark⟩

/-- Where nothing says otherwise, the name in the code says how to join name and parent. -/
theorem agrees_of_undivided (plain : d.Plain name) (known : d.memberof = some parent)
    (qualified : d.qualifyName = (name, d)) (divided : d.divide name = (none, d))
    (scope : d.scope = none) : d.resolve.Agrees := by
  obtain ⟨c, punctuation⟩ := d.exists_punctuation_scopeInCode
  rw [resolve_of_undivided qualified divided plain.named known plain.unnamed scope
    plain.words.head?_ofPunctuation punctuation]
  exact agrees_member (isPunctuation_of_scope punctuation) plain.words.path.ne_empty

/-- A name below a parent that ends in a word. -/
theorem agrees_below (plain : d.Plain name) (whole : Whole parent)
    (known : d.memberof = some parent) (limited : d.scope ≠ some .global) :
    d.resolve.Agrees := by
  have path := plain.words.path
  by_cases inside : Longname.isMemberPath name parent = true
  · exact agrees_of_memberPath plain known whole.ne_empty whole.spelled inside limited
  · have apart : Longname.isMemberPath name parent = false := by simpa using inside
    have qualified := qualifyName_of_spelled plain.named path.ne_empty path.spelled
      (Or.inl (by simp [known, whole.ne_empty]))
    have marked (s : Scope) (member : s ≠ .global) : ∃ c, s.punctuation? = some c := by
      cases s with
      | global => exact absurd rfl member
      | static | perInstance | inner => exact ⟨_, rfl⟩
    by_cases same : name = parent
    · subst same
      obtain ⟨c, punctuation⟩ := marked (d.scope.getD .static) (by
        intro global
        cases scope : d.scope with
        | none => simp [scope] at global
        | some s => simp_all)
      have divided : d.divide name = (some (shorten (member name c name)),
          { d with scope := some (d.scope.getD .static) }) := by
        rw [divide_below whole.ne_empty known whole.spelled]
        unfold divideBelow
        rw [if_neg (by simpa using path.ne_empty), apart, if_neg Bool.false_ne_true, if_pos rfl,
          plain.words.not_isModule, if_neg Bool.false_ne_true]
        dsimp only
        rw [punctuation_eq punctuation]
        rfl
      refine agrees_of_joined qualified divided whole (isPunctuation_of_scope punctuation)
        plain.words (Or.inl plain.unnamed) ?_
      intro global
      rw [Option.some.inj global] at punctuation
      cases punctuation
    · cases scope : d.scope with
      | none =>
        have divided : d.divide name = (none, d) := by
          rw [divide_below whole.ne_empty known whole.spelled]
          unfold divideBelow
          rw [if_neg (by simpa using path.ne_empty), apart, if_neg Bool.false_ne_true, if_neg same,
            whole.not_joined, if_neg Bool.false_ne_true, scope]
        exact agrees_of_undivided plain known qualified divided scope
      | some s =>
        obtain ⟨c, punctuation⟩ := marked s (fun global => limited (by rw [scope, global]))
        have divided := divide_within whole path.ne_empty ⟨same, apart⟩ known scope punctuation
        exact agrees_of_joined qualified divided whole (isPunctuation_of_scope punctuation)
          plain.words (Or.inl plain.unnamed) limited

/-- A name below a parent that ends in the punctuation it is joined by. -/
theorem agrees_below_joined (plain : d.Plain name) (whole : Whole parent)
    (punctuation : isPunctuation c = true)
    (known : d.memberof = some (parent ++ String.singleton c))
    (limited : d.scope ≠ some .global) : d.resolve.Agrees := by
  have text : (parent ++ String.singleton c).toList = parent.toList ++ [c] := by simp
  have filled : parent ++ String.singleton c ≠ "" := by
    intro none
    rw [none] at text
    simp at text
  have spelled : Longname.Spelled (parent ++ String.singleton c).toList :=
    text ▸ whole.spelled.join punctuation Longname.spelled_nil
  have path := plain.words.path
  by_cases inside : Longname.isMemberPath name (parent ++ String.singleton c) = true
  · exact agrees_of_memberPath plain known filled spelled inside limited
  · have joined : Longname.endsJoined (parent ++ String.singleton c) = true := by
      simp [Longname.endsJoined, punctuation]
    have other : name ≠ parent ++ String.singleton c := by
      rintro rfl
      rw [path.not_joined] at joined
      cases joined
    have divided : d.divide name = (some (shorten (member parent c name)), d) := by
      rw [divide_below filled known spelled]
      unfold divideBelow
      rw [if_neg (by simpa using path.ne_empty), if_neg inside, if_neg other, if_pos joined]
      rfl
    have qualified := qualifyName_of_spelled plain.named path.ne_empty path.spelled
      (Or.inl (by simp [known]))
    exact agrees_of_joined qualified divided whole punctuation plain.words
      (Or.inl plain.unnamed) limited

/-! ### Every doclet in plain words -/

/-- Plain words are resolved to an identity whose fields agree. -/
theorem resolve_agrees (plain : d.Plain name) : d.resolve.Agrees := by
  by_cases global : d.scope = some .global
  · exact agrees_of_global plain.named plain.words global
  · cases known : d.memberof with
    | none => exact agrees_alone plain known global
    | some parent =>
      cases plain.parent parent known with
      | whole qualified => exact agrees_below plain qualified.whole known global
      | joined qualified punctuation =>
        exact agrees_below_joined plain qualified.whole punctuation known global

/-- A method that a comment puts below the class of a module, and that the code assigns in a
function. -/
def instanceMethod : Doclet :=
  { empty with
    name := some "total"
    memberof := some "module:shop.Cart#"
    origin := { Origin.at "shop.js" 1 0 with
      code := some ⟨"Cart.prototype.total", ⟨0, some 4⟩, .assignmentExpression, none, [],
        some "setup"⟩ } }

theorem resolve_agrees_instanceMethod :
    instanceMethod.Plain "total" ∧ instanceMethod.resolve.Agrees := by
  have shop : Words "shop" := .one (by decide +kernel)
  have cart : Word "Cart" := by decide +kernel
  have parent : Qualified "module:shop.Cart" := .module (shop.join (c := '.') rfl cart)
  have setup : Qualified "setup" := .words (.one (by decide +kernel))
  have plain : instanceMethod.Plain "total" := by
    refine ⟨rfl, .one (by decide +kernel), rfl, ?_, ?_⟩
    · rintro text ⟨⟩
      exact .joined parent (c := '#') rfl
    · rintro scope ⟨⟩
      exact setup
  exact ⟨plain, resolve_agrees plain⟩

end Doclets.Doclet
