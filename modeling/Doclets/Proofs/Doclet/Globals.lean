import Doclets.Proofs.Doclet.Agreement
import Doclets.Proofs.Longname.Openings

/-!
Globals in plain words. No global keeps a parent. It is called by the last segment of its name,
unless that is a single segment that names the parent too, which is then written twice, or the
function scope that declares it leaves a quotation or a bracket open.
-/

namespace Doclets.Doclet

open Longname (Closed Qualified Word Words lastSegment member shorten)

/-- A global whose name and parent are in plain words, and that has no longname yet. -/
structure PlainGlobal (d : Doclet) (name : String) : Prop where
  named : d.name = some name
  words : Words name
  unnamed : d.longname = ""
  global : d.scope = some .global
  parent : ∀ parent, d.memberof = some parent → PlainParent parent

variable {d q between : Doclet} {name parent path text : String}

/-! ### Plain parents -/

theorem PlainParent.ne_empty (plain : PlainParent parent) : parent ≠ "" := by
  cases plain with
  | whole qualified => exact qualified.whole.ne_empty
  | @joined front c _ _ => simp

theorem PlainParent.spelled (plain : PlainParent parent) : Longname.Spelled parent.toList := by
  cases plain with
  | whole qualified => exact qualified.whole.spelled
  | joined qualified punctuation =>
    rw [String.toList_append, String.toList_singleton]
    exact qualified.whole.spelled.join punctuation Longname.spelled_nil

/-! ### Whatever path is taken apart -/

theorem adopt_named {p : Longname.Parts} (filled : p.name ≠ "") :
    (d.adopt p).name = some p.name ∧ (d.adopt p).scope = d.scope := by
  have named : ¬ p.name.isEmpty = true := by simpa using filled
  unfold adopt withMemberof
  dsimp only
  rw [if_neg named]
  split <;> split <;> exact ⟨rfl, rfl⟩

/-- A global is called by the name that comes off its path. -/
theorem resolve_global_of_divided (qualified : d.qualifyName = (path, q))
    (divided : q.divide path = (some (shorten text), between))
    (global : between.scope = some .global) (filled : (shorten text).name ≠ "") :
    d.resolve.memberof = none ∧ d.resolve.name = some (shorten text).name ∧
      d.resolve.longname = (shorten text).name := by
  obtain ⟨named, scope⟩ := between.adopt_named filled
  unfold resolve
  simp only [qualified, divided]
  generalize between.adopt (shorten text) = adopted at named scope
  have settled : adopted.settle (some (shorten text)) =
      { adopted with longname := (shorten text).name, memberof := none } := by
    unfold settle
    rw [if_pos (scope.trans global), named, Option.getD_some]
  rw [settled, if_neg (by simpa using filled)]
  exact ⟨rfl, named, rfl⟩

/-- A global has no parent, and it is called by a name exactly where that comes off its path. -/
theorem resolve_global_iff_of_divided {P : Prop} (qualified : d.qualifyName = (path, q))
    (divided : q.divide path = (some (shorten text), between))
    (global : between.scope = some .global) (filled : text ≠ "")
    (comes : (shorten text).name = lastSegment name ↔ P) :
    d.resolve.memberof = none ∧ (d.resolve.name = some (lastSegment name) ∧
      d.resolve.longname = lastSegment name ↔ P) := by
  obtain ⟨free, named, called⟩ := resolve_global_of_divided qualified divided global
    (Longname.name_shorten_ne_empty filled)
  refine ⟨free, ?_⟩
  rw [named, called, Option.some.injEq, and_self, comes]

/-! ### Every global in plain words -/

/-- Nothing that stands in front of the name gets into what a global is called. -/
structure Sheds (d : Doclet) (name : String) : Prop where
  parent : d.memberof = some name → lastSegment name ≠ name
  funcscope : d.memberof = none → ∀ scope, d.funcscope? = some scope → Closed scope

/-- A global whose name is taken apart, without what stands in front of it. -/
theorem resolve_global_of_shorten (plain : d.PlainGlobal name) (sheds : d.Sheds name)
    (qualified : d.qualifyName = (name, d)) (divided : d.divide name = (some (shorten name), d)) :
    d.resolve.memberof = none ∧ (d.resolve.name = some (lastSegment name) ∧
      d.resolve.longname = lastSegment name ↔ d.Sheds name) :=
  resolve_global_iff_of_divided qualified divided plain.global plain.words.path.ne_empty
    (iff_of_true plain.words.name_shorten sheds)

theorem resolve_global_alone (plain : d.PlainGlobal name) (free : d.memberof = none) :
    d.resolve.memberof = none ∧ (d.resolve.name = some (lastSegment name) ∧
      d.resolve.longname = lastSegment name ↔ d.Sheds name) := by
  have path := plain.words.path
  cases declared : d.funcscope? with
  | none =>
    refine resolve_global_of_shorten plain ⟨?_, ?_⟩
      (qualifyName_of_spelled plain.named path.ne_empty path.spelled (Or.inr declared))
      (divide_alone free)
    · intro known
      rw [free] at known
      cases known
    · intro _ scope also
      rw [declared] at also
      cases also
  | some scope =>
    have filled : scope ≠ "" := by
      have kept := (Option.filter_eq_some_iff.mp declared).2
      simpa using kept
    have qualified := qualifyName_of_funcscope plain.named
      (Longname.spellPrototypes_of_spelled path.spelled) path.ne_empty free declared
    refine resolve_global_iff_of_divided qualified (divide_alone free) plain.global
      (Longname.member_ne_empty scope '~' name) ?_
    rw [plain.words.name_shorten_inner filled]
    constructor
    · intro closed
      refine ⟨fun known => ?_, fun _ other also => ?_⟩
      · rw [free] at known
        cases known
      · exact Option.some.inj (declared.symm.trans also) ▸ closed
    · exact fun sheds => sheds.funcscope free scope declared

/-- A global that is named like its parent is named after the name that is written twice. -/
theorem resolve_global_same (plain : d.PlainGlobal name) (known : d.memberof = some name) :
    d.resolve.memberof = none ∧ (d.resolve.name = some (lastSegment name) ∧
      d.resolve.longname = lastSegment name ↔ d.Sheds name) := by
  have path := plain.words.path
  have divided : d.divide name =
      (some (shorten (name ++ name)), { d with scope := some .global }) := by
    rw [divide_below path.ne_empty known path.spelled]
    unfold divideBelow
    rw [if_neg (by simpa using path.ne_empty), Longname.isMemberPath_self,
      if_neg Bool.false_ne_true, if_pos rfl, plain.words.not_isModule, if_neg Bool.false_ne_true,
      plain.global, Option.getD_some]
    dsimp only
    rw [show Scope.global.punctuation = "" from rfl, String.append_empty]
  have qualified := qualifyName_of_spelled plain.named path.ne_empty path.spelled
    (Or.inl (by simp [known, path.ne_empty]))
  have filled : name ++ name ≠ "" := by simpa using path.ne_empty
  refine resolve_global_iff_of_divided qualified divided rfl filled ?_
  rw [plain.words.name_shorten_twice]
  refine ⟨fun longer => ⟨fun _ => longer, fun free => ?_⟩, fun sheds => sheds.parent known⟩
  rw [known] at free
  cases free

/-- What is below another parent sheds it. -/
theorem sheds_below (known : d.memberof = some parent) (other : name ≠ parent) : d.Sheds name where
  parent same := absurd (Option.some.inj (known.symm.trans same)).symm other
  funcscope free := by
    rw [known] at free
    cases free

theorem resolve_global_below (plain : d.PlainGlobal name) (known : d.memberof = some parent)
    (parented : PlainParent parent) (other : name ≠ parent) :
    d.resolve.memberof = none ∧ (d.resolve.name = some (lastSegment name) ∧
      d.resolve.longname = lastSegment name ↔ d.Sheds name) := by
  have path := plain.words.path
  have sheds := sheds_below known other
  have filled := parented.ne_empty
  have qualified := qualifyName_of_spelled plain.named path.ne_empty path.spelled
    (Or.inl (by simp [known, filled]))
  have below : d.divide name = _ := divide_below filled known parented.spelled
  by_cases inside : Longname.isMemberPath name parent = true
  · refine resolve_global_of_shorten plain sheds qualified (below.trans ?_)
    unfold divideBelow
    rw [if_neg (by simpa using path.ne_empty), if_pos inside]
  cases parented with
  | whole whole =>
    refine resolve_global_of_shorten plain sheds qualified (below.trans ?_)
    unfold divideBelow
    rw [if_neg (by simpa using path.ne_empty), if_neg inside, if_neg other,
      whole.whole.not_joined, if_neg Bool.false_ne_true, plain.global]
  | @joined front c whole punctuation =>
    have joined : Longname.endsJoined (front ++ String.singleton c) = true := by
      simp [Longname.endsJoined, punctuation]
    have divided : d.divide name = (some (shorten (member front c name)), d) := by
      rw [below]
      unfold divideBelow
      rw [if_neg (by simpa using path.ne_empty), if_neg inside, if_neg other, if_pos joined]
      rfl
    refine resolve_global_iff_of_divided qualified divided plain.global
      (Longname.member_ne_empty front c name) (iff_of_true ?_ sheds)
    exact plain.words.name_shorten_member whole.whole.toPath punctuation

/-- A global loses its parent, and is called by the last segment of its name exactly where it sheds
what stands in front of it. -/
theorem resolve_global_iff (plain : d.PlainGlobal name) :
    d.resolve.memberof = none ∧ (d.resolve.name = some (lastSegment name) ∧
      d.resolve.longname = lastSegment name ↔ d.Sheds name) := by
  cases known : d.memberof with
  | none => exact resolve_global_alone plain known
  | some parent =>
    by_cases same : name = parent
    · exact resolve_global_same plain (same ▸ known)
    · exact resolve_global_below plain known (plain.parent parent known) same

/-- A global that is documented below a parent of its own name. -/
def namesake (name : String) : Doclet :=
  { empty with name := some name, memberof := some name, scope := some .global }

theorem plainGlobal_namesake (words : Words name) : (namesake name).PlainGlobal name where
  named := rfl
  words := words
  unnamed := rfl
  global := rfl
  parent := by
    rintro parent ⟨⟩
    exact .whole (.words words)

theorem resolve_global_iff_namesake : (namesake "Cart.total").PlainGlobal "Cart.total" ∧
    (namesake "Cart.total").resolve.memberof = none ∧
    (namesake "Cart.total").resolve.name = some "total" ∧
    (namesake "Cart.total").resolve.longname = "total" := by
  have cart : Words "Cart" := .one (by decide +kernel)
  have words : Words "Cart.total" := @Words.join "Cart" "total" '.' cart rfl (by decide +kernel)
  have plain := plainGlobal_namesake words
  have last : lastSegment "Cart.total" = "total" := by decide +kernel
  obtain ⟨free, called⟩ := resolve_global_iff plain
  refine ⟨plain, free, last ▸ called.mpr ⟨fun _ => ?_, nofun⟩⟩
  rw [last]
  decide

/-- A global of one segment whose parent is called the same keeps it in front of its name. -/
theorem namesake_keeps_parent : ¬ ∀ (d : Doclet) (name : String), d.PlainGlobal name →
    d.resolve.memberof = none ∧ d.resolve.name = some (lastSegment name) ∧
      d.resolve.longname = lastSegment name := by
  intro all
  have called := (all _ "a" (plainGlobal_namesake (.one (by decide +kernel)))).2.2
  have twice : (namesake "a").resolve.longname = "aa" := by decide +kernel
  have last : lastSegment "a" = "a" := by decide +kernel
  rw [twice, last] at called
  exact absurd called (by decide)

end Doclets.Doclet
