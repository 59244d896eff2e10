import Doclets.Proofs.Doclet.Identity
import Doclets.Proofs.Longname.Prototypes

/-!
The identity of prototypes and of their members. A member of a prototype is an instance member, by
whichever way the code spells it; a prototype without a parent has a longname that ends in the
punctuation of its members.
-/

namespace Doclets.Doclet

open Longname (Apart Segment Spelled Whole member prototypeOf shorten spellPrototypes)

variable {d : Doclet} {name parent key outer : String}

/-- A name is read as it is spelled. -/
theorem resolve_respelled {spelled : String} (named : d.name = some name)
    (spells : spellPrototypes name = spelled) (again : spellPrototypes spelled = spelled)
    (filled : spelled ≠ "") : d.resolve = ({ d with name := some spelled } : Doclet).resolve := by
  have same : d.qualifyName = ({ d with name := some spelled } : Doclet).qualifyName := by
    unfold qualifyName
    simp only [named, Option.map_some, Option.getD_some, spells, again]
    simp [filled]
  unfold resolve
  rw [same]

/-- A name that begins with the punctuation of instance members says the scope itself. -/
theorem resolve_leading (whole : Whole parent) (segment : Segment name)
    (other : parent ≠ "#" ++ name) (named : d.name = some ("#" ++ name))
    (known : d.memberof = some parent) (unnamed : d.longname = "") (scope : d.scope = none) :
    d.resolve.longname = member parent '#' name ∧ d.resolve.memberof = some parent := by
  rw [resolve_marked (c := '#') whole rfl segment other named known unnamed scope]
  exact ⟨rfl, rfl⟩

/-! ### Prototypes without a parent -/

/-- The longname that a path has in a scope, where there is one. -/
def within (outer : Option String) (path : String) : String :=
  match outer with
  | some scope => member scope '~' path
  | none => path

variable {foo : String}

theorem toList_hash (foo : String) : (foo ++ "#").toList = foo.toList ++ ['#'] := by simp

theorem ne_empty_hash (foo : String) : foo ++ "#" ≠ "" := by
  intro none
  have text := toList_hash foo
  rw [none] at text
  simp at text

theorem spelled_hash (segment : Segment foo) : Spelled (foo ++ "#").toList := by
  rw [toList_hash]
  exact segment.spelled.join (c := '#') rfl Longname.spelled_nil

section

variable (segment : Segment foo) (unnamed : d.longname = "")

include segment unnamed

/-- A prototype that nothing owns is called by its path, in the function scope that declares it. -/
theorem longname_prototype (named : d.name = some (prototypeOf foo)) (free : d.memberof = none)
    (scope : d.scope = none) (whole : ∀ scope ∈ d.funcscope?, Whole scope) :
    d.resolve.longname = within d.funcscope? (foo ++ "#") := by
  have spells := Longname.spellPrototypes_prototypeOf segment.spelled
  have filled := ne_empty_hash foo
  have spelled := spelled_hash segment
  have kept := Longname.spellPrototypes_of_spelled spelled
  have limited : d.scope ≠ some .global := by simp [scope]
  cases declared : d.funcscope? with
  | none =>
    rw [resolve_respelled named spells kept filled]
    have undeclared : ({ d with name := some (foo ++ "#") } : Doclet).funcscope? = none := declared
    have qualified :=
      qualifyName_of_kept (d := { d with name := some (foo ++ "#") }) rfl filled kept
      (Or.inr undeclared)
    exact longname_of_divided filled kept qualified (divide_alone free) (Or.inl unnamed) limited
  | some scope =>
    have qualified := qualifyName_of_funcscope named spells filled free declared
    have joined := Longname.spellPrototypes_member (whole scope declared).spelled (c := '~') rfl
      spelled
    exact longname_of_divided (Longname.member_ne_empty scope '~' _) joined qualified
      (divide_alone free) (Or.inr rfl) limited

/-- A prototype that a module has for a member. -/
theorem longname_prototype_inner (named : d.name = some (prototypeOf foo)) (inModule : Whole outer)
    (apart : Apart outer (foo ++ "#")) (known : d.memberof = some outer)
    (scope : d.scope = some .inner) : d.resolve.longname = within (some outer) (foo ++ "#") := by
  have filled := ne_empty_hash foo
  have spelled := spelled_hash segment
  have kept := Longname.spellPrototypes_of_spelled spelled
  rw [resolve_respelled named (Longname.spellPrototypes_prototypeOf segment.spelled) kept filled]
  have qualified := qualifyName_of_kept (d := { d with name := some (foo ++ "#") }) rfl filled kept
    (Or.inl (by simp [known, inModule.ne_empty]))
  have divided := divide_within (d := { d with name := some (foo ++ "#") }) (c := '~') inModule
    filled apart known scope rfl
  exact longname_of_divided (Longname.member_ne_empty outer '~' _)
    (Longname.spellPrototypes_member inModule.spelled rfl spelled) qualified divided
    (Or.inl unnamed) (by simp [scope])

/-! ### Members of prototypes -/

variable (own : Segment key)
  (named : d.name = some (member (prototypeOf foo) '.' key))

include own named

/-- A member of a prototype that nothing owns, in the function scope that declares it. -/
theorem resolve_member_prototype (whole : Whole foo) (free : d.memberof = none)
    (scope : d.scope = none)
    (scopes : ∀ scope ∈ d.funcscope?, Whole scope) :
    d.resolve.longname = member (within d.funcscope? foo) '#' key ∧
      d.resolve.memberof = some (within d.funcscope? foo) := by
  have spells := Longname.spellPrototypes_member_prototypeOf segment.spelled own.spelled
  have filled := Longname.member_ne_empty foo '#' key
  have limited : d.scope ≠ some .global := by simp [scope]
  cases declared : d.funcscope? with
  | none =>
    have kept := Longname.spellPrototypes_member segment.spelled (c := '#') rfl own.spelled
    have undeclared : ({ d with name := some (member foo '#' key) } : Doclet).funcscope? = none :=
      declared
    have resolved := resolve_path (d := { d with name := some (member foo '#' key) }) (c := '#')
      whole rfl own rfl free undeclared unnamed limited
    rw [resolve_respelled named spells kept filled, resolved]
    exact ⟨rfl, rfl⟩
  | some scope =>
    have outer := scopes scope declared
    have qualified := qualifyName_of_funcscope named spells filled free declared
    have joined :
        member scope '~' (member foo '#' key) = member (member scope '~' foo) '#' key := by
      simp only [member, String.append_assoc]
    rw [joined] at qualified
    have below := outer.join (c := '~') rfl segment.path
    have divided : ({ d with
        name := some (member foo '#' key)
        longname := member (member scope '~' foo) '#' key } : Doclet).divide
          (member (member scope '~' foo) '#' key) =
        (some (shorten (member (member scope '~' foo) '#' key)), _) := divide_alone free
    rw [Longname.shorten_member below.toPath rfl own] at divided
    rw [resolve_of_divided qualified divided below own (Or.inr rfl) limited]
    exact ⟨rfl, rfl⟩

/-- A member of a prototype that a module has for a member. -/
theorem resolve_member_prototype_inner (inModule : Whole outer)
    (apart : Apart outer (member foo '#' key)) (known : d.memberof = some outer)
    (scope : d.scope = some .inner) :
    d.resolve.longname = member (within (some outer) foo) '#' key ∧
      d.resolve.memberof = some (within (some outer) foo) := by
  have spells := Longname.spellPrototypes_member_prototypeOf segment.spelled own.spelled
  have kept := Longname.spellPrototypes_member segment.spelled (c := '#') rfl own.spelled
  have resolved := resolve_path_within
    (d := { d with name := some (member foo '#' key) }) (c := '#')
    (e := '~') inModule segment.path rfl own rfl known apart unnamed scope rfl
  rw [resolve_respelled named spells kept (Longname.member_ne_empty foo '#' key), resolved]
  exact ⟨rfl, rfl⟩

end

end Doclets.Doclet
