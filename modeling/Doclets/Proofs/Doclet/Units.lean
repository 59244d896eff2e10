import Doclets.Doclet.Identity
import Doclets.Doclet.Tags

/-!
The number of the unit that a doclet comes from decides nothing: reading its comment and making its
identity agree do the same for the doclet of the same node in another unit.
-/

namespace Doclets

def Origin.inUnit (o : Origin) (u : Nat) : Origin :=
  { o with code := o.code.map fun code => { code with node := { code.node with unit := u } } }

namespace Doclet

/-- The doclet of the same node in the unit of another number. -/
def inUnit (d : Doclet) (u : Nat) : Doclet := { d with origin := d.origin.inUnit u }

variable (d : Doclet) (u : Nat)

@[simp] theorem name_inUnit : (d.inUnit u).name = d.name := rfl

@[simp] theorem longname_inUnit : (d.inUnit u).longname = d.longname := rfl

@[simp] theorem memberof_inUnit : (d.inUnit u).memberof = d.memberof := rfl

@[simp] theorem scope_inUnit : (d.inUnit u).scope = d.scope := rfl

@[simp] theorem kind_inUnit : (d.inUnit u).kind = d.kind := rfl

@[simp] theorem file_inUnit : (d.inUnit u).origin.file = d.origin.file := rfl

@[simp] theorem codeName_inUnit : (d.inUnit u).codeName = d.codeName := by
  unfold codeName inUnit Origin.inUnit
  cases d.origin.code <;> rfl

@[simp] theorem funcscope_inUnit : (d.inUnit u).origin.code.bind CodeOrigin.funcscope =
    d.origin.code.bind CodeOrigin.funcscope := by
  unfold inUnit Origin.inUnit
  cases d.origin.code <;> rfl

/-! ### Tags -/

theorem withName_inUnit (name : Option String) :
    (d.inUnit u).withName name = (d.withName name).inUnit u := by
  unfold withName
  split <;> rfl

theorem withTypes_inUnit (names : Option (List String)) :
    (d.inUnit u).withTypes names = (d.withTypes names).inUnit u := by
  unfold withTypes
  split <;> rfl

theorem augment_inUnit (parent : String) :
    (d.inUnit u).augment parent = (d.augment parent).inUnit u := by
  unfold augment
  rw [show (d.inUnit u).augments = d.augments from rfl]
  split <;> rfl

theorem withKind_inUnit (kind : DocletKind) (value : String) :
    (d.inUnit u).withKind kind value = (d.withKind kind value).inUnit u := by
  unfold withKind
  dsimp only
  rw [← withName_inUnit, ← withTypes_inUnit]
  rfl

theorem applyTag_inUnit (tag : Tag) : (d.inUnit u).applyTag tag = (d.applyTag tag).inUnit u := by
  unfold applyTag
  split
  · exact d.withKind_inUnit u _ _
  · split
    case h_1 => exact d.withName_inUnit u _
    case h_12 =>
      rw [← withTypes_inUnit]
      rfl
    case h_4 | h_5 | h_7 => split <;> rfl
    case h_8 | h_9 =>
      split
      · exact d.augment_inUnit u _
      · rfl
    all_goals rfl

theorem ofComment_inUnit (raw : String) (origin : Origin) :
    ofComment raw (origin.inUnit u) = (ofComment raw origin).inUnit u := by
  unfold ofComment
  dsimp only
  split
  · rfl
  · generalize ParsedComment.ofRaw raw = parsed
    generalize parsed.tags = tags
    have read (d : Doclet) :
        tags.foldl applyTag (d.inUnit u) = (tags.foldl applyTag d).inUnit u := by
      induction tags generalizing d with
      | nil => rfl
      | cons tag rest ih => rw [List.foldl_cons, List.foldl_cons, applyTag_inUnit, ih]
    rw [← read]
    rfl

/-! ### Identity -/

theorem qualifyName_inUnit :
    (d.inUnit u).qualifyName = (d.qualifyName.1, d.qualifyName.2.inUnit u) := by
  unfold qualifyName funcscope?
  simp only [name_inUnit, memberof_inUnit, funcscope_inUnit]
  split
  · rfl
  · split
    · split <;> rfl
    · rfl

theorem divideBelow_inUnit (name parent : String) : (d.inUnit u).divideBelow name parent =
    ((d.divideBelow name parent).1, (d.divideBelow name parent).2.inUnit u) := by
  unfold divideBelow
  simp only [scope_inUnit]
  split
  · rfl
  · split
    · rfl
    · split
      · split <;> rfl
      · split
        · rfl
        · split <;> rfl

theorem divide_inUnit (name : String) :
    (d.inUnit u).divide name = ((d.divide name).1, (d.divide name).2.inUnit u) := by
  unfold divide
  simp only [memberof_inUnit, divideBelow_inUnit]
  split <;> rfl

theorem adopt_inUnit (path : Longname.Parts) :
    (d.inUnit u).adopt path = (d.adopt path).inUnit u := by
  unfold adopt
  have named : (if path.name.isEmpty then d.inUnit u
      else { d.inUnit u with name := some path.name }) =
      (if path.name.isEmpty then d else { d with name := some path.name }).inUnit u := by
    split <;> rfl
  dsimp only
  rw [named]
  generalize (if path.name.isEmpty then d else { d with name := some path.name }) = d
  have placed : (if path.memberof.isEmpty then d.inUnit u
      else (d.inUnit u).withMemberof path.memberof) =
      (if path.memberof.isEmpty then d else d.withMemberof path.memberof).inUnit u := by
    split <;> rfl
  rw [placed]
  generalize (if path.memberof.isEmpty then d else d.withMemberof path.memberof) = d
  rw [longname_inUnit, name_inUnit]
  split <;> rfl

theorem join_inUnit : (d.inUnit u).join = d.join.inUnit u := by
  unfold join scopeInCode
  simp only [codeName_inUnit, name_inUnit, memberof_inUnit]
  split <;> rfl

theorem settle_inUnit (path : Option Longname.Parts) :
    (d.inUnit u).settle path = (d.settle path).inUnit u := by
  unfold settle
  simp only [join_inUnit, scope_inUnit, longname_inUnit]
  split
  · rfl
  · split
    · rfl
    · split <;> rfl

theorem resolve_inUnit : (d.inUnit u).resolve = d.resolve.inUnit u := by
  unfold resolve
  rw [qualifyName_inUnit]
  generalize d.qualifyName = qualified
  obtain ⟨name, d⟩ := qualified
  dsimp only
  rw [divide_inUnit]
  generalize d.divide name = divided
  obtain ⟨path, d⟩ := divided
  cases path with
  | none =>
    simp only [settle_inUnit, longname_inUnit]
    split <;> rfl
  | some p =>
    simp only [adopt_inUnit, settle_inUnit, longname_inUnit]
    split <;> rfl

end Doclet

end Doclets
