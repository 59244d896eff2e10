import Doclets.Doclet
import Doclets.Proofs.Text.Pieces

/-!
Longnames that stand for themselves. The text of a longname is read again and again: prototypes are
spelled out, the last segment is cut off, the global scope is left out. A whole longname passes
through all of this as it is, and a segment that is joined to it comes off again.
-/

namespace Doclets

namespace Longname

/-- The segment that spells out an instance member. -/
def prototypeWord : List Char := ['p', 'r', 'o', 't', 'o', 't', 'y', 'p', 'e']

/-- No prototype is left to spell out: where the word stands at the beginning or behind a dot, its
segment goes on. -/
def Spelled (path : List Char) : Prop :=
  ∀ before after, path = before ++ (prototypeWord ++ after) →
    before = [] ∨ before.getLast? = some '.' → endsSegment after = false

/-- Whether a character may have a part in how a longname is taken apart. -/
def isMark (c : Char) : Bool :=
  isPunctuation c || ['[', ']', '(', '"', '\'', ':'].contains c

/-- Text that a longname is not taken apart at. -/
def Plain (name : List Char) : Prop := ∀ c ∈ name, isMark c = false

/-- The name of one member below its parent. -/
structure Segment (name : String) : Prop where
  ne_empty : name ≠ ""
  plain : Plain name.toList
  ne_prototype : name.toList ≠ prototypeWord

/-- A path that members can be joined to: whatever is quoted or bracketed in it ends in it. -/
structure Path (path : String) : Prop where
  ne_empty : path ≠ ""
  spelled : Spelled path.toList
  closed : path.toList.foldl Nesting.step .outside = .outside
  not_joined : endsJoined path = false

/-- A longname that stands for itself. -/
structure Whole (longname : String) : Prop extends Path longname where
  not_global : ¬ Longname.global.toList <+: longname.toList

theorem isPunctuation_of_not_isMark {c : Char} (plain : isMark c = false) :
    isPunctuation c = false := by
  rw [isMark, Bool.or_eq_false_iff] at plain
  exact plain.1

theorem ne_of_not_isMark {c d : Char} (plain : isMark c = false) (mark : isMark d = true) :
    c ≠ d := by
  rintro rfl
  rw [plain] at mark
  cases mark

/-! ### Spelling out prototypes -/

/-- Where a spelled path is read up to the word, its segment goes on. -/
theorem Spelled.goes_on {first dot : Bool} {out rest : List Char}
    (spelled : Spelled (out.reverse ++ (prototypeWord ++ rest)))
    (start : first = true → out = []) (behind : dot = true → out.head? = some '.') :
    ¬ ((dot || first) && endsSegment rest) = true := by
  intro word
  simp only [Bool.and_eq_true, Bool.or_eq_true] at word
  have standing : out.reverse = [] ∨ out.reverse.getLast? = some '.' := by
    rcases word.1 with dotted | begun
    · exact Or.inr (by simpa using behind dotted)
    · exact Or.inl (by simp [start begun])
  rw [spelled _ _ rfl standing] at word
  cases word.2

theorem prototypesFrom_of_spelled (first dot : Bool) (out path : List Char)
    (start : first = true → out = []) (behind : dot = true → out.head? = some '.')
    (spelled : Spelled (out.reverse ++ path)) :
    prototypesFrom first dot out path = out.reverse ++ path := by
  fun_induction prototypesFrom first dot out path with
  | case1 => simp
  | case2 _ _ _ _ _ word => exact absurd word (spelled.goes_on start behind)
  | case3 _ _ _ _ _ _ word => exact absurd word (spelled.goes_on start behind)
  | case4 _ _ _ _ _ ih =>
    rw [ih (by simp) (by simp) (by simpa using spelled)]
    simp
  | case5 _ _ _ _ _ _ ih =>
    rw [ih (by simp) (by simp) (by simpa using spelled)]
    simp

theorem spellPrototypes_of_spelled {name : String} (spelled : Spelled name.toList) :
    spellPrototypes name = name := by
  unfold spellPrototypes
  split
  · rfl
  · rw [prototypesFrom_of_spelled true false [] name.toList (by simp) (by simp) (by simpa using spelled)]
    simp

theorem not_isPunctuation_of_mem_prototypeWord {c : Char} (h : c ∈ prototypeWord) :
    isPunctuation c = false := by
  have plain : (prototypeWord.all fun c => !isPunctuation c) = true := by decide
  simpa using List.all_eq_true.mp plain c h

theorem endsSegment_append {front : List Char} (some : front ≠ []) (back : List Char) :
    endsSegment (front ++ back) = endsSegment front := by
  cases front with
  | nil => exact absurd rfl some
  | cons => rfl

theorem endsSegment_of_plain {name : List Char} (plain : Plain name) (some : name ≠ []) :
    endsSegment name = false := by
  cases name with
  | nil => exact absurd rfl some
  | cons c rest =>
    have here := plain c List.mem_cons_self
    have other : c ≠ '[' := ne_of_not_isMark here rfl
    simp [endsSegment, isPunctuation_of_not_isMark here, other]

theorem Plain.append {front back : List Char} (plain : Plain (front ++ back)) :
    Plain front ∧ Plain back :=
  ⟨fun c member => plain c (List.mem_append_left _ member),
    fun c member => plain c (List.mem_append_right _ member)⟩

/-- What is joined to a spelled path, and spelled itself, gives a spelled path. -/
theorem Spelled.join {path name : List Char} {c : Char} (spelled : Spelled path)
    (punctuation : isPunctuation c = true) (own : Spelled name) : Spelled (path ++ c :: name) := by
  intro before after split standing
  have outside : c ∉ prototypeWord := fun member => by
    rw [not_isPunctuation_of_mem_prototypeWord member] at punctuation
    cases punctuation
  rcases List.append_eq_append_iff.mp split with ⟨front, rfl, same⟩ | ⟨rest, rfl, same⟩
  · -- the word stands behind the path, and so behind the punctuation
    cases front with
    | nil =>
      rw [List.nil_append, prototypeWord, List.cons_append] at same
      exact absurd ((List.cons.inj same).1 ▸ List.mem_cons_self) outside
    | cons first front =>
      obtain ⟨rfl, rfl⟩ := List.cons.inj same
      apply own front after rfl
      cases front with
      | nil => exact Or.inl rfl
      | cons next front => exact Or.inr (by simpa using standing)
  · rcases List.append_eq_append_iff.mp same with ⟨more, rfl, behind⟩ | ⟨half, word, behind⟩
    · have ongoing := spelled before more rfl standing
      cases more with
      | nil => cases ongoing
      | cons next more => rw [behind, endsSegment_append (by simp), ongoing]
    · cases half with
      | nil =>
        rw [List.append_nil] at word
        have ended := spelled before [] (by simp [word]) standing
        cases ended
      | cons first half =>
        have member : c ∈ prototypeWord := by
          rw [word, (List.cons.inj behind).1]
          simp
        exact absurd member outside

theorem spelled_nil : Spelled [] := by
  intro before after split
  simp [prototypeWord] at split

theorem spelled_of_not_mem {path : List Char} (absent : 'p' ∉ path) : Spelled path := by
  intro before after split
  exact absurd (split ▸ List.mem_append_right _ List.mem_cons_self) absent

theorem Segment.spelled {name : String} (segment : Segment name) : Spelled name.toList := by
  intro before after split standing
  have plain := segment.plain
  rw [split] at plain
  obtain ⟨behind, rest⟩ := plain.append
  rcases standing with rfl | dot
  · apply endsSegment_of_plain rest.append.2
    rintro rfl
    exact segment.ne_prototype (by simpa using split)
  · exact absurd (behind '.' (List.mem_of_getLast? dot)) (by decide)

/-- Only the bare word begins with a prototype, and it stays. -/
theorem spellPrototypes_of_plain {name : String} (plain : Plain name.toList) :
    spellPrototypes name = name := by
  by_cases word : name = "prototype"
  · rw [word]
    rfl
  · by_cases filled : name = ""
    · rw [filled]
      rfl
    · exact spellPrototypes_of_spelled (Segment.spelled
        ⟨filled, plain, fun same => word (String.toList_injective same)⟩)

/-! ### Where a text can be cut -/

section

variable {cs front back : List Char} {c d : Char} {n : Nesting}

/-- Punctuation outside of quotations and brackets, in a text whose scan begins at `n`. -/
structure Divides (n : Nesting) (cs front : List Char) (c : Char) (back : List Char) : Prop where
  split : cs = front ++ c :: back
  punctuation : isPunctuation c = true
  outside : (front.foldl Nesting.step n).isOutside = true

theorem Divides.cons (divides : Divides (n.step d) cs front c back) :
    Divides n (d :: cs) (d :: front) c back :=
  ⟨congrArg (d :: ·) divides.split, divides.punctuation, divides.outside⟩

/-- A place where a text can be cut is its first character, or one of those behind it. -/
theorem Divides.cases (divides : Divides n (d :: cs) front c back) :
    (front = [] ∧ c = d ∧ back = cs ∧ n.isOutside = true) ∨
      ∃ more, front = d :: more ∧ Divides (n.step d) cs more c back := by
  obtain ⟨split, punctuation, outside⟩ := divides
  cases front with
  | nil =>
    obtain ⟨rfl, rfl⟩ := List.cons.inj split
    exact Or.inl ⟨rfl, rfl, rfl, outside⟩
  | cons e more =>
    obtain ⟨rfl, same⟩ := List.cons.inj split
    exact Or.inr ⟨more, rfl, same, punctuation, outside⟩

/-- A text that is not cut can be cut only at its ends. -/
theorem Divides.of_cutLast_none {seen : List Char} (cut : cutLast n seen cs = none)
    (divides : Divides n cs front c back) : (seen = [] ∧ front = []) ∨ back = [] := by
  induction cs generalizing n seen front with
  | nil => exact absurd divides.split (by simp)
  | cons d rest ih =>
    unfold cutLast at cut
    split at cut
    next => cases cut
    next later =>
      rcases divides.cases with ⟨rfl, rfl, rfl, outside⟩ | ⟨more, rfl, inner⟩
      · simp only [ite_eq_right_iff, reduceCtorEq, imp_false] at cut
        simp only [divides.punctuation, outside] at cut
        by_cases begun : seen = []
        · exact Or.inl ⟨begun, rfl⟩
        · exact Or.inr (by simpa [begun] using cut)
      · exact Or.inr ((ih later inner).resolve_left fun begun => absurd begun.1 (by simp))

/-- Where a text is cut it can be cut, with text on both sides, and behind that only at its end. -/
theorem divides_of_cutLast {seen whole : List Char}
    (cut : cutLast n seen cs = some (whole, c, back)) :
    ∃ front, whole = seen.reverse ++ front ∧ whole ≠ [] ∧ back ≠ [] ∧ Divides n cs front c back ∧
      ∀ more d after, Divides n cs more d after → front.length < more.length → after = [] := by
  induction cs generalizing n seen with
  | nil => cases cut
  | cons d rest ih =>
    unfold cutLast at cut
    split at cut
    next found later =>
      obtain ⟨front, same, filled, behind, divides, last⟩ := ih (later.trans cut)
      refine ⟨d :: front, by rw [same]; simp, filled, behind, divides.cons, ?_⟩
      intro more e after other longer
      rcases other.cases with ⟨rfl, _⟩ | ⟨inner, rfl, behind⟩
      · exact absurd longer (by simp)
      · exact last inner e after behind (by simpa using longer)
    next later =>
      split at cut
      next here =>
        cases cut
        simp only [Bool.and_eq_true, Bool.not_eq_true', List.isEmpty_eq_false_iff] at here
        obtain ⟨⟨⟨punctuation, outside⟩, begun⟩, behind⟩ := here
        refine ⟨[], by simp, by simpa using begun, behind, ⟨rfl, punctuation, outside⟩, ?_⟩
        intro more e after other longer
        rcases other.cases with ⟨rfl, _⟩ | ⟨inner, rfl, later'⟩
        · exact absurd longer (by simp)
        · exact (later'.of_cutLast_none later).resolve_left fun none => absurd none.1 (by simp)
      next => cases cut

end

/-! ### Cutting off the last segment -/

theorem cutLast_of_plain (n : Nesting) (seen : List Char) {name : List Char} (plain : Plain name) :
    cutLast n seen name = none := by
  induction name generalizing n seen with
  | nil => rfl
  | cons c rest ih =>
    have inside := isPunctuation_of_not_isMark (plain c List.mem_cons_self)
    have tail : Plain rest := fun d member => plain d (List.mem_cons_of_mem _ member)
    unfold cutLast
    rw [ih (n.step c) (c :: seen) tail]
    simp [inside]

theorem cutLast_join (n : Nesting) (seen path : List Char) {c : Char} {name : List Char}
    (closed : path.foldl Nesting.step n = .outside) (front : seen ≠ [] ∨ path ≠ [])
    (punctuation : isPunctuation c = true) (plain : Plain name) (filled : name ≠ []) :
    cutLast n seen (path ++ c :: name) = some (seen.reverse ++ path, c, name) := by
  induction path generalizing n seen with
  | nil =>
    have begun : seen ≠ [] := by simpa using front
    rw [List.nil_append]
    unfold cutLast
    rw [cutLast_of_plain _ _ plain]
    rw [List.foldl_nil] at closed
    simp [punctuation, begun, filled, closed, Nesting.isOutside, Nesting.outside]
  | cons first path ih =>
    rw [List.cons_append]
    unfold cutLast
    rw [ih (n.step first) (first :: seen) closed (Or.inl (by simp))]
    simp

theorem cutParenthesis_of_plain {name : List Char} (plain : Plain name) :
    cutParenthesis name = none := by
  induction name with
  | nil => rfl
  | cons c rest ih =>
    have tail : Plain rest := fun d member => plain d (List.mem_cons_of_mem _ member)
    unfold cutParenthesis
    have other : c ≠ '(' := ne_of_not_isMark (plain c List.mem_cons_self) rfl
    rw [ih tail]
    simp [other]

theorem splitVariation_of_plain {name : List Char} (plain : Plain name) :
    splitVariation name = (name, none) := by
  unfold splitVariation
  rw [cutParenthesis_of_plain plain]

/-- The longname of a member. -/
def member (parent : String) (c : Char) (name : String) : String :=
  parent ++ String.singleton c ++ name

theorem toList_member (parent : String) (c : Char) (name : String) :
    (member parent c name).toList = parent.toList ++ c :: name.toList := by
  simp [member]

theorem member_ne_empty (parent : String) (c : Char) (name : String) : member parent c name ≠ "" := by
  intro none
  have text := congrArg String.toList none
  rw [toList_member] at text
  simp at text

theorem spellPrototypes_member {parent : String} {c : Char} {name : String}
    (spelled : Spelled parent.toList) (punctuation : isPunctuation c = true)
    (own : Spelled name.toList) : spellPrototypes (member parent c name) = member parent c name := by
  apply spellPrototypes_of_spelled
  rw [toList_member]
  exact spelled.join punctuation own

/-- A segment comes off again where it was joined. -/
theorem shorten_member {parent : String} {c : Char} {name : String} (path : Path parent)
    (punctuation : isPunctuation c = true) (segment : Segment name) :
    shorten (member parent c name) = ⟨member parent c name, parent, some c, name, none⟩ := by
  have filled : parent.toList ≠ [] := by simpa using path.ne_empty
  unfold shorten
  rw [spellPrototypes_member path.spelled punctuation segment.spelled]
  dsimp only
  rw [toList_member, cutLast_join .outside [] parent.toList path.closed (Or.inr filled) punctuation
    segment.plain (by simpa using segment.ne_empty)]
  dsimp only
  rw [splitVariation_of_plain segment.plain]
  simp

theorem shorten_segment {name : String} (segment : Segment name) :
    shorten name = ⟨name, "", none, name, none⟩ := by
  unfold shorten
  rw [spellPrototypes_of_spelled segment.spelled]
  dsimp only
  rw [cutLast_of_plain _ _ segment.plain]
  dsimp only
  rw [splitVariation_of_plain segment.plain]
  simp

theorem isMemberPath_of_plain {name parent : String} (plain : Plain name.toList) :
    isMemberPath name parent = false := by
  unfold isMemberPath
  split
  next c rest found =>
    rw [List.isPrefixOf?_eq_some_iff_append_eq] at found
    apply isPunctuation_of_not_isMark
    apply plain c
    simp [← found]
  · rfl

theorem Segment.not_module {name : String} (segment : Segment name) : isModule name = false := by
  rw [Bool.eq_false_iff, isModule, ne_eq, List.isPrefixOf_iff_prefix]
  intro mark
  have colon : ':' ∈ name.toList := mark.subset (by decide)
  exact absurd (segment.plain ':' colon) (by decide)

/-- A path that neither is nor begins with a parent. -/
structure Apart (parent path : String) : Prop where
  ne : path ≠ parent
  not_member : isMemberPath path parent = false

/-! ### Parents -/

open Doclet (parentOf)

theorem parentOf_of_spelled {text : String} (filled : text ≠ "") (spelled : Spelled text.toList)
    (not_global : ¬ Longname.global.toList <+: text.toList) : parentOf text = some text := by
  unfold Doclet.parentOf
  rw [Text.after?_eq_none_iff.mpr not_global]
  dsimp only
  rw [spellPrototypes_of_spelled spelled]
  simp [filled]

/-- Nothing that is joined to a longname makes it one of the global scope. -/
theorem not_global_join {path rest : List Char} {c : Char} (punctuation : isPunctuation c = true)
    (not_global : ¬ Longname.global.toList <+: path) :
    ¬ Longname.global.toList <+: path ++ c :: rest := by
  intro global
  have outside : c ∉ Longname.global.toList := fun member => by
    have plain : (Longname.global.toList.all fun d => !isPunctuation d) = true := by decide
    have other := List.all_eq_true.mp plain c member
    rw [punctuation] at other
    cases other
  rcases Nat.le_total Longname.global.toList.length path.length with short | long
  · exact not_global (List.prefix_of_prefix_length_le global (List.prefix_append _ _) short)
  · rcases Nat.lt_or_eq_of_le long with longer | same
    · have joined : path ++ [c] <+: path ++ c :: rest := ⟨rest, by simp⟩
      have inside := List.prefix_of_prefix_length_le joined global (by
        rw [List.length_append]
        exact longer)
      exact outside (inside.subset (by simp))
    · exact not_global (List.prefix_of_prefix_length_le global (List.prefix_append _ _)
        (Nat.le_of_eq same.symm))

theorem step_outside {c : Char} (plain : isMark c = false ∨ isPunctuation c = true) :
    Nesting.outside.step c = .outside := by
  have other : c ≠ '"' ∧ c ≠ '\'' ∧ c ≠ '[' ∧ c ≠ ']' := by
    rcases plain with segment | punctuation
    · exact ⟨ne_of_not_isMark segment rfl, ne_of_not_isMark segment rfl,
        ne_of_not_isMark segment rfl, ne_of_not_isMark segment rfl⟩
    · refine ⟨?_, ?_, ?_, ?_⟩ <;> rintro rfl <;> cases punctuation
  simp [Nesting.step, Nesting.outside, other]

theorem foldl_step_of_plain {name : List Char} (plain : Plain name) :
    name.foldl Nesting.step .outside = .outside := by
  induction name with
  | nil => rfl
  | cons c rest ih =>
    rw [List.foldl_cons, step_outside (Or.inl (plain c List.mem_cons_self))]
    exact ih fun d member => plain d (List.mem_cons_of_mem _ member)

theorem not_joined_of_plain {name : String} (plain : Plain name.toList) :
    endsJoined name = false := by
  rw [endsJoined, Option.any_eq_false_iff_get]
  intro last
  exact isPunctuation_of_not_isMark (plain _ (List.mem_of_getLast? (Option.some_get last).symm))

/-- What is joined to a longname ends it. -/
theorem endsJoined_member {parent name : String} {c : Char} (filled : name ≠ "") :
    endsJoined (member parent c name) = endsJoined name := by
  rw [endsJoined, endsJoined, toList_member, List.getLast?_append_of_ne_nil _ (by simp),
    List.getLast?_cons_of_ne_nil (by simpa using filled)]

theorem Segment.path {name : String} (segment : Segment name) : Path name where
  ne_empty := segment.ne_empty
  spelled := segment.spelled
  closed := foldl_step_of_plain segment.plain
  not_joined := not_joined_of_plain segment.plain

/-- What is joined to a path, and a path itself, gives a path. -/
theorem Path.join {parent name : String} {c : Char} (path : Path parent)
    (punctuation : isPunctuation c = true) (own : Path name) : Path (member parent c name) := by
  have filled : name.toList ≠ [] := by simpa using own.ne_empty
  refine ⟨member_ne_empty parent c name, ?_, ?_, ?_⟩
  · rw [toList_member]
    exact path.spelled.join punctuation own.spelled
  · rw [toList_member, List.foldl_append, path.closed, List.foldl_cons,
      step_outside (Or.inr punctuation)]
    exact own.closed
  · rw [endsJoined_member own.ne_empty]
    exact own.not_joined

namespace Whole

variable {longname name : String} {c : Char}

theorem parentOf (whole : Whole longname) : parentOf longname = some longname :=
  parentOf_of_spelled whole.ne_empty whole.spelled whole.not_global

/-- The punctuation that joins members stays, where it is known. -/
theorem parentOf_joined (whole : Whole longname) (punctuation : isPunctuation c = true) :
    Doclet.parentOf (longname ++ String.singleton c) = some (longname ++ String.singleton c) := by
  have text : (longname ++ String.singleton c).toList = longname.toList ++ [c] := by simp
  apply parentOf_of_spelled
  · intro none
    rw [none] at text
    simp at text
  · rw [text]
    exact whole.spelled.join punctuation spelled_nil
  · rw [text]
    exact not_global_join punctuation whole.not_global

theorem join (whole : Whole longname) (punctuation : isPunctuation c = true) (own : Path name) :
    Whole (member longname c name) where
  toPath := whole.toPath.join punctuation own
  not_global := by
    rw [toList_member]
    exact not_global_join punctuation whole.not_global

end Whole

/-! ### Last segments -/

/-- A path whose last segment is `name`. -/
inductive EndsIn (name : String) : String → Prop where
  | alone : EndsIn name name
  | joined {front : String} {c : Char} (whole : Whole front)
    (punctuation : isPunctuation c = true) : EndsIn name (member front c name)

theorem EndsIn.path {name path : String} (ends : EndsIn name path) (segment : Segment name) :
    Path path := by
  cases ends with
  | alone => exact segment.path
  | joined whole punctuation => exact whole.toPath.join punctuation segment.path

end Longname

end Doclets
