import Doclets.Proofs.Longname.Words

/-!
How prototypes are spelled out: `Foo.prototype` is `Foo#`, and `Foo.prototype.bar` is `Foo#bar`,
whatever path stands in front of it.
-/

namespace Doclets.Longname

variable {path name : String}

/-! ### Up to the end of a segment -/

variable {e : Char} {own tail : List Char}

theorem not_mem_prototypeWord (mark : endsSegment [e] = true) : e ∉ prototypeWord := by
  intro listed
  have none : prototypeWord.all fun c => !endsSegment [c] := by decide
  have other := List.all_eq_true.mp none e listed
  rw [mark] at other
  cases other

/-- The word does not reach beyond what ends a segment. -/
theorem exists_of_word {rest path : List Char} (mark : endsSegment [e] = true)
    (same : prototypeWord ++ rest = path ++ e :: tail) :
    ∃ own, path = prototypeWord ++ own ∧ rest = own ++ e :: tail := by
  rcases List.append_eq_append_iff.mp same with ⟨own, rfl, rfl⟩ | ⟨own, begins, marked⟩
  · exact ⟨own, rfl, rfl⟩
  · cases own with
    | nil => exact ⟨[], by simpa using begins.symm, by simpa using marked.symm⟩
    | cons c own =>
      obtain rfl : e = c := (List.cons.inj marked).1
      have member : e ∈ prototypeWord := by
        rw [begins]
        simp
      exact absurd member (not_mem_prototypeWord mark)

theorem endsSegment_mark (mark : endsSegment [e] = true) :
    endsSegment (own ++ e :: tail) = endsSegment own := by
  cases own with
  | nil => exact mark
  | cons => rfl

/-- Up to what ends its last segment, a spelled path is copied as it is. -/
theorem prototypesFrom_mark (first dot : Bool) (out text : List Char) {path : List Char}
    (mark : endsSegment [e] = true) (split : text = path ++ e :: tail)
    (start : first = true → out = []) (behind : dot = true → out.head? = some '.')
    (spelled : Spelled (out.reverse ++ path)) :
    prototypesFrom first dot out text =
      prototypesFrom false (e = '.') (e :: (path.reverse ++ out)) tail := by
  fun_induction prototypesFrom first dot out text generalizing path with
  | case1 => simp at split
  | case2 _ _ _ _ _ word =>
    obtain ⟨own, rfl, ends⟩ := exists_of_word mark split
    rw [ends, endsSegment_mark mark] at word
    exact absurd word (spelled.goes_on start behind)
  | case3 _ _ _ _ _ _ word =>
    obtain ⟨own, rfl, ends⟩ := exists_of_word mark split
    rw [ends, endsSegment_mark mark] at word
    exact absurd word (spelled.goes_on start behind)
  | case4 _ _ _ _ _ ih =>
    obtain ⟨own, rfl, ends⟩ := exists_of_word mark split
    rw [ih ends (by simp) (by simp) (by simpa [prototypeWord] using spelled)]
    simp [prototypeWord]
  | case5 first dot out c rest _ ih =>
    cases path with
    | nil =>
      obtain ⟨rfl, rfl⟩ := List.cons.inj split
      rfl
    | cons d path =>
      obtain ⟨rfl, ends⟩ := List.cons.inj split
      rw [ih ends (by simp) (by simp) (by simpa using spelled)]
      simp

/-- Behind a dot the word is spelled out. -/
theorem prototypesFrom_dot (first dot : Bool) (out text : List Char) {path tail : List Char}
    (split : text = path ++ '.' :: tail) (start : first = true → out = [])
    (behind : dot = true → out.head? = some '.') (spelled : Spelled (out.reverse ++ path)) :
    prototypesFrom first dot out text =
      prototypesFrom false true ('.' :: (path.reverse ++ out)) tail :=
  prototypesFrom_mark first dot out text rfl split start behind spelled

/-! ### Prototypes -/

/-- The prototype of what a path leads to. -/
def prototypeOf (path : String) : String := path ++ ".prototype"

theorem toList_prototypeOf (path : String) :
    (prototypeOf path).toList = path.toList ++ '.' :: prototypeWord := by
  rw [prototypeOf, String.toList_append]
  rfl

theorem spellPrototypes_prototypeOf (spelled : Spelled path.toList) :
    spellPrototypes (prototypeOf path) = path ++ "#" := by
  have other : prototypeOf path ≠ "prototype" := by
    intro same
    have dot : '.' ∈ "prototype".toList := by
      rw [← same, toList_prototypeOf]
      simp
    exact absurd dot (by decide)
  rw [spellPrototypes, if_neg other,
    prototypesFrom_dot true false [] _ (toList_prototypeOf path) (by simp) (by simp)
      (by simpa using spelled)]
  apply String.toList_injective
  simp [prototypeWord, prototypesFrom, endsSegment]

theorem toList_member_prototypeOf (path name : String) :
    (member (prototypeOf path) '.' name).toList =
      path.toList ++ '.' :: (prototypeWord ++ '.' :: name.toList) := by
  rw [toList_member, toList_prototypeOf]
  simp

/-- A member of a prototype is an instance member. -/
theorem spellPrototypes_member_prototypeOf (spelled : Spelled path.toList)
    (own : Spelled name.toList) :
    spellPrototypes (member (prototypeOf path) '.' name) = member path '#' name := by
  have text := toList_member_prototypeOf path name
  have other : member (prototypeOf path) '.' name ≠ "prototype" := by
    intro same
    have dot : '.' ∈ "prototype".toList := by
      rw [← same, text]
      simp
    exact absurd dot (by decide)
  rw [spellPrototypes, if_neg other,
    prototypesFrom_dot true false [] _ text (by simp) (by simp) (by simpa using spelled)]
  have joined : Spelled (('#' :: (path.toList.reverse ++ [])).reverse ++ name.toList) := by
    simpa using spelled.join (c := '#') rfl own
  have goes_on := prototypesFrom_of_spelled false false ('#' :: (path.toList.reverse ++ []))
    name.toList (by simp) (by simp) joined
  apply String.toList_injective
  simp only [prototypeWord, List.cons_append, List.nil_append, prototypesFrom]
  rw [toList_member]
  simpa [endsSegment, isPunctuation] using goes_on

/-- The word counts at the beginning too. -/
theorem spellPrototypes_leading (own : Spelled name.toList) :
    spellPrototypes ("prototype." ++ name) = "#" ++ name := by
  have text : ("prototype." ++ name).toList = prototypeWord ++ '.' :: name.toList := by
    rw [String.toList_append]
    rfl
  have other : "prototype." ++ name ≠ "prototype" := by
    intro same
    have dot : '.' ∈ "prototype".toList := by
      rw [← same, text]
      simp
    exact absurd dot (by decide)
  have joined : Spelled (['#'].reverse ++ name.toList) := spelled_nil.join (c := '#') rfl own
  have goes_on := prototypesFrom_of_spelled false false ['#'] name.toList (by simp) (by simp) joined
  rw [spellPrototypes, if_neg other, text]
  apply String.toList_injective
  simp only [prototypeWord, List.cons_append, List.nil_append, prototypesFrom]
  simpa [endsSegment, isPunctuation] using goes_on

theorem prototypeOf_eq_member (path : String) : prototypeOf path = member path '.' "prototype" := by
  apply String.toList_injective
  rw [toList_prototypeOf, toList_member]
  rfl

/-- The punctuation at the end of a prototype joins nothing yet. -/
theorem scope_shorten_prototypeOf (segment : Segment path) :
    (shorten (prototypeOf path)).scope = none := by
  have cut (n : Nesting) (seen cs : List Char) (plain : Plain cs) :
      cutLast n seen (cs ++ ['#']) = none := by
    induction cs generalizing n seen with
    | nil => simp [cutLast]
    | cons c rest ih =>
      have inside := isPunctuation_of_not_isMark (plain c List.mem_cons_self)
      rw [List.cons_append, cutLast, ih _ _ fun d listed => plain d (List.mem_cons_of_mem _ listed)]
      simp [inside]
  have text : (path ++ "#").toList = path.toList ++ ['#'] := by simp
  unfold shorten
  rw [spellPrototypes_prototypeOf segment.spelled]
  dsimp only
  rw [text, cut _ _ _ segment.plain]

/-- A prototype as a parent is read as its instance members. -/
theorem Whole.parentOf_prototypeOf (whole : Whole path) :
    Doclet.parentOf (prototypeOf path) = some (path ++ String.singleton '#') := by
  have text : (prototypeOf path).toList = path.toList ++ '.' :: prototypeWord :=
    toList_prototypeOf path
  unfold Doclet.parentOf
  rw [Text.after?_eq_none_iff.mpr (text ▸ not_global_join (c := '.') rfl whole.not_global)]
  dsimp only
  rw [spellPrototypes_prototypeOf whole.spelled]
  simp

/-! ### Modules -/

/-- What has no colon neither is a module nor leads below one. -/
theorem apart_of_module {module path : String} (isModule : isModule module = true)
    (plain : ':' ∉ path.toList) : Apart module path := by
  have colon : ':' ∈ module.toList := by
    rw [Longname.isModule, List.isPrefixOf_iff_prefix] at isModule
    exact isModule.subset (by decide)
  constructor
  · rintro rfl
    exact plain colon
  · unfold isMemberPath
    split
    next c rest found =>
      rw [List.isPrefixOf?_eq_some_iff_append_eq] at found
      exact absurd (found ▸ List.mem_append_left _ colon) plain
    · rfl

theorem Segment.not_mem_colon (segment : Segment name) : ':' ∉ name.toList :=
  fun colon => absurd (segment.plain ':' colon) (by decide)

theorem not_mem_colon_member {parent name : String} {c : Char} (other : ':' ≠ c)
    (front : ':' ∉ parent.toList) (last : ':' ∉ name.toList) :
    ':' ∉ (member parent c name).toList := by
  rw [toList_member, List.mem_append, List.mem_cons]
  simp [front, other, last]

theorem not_mem_colon_prototypeOf {path : String} (plain : ':' ∉ path.toList) :
    ':' ∉ (prototypeOf path).toList := by
  rw [toList_prototypeOf, List.mem_append]
  simp [plain, prototypeWord]

theorem member_ne_self (parent : String) (c : Char) (name : String) :
    member parent c name ≠ name := by
  intro same
  have length := congrArg List.length (congrArg String.toList same)
  rw [toList_member, List.length_append, List.length_cons] at length
  omega

/-- Members of one name that are joined differently are different. -/
theorem member_ne_member {parent other : String} {c e : Char} (apart : c ≠ e) (name : String) :
    member parent c name ≠ member other e name := by
  intro same
  have text := congrArg String.toList same
  rw [toList_member, toList_member] at text
  exact apart (List.cons.inj (List.append_inj' text rfl).2).1

theorem member_inj {parent other : String} {c : Char} {name : String}
    (same : member parent c name = member other c name) : parent = other := by
  have texts := congrArg String.toList same
  rw [toList_member, toList_member] at texts
  exact String.toList_injective (List.append_cancel_right texts)

/-! ### Names in front -/

theorem exists_basename? (filled : name ≠ "") : ∃ base, basename? name = some base := by
  unfold basename?
  split
  next none => exact absurd (String.toList_injective none) filled
  next => split <;> exact ⟨_, rfl⟩

/-- Whether a path begins with an identifier does not depend on what stands behind the dot. -/
theorem basename?_of_front {foo other : String} {rest more : List Char}
    (path : name.toList = foo.toList ++ '.' :: rest)
    (also : other.toList = foo.toList ++ '.' :: more) (leads : basename? name = some foo) :
    basename? other = some foo := by
  have longer : name ≠ foo := by
    rintro rfl
    have length := congrArg List.length path
    simp at length
  unfold basename? at leads ⊢
  rw [path] at leads
  rw [also]
  cases chars : foo.toList with
  | nil =>
    rw [chars] at leads
    exact absurd (Option.some.inj leads) longer
  | cons c tail =>
    rw [chars, List.cons_append] at leads
    rw [List.cons_append]
    dsimp only at leads ⊢
    split at leads
    next starts =>
      have upto (rest : List Char) : (tail ++ '.' :: rest).takeWhile continuesIdentifier =
          tail.takeWhile continuesIdentifier := by
        rw [List.takeWhile_append]
        split
        next all =>
          rw [List.takeWhile_cons_of_neg (by decide), List.append_nil]
          exact (List.takeWhile_prefix _).eq_of_length all |>.symm
        next => rfl
      rw [upto] at leads
      rw [if_pos starts, upto]
      exact leads
    next => exact absurd (Option.some.inj leads) longer

end Doclets.Longname
