import Doclets.Doclet.Tags
import Doclets.Proofs.Text.Blanks
import Doclets.Proofs.Text.Pieces

/-!
Types in comments. A union of types is written with bars between their names, and parentheses may
stand around the whole of it; those that a name ends in are taken for the latter.
-/

namespace Doclets

namespace Text

/-- Whether the brackets of a text that stands inside of `depth` others close those and each other,
none of them too early. -/
def balanced (opening closing : Char) : Nat → List Char → Bool
  | depth, [] => depth = 0
  | depth, c :: rest =>
    if c = opening then balanced opening closing (depth + 1) rest
    else if c = closing then
      match depth with
      | 0 => false
      | depth + 1 => balanced opening closing depth rest
    else balanced opening closing depth rest

end Text

namespace Doclet

open Text (dropEndWhile isBlank trim trimEnd trimStart)

/-- The name of one type of a union. -/
structure TypeName (name : String) : Prop where
  ne_empty : name ≠ ""
  trimmed : trim name.toList = name.toList
  balanced : Text.balanced '(' ')' 0 name.toList = true
  unopened : name.toList.head? ≠ some '('
  single : '|' ∉ name.toList

instance (name : String) : Decidable (TypeName name) :=
  decidable_of_iff (name ≠ "" ∧ trim name.toList = name.toList ∧
      Text.balanced '(' ')' 0 name.toList = true ∧ name.toList.head? ≠ some '(' ∧
      '|' ∉ name.toList)
    ⟨fun ⟨filled, trimmed, balanced, unopened, single⟩ =>
      ⟨filled, trimmed, balanced, unopened, single⟩,
      fun type => ⟨type.ne_empty, type.trimmed, type.balanced, type.unopened, type.single⟩⟩

def isClosing (c : Char) : Bool := c = ')'

/-- A name without the parentheses that it ends in. -/
def unclosed (name : String) : String :=
  String.ofList (trimEnd (dropEndWhile isClosing name.toList))

/-- A union as it is written. -/
def union (names : List String) : String := "|".intercalate names

variable {name last text : String} {names front : List String}

theorem toList_union (names : List String) :
    (union names).toList = ['|'].intercalate (names.map String.toList) := by
  simp [union]

/-! ### Names -/

/-- A name begins with a character of its own. -/
theorem TypeName.exists_cons (type : TypeName name) : ∃ c rest, name.toList = c :: rest ∧
    isBlank c = false ∧ c ≠ '(' ∧ c ≠ ')' := by
  have filled : name.toList ≠ [] := by simpa using type.ne_empty
  obtain ⟨c, rest, chars⟩ := List.exists_cons_of_ne_nil filled
  have starts := (Text.trim_eq_self_iff.mp type.trimmed).1
  have balanced := type.balanced
  have unopened := type.unopened
  rw [Text.trimStart_eq_self_iff, chars] at starts
  rw [chars] at unopened balanced
  refine ⟨c, rest, chars, starts c rfl, fun opens => unopened (congrArg some opens), ?_⟩
  rintro rfl
  cases balanced

theorem TypeName.not_blank (type : TypeName name) :
    ∀ c ∈ name.toList.getLast?, isBlank c = false :=
  Text.trimEnd_eq_self_iff.mp (Text.trim_eq_self_iff.mp type.trimmed).2

/-- What is left of a name without the parentheses at its end begins as the name does. -/
theorem TypeName.exists_dropEndWhile (type : TypeName name) : ∃ c rest,
    dropEndWhile isClosing name.toList = c :: rest ∧ isBlank c = false := by
  obtain ⟨c, rest, chars, plain, _, other⟩ := type.exists_cons
  have kept : isClosing c = false := by simpa [isClosing] using other
  have begins := Text.dropEndWhile_append_cons kept [] rest
  rw [chars]
  exact ⟨c, dropEndWhile isClosing rest, begins, plain⟩

theorem TypeName.toList_unclosed (type : TypeName name) :
    (unclosed name).toList = trim (dropEndWhile isClosing name.toList) := by
  obtain ⟨c, rest, chars, plain⟩ := type.exists_dropEndWhile
  rw [unclosed, String.toList_ofList, trim, chars,
    Text.trimStart_eq_self_iff.mpr (by simpa using plain)]

theorem TypeName.unclosed_ne_empty (type : TypeName name) : unclosed name ≠ "" := by
  obtain ⟨c, rest, chars, plain⟩ := type.exists_dropEndWhile
  have begins := Text.dropEndWhile_append_cons plain [] rest
  intro none
  have empty := congrArg String.toList none
  rw [unclosed, String.toList_ofList, chars, trimEnd] at empty
  exact absurd (begins.symm.trans empty) (List.cons_ne_nil _ _)

/-- A name keeps its end if that is no parenthesis. -/
theorem TypeName.unclosed_eq_iff (type : TypeName name) :
    unclosed name = name ↔ name.toList.getLast? ≠ some ')' := by
  constructor
  · intro same closing
    obtain ⟨front, chars⟩ := List.getLast?_eq_some_iff.mp closing
    have length := congrArg (fun text => text.toList.length) same
    have short : (trimEnd (dropEndWhile isClosing front)).length ≤
        (dropEndWhile isClosing front).length :=
      (List.rdropWhile_prefix isBlank _).length_le
    have shorter : (dropEndWhile isClosing front).length ≤ front.length :=
      (List.rdropWhile_prefix isClosing front).length_le
    rw [unclosed, String.toList_ofList, chars, Text.dropEndWhile_concat,
      if_pos (show isClosing ')' = true from rfl), List.length_append,
      List.length_singleton] at length
    omega
  · intro other
    have unclosing (c : Char) (last : name.toList.getLast? = some c) : isClosing c = false := by
      rw [isClosing, decide_eq_false_iff_not]
      rintro rfl
      exact other last
    have kept := Text.dropEndWhile_append unclosing []
    rw [List.append_nil, show dropEndWhile isClosing [] = [] from rfl, List.append_nil] at kept
    rw [unclosed, kept, (Text.trim_eq_self_iff.mp type.trimmed).2, String.ofList_toList]

/-! ### Unions -/

/-- What is read of a union once the parentheses around it are off. -/
theorem unionNames?_of_inner (types : ∀ name ∈ front, TypeName name) (type : TypeName last)
    (inner : dropEndWhile isClosing ((trim text.toList).dropWhile fun c => c = '(') =
      ['|'].intercalate (front.map String.toList ++ [dropEndWhile isClosing last.toList])) :
    unionNames? text = some (front ++ [unclosed last]) := by
  have apart : ∀ piece ∈ front.map String.toList ++ [dropEndWhile isClosing last.toList],
      '|' ∉ piece := by
    intro piece listed
    rcases List.mem_append.mp listed with early | final
    · obtain ⟨name, own, rfl⟩ := List.mem_map.mp early
      exact (types name own).single
    · rw [List.mem_singleton.mp final]
      exact fun bar => type.single ((List.rdropWhile_prefix isClosing last.toList).subset bar)
  have trimmed : (front.map String.toList).map trim = front.map String.toList := by
    rw [List.map_map]
    exact List.map_congr_left fun name own => (types name own).trimmed
  have pieces : ((Text.splitAt '|' (['|'].intercalate
      (front.map String.toList ++ [dropEndWhile isClosing last.toList]))).map trim) =
        (front ++ [unclosed last]).map String.toList := by
    rw [Text.splitAt_intercalate (by simp) apart, List.map_append, trimmed, List.map_append,
      List.map_singleton, List.map_singleton, type.toList_unclosed]
  have filled : ∀ name ∈ front ++ [unclosed last], name ≠ "" := by
    intro name listed
    rcases List.mem_append.mp listed with early | final
    · exact (types name early).ne_empty
    · rw [List.mem_singleton.mp final]
      exact type.unclosed_ne_empty
  have kept : ((front ++ [unclosed last]).map String.toList).filter (fun name => !name.isEmpty) =
      (front ++ [unclosed last]).map String.toList := by
    rw [List.filter_eq_self]
    intro piece listed
    obtain ⟨name, own, rfl⟩ := List.mem_map.mp listed
    simpa using filled name own
  unfold unionNames?
  dsimp only
  rw [show (fun c : Char => decide (c = ')')) = isClosing from rfl, inner, pieces, kept]
  simp

theorem union_append (front : List String) (last : String) : ∃ before,
    (union (front ++ [last])).toList = before ++ last.toList := by
  induction front with
  | nil => exact ⟨[], by simp [union]⟩
  | cons name front ih =>
    obtain ⟨before, same⟩ := ih
    refine ⟨name.toList ++ '|' :: before, ?_⟩
    rw [toList_union] at same ⊢
    rw [List.cons_append, List.map_cons, List.intercalate_cons_of_ne_nil (by simp), same]
    simp

theorem union_cons (name : String) (others : List String) : ∃ more,
    (union (name :: others)).toList = name.toList ++ more := by
  cases others with
  | nil => exact ⟨[], by simp [union]⟩
  | cons next others => exact ⟨'|' :: (union (next :: others)).toList, by simp [toList_union]⟩

/-- A union begins as its first name does, and ends as its last. -/
theorem exists_union_cons (types : ∀ name ∈ front, TypeName name) (type : TypeName last) :
    ∃ c rest, (union (front ++ [last])).toList = c :: rest ∧ isBlank c = false ∧ c ≠ '(' := by
  obtain ⟨name, others, split⟩ := List.exists_cons_of_ne_nil (l := front ++ [last]) (by simp)
  have own : TypeName name := by
    have listed : name ∈ front ++ [last] := split ▸ List.mem_cons_self
    rcases List.mem_append.mp listed with early | final
    · exact types name early
    · exact List.mem_singleton.mp final ▸ type
  obtain ⟨c, rest, chars, plain, other, _⟩ := own.exists_cons
  obtain ⟨more, text⟩ := union_cons name others
  exact ⟨c, rest ++ more, by rw [split, text, chars]; rfl, plain, other⟩

theorem trim_union (types : ∀ name ∈ front, TypeName name) (type : TypeName last) :
    trim (union (front ++ [last])).toList = (union (front ++ [last])).toList := by
  obtain ⟨c, rest, chars, plain, _⟩ := exists_union_cons types type
  obtain ⟨before, text⟩ := union_append front last
  have filled : last.toList ≠ [] := by simpa using type.ne_empty
  rw [Text.trim_eq_self_iff, Text.trimStart_eq_self_iff, Text.trimEnd_eq_self_iff]
  constructor
  · simpa [chars] using plain
  · rw [text, List.getLast?_append_of_ne_nil _ filled]
    exact type.not_blank

/-- A union is read as its names, except for the parentheses that the last of them ends in: bare or
in parentheses, it comes back exactly if the last name ends in none. -/
theorem unionNames?_union (filled : names ≠ []) (types : ∀ name ∈ names, TypeName name) :
    let last := names.getLast filled
    let read := names.dropLast ++ [unclosed last]
    unionNames? (union names) = some read ∧
      unionNames? ("(" ++ union names ++ ")") = some read ∧
      (read = names ↔ last.toList.getLast? ≠ some ')') := by
  obtain ⟨front, last, rfl⟩ : ∃ front last, names = front ++ [last] :=
    ⟨_, _, (List.dropLast_append_getLast filled).symm⟩
  obtain ⟨early, final⟩ := List.forall_mem_append.mp types
  have type : TypeName last := final last List.mem_cons_self
  obtain ⟨c, rest, chars, _, other⟩ := exists_union_cons early type
  have opened : (union (front ++ [last])).toList.dropWhile (fun c => c = '(') =
      (union (front ++ [last])).toList := by
    rw [chars, List.dropWhile_cons_of_neg (by simpa using other)]
  have inner : dropEndWhile isClosing (union (front ++ [last])).toList =
      ['|'].intercalate (front.map String.toList ++ [dropEndWhile isClosing last.toList]) := by
    rw [toList_union, List.map_append, List.map_singleton,
      Text.dropEndWhile_intercalate (by decide)]
  have enclosed : ("(" ++ union (front ++ [last]) ++ ")").toList =
      '(' :: ((union (front ++ [last])).toList ++ [')']) := by simp
  have whole : trim ('(' :: ((union (front ++ [last])).toList ++ [')'])) =
      '(' :: ((union (front ++ [last])).toList ++ [')']) := by
    rw [Text.trim_eq_self_iff, Text.trimStart_eq_self_iff, Text.trimEnd_eq_self_iff,
      ← List.cons_append, List.getLast?_concat]
    exact ⟨by simp [show isBlank '(' = false by decide],
      by simp [show isBlank ')' = false by decide]⟩
  rw [List.dropLast_concat, List.getLast_concat]
  refine ⟨?_, ?_, ?_⟩
  · apply unionNames?_of_inner early type
    rw [trim_union early type, opened, inner]
  · apply unionNames?_of_inner early type
    rw [enclosed, whole, List.dropWhile_cons_of_pos (by rfl), List.dropWhile_append, opened,
      if_neg (by simp [chars]), Text.dropEndWhile_concat,
      if_pos (show isClosing ')' = true from rfl), inner]
  · rw [List.append_cancel_left_eq, List.singleton_inj, type.unclosed_eq_iff]

theorem unionNames?_union_function :
    unionNames? "function(string)|Array<number>" = some ["function(string)", "Array<number>"] ∧
      unionNames? "(function(string)|Array<number>)" =
        some ["function(string)", "Array<number>"] := by
  have types : ∀ name ∈ ["function(string)", "Array<number>"], TypeName name := by
    decide +kernel
  obtain ⟨bare, enclosed, same⟩ := unionNames?_union (List.cons_ne_nil _ _) types
  have whole := same.mpr (by decide +kernel)
  rw [whole] at bare enclosed
  exact ⟨bare, enclosed⟩

/-- A union whose last name ends in a parenthesis loses it. -/
theorem unionNames?_loses_parenthesis : ¬ ∀ names : List String, names ≠ [] →
    (∀ name ∈ names, TypeName name) → unionNames? (union names) = some names ∧
      unionNames? ("(" ++ union names ++ ")") = some names := by
  intro all
  have read := (all ["function(string)"] (List.cons_ne_nil _ _) (by decide +kernel)).1
  have other : unionNames? (union ["function(string)"]) = some ["function(string"] := by
    decide +kernel
  rw [other] at read
  exact absurd read (by decide)

end Doclet

end Doclets
