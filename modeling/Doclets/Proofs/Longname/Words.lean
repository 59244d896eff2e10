import Doclets.Proofs.Longname.Whole
import Doclets.Text.Alphanumeric

/-!
Paths of words. A word is made of letters, digits, `_` and `$`, so nothing in it is read as a mark;
words that are joined by punctuation spell a longname that stands for itself, in a module or out of
one.
-/

namespace Doclets.Longname

def isWordChar (c : Char) : Bool := Text.isAlphanumeric c || c = '_' || c = '$'

/-- One segment of a plain path. -/
structure Word (name : String) : Prop where
  ne_empty : name ≠ ""
  chars : ∀ c ∈ name.toList, isWordChar c = true
  ne_prototype : name ≠ "prototype"

instance (name : String) : Decidable (Word name) :=
  decidable_of_iff (name ≠ "" ∧ name.toList.all isWordChar = true ∧ name ≠ "prototype")
    ⟨fun ⟨filled, chars, other⟩ => ⟨filled, List.all_eq_true.mp chars, other⟩,
      fun word => ⟨word.ne_empty, List.all_eq_true.mpr word.chars, word.ne_prototype⟩⟩

/-- A plain path: words, each joined to those before it by one punctuation character. -/
inductive Words : String → Prop where
  | one {name : String} (word : Word name) : Words name
  | join {path name : String} {c : Char} (words : Words path)
    (punctuation : isPunctuation c = true) (word : Word name) : Words (member path c name)

/-- A plain path, or one in front of which stands the mark of a module. -/
inductive Qualified : String → Prop where
  | words {path : String} (words : Words path) : Qualified path
  | module {path : String} (words : Words path) : Qualified (moduleMark ++ path)

variable {name text : String} {c : Char}

/-! ### Words -/

theorem isMark_eq_false_of_isWordChar (word : isWordChar c = true) : isMark c = false := by
  rw [Bool.eq_false_iff]
  intro mark
  have listed : c ∈ ['.', '#', '~', '[', ']', '(', '"', '\'', ':'] := by
    simpa [isMark, isPunctuation, or_assoc] using mark
  have none : ['.', '#', '~', '[', ']', '(', '"', '\'', ':'].all fun c => !isWordChar c := by
    decide +kernel
  have other := List.all_eq_true.mp none c listed
  rw [word] at other
  cases other

theorem Word.segment (word : Word name) : Segment name where
  ne_empty := word.ne_empty
  plain c listed := isMark_eq_false_of_isWordChar (word.chars c listed)
  ne_prototype same := word.ne_prototype (String.toList_injective same)

/-! ### Plain paths -/

theorem Words.path (words : Words text) : Path text := by
  induction words with
  | one word => exact word.segment.path
  | join _ punctuation word ih => exact ih.join punctuation word.segment.path

theorem Words.chars (words : Words text) :
    ∀ c ∈ text.toList, isWordChar c = true ∨ isPunctuation c = true := by
  induction words with
  | one word => exact fun c listed => Or.inl (word.chars c listed)
  | join _ punctuation word ih =>
    intro c listed
    rw [toList_member, List.mem_append, List.mem_cons] at listed
    rcases listed with front | rfl | own
    · exact ih c front
    · exact Or.inr punctuation
    · exact Or.inl (word.chars c own)

theorem Words.not_mem (words : Words text) (other : (isWordChar c || isPunctuation c) = false) :
    c ∉ text.toList := by
  intro listed
  rcases words.chars c listed with word | punctuation
  · simp [word] at other
  · simp [punctuation] at other

/-- No plain path is in the scope around all units. -/
theorem Words.whole (words : Words text) : Whole text where
  toPath := words.path
  not_global global := words.not_mem (c := '<') (by decide +kernel) (global.subset (by decide))

/-- A plain path is a word, or ends in one behind a shorter plain path. -/
theorem Words.segment_or_join (words : Words text) : Segment text ∨ ∃ front c name,
    Words front ∧ isPunctuation c = true ∧ Segment name ∧ text = member front c name := by
  cases words with
  | one word => exact Or.inl word.segment
  | join front punctuation word =>
    exact Or.inr ⟨_, _, _, front, punctuation, word.segment, rfl⟩

theorem Words.not_isModule (words : Words text) : isModule text = false := by
  rw [Bool.eq_false_iff, isModule, ne_eq, List.isPrefixOf_iff_prefix]
  intro mark
  exact words.not_mem (c := ':') (by decide +kernel) (mark.subset (by decide))

/-- The first character of a plain path is that of a word. -/
theorem Words.head?_ofPunctuation (words : Words text) :
    text.toList.head?.bind Scope.ofPunctuation = none := by
  induction words with
  | @one name word =>
    cases chars : name.toList with
    | nil => rfl
    | cons c rest =>
      have plain := isPunctuation_of_not_isMark (word.segment.plain c (by simp [chars]))
      rw [List.head?_cons, Option.bind_some, Option.eq_none_iff_forall_ne_some]
      intro scope mark
      rw [Scope.ofPunctuation_eq_some_iff] at mark
      cases scope <;> cases mark <;> cases plain
  | @join path name c words _ _ ih =>
    have filled : path.toList ≠ [] := by simpa using words.path.ne_empty
    rw [toList_member, List.head?_append_of_ne_nil _ filled]
    exact ih

/-! ### Modules -/

/-- A mark in front of a spelled path leaves it spelled, if it ends in no dot and no prototype
begins with it. -/
theorem Spelled.behind {mark path : List Char} (spelled : Spelled path) (first : Char)
    (begins : mark.head? = some first) (other : first ≠ 'p') (dotless : '.' ∉ mark) :
    Spelled (mark ++ path) := by
  intro before after split standing
  rcases List.append_eq_append_iff.mp split with ⟨front, rfl, same⟩ | ⟨rest, rfl, same⟩
  · apply spelled front after same
    rcases standing with none | dot
    · exact Or.inl (List.append_eq_nil_iff.mp none).2
    · cases front with
      | nil =>
        rw [List.append_nil] at dot
        exact absurd (List.mem_of_getLast? dot) dotless
      | cons next front =>
        rw [List.getLast?_append_of_ne_nil _ (by simp)] at dot
        exact Or.inr dot
  · rcases standing with rfl | dot
    · rw [List.nil_append] at begins
      rw [prototypeWord, List.cons_append] at same
      have head : (rest ++ path).head? = some first := by
        rw [List.head?_append, begins]
        rfl
      rw [← same, List.head?_cons] at head
      exact absurd (Option.some.inj head).symm other
    · exact absurd (List.mem_append_left _ (List.mem_of_getLast? dot)) dotless

theorem Path.whole_module (path : Path text) : Whole (moduleMark ++ text) where
  ne_empty none := by
    have length := congrArg String.length none
    simp [moduleMark] at length
  spelled := by
    rw [String.toList_append]
    exact path.spelled.behind 'm' rfl (by decide) (by decide)
  closed := by
    rw [String.toList_append, List.foldl_append]
    exact path.closed
  not_joined := by
    have filled : text.toList ≠ [] := by simpa using path.ne_empty
    rw [endsJoined, String.toList_append, List.getLast?_append_of_ne_nil _ filled]
    exact path.not_joined
  not_global global := by
    rw [String.toList_append] at global
    have first := congrArg List.head? (List.prefix_iff_eq_take.mp global)
    cases first

theorem Qualified.whole (qualified : Qualified text) : Whole text := by
  cases qualified with
  | words words => exact words.whole
  | module words => exact words.path.whole_module

/-- No plain path begins with punctuation. -/
theorem Qualified.ne_marked (qualified : Qualified text) (punctuation : isPunctuation c = true) :
    text ≠ String.singleton c ++ name := by
  intro same
  have first : text.toList.head? = some c := by simp [same]
  cases qualified with
  | words words =>
    have bare := words.head?_ofPunctuation
    simp only [isPunctuation, Bool.or_eq_true, decide_eq_true_eq] at punctuation
    rw [first] at bare
    rcases punctuation with (rfl | rfl) | rfl <;> cases bare
  | module words =>
    rw [String.toList_append] at first
    obtain rfl : 'm' = c := Option.some.inj first
    cases punctuation

/-! ### Paths of any segments -/

/-- A path of segments, which may be in a module, that does not begin in the global scope. -/
inductive Segments : String → Prop where
  | one {name : String} (segment : Segment name)
    (apart : ¬ Longname.global.toList <+: name.toList) : Segments name
  | module {name : String} (segment : Segment name) : Segments (moduleMark ++ name)
  | join {path name : String} {c : Char} (segments : Segments path)
    (punctuation : isPunctuation c = true) (segment : Segment name) :
    Segments (member path c name)

theorem Segments.whole (segments : Segments text) : Whole text := by
  induction segments with
  | one segment apart => exact ⟨segment.path, apart⟩
  | module segment => exact segment.path.whole_module
  | join _ punctuation segment ih => exact ih.join punctuation segment.path

end Doclets.Longname
