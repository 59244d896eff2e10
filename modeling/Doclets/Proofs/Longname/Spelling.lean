import Doclets.Proofs.Longname.Openings

/-!
Spelling out prototypes is complete: none is left at the beginning of a path or behind a dot, so
spelling out what is spelled out already changes nothing.
-/

namespace Doclets.Longname

variable {path rest : List Char} {c : Char} {name : String}

/-- No prototype is left behind a dot. -/
def SpelledBehindDots (path : List Char) : Prop :=
  ∀ before after, path = before ++ (prototypeWord ++ after) → before.getLast? = some '.' →
    endsSegment after = false

theorem spelled_iff :
    Spelled path ↔ SpelledBehindDots path ∧ startsPrototype path = false := by
  constructor
  · intro spelled
    refine ⟨fun before after split dot => spelled before after split (Or.inr dot), ?_⟩
    rw [Bool.eq_false_iff, ne_eq, startsPrototype_eq_true_iff]
    rintro ⟨rest, split, ends⟩
    rw [spelled [] rest split (Or.inl rfl)] at ends
    cases ends
  · rintro ⟨spelled, start⟩ before after split (rfl | dot)
    · rw [split, List.nil_append, startsPrototype_word] at start
      exact start
    · exact spelled before after split dot

theorem SpelledBehindDots.cons (spelled : SpelledBehindDots path)
    (start : c = '.' → startsPrototype path = false) : SpelledBehindDots (c :: path) := by
  intro before after split dot
  cases before with
  | nil => cases dot
  | cons first before =>
    obtain ⟨rfl, same⟩ := List.cons.inj split
    cases before with
    | nil =>
      have begins := start (Option.some.inj dot)
      rw [show path = prototypeWord ++ after from same, startsPrototype_word] at begins
      exact begins
    | cons next before => exact spelled (next :: before) after same (by simpa using dot)

theorem SpelledBehindDots.append (spelled : SpelledBehindDots path) {front : List Char}
    (dotless : '.' ∉ front) : SpelledBehindDots (front ++ path) := by
  induction front with
  | nil => exact spelled
  | cons c front ih =>
    obtain ⟨other, dotless⟩ := List.ne_and_not_mem_of_not_mem_cons dotless
    exact (ih dotless).cons fun same => absurd same.symm other

/-! ### How a path is read -/

/-- In the middle of a segment the word stays. -/
theorem prototypesFrom_inside_word (rest : List Char) :
    prototypesFrom false false [] (prototypeWord ++ rest) =
      prototypeWord ++ prototypesFrom false false [] rest := by
  have behind : prototypesFrom false false ([] ++ prototypeWord.reverse) rest = _ :=
    prototypesFrom_append nofun
  rw [prototypesFrom_kept (by simp), List.append_nil]
  simpa using behind

theorem prototypesFrom_start_word (rest : List Char) :
    prototypesFrom true false [] (prototypeWord ++ rest) =
      if endsSegment rest then '#' :: prototypesFrom false false [] (withoutDot rest)
      else prototypeWord ++ prototypesFrom false false [] rest := by
  split
  next ends =>
    have behind : prototypesFrom false false ([] ++ ['#']) (withoutDot rest) = _ :=
      prototypesFrom_append nofun
    rw [prototypesFrom_word rfl ends]
    exact behind
  next goes =>
    have behind : prototypesFrom false false ([] ++ prototypeWord.reverse) rest = _ :=
      prototypesFrom_append nofun
    rw [prototypesFrom_kept (by simpa using goes), List.append_nil]
    simpa using behind

/-- Where no word begins, the start of a path is read like the middle of a segment. -/
theorem prototypesFrom_other (first : Bool) (other : ¬ prototypeWord <+: c :: rest) :
    prototypesFrom first false [] (c :: rest) =
      if c = '.' then
        if startsPrototype rest then prototypesFrom true false [] rest
        else '.' :: prototypesFrom true false [] rest
      else c :: prototypesFrom false false [] rest := by
  rw [prototypesFrom_cons fun more begins same => other ⟨more, by rw [begins, same]; rfl⟩]
  by_cases dot : c = '.'
  · subst dot
    rw [if_pos rfl]
    exact prototypesFrom_behind_dot [] rest
  · have behind : prototypesFrom false false ([] ++ [c]) rest = _ := prototypesFrom_append nofun
    rw [if_neg dot, decide_eq_false dot]
    exact behind

/-- A path is read word by word, and otherwise character by character. -/
theorem word_induction {P : List Char → Prop} (nil : P [])
    (word : ∀ rest, P rest → P (withoutDot rest) → P (prototypeWord ++ rest))
    (other : ∀ c rest, ¬ prototypeWord <+: c :: rest → P rest → P (c :: rest)) (path : List Char) :
    P path := by
  induction length : path.length using Nat.strong_induction_on generalizing path with
  | _ size ih =>
    subst length
    by_cases begins : prototypeWord <+: path
    · obtain ⟨rest, rfl⟩ := begins
      have shorter : (withoutDot rest).length ≤ rest.length := by
        unfold withoutDot
        split <;> simp
      have longer : (prototypeWord ++ rest).length = rest.length + 9 := by simp [prototypeWord]
      exact word rest (ih _ (by omega) rest rfl) (ih _ (by omega) _ rfl)
    · cases path with
      | nil => exact nil
      | cons c rest => exact other c rest begins (ih _ (by simp) rest rfl)

/-! ### What a path is spelled with -/

/-- A dot is read as a dot or, with the prototype behind it, as `#`. -/
theorem exists_of_dot (rest : List Char) : ∃ d more, isPunctuation d = true ∧
    (if startsPrototype rest then prototypesFrom true false [] rest
      else '.' :: prototypesFrom true false [] rest) = d :: more := by
  split
  next starts =>
    obtain ⟨more, begins, _⟩ := exists_of_startsPrototype true [] starts
    exact ⟨'#', more, rfl, begins⟩
  next => exact ⟨'.', _, rfl, rfl⟩

theorem endsSegment_prototypesFrom (path : List Char) :
    endsSegment (prototypesFrom false false [] path) = endsSegment path := by
  by_cases begins : prototypeWord <+: path
  · obtain ⟨rest, rfl⟩ := begins
    rw [prototypesFrom_inside_word]
    rfl
  · cases path with
    | nil => rfl
    | cons c rest =>
      rw [prototypesFrom_other false begins]
      split
      next dot =>
        obtain ⟨d, more, punctuation, read⟩ := exists_of_dot rest
        rw [read, dot]
        simp [endsSegment, punctuation, show isPunctuation '.' = true from rfl]
      next => rfl

/-- Up to the first punctuation a path is copied. -/
theorem takeWhile_prototypesFrom (path : List Char) :
    (prototypesFrom false false [] path).takeWhile (fun c => !isPunctuation c) =
      path.takeWhile fun c => !isPunctuation c := by
  induction path using word_induction with
  | nil => rfl
  | word rest ih _ =>
    have plain : ∀ c ∈ prototypeWord, (!isPunctuation c) = true := fun c listed => by
      rw [not_isPunctuation_of_mem_prototypeWord listed, Bool.not_false]
    rw [prototypesFrom_inside_word, List.takeWhile_append_of_pos plain,
      List.takeWhile_append_of_pos plain, ih]
  | other c rest other ih =>
    rw [prototypesFrom_other false other]
    split
    next dot =>
      obtain ⟨d, more, punctuation, read⟩ := exists_of_dot rest
      rw [read, dot, List.takeWhile_cons_of_neg (by simpa using punctuation),
        List.takeWhile_cons_of_neg (by decide)]
    next => rw [List.takeWhile_cons, List.takeWhile_cons, ih]

/-- The word begins a text if it begins the text in front of the first punctuation. -/
theorem word_prefix_iff : prototypeWord <+: path ↔
    prototypeWord <+: path.takeWhile fun c => !isPunctuation c := by
  constructor
  · rintro ⟨rest, rfl⟩
    rw [List.takeWhile_append_of_pos fun c listed => by
      rw [not_isPunctuation_of_mem_prototypeWord listed, Bool.not_false]]
    exact List.prefix_append _ _
  · exact fun begins => begins.trans (List.takeWhile_prefix _)

theorem startsPrototype_eq_false (other : ¬ prototypeWord <+: path) :
    startsPrototype path = false := by
  rw [Bool.eq_false_iff, ne_eq, startsPrototype_eq_true_iff]
  rintro ⟨rest, rfl, _⟩
  exact other (List.prefix_append _ _)

/-- Nothing that is written makes a prototype of what is copied. -/
theorem spelled_prototypesFrom (path : List Char) :
    SpelledBehindDots (prototypesFrom false false [] path) ∧
      Spelled (prototypesFrom true false [] path) := by
  induction path using word_induction with
  | nil => exact ⟨(spelled_iff.mp spelled_nil).1, spelled_nil⟩
  | word rest ih behind =>
    have dotless : '.' ∉ prototypeWord := by decide
    have inside := ih.1.append dotless
    rw [prototypesFrom_inside_word, prototypesFrom_start_word]
    refine ⟨inside, ?_⟩
    split
    next ends => exact spelled_iff.mpr ⟨behind.1.cons nofun, rfl⟩
    next goes =>
      refine spelled_iff.mpr ⟨inside, ?_⟩
      rw [startsPrototype_word, endsSegment_prototypesFrom]
      simpa using goes
  | other c rest other ih =>
    rw [prototypesFrom_other false other, prototypesFrom_other true other, and_iff_right_of_imp]
    · split
      next dot =>
        split
        next starts => exact ih.2
        next =>
          have start := (spelled_iff.mp ih.2).2
          exact spelled_iff.mpr ⟨(spelled_iff.mp ih.2).1.cons fun _ => start, rfl⟩
      next plain =>
        refine spelled_iff.mpr ⟨ih.1.cons fun dot => absurd dot plain, ?_⟩
        apply startsPrototype_eq_false
        rw [word_prefix_iff, List.takeWhile_cons] at other ⊢
        rwa [takeWhile_prototypesFrom]
    · exact fun spelled => (spelled_iff.mp spelled).1

theorem spelled_spellPrototypes (longer : name ≠ "prototype") :
    Spelled (spellPrototypes name).toList := by
  rw [toList_spellPrototypes longer]
  exact (spelled_prototypesFrom name.toList).2

/-- What is spelled out stays as it is. -/
theorem spellPrototypes_spellPrototypes (name : String) :
    spellPrototypes (spellPrototypes name) = spellPrototypes name := by
  by_cases word : name = "prototype"
  · rw [word]
    rfl
  · exact spellPrototypes_of_spelled (spelled_spellPrototypes word)

theorem not_spelled_prototypeWord : ¬ Spelled prototypeWord := by
  intro spelled
  cases spelled [] [] rfl (Or.inl rfl)

/-- Spelling out prototypes leaves none but the bare word, which stays; what has none is left as it
is, and so spelling out again changes nothing. -/
theorem spellPrototypes_complete (name : String) :
    spellPrototypes (spellPrototypes name) = spellPrototypes name ∧
      (Spelled (spellPrototypes name).toList ↔ name ≠ "prototype") ∧
      (spellPrototypes name = name ↔ name = "prototype" ∨ Spelled name.toList) := by
  refine ⟨spellPrototypes_spellPrototypes name, ⟨?_, spelled_spellPrototypes⟩, ?_, ?_⟩
  · rintro spelled rfl
    exact not_spelled_prototypeWord spelled
  · intro same
    by_cases word : name = "prototype"
    · exact Or.inl word
    · have spelled := spelled_spellPrototypes word
      rw [same] at spelled
      exact Or.inr spelled
  · rintro (rfl | spelled)
    · rfl
    · exact spellPrototypes_of_spelled spelled

-- the dot behind a word that is spelled out goes with it, so the next word has none in front of it
example : spellPrototypes "prototype.prototype.a.prototype" = "#prototype.a#" := by
  decide +kernel

end Doclets.Longname
