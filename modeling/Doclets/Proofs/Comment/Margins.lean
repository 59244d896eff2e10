import Doclets.Comment.Text
import Doclets.Proofs.Text.Blanks

/-!
The lines of a comment without their left margins. Blanks around a text have no part in what is left
of it; a star behind it goes only as the margin of a line of its own.
-/

namespace Doclets.Comment

open Text (isBlank nonblanks trim trimStart dropReturn)

variable {cs line more blanks : List Char} {c : Char}

/-! ### One line -/

theorem dropMargin_of_blank (blank : ∀ c ∈ line, isBlank c = true) : dropMargin line = [] := by
  rw [dropMargin, Text.trimStart_eq_nil_iff.mpr blank]

theorem dropMargin_cons_blank (blank : isBlank c = true) (line : List Char) :
    dropMargin (c :: line) = dropMargin line := by
  have front : trimStart (c :: line) = trimStart line := List.dropWhile_cons_of_pos blank
  rw [dropMargin, front, dropMargin]

/-- What begins with neither a blank nor a star has no margin. -/
theorem dropMargin_cons_other (plain : isBlank c = false) (other : c ≠ '*') (line : List Char) :
    dropMargin (c :: line) = c :: line := by
  have kept : trimStart (c :: line) = c :: line :=
    List.dropWhile_cons_of_neg (by simpa using plain)
  rw [dropMargin, kept]
  split
  next same => exact absurd (List.cons.inj same).1 other
  next same => exact absurd (List.cons.inj same).1 other
  next => rfl

theorem dropMargin_cons_star (line : List Char) :
    dropMargin ('*' :: line) = line ∨
      ∃ rest, line = ' ' :: rest ∧ dropMargin ('*' :: line) = rest := by
  have kept : trimStart ('*' :: line) = '*' :: line := List.dropWhile_cons_of_neg (by decide)
  rw [dropMargin, kept]
  split
  next rest same =>
    cases same
    exact Or.inr ⟨rest, rfl, rfl⟩
  next same =>
    cases same
    exact Or.inl rfl
  next _ never => exact absurd rfl (never line)

/-- A margin holds no more than one character that is no blank. -/
theorem nonblanks_dropMargin_star (line : List Char) :
    nonblanks (dropMargin ('*' :: line)) = nonblanks line := by
  rcases dropMargin_cons_star line with kept | ⟨rest, rfl, dropped⟩
  · rw [kept]
  · rw [dropped, Text.nonblanks_cons]
    rfl

theorem nonblanks_dropMargin_le (line : List Char) :
    nonblanks (dropMargin line) ≤ nonblanks line := by
  induction line with
  | nil => exact Nat.le_refl _
  | cons c line ih =>
    by_cases blank : isBlank c = true
    · rw [dropMargin_cons_blank blank, Text.nonblanks_cons, if_pos blank]
      exact ih
    by_cases star : c = '*'
    · rw [star, nonblanks_dropMargin_star, Text.nonblanks_cons]
      exact Nat.le_add_right _ _
    · rw [dropMargin_cons_other (by simpa using blank) star]

/-- What stands in front of a line loses nothing of it. -/
theorem nonblanks_dropMargin_cons (c : Char) (line : List Char) :
    nonblanks (dropMargin line) ≤ nonblanks (dropMargin (c :: line)) := by
  by_cases blank : isBlank c = true
  · rw [dropMargin_cons_blank blank]
  by_cases star : c = '*'
  · rw [star, nonblanks_dropMargin_star]
    exact nonblanks_dropMargin_le line
  · rw [dropMargin_cons_other (by simpa using blank) star, Text.nonblanks_cons]
    exact (nonblanks_dropMargin_le line).trans (Nat.le_add_right _ _)

/-- Behind a line with a character that is no blank everything stays, but for one space that may
belong to its margin. -/
theorem dropMargin_append (some : trimStart line ≠ []) (more : List Char) :
    dropMargin (line ++ more) = dropMargin line ++ more ∨
      ∃ rest, more = ' ' :: rest ∧ dropMargin (line ++ more) = dropMargin line ++ rest := by
  have front : trimStart (line ++ more) = trimStart line ++ more := by
    rw [trimStart, List.dropWhile_append, if_neg (by simpa [trimStart] using some), trimStart]
  obtain ⟨c, rest, begins⟩ := List.exists_cons_of_ne_nil some
  have plain : isBlank c = false := by
    have first := List.head?_dropWhile_not isBlank line
    rw [show line.dropWhile isBlank = c :: rest from begins] at first
    simpa using first
  have same : dropMargin line = dropMargin (c :: rest) := by
    rw [dropMargin, begins, dropMargin, trimStart,
      List.dropWhile_cons_of_neg (by simpa using plain)]
  have joined : dropMargin (line ++ more) = dropMargin (c :: (rest ++ more)) := by
    rw [dropMargin, front, begins, dropMargin, trimStart,
      List.cons_append, List.dropWhile_cons_of_neg (by simpa using plain)]
  rw [same, joined]
  by_cases star : c = '*'
  · subst star
    cases rest with
    | nil =>
      rw [List.nil_append, show dropMargin ['*'] = [] from rfl]
      exact dropMargin_cons_star more
    | cons d rest =>
      left
      by_cases space : d = ' '
      · subst space
        rfl
      · have kept (more : List Char) : dropMargin ('*' :: d :: more) = d :: more := by
          rcases dropMargin_cons_star (d :: more) with kept | ⟨_, same, _⟩
          · exact kept
          · exact absurd (List.cons.inj same).1 space
        rw [List.cons_append, kept, kept]
        rfl
  · left
    rw [dropMargin_cons_other plain star, dropMargin_cons_other plain star]
    rfl

theorem dropMargin_append_blank (blank : isBlank c = true) (line : List Char) :
    ∃ blanks, dropMargin (line ++ [c]) = dropMargin line ++ blanks ∧
      ∀ d ∈ blanks, isBlank d = true := by
  by_cases none : trimStart line = []
  · have all := Text.trimStart_eq_nil_iff.mp none
    refine ⟨[], ?_, nofun⟩
    rw [dropMargin_of_blank all, dropMargin_of_blank]
    · rfl
    · intro d listed
      rcases List.mem_append.mp listed with inside | last
      · exact all d inside
      · exact List.mem_singleton.mp last ▸ blank
  · rcases dropMargin_append none [c] with kept | ⟨rest, same, dropped⟩
    · exact ⟨[c], kept, by simpa using blank⟩
    · cases same
      exact ⟨[], dropped, nofun⟩

/-- A star behind a line is its margin if nothing but blanks stands in front of it. -/
theorem dropMargin_append_star (line : List Char) (plain : ∀ c ∈ more, isBlank c = false) :
    dropMargin (line ++ '*' :: more) =
      dropMargin line ++ if line.all isBlank then more else '*' :: more := by
  by_cases all : line.all isBlank = true
  · have blank := List.all_eq_true.mp all
    rw [if_pos all, dropMargin_of_blank blank, dropMargin, Text.trimStart_append blank,
      ← dropMargin]
    rcases dropMargin_cons_star more with kept | ⟨rest, rfl, _⟩
    · exact kept
    · exact absurd (plain ' ' List.mem_cons_self) (by decide)
  · have some : trimStart line ≠ [] := fun none =>
      all (List.all_eq_true.mpr (Text.trimStart_eq_nil_iff.mp none))
    rw [if_neg all]
    rcases dropMargin_append some ('*' :: more) with kept | ⟨_, same, _⟩
    · exact kept
    · cases same

/-! ### All lines -/

/-- The lines of a text whose current line begins, reversed, with `line`, without their margins. -/
def marginless (line : List Char) : List Char → List Char
  | [] => dropMargin line.reverse
  | c :: rest =>
    if c = '\n' then dropMargin (dropReturn line.reverse) ++ '\n' :: marginless [] rest
    else marginless (c :: line) rest

theorem linesFrom_ne_nil (filled : line ≠ [] ∨ cs ≠ []) : Text.linesFrom line cs ≠ [] := by
  fun_induction Text.linesFrom line cs with
  | case1 line empty => simp_all
  | case2 => exact List.cons_ne_nil _ _
  | case3 => exact List.cons_ne_nil _ _
  | case4 line c rest other ih => exact ih (Or.inl (List.cons_ne_nil _ _))

theorem joinLines_cons (line : List Char) {lines : List (List Char)} (more : lines ≠ []) :
    Text.joinLines (line :: lines) = line ++ '\n' :: Text.joinLines lines := by
  cases lines with
  | nil => exact absurd rfl more
  | cons next lines => simp [Text.joinLines, List.intercalate]

/-- The lines are joined as they stand, but for a line feed at the end. -/
theorem marginless_eq (line cs : List Char) :
    ∃ blanks,
      marginless line cs = Text.joinLines ((Text.linesFrom line cs).map dropMargin) ++ blanks ∧
        ∀ c ∈ blanks, isBlank c = true := by
  fun_induction marginless line cs with
  | case1 line =>
    refine ⟨[], ?_, nofun⟩
    cases line with
    | nil => rfl
    | cons c line => simp [Text.linesFrom, Text.joinLines]
  | case2 line rest ih =>
    obtain ⟨blanks, same, blank⟩ := ih
    rw [Text.linesFrom, if_pos rfl, List.map_cons]
    by_cases last : rest = []
    · subst last
      refine ⟨['\n'], ?_, List.forall_mem_singleton.mpr rfl⟩
      simp [marginless, Text.linesFrom, Text.joinLines, dropMargin_of_blank]
    · have some : (Text.linesFrom [] rest).map dropMargin ≠ [] := by
        simpa using linesFrom_ne_nil (Or.inr last)
      refine ⟨blanks, ?_, blank⟩
      rw [joinLines_cons _ some, same]
      simp
  | case3 line c rest other ih =>
    rw [Text.linesFrom, if_neg other]
    exact ih

/-- What a comment says between its delimiters. -/
def bare (cs : List Char) : List Char := trim (marginless [] cs)

theorem content_eq (raw : List Char) :
    content raw = bare (dropClosing (dropOpening (trim raw))) := by
  obtain ⟨blanks, same, blank⟩ := marginless_eq [] (dropClosing (dropOpening (trim raw)))
  rw [bare, same, Text.trim_append_blank _ blank]
  rfl

/-! ### Blanks around a text -/

theorem dropReturn_append (filled : line ≠ []) (front : List Char) :
    dropReturn (front ++ line) = front ++ dropReturn line := by
  unfold dropReturn
  rw [List.getLast?_append_of_ne_nil _ filled]
  split
  · rw [List.dropLast_append_of_ne_nil filled]
  · rfl

theorem exists_dropReturn (line : List Char) :
    line = dropReturn line ∨ line = dropReturn line ++ ['\r'] := by
  unfold dropReturn
  split
  next last => exact Or.inr (List.dropLast_append_getLast? '\r' last).symm
  next => exact Or.inl rfl

theorem dropMargin_dropReturn_cons_blank (blank : isBlank c = true) (line : List Char) :
    dropMargin (dropReturn (c :: line)) = dropMargin (dropReturn line) := by
  by_cases none : line = []
  · subst none
    have all : ∀ d ∈ dropReturn [c], isBlank d = true := by
      intro d listed
      rcases exists_dropReturn [c] with same | same
      · rw [← same] at listed
        exact List.mem_singleton.mp listed ▸ blank
      · cases rest : dropReturn [c] with
        | nil =>
          rw [rest] at listed
          cases listed
        | cons e rest => simp [rest] at same
    rw [dropMargin_of_blank all]
    rfl
  · rw [show c :: line = [c] ++ line from rfl, dropReturn_append none, List.singleton_append,
      dropMargin_cons_blank blank]

theorem marginless_append_blank (blank : isBlank c = true) (line cs : List Char) :
    marginless (line ++ [c]) cs = marginless line cs := by
  induction cs generalizing line with
  | nil => simp [marginless, dropMargin_cons_blank blank]
  | cons d cs ih =>
    unfold marginless
    rw [List.reverse_append, List.reverse_singleton, List.singleton_append,
      dropMargin_dropReturn_cons_blank blank, ← List.cons_append, ih]

theorem bare_cons_blank (blank : isBlank c = true) (cs : List Char) : bare (c :: cs) = bare cs := by
  by_cases feed : c = '\n'
  · have all : ∀ d ∈ ['\n'], isBlank d = true := List.forall_mem_singleton.mpr rfl
    rw [feed, bare, marginless, if_pos rfl]
    exact Text.trim_blank_append all _
  · rw [bare, marginless, if_neg feed]
    exact congrArg trim (marginless_append_blank blank [] cs)

theorem bare_blank_append (blank : ∀ c ∈ blanks, isBlank c = true) (cs : List Char) :
    bare (blanks ++ cs) = bare cs := by
  induction blanks with
  | nil => rfl
  | cons c blanks ih =>
    rw [List.cons_append, bare_cons_blank (blank c List.mem_cons_self)]
    exact ih fun d listed => blank d (List.mem_cons_of_mem c listed)

/-! ### The last line -/

/-- What stands behind the last line feed. -/
def lastLine (cs : List Char) : List Char := (cs.reverse.takeWhile (· ≠ '\n')).reverse

theorem notMem_lastLine (cs : List Char) : '\n' ∉ lastLine cs := by
  intro listed
  have other := List.mem_takeWhile_imp (List.mem_reverse.mp listed)
  simp at other

theorem exists_lastLine (cs : List Char) :
    cs = lastLine cs ∨ ∃ above, cs = above ++ '\n' :: lastLine cs := by
  have split := List.takeWhile_append_dropWhile (p := (· ≠ '\n')) (l := cs.reverse)
  cases rest : cs.reverse.dropWhile (· ≠ '\n') with
  | nil =>
    rw [rest, List.append_nil] at split
    left
    rw [lastLine, split, List.reverse_reverse]
  | cons c above =>
    have feed : c = '\n' := by
      have first := List.head?_dropWhile_not (· ≠ '\n') cs.reverse
      rw [rest] at first
      simpa using first
    right
    refine ⟨above.reverse, ?_⟩
    rw [rest] at split
    rw [← List.reverse_inj, ← split, feed, lastLine]
    simp

theorem marginless_line (line : List Char) (one : '\n' ∉ cs) :
    marginless line cs = dropMargin (line.reverse ++ cs) := by
  induction cs generalizing line with
  | nil => rw [marginless, List.append_nil]
  | cons c cs ih =>
    obtain ⟨other, one⟩ := List.ne_and_not_mem_of_not_mem_cons one
    rw [marginless, if_neg (Ne.symm other), ih _ one]
    simp

theorem marginless_newline (line : List Char) (one : '\n' ∉ cs) (rest : List Char) :
    marginless line (cs ++ '\n' :: rest) =
      dropMargin (dropReturn (line.reverse ++ cs)) ++ '\n' :: marginless [] rest := by
  induction cs generalizing line with
  | nil => rw [List.nil_append, marginless, if_pos rfl, List.append_nil]
  | cons c cs ih =>
    obtain ⟨other, one⟩ := List.ne_and_not_mem_of_not_mem_cons one
    rw [List.cons_append, marginless, if_neg (Ne.symm other), ih _ one]
    simp

theorem exists_marginless_above (line above : List Char) :
    ∃ front, ∀ rest, marginless line (above ++ '\n' :: rest) = front ++ marginless [] rest := by
  induction above generalizing line with
  | nil =>
    refine ⟨dropMargin (dropReturn line.reverse) ++ ['\n'], fun rest => ?_⟩
    rw [List.nil_append, marginless, if_pos rfl]
    simp
  | cons c above ih =>
    by_cases feed : c = '\n'
    · obtain ⟨front, read⟩ := ih []
      refine ⟨dropMargin (dropReturn line.reverse) ++ '\n' :: front, fun rest => ?_⟩
      rw [List.cons_append, marginless, if_pos feed, read]
      simp
    · obtain ⟨front, read⟩ := ih (c :: line)
      refine ⟨front, fun rest => ?_⟩
      rw [List.cons_append, marginless, if_neg feed, read]

/-- What is written behind a text is read with its last line. -/
theorem exists_marginless_append (cs : List Char) : ∃ front, ∀ more,
    marginless [] (cs ++ more) = front ++ marginless [] (lastLine cs ++ more) := by
  rcases exists_lastLine cs with one | ⟨above, split⟩
  · exact ⟨[], fun more => by rw [← one]; rfl⟩
  · obtain ⟨front, read⟩ := exists_marginless_above [] above
    refine ⟨front, fun more => ?_⟩
    rw [← read (lastLine cs ++ more)]
    conv_lhs => rw [split]
    simp

/-- A blank behind a line is one behind what is left of it. -/
theorem exists_marginless_blank (one : '\n' ∉ line) (blank : isBlank c = true) :
    ∃ kept front back, marginless [] line = kept ++ front ∧
      marginless [] (line ++ [c]) = kept ++ back ∧
      (∀ d ∈ front, isBlank d = true) ∧ ∀ d ∈ back, isBlank d = true := by
  by_cases feed : c = '\n'
  · have read : marginless [] (line ++ [c]) = dropMargin (dropReturn line) ++ ['\n'] := by
      rw [feed, marginless_newline [] one]
      rfl
    have last : ∀ d ∈ ['\n'], isBlank d = true := List.forall_mem_singleton.mpr rfl
    rcases exists_dropReturn line with same | same
    · refine ⟨dropMargin (dropReturn line), [], _, ?_, read, nofun, last⟩
      rw [marginless_line [] one, ← same, List.append_nil]
      rfl
    · have blank : isBlank '\r' = true := by decide
      obtain ⟨blanks, dropped, all⟩ := dropMargin_append_blank blank (dropReturn line)
      refine ⟨dropMargin (dropReturn line), blanks, _, ?_, read, all, last⟩
      rw [marginless_line [] one, ← dropped, ← same]
      rfl
  · obtain ⟨blanks, dropped, all⟩ := dropMargin_append_blank blank line
    refine ⟨dropMargin line, [], blanks, ?_, ?_, nofun, all⟩
    · rw [marginless_line [] one, List.append_nil]
      rfl
    · rw [marginless_line [] (by simpa [one] using Ne.symm feed), List.reverse_nil,
        List.nil_append, dropped]

theorem bare_append_blank_single (blank : isBlank c = true) (cs : List Char) :
    bare (cs ++ [c]) = bare cs := by
  obtain ⟨above, read⟩ := exists_marginless_append cs
  obtain ⟨kept, front, back, here, behind, all, last⟩ :=
    exists_marginless_blank (notMem_lastLine cs) blank
  have alone := read []
  rw [List.append_nil, List.append_nil, here] at alone
  rw [bare, bare, read, behind, alone, ← List.append_assoc, ← List.append_assoc,
    Text.trim_append_blank _ last, Text.trim_append_blank _ all]

theorem bare_append_blank (blank : ∀ c ∈ blanks, isBlank c = true) (cs : List Char) :
    bare (cs ++ blanks) = bare cs := by
  induction blanks using List.reverseRecOn with
  | nil => rw [List.append_nil]
  | append_singleton blanks last ih =>
    rw [← List.append_assoc, bare_append_blank_single (blank last (by simp))]
    exact ih fun c listed => blank c (by simp [listed])

/-! ### Stars and slashes around a text -/

/-- A star behind a text leaves it as it is only where it is the margin of an empty last line. -/
theorem bare_append_star_iff (cs : List Char) (plain : ∀ c ∈ more, isBlank c = false) :
    bare (cs ++ '*' :: more) = bare cs ↔ (lastLine cs).all isBlank = true ∧ more = [] := by
  obtain ⟨above, read⟩ := exists_marginless_append cs
  have one := notMem_lastLine cs
  have also : '\n' ∉ lastLine cs ++ '*' :: more := by
    simp only [List.mem_append, List.mem_cons, not_or]
    exact ⟨one, by decide, fun listed => absurd (plain _ listed) (by decide)⟩
  have alone := read []
  have behind := read ('*' :: more)
  rw [List.append_nil, List.append_nil, marginless_line [] one, List.reverse_nil,
    List.nil_append] at alone
  rw [marginless_line [] also, List.reverse_nil, List.nil_append,
    dropMargin_append_star _ plain] at behind
  constructor
  · intro same
    have count := congrArg nonblanks same
    have length : nonblanks more = more.length := by
      apply List.countP_eq_length.mpr
      intro c listed
      simp [plain c listed]
    rw [bare, bare, Text.nonblanks_trim, Text.nonblanks_trim, behind, alone] at count
    split at count
    next blank =>
      refine ⟨blank, List.length_eq_zero_iff.mp ?_⟩
      simp only [Text.nonblanks_append] at count
      omega
    next =>
      simp only [Text.nonblanks_append, Text.nonblanks_cons,
        show isBlank '*' = false by decide] at count
      simp at count
  · rintro ⟨blank, rfl⟩
    rw [bare, bare, behind, alone, if_pos blank, List.append_nil]

/-- What a character gains in front of every line it gains in front of every text. -/
theorem nonblanks_marginless_le (gain : Nat)
    (gains : ∀ line, nonblanks (dropMargin line) + gain ≤ nonblanks (dropMargin (c :: line)))
    (line cs : List Char) :
    nonblanks (marginless line cs) + gain ≤ nonblanks (marginless (line ++ [c]) cs) := by
  have returned (line : List Char) : nonblanks (dropMargin (dropReturn line)) + gain ≤
      nonblanks (dropMargin (dropReturn (c :: line))) := by
    by_cases none : line = []
    · subst none
      rcases exists_dropReturn [c] with same | same
      · rw [← same]
        exact gains []
      · obtain ⟨front, rfl⟩ : dropReturn [c] = [] ∧ c = '\r' := by
          cases rest : dropReturn [c] <;> simp_all
        rw [front]
        exact gains []
    · rw [show c :: line = [c] ++ line from rfl, dropReturn_append none]
      exact gains (dropReturn line)
  induction cs generalizing line with
  | nil => simpa [marginless] using gains line.reverse
  | cons d cs ih =>
    unfold marginless
    split
    · have here := returned line.reverse
      rw [List.reverse_append, List.reverse_singleton, List.singleton_append,
        Text.nonblanks_append, Text.nonblanks_append]
      omega
    · exact ih (d :: line)

theorem nonblanks_bare_append_le (one : '\n' ∉ more) (cs : List Char) :
    nonblanks (bare cs) ≤ nonblanks (bare (more ++ cs)) := by
  rw [bare, bare, Text.nonblanks_trim, Text.nonblanks_trim]
  induction more with
  | nil => exact Nat.le_refl _
  | cons c more ih =>
    obtain ⟨other, one⟩ := List.ne_and_not_mem_of_not_mem_cons one
    refine (ih one).trans ?_
    rw [List.cons_append, marginless, if_neg (Ne.symm other)]
    exact nonblanks_marginless_le 0 (nonblanks_dropMargin_cons c) [] (more ++ cs)

/-- A slash in front of a text, with whatever follows it on its line, is never part of a margin. -/
theorem bare_slash_append_ne (one : '\n' ∉ more) (cs : List Char) :
    bare ('/' :: (more ++ cs)) ≠ bare cs := by
  intro same
  have gains (line : List Char) :
      nonblanks (dropMargin line) + 1 ≤ nonblanks (dropMargin ('/' :: line)) := by
    rw [dropMargin_cons_other (by decide) (by decide), Text.nonblanks_cons]
    exact Nat.add_le_add_right (nonblanks_dropMargin_le line) 1
  have slash := nonblanks_marginless_le 1 gains [] (more ++ cs)
  have rest := nonblanks_bare_append_le one cs
  have count := congrArg nonblanks same
  rw [bare, bare, Text.nonblanks_trim, Text.nonblanks_trim, marginless,
    if_neg (by decide)] at count
  rw [bare, bare, Text.nonblanks_trim, Text.nonblanks_trim] at rest
  rw [List.nil_append] at slash
  omega

end Doclets.Comment
