import Doclets.Proofs.Longname.Remainders
import Mathlib.Data.List.TakeWhile

/-!
What a text leaves open. A segment comes off a text again unless a quotation or a bracket that was
opened in front of it is open there; then it belongs to that, whatever is joined to the text.
-/

namespace Doclets.Longname

/-- Whatever is quoted or bracketed in a text ends in it. -/
def Closed (text : String) : Prop :=
  (text.toList.foldl Nesting.step .outside).isOutside = true

instance (text : String) : Decidable (Closed text) :=
  inferInstanceAs (Decidable ((text.toList.foldl Nesting.step .outside).isOutside = true))

/-- The text behind the last punctuation of a path. -/
def lastSegment (path : String) : String :=
  String.ofList (path.toList.reverse.takeWhile fun c => !isPunctuation c).reverse

variable {first dot : Bool} {out path own : List Char} {c : Char}
  {front back text name last : String} {n : Nesting}

/-! ### The last segment -/

theorem not_isPunctuation_of_mem_reverse (plain : Plain own) :
    ∀ c ∈ own.reverse, (!isPunctuation c) = true := by
  intro c listed
  simpa using isPunctuation_of_not_isMark (plain c (List.mem_reverse.mp listed))

theorem lastSegment_of_plain (plain : Plain name.toList) : lastSegment name = name := by
  rw [lastSegment, List.takeWhile_eq_self_iff.mpr (not_isPunctuation_of_mem_reverse plain),
    List.reverse_reverse, String.ofList_toList]

theorem lastSegment_member (punctuation : isPunctuation c = true) (plain : Plain name.toList) :
    lastSegment (member front c name) = name := by
  have text : (member front c name).toList.reverse =
      name.toList.reverse ++ c :: front.toList.reverse := by simp [toList_member]
  have stops : (c :: front.toList.reverse).takeWhile (fun c => !isPunctuation c) = [] := by
    rw [List.takeWhile_cons_of_neg (by simpa using punctuation)]
  rw [lastSegment, text, List.takeWhile_append_of_pos (not_isPunctuation_of_mem_reverse plain),
    stops, List.append_nil, List.reverse_reverse, String.ofList_toList]

/-! ### Quotations and brackets -/

/-- Whether a character opens or closes nothing. -/
def isCalm (c : Char) : Bool := !(['"', '\'', '[', ']'].contains c)

/-- Only a quotation mark has opened a quotation. -/
def Nesting.Marked (n : Nesting) : Prop := ∀ q, n.quote = some q → isCalm q = false

theorem isCalm_eq_true_iff :
    isCalm c = true ↔ c ≠ '"' ∧ c ≠ '\'' ∧ c ≠ '[' ∧ c ≠ ']' := by
  simp [isCalm]

theorem isCalm_of_not_isMark (plain : isMark c = false) : isCalm c = true :=
  isCalm_eq_true_iff.mpr ⟨ne_of_not_isMark plain rfl, ne_of_not_isMark plain rfl,
    ne_of_not_isMark plain rfl, ne_of_not_isMark plain rfl⟩

theorem isCalm_of_isPunctuation (punctuation : isPunctuation c = true) : isCalm c = true := by
  simp only [isPunctuation, Bool.or_eq_true, decide_eq_true_eq] at punctuation
  rcases punctuation with (rfl | rfl) | rfl <;> rfl

theorem marked_outside : Nesting.outside.Marked := nofun

theorem Nesting.Marked.step (marked : n.Marked) (c : Char) : (n.step c).Marked := by
  intro q open_
  unfold Nesting.step at open_
  split at open_
  next p quoted =>
    dsimp only at open_
    split at open_
    · cases open_
    · cases open_
      exact marked q quoted
  next none =>
    split at open_
    next mark =>
      cases open_
      simp only [Bool.or_eq_true, decide_eq_true_eq] at mark
      rcases mark with rfl | rfl <;> rfl
    next =>
      split at open_
      · exact marked q open_
      · split at open_ <;> exact marked q open_

theorem Nesting.Marked.foldl (marked : n.Marked) (cs : List Char) :
    (cs.foldl Nesting.step n).Marked := by
  induction cs generalizing n with
  | nil => exact marked
  | cons c cs ih => exact ih (marked.step c)

/-- A character that opens and closes nothing counts only where it may be escaped. -/
theorem Nesting.Marked.step_calm (marked : n.Marked) (calm : isCalm c = true) :
    n.step c = if n.quote.isSome then { n with escaped := c = '\\' && !n.escaped } else n := by
  obtain ⟨double, single, opening, closing⟩ := isCalm_eq_true_iff.mp calm
  unfold Nesting.step
  cases quoted : n.quote with
  | none => simp [double, single, opening, closing]
  | some q =>
    have other : c ≠ q := by
      rintro rfl
      rw [marked c quoted] at calm
      cases calm
    simp [other]

theorem Nesting.Marked.isOutside_step (marked : n.Marked) (calm : isCalm c = true) :
    (n.step c).isOutside = n.isOutside := by
  rw [marked.step_calm calm]
  split <;> rfl

theorem Nesting.Marked.isOutside_foldl (marked : n.Marked) {cs : List Char}
    (calm : ∀ c ∈ cs, isCalm c = true) :
    (cs.foldl Nesting.step n).isOutside = n.isOutside := by
  induction cs generalizing n with
  | nil => rfl
  | cons c cs ih =>
    rw [List.foldl_cons, ih (marked.step c) fun d listed => calm d (List.mem_cons_of_mem c listed),
      marked.isOutside_step (calm c List.mem_cons_self)]

/-- What opens and closes nothing leaves open what was. -/
theorem closed_append (calm : ∀ c ∈ back.toList, isCalm c = true) :
    Closed (front ++ back) ↔ Closed front := by
  rw [Closed, String.toList_append, List.foldl_append,
    (marked_outside.foldl front.toList).isOutside_foldl calm, Closed]

/-- Two texts that open and close nothing are the same to a scan, if they escape nothing. -/
theorem Nesting.Marked.foldl_calm (marked : n.Marked) {cs : List Char} (filled : cs ≠ [])
    (calm : ∀ c ∈ cs, isCalm c = true ∧ c ≠ '\\') :
    cs.foldl Nesting.step n = n.step '#' := by
  have single (m : Nesting) (also : m.Marked) {c : Char} (calm : isCalm c = true ∧ c ≠ '\\') :
      m.step c = m.step '#' := by
    rw [also.step_calm calm.1, also.step_calm rfl]
    simp [calm.2]
  have again (m : Nesting) (also : m.Marked) : (m.step '#').step '#' = m.step '#' := by
    rw [(also.step '#').step_calm rfl, also.step_calm rfl]
    split <;> simp_all
  induction cs generalizing n with
  | nil => exact absurd rfl filled
  | cons c cs ih =>
    have here := single n marked (calm c List.mem_cons_self)
    rw [List.foldl_cons, here]
    by_cases last : cs = []
    · rw [last, List.foldl_nil]
    · rw [ih (marked.step '#') last fun d listed => calm d (List.mem_cons_of_mem c listed),
        again n marked]

/-! ### Prototypes in front of a segment -/

theorem calm_prototypeWord (listed : c ∈ prototypeWord) : isCalm c = true ∧ c ≠ '\\' := by
  have all : prototypeWord.all (fun c => isCalm c && c ≠ '\\') = true := by decide
  simpa using List.all_eq_true.mp all c listed

/-- A prototype that is spelled out opens and closes what it did before: nothing. -/
theorem foldl_step_spelled (marked : n.Marked) (behind : dot = true → out.head? = some '.')
    (more rest : List Char) (calm : ∀ c ∈ more, isCalm c = true ∧ c ≠ '\\') :
    (('#' :: if dot then out.tail else out).reverse ++ rest).foldl Nesting.step n =
      (out.reverse ++ (prototypeWord ++ more ++ rest)).foldl Nesting.step n := by
  have swap (front word : List Char) (filled : word ≠ [])
      (calm : ∀ c ∈ word, isCalm c = true ∧ c ≠ '\\') :
      (front ++ '#' :: rest).foldl Nesting.step n =
        (front ++ (word ++ rest)).foldl Nesting.step n := by
    rw [List.foldl_append, List.foldl_append, List.foldl_append,
      (marked.foldl front).foldl_calm filled calm, List.foldl_cons]
  have word : ∀ c ∈ prototypeWord ++ more, isCalm c = true ∧ c ≠ '\\' := by
    intro c listed
    rcases List.mem_append.mp listed with own | other
    · exact calm_prototypeWord own
    · exact calm c other
  cases dot with
  | false =>
    have filled : prototypeWord ++ more ≠ [] := by simp [prototypeWord]
    simpa using swap out.reverse _ filled word
  | true =>
    obtain ⟨out, rfl⟩ := List.head?_eq_some_iff.mp (behind rfl)
    have dotted : ∀ c ∈ '.' :: (prototypeWord ++ more), isCalm c = true ∧ c ≠ '\\' := by
      intro c listed
      rcases List.mem_cons.mp listed with rfl | own
      · decide
      · exact word c own
    simpa using swap out.reverse _ (List.cons_ne_nil _ _) dotted

/-- Spelling out prototypes opens and closes nothing. -/
theorem foldl_step_prototypesFrom (marked : n.Marked) (behind : dot = true → out.head? = some '.') :
    (prototypesFrom first dot out path).foldl Nesting.step n =
      (out.reverse ++ path).foldl Nesting.step n := by
  fun_induction prototypesFrom first dot out path with
  | case1 => rw [List.append_nil]
  | case2 =>
    rename_i rest _ ih
    exact (ih (absurd · Bool.false_ne_true)).trans (foldl_step_spelled marked behind ['.'] rest
      (List.forall_mem_singleton.mpr (by decide)))
  | case3 =>
    rename_i rest _ _ ih
    exact (ih (absurd · Bool.false_ne_true)).trans (foldl_step_spelled marked behind [] rest
      (List.forall_mem_nil _))
  | case4 first dot out rest kept ih =>
    rw [ih (absurd · Bool.false_ne_true)]
    simp
  | case5 first dot out c rest other ih =>
    rw [ih (by simp)]
    simp

/-- What is spelled already is copied behind whatever is written. -/
theorem prototypesFrom_behind (spelled : Spelled own) (out : List Char) :
    prototypesFrom false false out own = out.reverse ++ own := by
  have read : prototypesFrom false false ([] ++ out) own = _ := prototypesFrom_append nofun
  have kept := prototypesFrom_of_spelled false false [] own nofun nofun spelled
  rw [← List.nil_append out, read, kept]
  rfl

theorem prototypesFrom_joined (first dot : Bool) (out : List Char)
    (punctuation : isPunctuation c = true) (spelled : Spelled own) :
    prototypesFrom first dot out (c :: own) = out.reverse ++ c :: own := by
  have read : prototypesFrom false (c = '.') ([c] ++ out) own = _ :=
    prototypesFrom_append (by simp)
  have kept := prototypesFrom_of_spelled false (c = '.') [c] own
    (absurd · Bool.false_ne_true) (by simp) (spelled_nil.join punctuation spelled)
  rw [prototypesFrom_cons fun _ word _ => by
    rw [word] at punctuation
    cases punctuation]
  rw [show c :: out = [c] ++ out from rfl, read, kept]
  simp

/-- What is spelled already is copied behind the punctuation that joins it, where a prototype in
front may have taken the place of a dot. -/
theorem exists_prototypesFrom_joined (first dot : Bool) (out path : List Char)
    (punctuation : isPunctuation c = true) (spelled : Spelled own) :
    ∃ before e, isPunctuation e = true ∧
      prototypesFrom first dot out (path ++ c :: own) = before ++ e :: own ∧
      (c ≠ '.' → e = c ∧ before = prototypesFrom first dot out path) := by
  have mark : endsSegment [c] = true := by simp [endsSegment, punctuation]
  fun_induction prototypesFrom first dot out path with
  | case1 first dot out =>
    exact ⟨out.reverse, c, punctuation, prototypesFrom_joined first dot out punctuation spelled,
      fun _ => ⟨rfl, rfl⟩⟩
  | case2 =>
    rename_i rest counts ih
    simp only [Bool.and_eq_true] at counts
    obtain ⟨before, e, joins, read, same⟩ := ih
    exact ⟨before, e, joins, (prototypesFrom_word counts.1 rfl).trans read, same⟩
  | case3 =>
    rename_i dot out _ rest bare counts ih
    simp only [Bool.and_eq_true] at counts
    have ends : endsSegment (rest ++ c :: own) = true := (endsSegment_mark mark).trans counts.2
    have word : prototypesFrom _ dot out _ = _ := prototypesFrom_word counts.1 ends
    by_cases taken : rest = [] ∧ c = '.'
    · obtain ⟨rfl, rfl⟩ := taken
      refine ⟨(if dot then out.tail else out).reverse, '#', rfl,
        word.trans ((prototypesFrom_behind spelled _).trans ?_), fun other => absurd rfl other⟩
      rw [List.reverse_cons, List.append_assoc]
      rfl
    · rw [withoutDot_of_bare] at word
      · obtain ⟨before, e, joins, read, same⟩ := ih
        exact ⟨before, e, joins, word.trans read, same⟩
      · intro more same
        cases rest with
        | nil => exact taken ⟨rfl, (List.cons.inj same).1⟩
        | cons d rest => exact bare rest (by rw [(List.cons.inj same).1])
  | case4 first dot out rest kept ih =>
    have still : ¬ ((dot || first) && endsSegment (rest ++ c :: own)) = true := by
      rw [endsSegment_mark mark]
      exact kept
    obtain ⟨before, e, joins, read, same⟩ := ih
    exact ⟨before, e, joins, (prototypesFrom_kept still).trans read, same⟩
  | case5 first dot out d rest other ih =>
    have free (more : List Char) (begins : d = 'p')
        (same : rest ++ c :: own = ['r', 'o', 't', 'o', 't', 'y', 'p', 'e'] ++ more) : False := by
      have word : prototypeWord ++ more = d :: rest ++ c :: own := by
        rw [List.cons_append, same, begins]
        rfl
      obtain ⟨between, front, _⟩ := exists_of_word mark word
      exact other between begins (List.cons.inj front).2
    obtain ⟨before, e, joins, read, same⟩ := ih
    exact ⟨before, e, joins, (prototypesFrom_cons free).trans read, same⟩

/-! ### Cutting off the last segment -/

/-- A segment comes off where nothing is open in front of it. -/
theorem cutLast_of_isOutside {seen : List Char} (front : seen ≠ [] ∨ path ≠ [])
    (outside : (path.foldl Nesting.step n).isOutside = true) (punctuation : isPunctuation c = true)
    (plain : Plain own) (filled : own ≠ []) :
    cutLast n seen (path ++ c :: own) = some (seen.reverse ++ path, c, own) := by
  induction path generalizing n seen with
  | nil =>
    have begun : seen ≠ [] := by simpa using front
    rw [List.foldl_nil] at outside
    rw [List.nil_append]
    unfold cutLast
    rw [cutLast_of_plain _ _ plain]
    simp [punctuation, begun, filled, outside]
  | cons d path ih =>
    rw [List.cons_append]
    unfold cutLast
    rw [ih (Or.inl (by simp)) outside]
    simp

/-- Where something is open, whatever comes off holds more than the segment. -/
theorem exists_cutLast_of_inside (inside : (path.foldl Nesting.step n).isOutside = false)
    (plain : Plain own) (seen : List Char) :
    cutLast n seen (path ++ c :: own) = none ∨ ∃ before d more,
      cutLast n seen (path ++ c :: own) = some (before, d, more ++ c :: own) := by
  induction path generalizing n seen with
  | nil =>
    rw [List.foldl_nil] at inside
    rw [List.nil_append]
    unfold cutLast
    rw [cutLast_of_plain _ _ plain]
    simp [inside]
  | cons d path ih =>
    rw [List.cons_append]
    unfold cutLast
    rcases ih (n := n.step d) inside (d :: seen) with none | ⟨before, e, more, cut⟩
    · rw [none]
      dsimp only
      split
      · exact Or.inr ⟨seen.reverse, d, path, rfl⟩
      · exact Or.inl rfl
    · rw [cut]
      exact Or.inr ⟨before, e, more, rfl⟩

theorem eq_append_of_cutParenthesis {before after : List Char}
    (cut : cutParenthesis own = some (before, after)) : own = before ++ '(' :: after := by
  induction own generalizing before with
  | nil => cases cut
  | cons c rest ih =>
    unfold cutParenthesis at cut
    split at cut
    next later =>
      cases cut
      rw [ih later]
      rfl
    next =>
      split at cut
      next here =>
        cases cut
        rw [here]
        rfl
      next => cases cut

/-- A text that ends in no parenthesis has no variation. -/
theorem splitVariation_of_last (last : own.getLast? ≠ some ')') :
    splitVariation own = (own, none) := by
  unfold splitVariation
  split
  next before after cut =>
    split
    next variation ends =>
      rw [List.isSuffixOf?_eq_some_iff_append_eq] at ends
      have same : own = (before ++ '(' :: variation) ++ [')'] := by
        rw [eq_append_of_cutParenthesis cut, ← ends]
        simp
      rw [same, List.getLast?_concat] at last
      exact absurd rfl last
    next => rfl
  next => rfl

theorem Word.getLast?_append (word : Word last) (front : List Char) :
    (front ++ last.toList).getLast? ≠ some ')' := by
  have filled : last.toList ≠ [] := by simpa using word.ne_empty
  rw [List.getLast?_append_of_ne_nil _ filled]
  intro closing
  have none := word.chars ')' (List.mem_of_getLast? closing)
  exact absurd none (by decide +kernel)

theorem splitVariation_ne_nil (filled : own ≠ []) : (splitVariation own).1 ≠ [] := by
  unfold splitVariation
  split
  next before after cut =>
    split
    next variation _ =>
      split
      next => exact filled
      next some => simp_all
    next => exact filled
  next => exact filled

/-- What comes off a text is never empty. -/
theorem name_shorten_ne_empty (filled : text ≠ "") : (shorten text).name ≠ "" := by
  have filled : spellPrototypes text ≠ "" := spellPrototypes_ne_empty filled
  have spelled : (spellPrototypes text).toList ≠ [] := by simpa using filled
  have own {rest : List Char} (some : rest ≠ []) :
      String.ofList (splitVariation rest).1 ≠ "" := by
    simpa using splitVariation_ne_nil some
  unfold shorten
  dsimp only
  cases cut : cutLast .outside [] (spellPrototypes text).toList with
  | none => exact own spelled
  | some parts =>
    obtain ⟨_, _, _, behind, _⟩ := divides_of_cutLast cut
    exact own behind

/-- A last word opens and closes nothing, and neither does spelling out the prototypes. -/
theorem isOutside_front_iff {before : List Char} (longer : text ≠ "prototype")
    (spelled : (spellPrototypes text).toList = before ++ c :: last.toList)
    (punctuation : isPunctuation c = true) (word : Word last) :
    (before.foldl Nesting.step .outside).isOutside = true ↔ Closed text := by
  have calm : ∀ d ∈ c :: last.toList, isCalm d = true := by
    intro d listed
    rcases List.mem_cons.mp listed with rfl | own
    · exact isCalm_of_isPunctuation punctuation
    · exact isCalm_of_not_isMark (word.segment.plain d own)
  have scan : (spellPrototypes text).toList.foldl Nesting.step .outside =
      text.toList.foldl Nesting.step .outside := by
    rw [toList_spellPrototypes longer]
    exact foldl_step_prototypesFrom marked_outside nofun
  rw [Closed, ← scan, spelled, List.foldl_append,
    (marked_outside.foldl before).isOutside_foldl calm]

/-- What holds more than the last word is another name, in which no variation is found. -/
theorem splitVariation_joined (word : Word last) (more : List Char) (c : Char) :
    (splitVariation (more ++ c :: last.toList)).1 = more ++ c :: last.toList ∧
      String.ofList (more ++ c :: last.toList) ≠ last := by
  have whole : splitVariation (more ++ c :: last.toList) = (more ++ c :: last.toList, none) := by
    apply splitVariation_of_last
    simpa using word.getLast?_append (more ++ [c])
  refine ⟨congrArg Prod.fst whole, fun same => ?_⟩
  have length := congrArg List.length (congrArg String.toList same)
  simp at length
  omega

/-- A word comes off a text exactly where nothing is open in it. -/
theorem name_shorten_iff {before : List Char} (longer : text ≠ "prototype")
    (spelled : (spellPrototypes text).toList = before ++ c :: last.toList) (begun : before ≠ [])
    (punctuation : isPunctuation c = true) (word : Word last) :
    (shorten text).name = last ↔ Closed text := by
  have segment := word.segment
  have open_iff := isOutside_front_iff longer spelled punctuation word
  unfold shorten
  dsimp only
  rw [spelled]
  by_cases closed : Closed text
  · have some : last.toList ≠ [] := by simpa using word.ne_empty
    refine iff_of_true ?_ closed
    rw [cutLast_of_isOutside (Or.inr begun) (open_iff.mpr closed) punctuation segment.plain some]
    dsimp only
    rw [splitVariation_of_plain segment.plain, String.ofList_toList]
  · refine iff_of_false ?_ closed
    have inside : (before.foldl Nesting.step .outside).isOutside = false := by
      simpa using fun outside => closed (open_iff.mp outside)
    rcases exists_cutLast_of_inside (c := c) inside segment.plain [] with
      none | ⟨front, d, more, cut⟩
    · obtain ⟨whole, other⟩ := splitVariation_joined word before c
      rw [none]
      dsimp only
      rwa [whole]
    · obtain ⟨whole, other⟩ := splitVariation_joined word more c
      rw [cut]
      dsimp only
      rwa [whole]

/-! ### Plain paths -/

theorem Words.calm (words : Words name) : ∀ c ∈ name.toList, isCalm c = true := by
  intro c listed
  rcases words.chars c listed with word | punctuation
  · exact isCalm_of_not_isMark (isMark_eq_false_of_isWordChar word)
  · exact isCalm_of_isPunctuation punctuation

theorem Words.name_shorten (words : Words name) : (shorten name).name = lastSegment name := by
  cases words with
  | one word => rw [shorten_segment word.segment, lastSegment_of_plain word.segment.plain]
  | join front punctuation word =>
    rw [shorten_member front.path punctuation word.segment,
      lastSegment_member punctuation word.segment.plain]

/-- A plain path that is joined to another path comes off in part. -/
theorem Words.name_shorten_member (words : Words name) (path : Path front)
    (punctuation : isPunctuation c = true) :
    (shorten (member front c name)).name = lastSegment name := by
  cases words with
  | one word =>
    rw [shorten_member path punctuation word.segment, lastSegment_of_plain word.segment.plain]
  | @join inner last e words mark word =>
    have joined : member front c (member inner e last) = member (member front c inner) e last := by
      simp only [member, String.append_assoc]
    rw [joined, shorten_member (path.join punctuation words.path) mark word.segment,
      lastSegment_member mark word.segment.plain]

/-- Behind a scope its last segment comes off exactly where the scope leaves nothing open. -/
theorem Words.name_shorten_inner (words : Words name) (filled : front ≠ "") :
    (shorten (member front '~' name)).name = lastSegment name ↔ Closed front := by
  have text := toList_member front '~' name
  have longer := ne_prototype_of_mark text rfl
  obtain ⟨before, e, _, read, same⟩ := exists_prototypesFrom_joined true false []
    front.toList (c := '~') rfl words.path.spelled
  obtain ⟨rfl, rfl⟩ := same (by decide)
  rw [← text, ← toList_spellPrototypes longer] at read
  have begun : prototypesFrom true false [] front.toList ≠ [] :=
    prototypesFrom_ne_nil (Or.inr (by simpa using filled))
  have closed : Closed (member front '~' name) ↔ Closed front := by
    rw [member, String.append_assoc]
    apply closed_append
    intro c listed
    rw [String.toList_append, List.mem_append] at listed
    rcases listed with mark | own
    · rw [String.toList_singleton, List.mem_singleton] at mark
      exact mark ▸ rfl
    · exact words.calm c own
  rw [← closed]
  cases words with
  | one word =>
    rw [lastSegment_of_plain word.segment.plain]
    exact name_shorten_iff longer read begun rfl word
  | @join inner last e words mark word =>
    rw [lastSegment_member mark word.segment.plain]
    rw [toList_member, ← List.cons_append, ← List.append_assoc] at read
    exact name_shorten_iff longer read (by simp) mark word

/-- A single segment that is written twice is another segment. -/
theorem Word.name_shorten_twice (word : Word name) : (shorten (name ++ name)).name ≠ name := by
  have filled : name.toList ≠ [] := by simpa using word.ne_empty
  have longer : name ++ name ≠ name := by
    intro same
    have length := congrArg List.length (congrArg String.toList same)
    simp at length
    exact filled (by simp [length])
  have twice : Word (name ++ name) := by
    refine ⟨by simpa using word.ne_empty, ?_, ?_⟩
    · intro c listed
      rw [String.toList_append, List.mem_append, or_self] at listed
      exact word.chars c listed
    · -- The word `prototype` has an odd number of characters.
      intro same
      have length := congrArg List.length (congrArg String.toList same)
      rw [String.toList_append, List.length_append] at length
      have nine : "prototype".toList.length = 9 := by decide
      omega
  rw [shorten_segment twice.segment]
  exact longer

/-- A path that is written twice ends in its last segment if it has several. -/
theorem Words.name_shorten_twice (words : Words name) :
    (shorten (name ++ name)).name = lastSegment name ↔ lastSegment name ≠ name := by
  have calm : ∀ c ∈ (name ++ name).toList, isCalm c = true := by
    intro c listed
    rw [String.toList_append, List.mem_append, or_self] at listed
    exact words.calm c listed
  have closed : Closed (name ++ name) := (marked_outside.isOutside_foldl calm).trans rfl
  cases words with
  | one word =>
    rw [lastSegment_of_plain word.segment.plain]
    exact iff_of_false word.name_shorten_twice fun other => other rfl
  | @join front last c words punctuation word =>
    have mark : endsSegment [c] = true := by simp [endsSegment, punctuation]
    have text : (member front c last ++ member front c last).toList =
        front.toList ++ c :: (last.toList ++ front.toList ++ c :: last.toList) := by
      simp [toList_member]
    have other := ne_prototype_of_mark text mark
    have behind : prototypesFrom false (c = '.') ([c] ++ front.toList.reverse)
        (last.toList ++ front.toList ++ c :: last.toList) = _ := prototypesFrom_append (by simp)
    obtain ⟨before, e, joins, read, _⟩ := exists_prototypesFrom_joined false (c = '.')
      [c] (last.toList ++ front.toList) punctuation word.segment.spelled
    have spelled : (spellPrototypes (member front c last ++ member front c last)).toList =
        (front.toList ++ before) ++ e :: last.toList := by
      rw [toList_spellPrototypes other, prototypesFrom_mark true false [] _ mark text
        (fun _ => rfl) (absurd · Bool.false_ne_true) (by simpa using words.path.spelled),
        List.append_nil,
        show c :: front.toList.reverse = [c] ++ front.toList.reverse from rfl, behind, read]
      simp
    have begun : front.toList ≠ [] := by simpa using words.path.ne_empty
    rw [lastSegment_member punctuation word.segment.plain]
    exact iff_of_true ((name_shorten_iff other spelled (by simp [begun]) joins word).mpr closed)
      (member_ne_self front c last).symm

end Doclets.Longname
