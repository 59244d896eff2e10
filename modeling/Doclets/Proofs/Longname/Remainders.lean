import Doclets.Proofs.Longname.Prototypes

/-!
What is left of a path once the name in front of it is known by its longname. It is read on its own,
without the character that joined it, and joined again to the longname; this gives what spelling out
the longname with everything behind it gives only in some cases.
-/

namespace Doclets.Longname

variable {first dot : Bool} {out own path rest : List Char} {c : Char}
  {parent text name : String}

/-! ### Prototypes behind a text that is written already -/

theorem withoutDot_of_bare (bare : ∀ more, rest = '.' :: more → False) : withoutDot rest = rest := by
  unfold withoutDot
  split
  next more => exact absurd rfl (bare more)
  next => rfl

/-- Where the word is spelled out. -/
theorem prototypesFrom_word (stands : (dot || first) = true) (ends : endsSegment rest = true) :
    prototypesFrom first dot out (prototypeWord ++ rest) =
      prototypesFrom false false ('#' :: if dot then out.tail else out) (withoutDot rest) := by
  simp only [prototypeWord, List.cons_append, List.nil_append]
  rw [prototypesFrom, if_pos (by rw [stands, ends]; rfl)]
  by_cases dotted : ∃ more, rest = '.' :: more
  · obtain ⟨more, rfl⟩ := dotted
    rfl
  · rw [withoutDot_of_bare fun more dot => dotted ⟨more, dot⟩]
    dsimp only
    split
    next more => exact absurd ⟨more, rfl⟩ dotted
    next => rfl

/-- Where it is not. -/
theorem prototypesFrom_kept (kept : ¬ ((dot || first) && endsSegment rest) = true) :
    prototypesFrom first dot out (prototypeWord ++ rest) =
      prototypesFrom false false (prototypeWord.reverse ++ out) rest := by
  simp only [prototypeWord, List.cons_append, List.nil_append]
  rw [prototypesFrom, if_neg kept]
  rfl

theorem prototypesFrom_cons
    (other : ∀ rest, c = 'p' → path = ['r', 'o', 't', 'o', 't', 'y', 'p', 'e'] ++ rest → False) :
    prototypesFrom first dot out (c :: path) = prototypesFrom false (c = '.') (c :: out) path := by
  rw [prototypesFrom]
  exact other

/-- What is written in front has no part in how the rest is read. -/
theorem prototypesFrom_append (behind : dot = true → own ≠ []) :
    prototypesFrom false dot (own ++ out) path =
      out.reverse ++ prototypesFrom false dot own path := by
  -- The word counts behind a dot only, which is then part of `own`: so nothing of `out` goes.
  generalize both : own ++ out = front
  generalize start : false = first
  fun_induction prototypesFrom first dot front path generalizing own with
  | case1 => simp [prototypesFrom, ← both]
  | case2 =>
    rename_i first dot front _ rest counts ih
    subst both
    obtain rfl : dot = true := by simp_all
    obtain ⟨d, own, rfl⟩ := List.exists_cons_of_ne_nil (behind rfl)
    have read : prototypesFrom first true (d :: own) (prototypeWord ++ '.' :: rest) =
        prototypesFrom false false ('#' :: own) rest := prototypesFrom_word rfl rfl
    rw [show prototypesFrom false false _ rest = _ from @ih ('#' :: own) (by simp) rfl rfl, ← read]
    rfl
  | case3 =>
    rename_i first dot front _ rest bare counts ih
    subst both
    simp only [Bool.and_eq_true, Bool.or_eq_true] at counts
    obtain rfl : dot = true := counts.1.resolve_right (by simp [← start])
    obtain ⟨d, own, rfl⟩ := List.exists_cons_of_ne_nil (behind rfl)
    have read : prototypesFrom first true (d :: own) (prototypeWord ++ rest) =
        prototypesFrom false false ('#' :: own) (withoutDot rest) :=
      prototypesFrom_word rfl counts.2
    rw [withoutDot_of_bare bare] at read
    rw [show prototypesFrom false false _ rest = _ from @ih ('#' :: own) (by simp) rfl rfl, ← read]
    rfl
  | case4 first dot front rest skipped ih =>
    subst both
    rw [show prototypesFrom false false _ rest = _ from
      @ih (prototypeWord.reverse ++ own) (by simp) rfl rfl, ← prototypesFrom_kept skipped]
    rfl
  | case5 first dot front c rest other ih =>
    subst both
    rw [prototypesFrom_cons other, ← @ih (c :: own) (by simp) rfl rfl]

theorem prototypesFrom_ne_nil (some : out ≠ [] ∨ path ≠ []) :
    prototypesFrom first dot out path ≠ [] := by
  fun_induction prototypesFrom first dot out path with
  | case1 => simpa using some
  | case2 _ _ _ _ _ _ ih => exact ih (Or.inl (List.cons_ne_nil _ _))
  | case3 _ _ _ _ _ _ _ ih => exact ih (Or.inl (List.cons_ne_nil _ _))
  | case4 _ _ _ _ _ ih => exact ih (Or.inl (List.cons_ne_nil _ _))
  | case5 _ _ _ _ _ _ ih => exact ih (Or.inl (List.cons_ne_nil _ _))

/-- Nothing gets longer. -/
theorem length_prototypesFrom_le :
    (prototypesFrom first dot out path).length ≤ out.length + path.length := by
  fun_induction prototypesFrom first dot out path with
  | case1 => simp
  | case2 _ dot out written _ _ ih =>
    have shorter : written.length ≤ out.length + 1 := by
      simp only [written]
      split <;> simp
    simp only [List.length_cons] at ih ⊢
    omega
  | case3 _ dot out written _ _ _ ih =>
    have shorter : written.length ≤ out.length + 1 := by
      simp only [written]
      split <;> simp
    simp only [List.length_cons] at ih ⊢
    omega
  | case4 _ _ _ _ _ ih =>
    simp only [List.length_cons] at ih ⊢
    omega
  | case5 _ _ _ _ _ _ ih =>
    simp only [List.length_cons] at ih ⊢
    omega

/-! ### Prototypes behind a longname -/

/-- Whether a path begins with the word as a segment. -/
def startsPrototype (path : List Char) : Bool :=
  match prototypeWord.isPrefixOf? path with
  | some rest => endsSegment rest
  | none => false

theorem startsPrototype_word (rest : List Char) :
    startsPrototype (prototypeWord ++ rest) = endsSegment rest := by
  unfold startsPrototype
  rw [List.isPrefixOf?_eq_some_iff_append_eq.mpr rfl]

theorem startsPrototype_eq_true_iff :
    startsPrototype path = true ↔
      ∃ rest, path = prototypeWord ++ rest ∧ endsSegment rest = true := by
  constructor
  · intro starts
    unfold startsPrototype at starts
    split at starts
    next rest found =>
      exact ⟨rest, (List.isPrefixOf?_eq_some_iff_append_eq.mp found).symm, starts⟩
    next => cases starts
  · rintro ⟨rest, rfl, ends⟩
    rw [startsPrototype_word, ends]

/-- At the beginning of a path the word is spelled out, with nothing in front. -/
theorem exists_of_startsPrototype (first : Bool) (out : List Char) {path : List Char}
    (starts : startsPrototype path = true) : ∃ more,
      prototypesFrom true false [] path = '#' :: more ∧
        prototypesFrom first true ('.' :: out) path = out.reverse ++ '#' :: more := by
  obtain ⟨rest, rfl, ends⟩ := startsPrototype_eq_true_iff.mp starts
  refine ⟨prototypesFrom false false [] (withoutDot rest), ?_, ?_⟩
  · have read : prototypesFrom false false ([] ++ ['#']) (withoutDot rest) = _ :=
      prototypesFrom_append nofun
    rw [prototypesFrom_word rfl ends]
    exact read
  · rw [prototypesFrom_word rfl ends]
    have read : prototypesFrom false false ([] ++ '#' :: out) (withoutDot rest) = _ :=
      prototypesFrom_append nofun
    rw [List.nil_append] at read
    exact read.trans (by simp)

/-- Behind a dot a path is read as on its own, except that a prototype takes the place of the
dot. -/
theorem prototypesFrom_behind_dot (out path : List Char) :
    prototypesFrom false true ('.' :: out) path = out.reverse ++
      if startsPrototype path then prototypesFrom true false [] path
      else '.' :: prototypesFrom true false [] path := by
  by_cases starts : startsPrototype path = true
  · obtain ⟨more, alone, behind⟩ := exists_of_startsPrototype false out starts
    rw [if_pos starts, alone, behind]
  · rw [if_neg starts]
    by_cases word : ∃ rest, path = prototypeWord ++ rest
    · obtain ⟨rest, rfl⟩ := word
      rw [startsPrototype_word] at starts
      have read : prototypesFrom false false (prototypeWord.reverse ++ '.' :: out) rest = _ :=
        prototypesFrom_append nofun
      rw [prototypesFrom_kept (by simpa using starts), prototypesFrom_kept (by simpa using starts),
        read, List.append_nil]
      simp
    · cases path with
      | nil => simp [prototypesFrom]
      | cons c path =>
        have other (rest : List Char) (first : c = 'p')
            (more : path = ['r', 'o', 't', 'o', 't', 'y', 'p', 'e'] ++ rest) : False :=
          word ⟨rest, by rw [first, more]; rfl⟩
        have read : prototypesFrom false (c = '.') ([c] ++ '.' :: out) path = _ :=
          prototypesFrom_append (by simp)
        rw [prototypesFrom_cons other, prototypesFrom_cons other,
          show c :: '.' :: out = [c] ++ '.' :: out from rfl, read]
        simp

theorem toList_spellPrototypes (other : name ≠ "prototype") :
    (spellPrototypes name).toList = prototypesFrom true false [] name.toList := by
  rw [spellPrototypes, if_neg other, String.toList_ofList]

theorem spellPrototypes_ne_empty (filled : name ≠ "") : spellPrototypes name ≠ "" := by
  intro empty
  by_cases word : name = "prototype"
  · rw [spellPrototypes, if_pos word] at empty
    exact filled empty
  · have none := congrArg String.toList empty
    rw [toList_spellPrototypes word] at none
    exact prototypesFrom_ne_nil (Or.inr (by simpa using filled)) none

theorem length_spellPrototypes_le (name : String) :
    (spellPrototypes name).toList.length ≤ name.toList.length := by
  by_cases word : name = "prototype"
  · simp only [spellPrototypes, if_pos word, Nat.le_refl]
  · rw [toList_spellPrototypes word]
    have bound : (prototypesFrom true false [] name.toList).length ≤
        [].length + name.toList.length := length_prototypesFrom_le
    simpa using bound

theorem ne_prototype_of_mark {tail : List Char} (text : name.toList = path ++ c :: tail)
    (mark : endsSegment [c] = true) : name ≠ "prototype" := by
  rintro rfl
  have inside : c ∈ "prototype".toList := by
    rw [text]
    simp
  exact not_mem_prototypeWord mark inside

/-- What is joined to a spelled longname by a dot, as it is spelled out. -/
theorem toList_spellPrototypes_static (spelled : Spelled parent.toList) (own : String) :
    (spellPrototypes (member parent '.' own)).toList = parent.toList ++
      if startsPrototype own.toList then prototypesFrom true false [] own.toList
      else '.' :: prototypesFrom true false [] own.toList := by
  have text := toList_member parent '.' own
  rw [toList_spellPrototypes (ne_prototype_of_mark text rfl),
    prototypesFrom_dot true false [] _ text (fun _ => rfl) nofun (by simpa using spelled),
    List.append_nil, prototypesFrom_behind_dot, List.reverse_reverse]

/-- What follows it otherwise stays where it is. -/
theorem exists_spellPrototypes_mark (spelled : Spelled parent.toList)
    (mark : endsSegment [c] = true) (other : c ≠ '.') (own : String) : ∃ more,
      (spellPrototypes (member parent c own)).toList = parent.toList ++ c :: more := by
  have text := toList_member parent c own
  have read : prototypesFrom false false ([] ++ c :: parent.toList.reverse) own.toList = _ :=
    prototypesFrom_append nofun
  rw [toList_spellPrototypes (ne_prototype_of_mark text mark),
    prototypesFrom_mark true false [] _ mark text (fun _ => rfl) nofun (by simpa using spelled),
    List.append_nil, decide_eq_false other]
  refine ⟨prototypesFrom false false [] own.toList, read.trans ?_⟩
  simp

/-- A path below a longname stays below it. -/
theorem exists_spellPrototypes_member (spelled : Spelled parent.toList)
    (punctuation : isPunctuation c = true) (own : String) : ∃ d more, isPunctuation d = true ∧
      (spellPrototypes (member parent c own)).toList = parent.toList ++ d :: more := by
  by_cases dot : c = '.'
  · subst dot
    rw [toList_spellPrototypes_static spelled]
    by_cases starts : startsPrototype own.toList = true
    · obtain ⟨more, alone, _⟩ := exists_of_startsPrototype true [] starts
      rw [if_pos starts, alone]
      exact ⟨'#', more, rfl, rfl⟩
    · rw [if_neg starts]
      exact ⟨'.', _, rfl, rfl⟩
  · obtain ⟨more, text⟩ := exists_spellPrototypes_mark spelled
      (by simp [endsSegment, punctuation]) dot own
    exact ⟨c, more, punctuation, text⟩

/-! ### What is left of a path -/

theorem exists_of_isMemberPath (below : isMemberPath name parent = true) :
    ∃ c own, isPunctuation c = true ∧ name = member parent c own := by
  unfold isMemberPath at below
  split at below
  next c rest found =>
    refine ⟨c, String.ofList rest, below, String.toList_injective ?_⟩
    rw [List.isPrefixOf?_eq_some_iff_append_eq] at found
    rw [toList_member, String.toList_ofList, found]
  next => cases below

theorem isMemberPath_self (name : String) : isMemberPath name name = false := by
  unfold isMemberPath
  split
  next c rest found =>
    rw [List.isPrefixOf?_eq_some_iff_append_eq] at found
    have length := congrArg List.length found
    simp at length
  next => rfl

theorem isPunctuation_scope_shorten (text : String) :
    isPunctuation ((shorten text).scope.getD '.') = true := by
  unfold shorten
  dsimp only
  split
  next parent c own cut =>
    obtain ⟨_, _, _, _, divides, _⟩ := divides_of_cutLast cut
    exact divides.punctuation
  next => rfl

/-- Whether a name says itself how it is joined. -/
def isMarked (name : String) : Bool := name.toList.head?.any isPunctuation

/-- The longname of the path `name` below a longname: it is joined by the last punctuation of
`text`, the whole name in the code, unless it begins with punctuation, or with the longname. -/
def joinBelow (parent text name : String) : String :=
  if isMemberPath name parent then spellPrototypes name
  else if name = parent then if isModule name then name else member parent '.' name
  else if isMarked name then parent ++ name
  else member parent ((shorten text).scope.getD '.') name

theorem exists_of_isMarked (marked : isMarked name = true) :
    ∃ c more, isPunctuation c = true ∧ name.toList = c :: more := by
  unfold isMarked at marked
  cases chars : name.toList with
  | nil => simp [chars] at marked
  | cons c more =>
    rw [chars, List.head?_cons, Option.any_some] at marked
    exact ⟨c, more, marked, rfl⟩

theorem joinBelow_ne_empty (filled : name ≠ "") : joinBelow parent text name ≠ "" := by
  unfold joinBelow
  split
  · exact spellPrototypes_ne_empty filled
  · split
    · split
      · exact filled
      · exact member_ne_empty _ _ _
    · split
      · simp [filled]
      · exact member_ne_empty _ _ _

/-- Only a module is not below itself. -/
theorem joinBelow_cases (spelled : Spelled parent.toList) (text name : String) :
    joinBelow parent text name = parent ∨ ∃ c more, isPunctuation c = true ∧
      (joinBelow parent text name).toList = parent.toList ++ c :: more := by
  unfold joinBelow
  split
  next below =>
    obtain ⟨c, own, punctuation, rfl⟩ := exists_of_isMemberPath below
    exact Or.inr (exists_spellPrototypes_member spelled punctuation own)
  next =>
    split
    next same =>
      split
      · exact Or.inl same
      · exact Or.inr ⟨'.', _, rfl, toList_member parent '.' name⟩
    next =>
      split
      next marked =>
        obtain ⟨c, more, punctuation, chars⟩ := exists_of_isMarked marked
        exact Or.inr ⟨c, more, punctuation, by rw [String.toList_append, chars]⟩
      next =>
        exact Or.inr ⟨_, _, isPunctuation_scope_shorten text, toList_member parent _ name⟩

/-- The bracket of a computed member is lost. -/
theorem joinBelow_ne_computed (spelled : Spelled parent.toList) (text name own : String) :
    joinBelow parent text name ≠ spellPrototypes (member parent '[' own) := by
  intro same
  obtain ⟨kept, bracket⟩ := exists_spellPrototypes_mark (c := '[') spelled rfl (by decide) own
  rw [← same] at bracket
  rcases joinBelow_cases spelled text name with alone | ⟨c, more, punctuation, below⟩
  · rw [alone] at bracket
    simp at bracket
  · obtain ⟨rfl, _⟩ := List.cons.inj (List.append_cancel_left (below.symm.trans bracket))
    cases punctuation

/-! ### What is left behind a dot -/

theorem isMarked_member (filled : parent ≠ "") (c : Char) (own : String) :
    isMarked (member parent c own) = isMarked parent := by
  have begun : parent.toList ≠ [] := by simpa using filled
  unfold isMarked
  rw [toList_member, List.head?_append_of_ne_nil _ begun]

theorem isMarked_of_plain (plain : Plain name.toList) : isMarked name = false := by
  unfold isMarked
  cases chars : name.toList with
  | nil => rfl
  | cons c rest => exact isPunctuation_of_not_isMark (plain c (by simp [chars]))

theorem Segments.unmarked (segments : Segments parent) : isMarked parent = false := by
  induction segments with
  | one segment => exact isMarked_of_plain segment.plain
  | module =>
    unfold isMarked
    rw [String.toList_append]
    rfl
  | join segments _ _ ih => exact (isMarked_member segments.whole.ne_empty _ _).trans ih

/-- A path that begins with a prototype is spelled out behind the longname itself. -/
theorem spellPrototypes_member_of_startsPrototype (spelled : Spelled parent.toList) {own : String}
    (starts : startsPrototype own.toList = true) (longer : own ≠ "prototype") :
    spellPrototypes (member parent '.' own) = parent ++ spellPrototypes own ∧
      isMarked (spellPrototypes own) = true := by
  constructor
  · apply String.toList_injective
    rw [toList_spellPrototypes_static spelled, if_pos starts, String.toList_append,
      toList_spellPrototypes longer]
  · obtain ⟨more, alone, _⟩ := exists_of_startsPrototype true [] starts
    unfold isMarked
    rw [toList_spellPrototypes longer, alone]
    rfl

/-- Any other path is spelled out on its own. -/
theorem spellPrototypes_member_of_plain (spelled : Spelled parent.toList) {own : String}
    (plain : startsPrototype own.toList = false) :
    spellPrototypes (member parent '.' own) = member parent '.' (spellPrototypes own) := by
  have longer : own ≠ "prototype" := by
    rintro rfl
    cases plain
  apply String.toList_injective
  rw [toList_spellPrototypes_static spelled, if_neg (by simp [plain]), toList_member,
    toList_spellPrototypes longer]

/-- When a name that is spelled out is joined to a longname by a dot, if `text` is the whole name in
the code. -/
inductive JoinsStatically (parent text name : String) : Prop where
  /-- It spells the longname once more. -/
  | again (same : name = parent) (outside : isModule parent = false) :
    JoinsStatically parent text name
  /-- The last punctuation of the name in the code, if there is one, is a dot. -/
  | suggested (apart : Apart parent name) (unmarked : isMarked name = false)
    (last : (shorten text).scope.getD '.' = '.') : JoinsStatically parent text name

/-- When the path `own` keeps its place behind a longname and a dot. -/
inductive KeepsPath (parent text own : String) : Prop where
  /-- It leads on from the prototype of the longname. -/
  | prototype (starts : startsPrototype own.toList = true) (longer : own ≠ "prototype") :
    KeepsPath parent text own
  | plain (plain : startsPrototype own.toList = false)
    (joins : JoinsStatically parent text (spellPrototypes own)) : KeepsPath parent text own

theorem ne_member (parent : String) (c : Char) (name : String) : parent ≠ member parent c name := by
  intro same
  have length := congrArg List.length (congrArg String.toList same)
  rw [toList_member, List.length_append, List.length_cons] at length
  omega

theorem member_ne_append (parent : String) (c : Char) (name : String) :
    parent ++ name ≠ member parent c name := by
  intro same
  have length := congrArg List.length (congrArg String.toList same)
  rw [toList_member, String.toList_append, List.length_append, List.length_append,
    List.length_cons] at length
  omega

/-- The bare prototype is not spelled out once the longname in front is cut off. -/
theorem joinBelow_prototype (segments : Segments parent) (text : String) :
    joinBelow parent text (spellPrototypes "prototype") ≠
      spellPrototypes (member parent '.' "prototype") := by
  have unmarked : "prototype".toList.all fun c => !isMark c := by decide
  have plain : Plain "prototype".toList := fun c listed => by
    simpa using List.all_eq_true.mp unmarked c listed
  have other : "prototype" ≠ parent := by
    rintro rfl
    cases segments.whole.spelled [] [] rfl (Or.inl rfl)
  have bare : joinBelow parent text "prototype" =
      member parent ((shorten text).scope.getD '.') "prototype" := by
    unfold joinBelow
    rw [isMemberPath_of_plain plain, if_neg Bool.false_ne_true, if_neg other,
      isMarked_of_plain plain, if_neg Bool.false_ne_true]
  rw [show spellPrototypes "prototype" = "prototype" from rfl, bare]
  intro same
  have length := congrArg List.length (congrArg String.toList same)
  rw [toList_member, toList_spellPrototypes_static segments.whole.spelled, List.length_append,
    List.length_append] at length
  have short := Nat.add_left_cancel length
  rw [List.length_cons] at short
  exact absurd short (by decide +kernel)

theorem JoinsStatically.beside (joins : JoinsStatically parent text name) :
    isMemberPath name parent = false := by
  cases joins with
  | again same =>
    rw [same]
    exact isMemberPath_self parent
  | suggested apart => exact apart.not_member

theorem JoinsStatically.outside (joins : JoinsStatically parent text name) (same : name = parent) :
    isModule name = false := by
  cases joins with
  | again _ outside => exact same ▸ outside
  | suggested apart => exact absurd same apart.ne

theorem JoinsStatically.suggests (joins : JoinsStatically parent text name)
    (other : name ≠ parent) : isMarked name = false ∧ (shorten text).scope.getD '.' = '.' := by
  cases joins with
  | again same => exact absurd same other
  | suggested _ unmarked last => exact ⟨unmarked, last⟩

theorem joinBelow_eq_static_iff (parent text name : String) :
    joinBelow parent text name = member parent '.' name ↔ JoinsStatically parent text name := by
  unfold joinBelow
  split
  next below =>
    refine iff_of_false (fun same => ?_) fun joins => ?_
    · have short := length_spellPrototypes_le name
      rw [same, toList_member, List.length_append, List.length_cons] at short
      omega
    · rw [joins.beside] at below
      cases below
  next beside =>
    split
    next same =>
      split
      next isModule =>
        refine iff_of_false (fun again => member_ne_self _ _ _ again.symm) fun joins => ?_
        rw [joins.outside same] at isModule
        cases isModule
      next outside =>
        refine iff_of_true rfl (.again same ?_)
        rw [← same]
        simpa using outside
    next other =>
      split
      next marked =>
        refine iff_of_false (member_ne_append _ _ _) fun joins => ?_
        rw [(joins.suggests other).1] at marked
        cases marked
      next unmarked =>
        constructor
        · intro same
          by_cases last : (shorten text).scope.getD '.' = '.'
          · exact .suggested ⟨other, by simpa using beside⟩ (by simpa using unmarked) last
          · exact absurd same (member_ne_member last name)
        · exact fun joins => by rw [(joins.suggests other).2]

/-- A path that leads on from the prototype is joined by what that is spelled with. -/
theorem joinBelow_of_startsPrototype (segments : Segments parent) (text : String) {own : String}
    (starts : startsPrototype own.toList = true) (longer : own ≠ "prototype") :
    joinBelow parent text (spellPrototypes own) = spellPrototypes (member parent '.' own) := by
  obtain ⟨behind, marked⟩ :=
    spellPrototypes_member_of_startsPrototype segments.whole.spelled starts longer
  have apart : isMemberPath (spellPrototypes own) parent = false := by
    rw [Bool.eq_false_iff]
    intro below
    obtain ⟨c, rest, _, same⟩ := exists_of_isMemberPath below
    rw [same, isMarked_member segments.whole.ne_empty, segments.unmarked] at marked
    cases marked
  have other : spellPrototypes own ≠ parent := by
    intro same
    rw [same, segments.unmarked] at marked
    cases marked
  unfold joinBelow
  rw [apart, if_neg Bool.false_ne_true, if_neg other, if_pos marked, behind]

/-- What is left of a path behind a dot is spelled below the longname as it is with the longname in
front exactly where it keeps its place. -/
theorem joinBelow_eq_iff (segments : Segments parent) (text own : String) :
    joinBelow parent text (spellPrototypes own) = spellPrototypes (member parent '.' own) ↔
      KeepsPath parent text own := by
  by_cases starts : startsPrototype own.toList = true
  · by_cases longer : own = "prototype"
    · subst longer
      refine iff_of_false (joinBelow_prototype segments text) fun keeps => ?_
      cases keeps with
      | prototype _ longer => exact longer rfl
      | plain plain => cases plain
    · exact iff_of_true (joinBelow_of_startsPrototype segments text starts longer)
        (.prototype starts longer)
  · have plain : startsPrototype own.toList = false := by simpa using starts
    rw [spellPrototypes_member_of_plain segments.whole.spelled plain, joinBelow_eq_static_iff]
    refine ⟨.plain plain, fun keeps => ?_⟩
    cases keeps with
    | prototype begins => exact absurd begins starts
    | plain _ joins => exact joins

/-! ### Dotted paths -/

/-- Words that are joined by dots. -/
inductive Dotted : String → Prop where
  | one {name : String} (word : Word name) : Dotted name
  | join {path name : String} (dotted : Dotted path) (word : Word name) :
    Dotted (member path '.' name)

theorem Dotted.words {path : String} (dotted : Dotted path) : Words path := by
  induction dotted with
  | one word => exact .one word
  | join _ word ih => exact .join ih rfl word

theorem Words.unmarked {path : String} (words : Words path) : isMarked path = false := by
  induction words with
  | one word => exact isMarked_of_plain word.segment.plain
  | join words _ _ ih => exact (isMarked_member words.path.ne_empty _ _).trans ih

/-- Behind a dot, the last punctuation of a dotted path is a dot, too. -/
theorem Dotted.scope_shorten {base path : String} (front : Path base) (dotted : Dotted path) :
    (shorten (member base '.' path)).scope = some '.' := by
  cases dotted with
  | one word => rw [shorten_member front rfl word.segment]
  | @join path name dotted word =>
    have joined : member base '.' (member path '.' name) =
        member (member base '.' path) '.' name := by
      simp only [member, String.append_assoc]
    rw [joined, shorten_member (front.join rfl dotted.words.path) rfl word.segment]

/-- A dotted path keeps its place, unless it spells the longname once more. -/
theorem Dotted.keepsPath {base path : String} (front : Path base) (dotted : Dotted path)
    (apart : Apart parent path) : KeepsPath parent (member base '.' path) path := by
  have spelled := dotted.words.path.spelled
  have kept := spellPrototypes_of_spelled spelled
  have plain : startsPrototype path.toList = false := by
    rw [Bool.eq_false_iff, ne_eq, startsPrototype_eq_true_iff]
    rintro ⟨rest, split, ends⟩
    rw [spelled [] rest split (Or.inl rfl)] at ends
    cases ends
  refine .plain plain (.suggested ?_ ?_ ?_)
  · rw [kept]
    exact apart
  · rw [kept]
    exact dotted.words.unmarked
  · rw [dotted.scope_shorten front]
    rfl

end Doclets.Longname
