import Doclets.Proofs.Comment.Margins
import Doclets.Proofs.Comment.Parts

/-!
Two documentation comments that are merged into one and split again. Each part says what its
comment said, unless the text behind the marker goes on with its word, the first text ends in a star
that no delimiter follows any longer, or a text holds a delimiter where the other comment was cut
off.
-/

namespace Doclets.Comment

open Text (isBlank trimStart trimEnd dropEndWhile)

variable {first second value : String} {own back : List Char} {c : Char}

/-! ### Documentation comments -/

/-- The text of a documentation comment, behind the star that makes it one. -/
def body (value : String) : List Char := value.toList.tail

theorem toList_blockText (value : String) :
    (blockText value).toList = '/' :: '*' :: (value.toList ++ ['*', '/']) := by
  simp [blockText]

/-- A documentation comment has a single star in front of its text, and a text. -/
theorem isDocText_blockText_iff : isDocText (blockText value) = true ↔
    ∃ c rest, value.toList = '*' :: c :: rest ∧ c ≠ '*' := by
  have size : (blockText value).utf8ByteSize = value.utf8ByteSize + 4 := by
    rw [blockText, String.utf8ByteSize_append, String.utf8ByteSize_append,
      show "/*".utf8ByteSize = 2 from rfl, show "*/".utf8ByteSize = 2 from rfl]
    omega
  have some : 4 < value.utf8ByteSize + 4 ↔ value.toList ≠ [] := by
    rw [Nat.lt_add_left_iff_pos, Nat.pos_iff_ne_zero]
    simp
  simp only [isDocText, size, toList_blockText, Bool.and_eq_true, Bool.not_eq_true',
    decide_eq_true_eq, some]
  cases value.toList with
  | nil => simp
  | cons c rest =>
    cases rest with
    | nil => simp [List.isPrefixOf]
    | cons d rest =>
      simpa [List.isPrefixOf, @eq_comm _ '*'] using Or.inl

/-! ### Delimiters -/

theorem dropClosing_append (own : List Char) :
    dropClosing (own ++ ['*', '/']) = dropEndWhile isStar own := by
  have ends : ['*', '/'].isSuffixOf? (own ++ ['*', '/']) = some own := by
    rw [List.isSuffixOf?_eq_some_iff_append_eq]
  rw [dropClosing, ends]

theorem dropClosing_of_not_suffix (still : ¬ ['*', '/'] <:+ own) : dropClosing own = own := by
  unfold dropClosing
  split
  next rest ends =>
    rw [List.isSuffixOf?_eq_some_iff_append_eq] at ends
    exact absurd ⟨rest, ends⟩ still
  next => rfl

theorem isStar_of_isBlank (blank : isBlank c = true) : isStar c = false := by
  rw [isStar, decide_eq_false_iff_not]
  rintro rfl
  exact absurd blank (by decide)

theorem isBlank_of_isStar (star : isStar c = true) : isBlank c = false := by
  rw [Bool.eq_false_iff]
  intro blank
  rw [isStar_of_isBlank blank] at star
  cases star

/-- Nothing else is dropped from a text whose opening is none. -/
theorem dropOpening_of_ne (other : ∀ rest, own ≠ '/' :: '*' :: rest) (slash : own ≠ ['/']) :
    dropOpening (own ++ ['*', '/']) = own ++ ['*', '/'] := by
  unfold dropOpening
  split
  next rest same =>
    cases own with
    | nil => cases same
    | cons c own =>
      obtain ⟨rfl, behind⟩ := List.cons.inj same
      cases own with
      | nil => exact absurd rfl slash
      | cons d own =>
        obtain ⟨rfl, -⟩ := List.cons.inj behind
        exact absurd rfl (other own)
  next => rfl

/-! ### The content of comments and of parts -/

theorem trim_slash (own : List Char) : Text.trim ('/' :: own) = trimEnd ('/' :: own) := by
  rw [Text.trim, trimStart, List.dropWhile_cons_of_neg (by decide)]

variable (plain : c ≠ '*')
include plain

theorem dropWhile_isStar_cons (own : List Char) : (c :: own).dropWhile isStar = c :: own :=
  List.dropWhile_cons_of_neg (by simpa [isStar] using plain)

/-- A comment says what stands between its delimiters and the stars that they have. -/
theorem content_comment (own : List Char) :
    content ('/' :: '*' :: '*' :: (c :: own ++ ['*', '/'])) =
      bare (dropEndWhile isStar (c :: own)) := by
  have whole : Text.trim ('/' :: '*' :: '*' :: (c :: own ++ ['*', '/'])) =
      '/' :: '*' :: '*' :: (c :: own ++ ['*', '/']) := by
    have ends := Text.dropEndWhile_append_cons (p := isBlank) (c := '/') (by decide)
      ('/' :: '*' :: '*' :: (c :: own ++ ['*'])) []
    rw [trim_slash, trimEnd]
    simpa [show dropEndWhile isBlank [] = [] from rfl] using ends
  rw [content_eq, whole]
  show bare (dropClosing (List.dropWhile isStar ('*' :: (c :: own ++ ['*', '/'])))) = _
  rw [List.dropWhile_cons_of_pos rfl, List.cons_append, dropWhile_isStar_cons plain,
    ← List.cons_append, dropClosing_append]

/-- The first part of a comment lacks a closing delimiter. -/
theorem content_front (own : List Char) :
    content ('/' :: '*' :: '*' :: c :: own) = bare (dropClosing (trimEnd (c :: own))) := by
  have front : Text.trim ('/' :: '*' :: '*' :: c :: own) =
      '/' :: '*' :: '*' :: trimEnd (c :: own) := by
    rw [trim_slash]
    exact Text.dropEndWhile_append_cons (by decide) ['/', '*'] (c :: own)
  rw [content_eq, front]
  show bare (dropClosing (List.dropWhile isStar ('*' :: trimEnd (c :: own)))) = _
  have begins : List.dropWhile isStar (trimEnd (c :: own)) = trimEnd (c :: own) := by
    cases kept : trimEnd (c :: own) with
    | nil => rfl
    | cons d rest =>
      obtain ⟨more, split, -⟩ := Text.exists_dropEndWhile isBlank (c :: own)
      rw [show dropEndWhile isBlank (c :: own) = d :: rest from kept] at split
      obtain rfl : c = d := (List.cons.inj split).1
      exact dropWhile_isStar_cons plain rest
  rw [List.dropWhile_cons_of_pos rfl, begins]

omit plain in
/-- The last part of a comment lacks an opening delimiter. -/
theorem content_back (own : List Char) : content (own ++ ['*', '/']) =
    bare (dropClosing (dropOpening (trimStart own ++ ['*', '/']))) := by
  have back : Text.trim (own ++ ['*', '/']) = trimStart own ++ ['*', '/'] := by
    have starts : trimStart (own ++ ['*', '/']) = trimStart own ++ ['*', '/'] := by
      rw [trimStart, List.dropWhile_append]
      split
      next none =>
        rw [trimStart, List.isEmpty_iff.mp none]
        rfl
      next => rfl
    have ends := Text.dropEndWhile_append_cons (p := isBlank) (c := '/') (by decide)
      (trimStart own ++ ['*']) []
    rw [Text.trim, starts, trimEnd]
    simpa [show dropEndWhile isBlank [] = [] from rfl] using ends
  rw [content_eq, back]

/-! ### What is cut off -/

omit plain

theorem lastLine_append (cs : List Char) (one : '\n' ∉ back) :
    lastLine (cs ++ back) = lastLine cs ++ back := by
  have all : ∀ c ∈ back.reverse, decide (c ≠ '\n') = true := by
    intro c listed
    simp only [decide_eq_true_eq]
    rintro rfl
    exact one (List.mem_reverse.mp listed)
  rw [lastLine, List.reverse_append, List.takeWhile_append_of_pos all, List.reverse_append,
    List.reverse_reverse, lastLine]

theorem notMem_stars (stars : ∀ c ∈ own, isStar c = true) : '\n' ∉ '*' :: own := by
  intro listed
  rcases List.mem_cons.mp listed with same | inside
  · exact absurd same (by decide)
  · exact absurd (stars '\n' inside) (by decide)

/-- Stars go together with the delimiter behind them. Without it the last of them goes only as the
margin of a line of its own. -/
theorem bare_dropEndWhile_iff (own : List Char) : bare own = bare (dropEndWhile isStar own) ↔
    ∀ front, own = front ++ ['*'] → (lastLine front).all isBlank = true := by
  obtain ⟨stars, split, all⟩ := Text.exists_dropEndWhile isStar own
  cases stars with
  | nil =>
    rw [List.append_nil] at split
    refine iff_of_true (congrArg bare split) fun front ends => ?_
    rw [ends, Text.dropEndWhile_concat, if_pos (show isStar '*' = true from rfl)] at split
    have shorter := (List.rdropWhile_prefix isStar front).length_le
    rw [show front.rdropWhile isStar = front ++ ['*'] from split.symm, List.length_append,
      List.length_singleton] at shorter
    omega
  | cons star more =>
    obtain rfl : star = '*' := by simpa [isStar] using all star List.mem_cons_self
    have stars : ∀ c ∈ more, isStar c = true := fun c listed =>
      all c (List.mem_cons_of_mem _ listed)
    generalize dropEndWhile isStar own = kept at split
    rw [split, bare_append_star_iff kept fun c listed => isBlank_of_isStar (stars c listed)]
    constructor
    · rintro ⟨blank, rfl⟩ front ends
      rwa [← (List.append_inj' ends rfl).1]
    · intro margin
      cases more using List.reverseRecOn with
      | nil => exact ⟨margin kept rfl, rfl⟩
      | append_singleton more last =>
        have one : '\n' ∉ '*' :: more :=
          notMem_stars fun c listed => stars c (List.mem_append_left _ listed)
        obtain rfl : last = '*' := by simpa [isStar] using stars last (by simp)
        have ends := margin (kept ++ '*' :: more) (by simp)
        rw [lastLine_append kept one, List.all_append] at ends
        simp [show isBlank '*' = false by decide] at ends

/-- What ends in a delimiter ends in no star. -/
theorem dropEndWhile_of_closes (closes : ['*', '/'] <:+ trimEnd own) :
    dropEndWhile isStar own = own := by
  obtain ⟨front, ends⟩ := closes
  obtain ⟨blanks, split, blank⟩ := Text.exists_dropEndWhile isBlank own
  have last : ∀ c, own.getLast? = some c → isStar c = false := by
    intro c last
    rw [split, show dropEndWhile isBlank own = front ++ ['*', '/'] from ends.symm] at last
    cases blanks using List.reverseRecOn with
    | nil =>
      rw [List.append_nil, List.getLast?_append_of_ne_nil _ (by simp)] at last
      exact Option.some.inj last ▸ by decide
    | append_singleton blanks d =>
      rw [← List.append_assoc, List.getLast?_concat] at last
      exact Option.some.inj last ▸ isStar_of_isBlank (blank d (by simp))
  simpa [dropEndWhile] using Text.dropEndWhile_append last []

/-- A delimiter behind a text is a part of what it says. -/
theorem bare_closed_ne (front : List Char) :
    bare (front ++ ['*', '/']) ≠ bare (dropEndWhile isStar front) := by
  obtain ⟨stars, joined, all⟩ := Text.exists_dropEndWhile isStar front
  have begins : stars ++ ['*'] = '*' :: stars := by
    have same := List.eq_replicate_of_mem fun c listed => by simpa [isStar] using all c listed
    rw [same, ← List.replicate_succ', List.replicate_succ]
  have behind : front ++ ['*', '/'] = dropEndWhile isStar front ++ '*' :: (stars ++ ['/']) := by
    conv_lhs => rw [joined]
    rw [List.append_assoc, show ['*', '/'] = ['*'] ++ ['/'] from rfl, ← List.append_assoc stars,
      begins, List.cons_append]
  have plain : ∀ c ∈ stars ++ ['/'], isBlank c = false := by
    intro c listed
    rcases List.mem_append.mp listed with star | slash
    · exact isBlank_of_isStar (all c star)
    · exact List.mem_singleton.mp slash ▸ by decide
  rw [behind]
  intro same
  simpa using ((bare_append_star_iff _ plain).mp same).2

/-- The first part says what the comment said, if no delimiter and no star is left at its end. -/
theorem bare_front_iff (own : List Char) :
    bare (dropClosing (trimEnd own)) = bare (dropEndWhile isStar own) ↔
      ¬ ['*', '/'] <:+ trimEnd own ∧
        ∀ front, own = front ++ ['*'] → (lastLine front).all isBlank = true := by
  have trimmed : bare (trimEnd own) = bare own := by
    obtain ⟨blanks, split, blank⟩ := Text.exists_dropEndWhile isBlank own
    conv_rhs => rw [split]
    exact (bare_append_blank blank _).symm
  by_cases closes : ['*', '/'] <:+ trimEnd own
  · refine iff_of_false ?_ fun apart => apart.1 closes
    have still := dropEndWhile_of_closes closes
    obtain ⟨front, ends⟩ := closes
    rw [still, ← trimmed, ← ends, dropClosing_append]
    exact (bare_closed_ne front).symm
  · rw [dropClosing_of_not_suffix closes, trimmed, bare_dropEndWhile_iff]
    exact (and_iff_right closes).symm

/-- An opening delimiter and the stars behind it are lost, and nothing else may be. -/
theorem bare_opening_iff (rest : List Char) :
    bare (dropClosing ((rest ++ ['*', '/']).dropWhile isStar)) =
      bare (dropEndWhile isStar ('/' :: '*' :: rest)) ↔ ∀ c ∈ rest, isStar c = true := by
  by_cases stars : ∀ c ∈ rest, isStar c = true
  · refine iff_of_true ?_ stars
    have slash : ∀ c, ['/'].getLast? = some c → isStar c = false := by
      rintro c ⟨⟩
      rfl
    have kept : dropEndWhile isStar (['/'] ++ '*' :: rest) = ['/'] ++ _ :=
      Text.dropEndWhile_append slash _
    rw [Text.dropEndWhile_of_forall (List.forall_mem_cons.mpr ⟨rfl, stars⟩)] at kept
    rw [List.dropWhile_append_of_pos stars]
    exact (congrArg bare kept).symm
  · refine iff_of_false ?_ stars
    obtain ⟨front, c, more, rfl, all, plain⟩ := Text.exists_first_kept stars
    have other : c ≠ '*' := by simpa [isStar] using plain
    have kept : dropEndWhile isStar ('/' :: '*' :: (front ++ c :: more)) =
        '/' :: '*' :: (front ++ dropEndWhile isStar (c :: more)) :=
      (Text.dropEndWhile_append_cons plain ('/' :: '*' :: front) more).trans
        (congrArg (('/' :: '*' :: front) ++ ·) (Text.dropEndWhile_append_cons plain [] more).symm)
    rw [List.append_assoc, List.dropWhile_append_of_pos all, List.cons_append,
      dropWhile_isStar_cons other, ← List.cons_append, dropClosing_append]
    intro same
    apply bare_slash_append_ne (notMem_stars all) (dropEndWhile isStar (c :: more))
    exact (congrArg bare kept).symm.trans same.symm

/-- The last part says what the comment said, if it does not seem to open again. -/
theorem bare_back_iff (own : List Char) :
    bare (dropClosing (dropOpening (trimStart own ++ ['*', '/']))) =
      bare (dropEndWhile isStar own) ↔
      ∀ rest, trimStart own = '/' :: '*' :: rest → ∀ c ∈ rest, isStar c = true := by
  obtain ⟨blanks, split, blank⟩ := Text.exists_trimStart own
  have last : ∀ c, blanks.getLast? = some c → isStar c = false := fun c last =>
    isStar_of_isBlank (blank c (List.mem_of_getLast? last))
  have whole : bare (dropEndWhile isStar own) = bare (dropEndWhile isStar (trimStart own)) := by
    conv_lhs => rw [split]
    rw [Text.dropEndWhile_append last, bare_blank_append blank]
  rw [whole]
  generalize trimStart own = own
  by_cases opens : ∃ rest, own = '/' :: '*' :: rest
  · obtain ⟨rest, rfl⟩ := opens
    refine (bare_opening_iff rest).trans ⟨fun stars more same => ?_, fun all => all rest rfl⟩
    exact (List.cons.inj (List.cons.inj same).2).2 ▸ stars
  · refine iff_of_true ?_ fun rest same => absurd ⟨rest, same⟩ opens
    by_cases slash : own = ['/']
    · subst slash
      rfl
    · rw [dropOpening_of_ne (fun rest same => opens ⟨rest, same⟩) slash, dropClosing_append]

/-! ### Merged comments -/

/-- Neither text loses or gains anything when the comments around them are merged and split. -/
structure Separable (first second : String) : Prop where
  word : endsWord (body second) = true
  closing : ¬ ['*', '/'] <:+ trimEnd (body first)
  star : ∀ front, body first = front ++ ['*'] → (lastLine front).all isBlank = true
  opening : ∀ rest, trimStart (body second) = '/' :: '*' :: rest → ∀ c ∈ rest, isStar c = true

theorem toList_blockText_merge (doc : isDocText (blockText second) = true) :
    (blockText (merge first second)).toList =
      ('/' :: '*' :: first.toList) ++ marker ++ (body second ++ ['*', '/']) := by
  obtain ⟨c, rest, text, plain⟩ := isDocText_blockText_iff.mp doc
  have own : second.toList.dropWhile isStar = body second := by
    rw [body, text, List.dropWhile_cons_of_pos rfl, dropWhile_isStar_cons plain, List.tail_cons]
  rw [toList_blockText, merge, String.toList_append, String.toList_append,
    String.toList_ofList, own]
  simp [marker]

/-- Two comments without markers have two parts when they are merged, or one if the marker between
them is read as the beginning of a longer word. -/
theorem parts_merge (doc : isDocText (blockText second) = true) (unmarked : ¬ Marked first.toList)
    (free : ¬ Marked second.toList) : parts (blockText (merge first second)) =
      if endsWord (body second) then
        [String.ofList ('/' :: '*' :: first.toList), String.ofList (body second ++ ['*', '/'])]
      else [blockText (merge first second)] := by
  obtain ⟨c, rest, text, plain⟩ := isDocText_blockText_iff.mp doc
  have front : ¬ Marked ('/' :: '*' :: first.toList) := fun marked =>
    unmarked ((marked.of_cons (by decide)).of_cons (by decide))
  have back : ¬ Marked (body second ++ ['*', '/']) := fun marked =>
    free ((marked.of_append (by decide)).of_suffix (List.tail_suffix _))
  have filled : body second ≠ [] := by simp [body, text]
  rw [parts, toList_blockText_merge doc, partsFrom_marker [] front back, endsWord_append filled]
  split
  · rfl
  · rw [List.reverse_nil, List.nil_append, ← toList_blockText_merge doc]
    simp

/-- The parts of two merged comments say what the comments said exactly where those can be
separated again. -/
theorem unwrap_parts_merge_iff (doc : isDocText (blockText first) = true)
    (also : isDocText (blockText second) = true) (unmarked : ¬ Marked first.toList)
    (free : ¬ Marked second.toList) :
    (parts (blockText (merge first second))).map unwrap =
      [unwrap (blockText first), unwrap (blockText second)] ↔ Separable first second := by
  have whole {value : String} (doc : isDocText (blockText value) = true) :
      content (blockText value).toList = bare (dropEndWhile isStar (body value)) := by
    obtain ⟨c, rest, text, plain⟩ := isDocText_blockText_iff.mp doc
    rw [toList_blockText, body, text]
    exact content_comment plain rest
  have front : content ('/' :: '*' :: first.toList) =
      bare (dropClosing (trimEnd (body first))) := by
    obtain ⟨c, rest, text, plain⟩ := isDocText_blockText_iff.mp doc
    rw [body, text]
    exact content_front plain rest
  rw [parts_merge also unmarked free]
  by_cases word : endsWord (body second) = true
  · rw [if_pos word]
    simp only [List.map_cons, List.map_nil, List.cons.injEq, and_true, unwrap,
      String.ofList_inj, String.toList_ofList]
    rw [front, content_back, whole doc, whole also, bare_front_iff, bare_back_iff]
    constructor
    · rintro ⟨⟨closing, star⟩, opening⟩
      exact ⟨word, closing, star, opening⟩
    · rintro ⟨-, closing, star, opening⟩
      exact ⟨⟨closing, star⟩, opening⟩
  · rw [if_neg word]
    refine iff_of_false (fun same => ?_) fun apart => word apart.word
    have count := congrArg List.length same
    simp at count

theorem unwrap_parts_merge_apart :
    (parts (blockText (merge "* First. " "*\n * Second.\n "))).map unwrap =
      ["First.", "Second."] := by
  have apart : Separable "* First. " "*\n * Second.\n " := by
    refine ⟨by decide +kernel, by decide +kernel, ?_, ?_⟩
    · intro front ends
      have last := congrArg List.getLast? ends
      rw [List.getLast?_concat] at last
      exact absurd last (by decide +kernel)
    · intro rest opens
      cases opens
  have first : unwrap (blockText "* First. ") = "First." := by decide +kernel
  have second : unwrap (blockText "*\n * Second.\n ") = "Second." := by decide +kernel
  rw [← first, ← second]
  exact (unwrap_parts_merge_iff (by decide +kernel) (by decide +kernel)
    (not_marked_of_notMem (by decide)) (not_marked_of_notMem (by decide))).mpr apart

/-- A text that begins with a letter behind its star is read as the rest of the marker. -/
theorem merged_inseparable : ¬ ∀ first second : String, isDocText (blockText first) = true →
    isDocText (blockText second) = true → ¬ Marked first.toList → ¬ Marked second.toList →
    (parts (blockText (merge first second))).map unwrap =
      [unwrap (blockText first), unwrap (blockText second)] := by
  intro all
  have apart := all "* A " "*B " (by decide +kernel) (by decide +kernel)
    (not_marked_of_notMem (by decide)) (not_marked_of_notMem (by decide))
  have single : (parts (blockText (merge "* A " "*B "))).map unwrap = ["A @alsoB"] := by
    decide +kernel
  rw [single] at apart
  cases congrArg List.length apart

end Doclets.Comment
