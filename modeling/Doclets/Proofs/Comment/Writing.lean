import Mathlib.Data.List.Forall2
import Doclets.Doclet.Tags
import Doclets.Proofs.Comment.Merging
import Doclets.Proofs.Text.Pieces

/-!
Writing a comment from a description and tags. What is written is read again as it was: the margin
that a line gets is the one that it loses, whatever the line begins with, and of the blanks only
those behind a tag without a value are not there any more.
-/

namespace Doclets.ParsedComment

open Text (isBlank trim trimStart trimEnd splitAt)

/-- Whether a line begins, behind blanks, with `@` and a letter. -/
def opensTag (line : List Char) : Bool :=
  match trimStart line with
  | '@' :: c :: _ => c.isAlpha
  | _ => false

/-- A tag as it is written: its title, a space and its value. -/
def tagText (tag : Tag) : List Char := '@' :: (tag.title.toList ++ ' ' :: tag.value.toList)

/-- What is written, one below the other: the description and the tags. -/
def texts (p : ParsedComment) : List (List Char) :=
  p.description.toList.map String.toList ++ p.tags.map tagText

/-- A line behind the margin that lines of comments have. -/
def margined (line : List Char) : List Char := ' ' :: '*' :: ' ' :: (line ++ ['\n'])

/-- The comment that has these lines. -/
def comment (lines : List (List Char)) : List Char :=
  "/**\n".toList ++ lines.flatMap margined ++ " */".toList

/-- The comment that a description and tags are written as. -/
def written (p : ParsedComment) : String :=
  String.ofList (comment (p.texts.flatMap (splitAt '\n')))

/-- A description that is read again as it is written. -/
structure WritableDescription (text : String) : Prop where
  filled : text ≠ ""
  trimmed : Text.trimmed text = text
  plain : ∀ line ∈ splitAt '\n' text.toList, opensTag line = false
  unreturned : '\r' ∉ text.toList

/-- A tag that is read again as it is written. -/
structure WritableTag (tag : Tag) : Prop where
  letter : ∃ c rest, tag.title.toList = c :: rest ∧ c.isAlpha = true
  word : tag.title.toList.any isBlank = false
  trimmed : Text.trimmed tag.value = tag.value
  first : ∀ line ∈ (splitAt '\n' tag.value.toList).head?, trimEnd line = line
  plain : ∀ line ∈ (splitAt '\n' tag.value.toList).tail, opensTag line = false
  unreturned : '\r' ∉ tag.value.toList

structure Writable (p : ParsedComment) : Prop where
  description : ∀ text ∈ p.description, WritableDescription text
  tags : ∀ tag ∈ p.tags, WritableTag tag

variable {tag : Tag} {line last : List Char} {texts lines front : List (List Char)}
  {p : ParsedComment}

/-! ### The content -/

theorem dropMargin_margin (line : List Char) :
    Comment.dropMargin (' ' :: '*' :: ' ' :: line) = line := rfl

theorem marginless_margined (line rest : List Char) (one : '\n' ∉ line) (free : '\r' ∉ line) :
    Comment.marginless [] (margined line ++ rest) = line ++ '\n' :: Comment.marginless [] rest := by
  have apart : '\n' ∉ ' ' :: '*' :: ' ' :: line := by simpa using one
  have kept : Text.dropReturn (' ' :: '*' :: ' ' :: line) = ' ' :: '*' :: ' ' :: line :=
    Text.dropReturn_of_notMem (by simpa using free)
  have read := Comment.marginless_newline [] apart rest
  rw [List.reverse_nil, List.nil_append, kept, dropMargin_margin] at read
  simpa [margined] using read

theorem marginless_flatMap (one : ∀ line ∈ lines, '\n' ∉ line ∧ '\r' ∉ line) :
    Comment.marginless [] (lines.flatMap margined) = lines.flatMap (· ++ ['\n']) := by
  induction lines with
  | nil => rfl
  | cons line lines ih =>
    obtain ⟨here, free⟩ := one line List.mem_cons_self
    rw [List.flatMap_cons, marginless_margined line _ here free,
      ih fun line listed => one line (List.mem_cons_of_mem _ listed), List.flatMap_cons,
      List.append_assoc, List.singleton_append]

/-- The content of a comment is its lines. -/
theorem content_comment_lines (one : ∀ line ∈ lines, '\n' ∉ line ∧ '\r' ∉ line) :
    Comment.content (comment lines) = trim (lines.flatMap (· ++ ['\n'])) := by
  have whole : comment lines =
      '/' :: '*' :: '*' :: ('\n' :: (lines.flatMap margined ++ [' ']) ++ ['*', '/']) := by
    simp [comment]
  have ends : Text.dropEndWhile Comment.isStar ('\n' :: (lines.flatMap margined ++ [' '])) =
      '\n' :: (lines.flatMap margined ++ [' ']) :=
    Text.dropEndWhile_append_cons (by decide) ('\n' :: lines.flatMap margined) []
  rw [whole, Comment.content_comment (by decide), ends, Comment.bare_cons_blank (by decide),
    Comment.bare_append_blank_single (by decide), Comment.bare, marginless_flatMap one]

/-- A text that begins with something other than a blank. -/
def Begins (text : List Char) : Prop := ∃ c rest, text = c :: rest ∧ isBlank c = false

theorem splitAt_flatMap (front : List (List Char)) (last : List Char) :
    splitAt '\n' (front.flatMap (· ++ ['\n']) ++ last) =
      (front ++ [last]).flatMap (splitAt '\n') := by
  induction front with
  | nil => simp
  | cons text front ih =>
    rw [List.flatMap_cons, List.append_assoc, List.append_assoc, List.singleton_append,
      Text.splitAt_append_cons, ih, List.cons_append, List.flatMap_cons]

/-- The content of a comment is the texts that it was written from, one below the other, without
the blanks behind the last one. -/
theorem content_comment_texts (free : ∀ text ∈ front ++ [last], '\r' ∉ text)
    (begin : ∀ text ∈ front ++ [last], Begins text) :
    Comment.content (comment ((front ++ [last]).flatMap (splitAt '\n'))) =
      front.flatMap (· ++ ['\n']) ++ trimEnd last := by
  have one : ∀ line ∈ (front ++ [last]).flatMap (splitAt '\n'), '\n' ∉ line ∧ '\r' ∉ line := by
    intro line listed
    obtain ⟨text, here, listed⟩ := List.mem_flatMap.mp listed
    obtain ⟨apart, inside⟩ := Text.notMem_of_mem_splitAt listed
    exact ⟨apart, fun found => free text here (inside found)⟩
  obtain ⟨c, rest, rfl, other⟩ := begin last (by simp)
  have back (above : List Char) : trimEnd (above ++ c :: rest) = above ++ c :: trimEnd rest :=
    Text.dropEndWhile_append_cons other above rest
  have start : trimStart (front.flatMap (· ++ ['\n']) ++ c :: rest) =
      front.flatMap (· ++ ['\n']) ++ c :: rest := by
    cases front with
    | nil => exact List.dropWhile_cons_of_neg (by simpa using other)
    | cons text front =>
      obtain ⟨d, more, rfl, begins⟩ := begin text (by simp)
      exact List.dropWhile_cons_of_neg (by simpa using begins)
  rw [content_comment_lines one, List.flatMap_assoc]
  simp only [Text.flatMap_splitAt]
  rw [List.flatMap_append, List.flatMap_singleton, ← List.append_assoc,
    Text.trim_append_blank _ (List.forall_mem_singleton.mpr rfl), trim, start, back,
    show trimEnd (c :: rest) = c :: trimEnd rest from back []]

theorem lines_comment_texts (free : ∀ text ∈ front ++ [last], '\r' ∉ text)
    (begin : ∀ text ∈ front ++ [last], Begins text) :
    Text.lines (Comment.content (comment ((front ++ [last]).flatMap (splitAt '\n')))) =
      (front ++ [trimEnd last]).flatMap (splitAt '\n') := by
  have filled : trimEnd last ≠ [] := by
    obtain ⟨c, rest, rfl, other⟩ := begin last (by simp)
    rw [show trimEnd (c :: rest) = c :: trimEnd rest from
      Text.dropEndWhile_append_cons other [] rest]
    exact List.cons_ne_nil _ _
  rw [content_comment_texts free begin, ← splitAt_flatMap]
  apply Text.lines_eq_splitAt
  · intro found
    rcases List.mem_append.mp found with above | here
    · obtain ⟨text, listed, found⟩ := List.mem_flatMap.mp above
      exact free text (by simp [listed]) (by simpa using found)
    · exact free last (by simp) ((List.rdropWhile_prefix isBlank last).subset here)
  · simp [filled]
  · intro ends
    rw [List.getLast?_append_of_ne_nil _ filled] at ends
    have other := Text.trimEnd_eq_self_iff.mp (Text.trimEnd_trimEnd last) _ ends
    exact absurd other (by decide)

/-! ### The lines of a tag -/

theorem tagLine?_of_plain (plain : opensTag line = false) : tagLine? line = none := by
  unfold tagLine?
  split
  next c rest begins =>
    have other : c.isAlpha = false := by
      rw [opensTag, begins] at plain
      exact plain
    rw [if_neg (by simp [other])]
  next => rfl

theorem takeWhile_word {word rest : List Char} (one : ∀ c ∈ word, isBlank c = false)
    (ends : ∀ c ∈ rest.head?, isBlank c = true) :
    (word ++ rest).takeWhile (fun c => !isBlank c) = word ∧
      (word ++ rest).dropWhile (fun c => !isBlank c) = rest := by
  have all : ∀ c ∈ word, (!isBlank c) = true := fun c listed => by rw [one c listed]; rfl
  rw [List.takeWhile_append_of_pos all, List.dropWhile_append_of_pos all]
  cases rest with
  | nil => exact ⟨List.append_nil word, rfl⟩
  | cons c rest =>
    have blank := ends c rfl
    simp [blank]

theorem tagLine?_title {title rest : List Char}
    (letter : ∃ c more, title = c :: more ∧ c.isAlpha = true)
    (word : ∀ c ∈ title, isBlank c = false) (ends : ∀ c ∈ rest.head?, isBlank c = true) :
    tagLine? ('@' :: (title ++ rest)) = some (title, trim rest) := by
  obtain ⟨c, more, rfl, alpha⟩ := letter
  have kept : trimStart ('@' :: (c :: more ++ rest)) = '@' :: c :: (more ++ rest) := rfl
  obtain ⟨front, back⟩ := takeWhile_word word ends
  rw [tagLine?, kept]
  simp only [alpha, if_true]
  rw [← List.cons_append, front, back]

theorem sections_plain (plain : ∀ line ∈ texts, tagLine? line = none) (rest : List (List Char)) :
    sections (texts ++ rest) = (texts ++ (sections rest).1, (sections rest).2) := by
  induction texts with
  | nil => rfl
  | cons line texts ih =>
    have others := ih fun line listed => plain line (List.mem_cons_of_mem _ listed)
    rw [List.cons_append, sections, others, plain line List.mem_cons_self]
    rfl

/-- The lines of a text are read as a tag: the first one opens it, and no other opens another. -/
def ReadsAs (text : List Char) (tag : Tag) : Prop :=
  ∃ first more value, splitAt '\n' text = first :: more ∧
    tagLine? first = some (tag.title.toList, value) ∧ (∀ line ∈ more, tagLine? line = none) ∧
    trimmedLines (value :: more) = tag.value

/-- The tag that a section is. -/
def sectionTag (named : List Char × List (List Char)) : Tag :=
  ⟨String.ofList named.1, trimmedLines named.2⟩

theorem sections_readsAs {tags : List Tag} (all : List.Forall₂ ReadsAs texts tags) :
    (sections (texts.flatMap (splitAt '\n'))).1 = [] ∧
      (sections (texts.flatMap (splitAt '\n'))).2.map sectionTag = tags := by
  induction all with
  | nil => exact ⟨rfl, rfl⟩
  | cons here _ ih =>
    obtain ⟨first, more, value, pieces, opens, plain, spelled⟩ := here
    rw [List.flatMap_cons, pieces, List.cons_append, sections, sections_plain plain, opens, ih.1]
    refine ⟨rfl, ?_⟩
    rw [List.map_cons, ih.2, sectionTag, List.append_nil, spelled, String.ofList_toList]

theorem joinLines_splitAt (cs : List Char) : Text.joinLines (splitAt '\n' cs) = cs := by
  induction cs with
  | nil => rfl
  | cons c rest ih =>
    by_cases feed : c = '\n'
    · rw [splitAt, if_pos feed, Comment.joinLines_cons _ (Text.splitAt_ne_nil _ _), ih, feed]
      rfl
    · obtain ⟨first, others, pieces, split⟩ := Text.exists_splitAt_cons feed rest
      rw [pieces] at ih
      rw [split]
      cases others with
      | nil => exact congrArg (c :: ·) ih
      | cons next others =>
        rw [Comment.joinLines_cons _ (List.cons_ne_nil _ _)] at ih ⊢
        exact congrArg (c :: ·) ih

theorem trimmedLines_splitAt (text : String) :
    trimmedLines (splitAt '\n' text.toList) = Text.trimmed text := by
  rw [trimmedLines, joinLines_splitAt, Text.trimmed]

theorem trim_of_trimmed {text : String} (same : Text.trimmed text = text) :
    trim text.toList = text.toList := by
  conv_rhs => rw [← same, Text.trimmed, String.toList_ofList]

namespace WritableTag

theorem not_isBlank (writable : WritableTag tag) : ∀ c ∈ tag.title.toList, isBlank c = false := by
  simpa using writable.word

theorem notMem_title (writable : WritableTag tag) {c : Char} (blank : isBlank c = true) :
    c ∉ tag.title.toList := by
  intro found
  rw [writable.not_isBlank c found] at blank
  cases blank

/-- The first line of a value begins where the value does. -/
theorem trimStart_first (writable : WritableTag tag) :
    ∀ line ∈ (splitAt '\n' tag.value.toList).head?, trimStart line = line := by
  intro line listed
  have start := (Text.trim_eq_self_iff.mp (trim_of_trimmed writable.trimmed)).1
  rw [Text.trimStart_eq_self_iff] at start ⊢
  obtain ⟨back, whole⟩ := Text.prefix_of_mem_head?_splitAt listed
  intro c first
  apply start c
  rw [← whole, List.head?_append, Option.mem_def.mp first]
  rfl

theorem readsAs (writable : WritableTag tag) : ReadsAs (tagText tag) tag := by
  cases pieces : splitAt '\n' tag.value.toList with
  | nil => exact absurd pieces (Text.splitAt_ne_nil _ _)
  | cons first more =>
    have value := trimmedLines_splitAt tag.value
    rw [pieces, writable.trimmed] at value
    have apart : '\n' ∉ '@' :: (tag.title.toList ++ [' ']) := by
      simpa using writable.notMem_title rfl
    have whole : splitAt '\n' (tagText tag) =
        ('@' :: (tag.title.toList ++ ' ' :: first)) :: more := by
      have split := Text.splitAt_append_of_notMem apart tag.value.toList
      rw [pieces] at split
      simpa [tagText] using split
    have trimmed : trim (' ' :: first) = first := by
      rw [show ' ' :: first = [' '] ++ first from rfl,
        Text.trim_blank_append (List.forall_mem_singleton.mpr rfl), Text.trim_eq_self_iff]
      have here : first ∈ (splitAt '\n' tag.value.toList).head? := by rw [pieces]; rfl
      exact ⟨writable.trimStart_first first here, writable.first first here⟩
    refine ⟨_, more, first, whole, ?_, ?_, value⟩
    · rw [tagLine?_title writable.letter writable.not_isBlank (by simp [isBlank]), trimmed]
    · intro line listed
      exact tagLine?_of_plain (writable.plain line (by rw [pieces]; exact listed))

/-- Blanks behind a tag are those behind its title, where its value is empty. -/
theorem readsAs_trimEnd (writable : WritableTag tag) : ReadsAs (trimEnd (tagText tag)) tag := by
  have title (c : Char) (last : ('@' :: tag.title.toList).getLast? = some c) :
      isBlank c = false := by
    rcases List.mem_cons.mp (List.mem_of_getLast? last) with rfl | listed
    · rfl
    · exact writable.not_isBlank c listed
  have whole : trimEnd (tagText tag) =
      '@' :: (tag.title.toList ++ trimEnd (' ' :: tag.value.toList)) :=
    Text.dropEndWhile_append title (' ' :: tag.value.toList)
  have ends := (Text.trim_eq_self_iff.mp (trim_of_trimmed writable.trimmed)).2
  cases value : tag.value.toList with
  | nil =>
    have empty : tag.value = "" := String.toList_eq_nil_iff.mp value
    have apart : '\n' ∉ '@' :: tag.title.toList := by
      simpa using writable.notMem_title rfl
    rw [whole, value, show trimEnd [' '] = [] from rfl, List.append_nil]
    refine ⟨_, [], [], Text.splitAt_of_notMem apart, ?_, nofun, empty.symm⟩
    have read : tagLine? ('@' :: (tag.title.toList ++ [])) = some (tag.title.toList, []) :=
      tagLine?_title writable.letter writable.not_isBlank nofun
    rwa [List.append_nil] at read
  | cons c rest =>
    rw [value, Text.trimEnd_eq_self_iff] at ends
    have kept : trimEnd (' ' :: c :: rest) = ' ' :: c :: rest := by
      rw [Text.trimEnd_eq_self_iff]
      simpa using ends
    rw [whole, value, kept, ← value]
    exact writable.readsAs

end WritableTag

/-! ### The whole comment -/

theorem begins_tagText (tag : Tag) : Begins (tagText tag) := ⟨'@', _, rfl, rfl⟩

theorem unreturned_tagText (writable : WritableTag tag) : '\r' ∉ tagText tag := by
  have title : '\r' ∉ tag.title.toList := writable.notMem_title rfl
  simpa [tagText, title] using writable.unreturned

theorem begins_description {text : String} (writable : WritableDescription text) :
    Begins text.toList := by
  have start := (Text.trim_eq_self_iff.mp (trim_of_trimmed writable.trimmed)).1
  cases cs : text.toList with
  | nil => exact absurd (String.toList_eq_nil_iff.mp cs) writable.filled
  | cons c rest =>
    rw [cs, Text.trimStart_eq_self_iff] at start
    exact ⟨c, rest, rfl, start c rfl⟩

theorem begins_texts (writable : p.Writable) : ∀ text ∈ p.texts, Begins text := by
  simp only [ParsedComment.texts, List.mem_append, List.mem_map]
  rintro text (⟨spelled, listed, rfl⟩ | ⟨tag, listed, rfl⟩)
  · exact begins_description (writable.description spelled (Option.mem_toList.mp listed))
  · exact begins_tagText tag

theorem unreturned_texts (writable : p.Writable) : ∀ text ∈ p.texts, '\r' ∉ text := by
  simp only [ParsedComment.texts, List.mem_append, List.mem_map]
  rintro text (⟨spelled, listed, rfl⟩ | ⟨tag, listed, rfl⟩)
  · exact (writable.description spelled (Option.mem_toList.mp listed)).unreturned
  · exact unreturned_tagText (writable.tags tag listed)

/-- The content of a written comment has the lines of the description and those of the tags. -/
theorem exists_lines_written (writable : p.Writable) : ∃ tagTexts,
    Text.lines (Comment.content p.written.toList) =
      (p.description.toList.map String.toList).flatMap (splitAt '\n') ++
        tagTexts.flatMap (splitAt '\n') ∧
      List.Forall₂ ReadsAs tagTexts p.tags := by
  have free := unreturned_texts writable
  have begin := begins_texts writable
  rw [written, String.toList_ofList]
  cases tags : p.tags using List.reverseRecOn with
  | nil =>
    refine ⟨[], ?_, List.Forall₂.nil⟩
    cases description : p.description with
    | none =>
      rw [ParsedComment.texts, tags, description]
      rfl
    | some text =>
      have trimmed := (writable.description text description).trimmed
      have ends := (Text.trim_eq_self_iff.mp (trim_of_trimmed trimmed)).2
      have single : p.texts = [] ++ [text.toList] := by
        rw [ParsedComment.texts, tags, description]
        rfl
      rw [single] at free begin
      rw [single, lines_comment_texts free begin, ends]
      simp
  | append_singleton init tag =>
    have all : ∀ other ∈ init ++ [tag], WritableTag other := tags ▸ writable.tags
    have split : p.texts = (p.description.toList.map String.toList ++ init.map tagText) ++
        [tagText tag] := by
      rw [ParsedComment.texts, tags]
      simp
    rw [split] at free begin
    refine ⟨init.map tagText ++ [trimEnd (tagText tag)], ?_, ?_⟩
    · rw [split, lines_comment_texts free begin]
      simp
    · have here := (all tag (by simp)).readsAs_trimEnd
      have others : List.Forall₂ ReadsAs (init.map tagText) init := by
        rw [List.forall₂_map_left_iff]
        exact List.forall₂_same.mpr fun other listed => (all other (by simp [listed])).readsAs
      exact List.rel_append others (List.Forall₂.cons here List.Forall₂.nil)

/-- What stands in front of the first tag is the description. -/
theorem ofContent_of_lines {content : List Char} {front : List (List Char)} {tags : List Tag}
    (split : Text.lines content = front ++ texts.flatMap (splitAt '\n'))
    (plain : ∀ line ∈ front, tagLine? line = none) (reads : List.Forall₂ ReadsAs texts tags) :
    ofContent content =
      ⟨if (trimmedLines front).isEmpty then none else some (trimmedLines front), tags⟩ := by
  obtain ⟨nothing, same⟩ := sections_readsAs reads
  rw [ofContent, split, sections_plain plain, nothing, List.append_nil, ← same]
  rfl

/-- What is written is read again as it was. -/
theorem ofRaw_written (writable : p.Writable) : ofRaw p.written = p := by
  obtain ⟨tagTexts, split, reads⟩ := exists_lines_written writable
  have plain : ∀ line ∈ (p.description.toList.map String.toList).flatMap (splitAt '\n'),
      tagLine? line = none := by
    intro line listed
    obtain ⟨text, described, listed⟩ := List.mem_flatMap.mp listed
    obtain ⟨spelled, some, rfl⟩ := List.mem_map.mp described
    have own := writable.description spelled (Option.mem_toList.mp some)
    exact tagLine?_of_plain (own.plain line listed)
  rw [ofRaw, ofContent_of_lines split plain reads]
  obtain ⟨description, tags⟩ := p
  cases description with
  | none => rfl
  | some text =>
    have own := writable.description text rfl
    have read : trimmedLines (splitAt '\n' text.toList) = text := by
      rw [trimmedLines_splitAt, own.trimmed]
    simp [read, own.filled]

/-- Lines of every shape: empty ones, stars and indentation in front, what looks like a delimiter,
a tag with one letter more and one without a value. -/
def guide : ParsedComment where
  description := some "A *list* of:\n\n    * one\n  @ two\n** three\n\t/** four */"
  tags := [⟨"param", "* name\n * An été. *\n\n        @1"⟩, ⟨"x@été", "*/"⟩, ⟨"end", ""⟩]

theorem ofRaw_written_guide : guide.Writable ∧ ofRaw guide.written = guide := by
  have tags : ∀ tag ∈ guide.tags, WritableTag tag := by
    simp only [guide, List.forall_mem_cons]
    refine ⟨?_, ?_, ?_, nofun⟩
    all_goals exact ⟨⟨_, _, rfl, by decide⟩, by decide +kernel, by decide +kernel,
      by decide +kernel, by decide +kernel, by decide +kernel⟩
  have writable : guide.Writable := by
    refine ⟨fun text described => ?_, tags⟩
    cases described
    exact ⟨by decide, by decide +kernel, by decide +kernel, by decide +kernel⟩
  exact ⟨writable, ofRaw_written writable⟩

example : guide.written = "\n".intercalate ["/**", " * A *list* of:", " * ", " *     * one",
    " *   @ two", " * ** three", " * \t/** four */", " * @param * name", " *  * An été. *", " * ",
    " *         @1", " * @x@été */", " * @end ", " */"] := by
  decide +kernel

end Doclets.ParsedComment
