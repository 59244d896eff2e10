import Doclets.Text.Blank

/-!
Cutting texts into pieces: lines, words, the parts between separators, and what remains after a
fixed beginning or before a fixed end.
-/

namespace Doclets.Text

/-- The pieces of a text between the places where `sep` stands; always at least one. -/
def splitAt (sep : Char) : List Char → List (List Char)
  | [] => [[]]
  | c :: rest =>
    if c = sep then [] :: splitAt sep rest
    else match splitAt sep rest with
      | [] => [[c]]
      | piece :: others => (c :: piece) :: others

/-- A line without the carriage return that may end it. -/
def dropReturn (line : List Char) : List Char :=
  if line.getLast? = some '\r' then line.dropLast else line

/-- The lines of the text whose current line begins, reversed, with `line`. -/
def linesFrom (line : List Char) : List Char → List (List Char)
  | [] => if line.isEmpty then [] else [line.reverse]
  | c :: rest =>
    if c = '\n' then dropReturn line.reverse :: linesFrom [] rest
    else linesFrom (c :: line) rest

/-- Lines end at a line feed, and a carriage return before it belongs to the end of the line.
No line follows a last line feed. -/
def lines (cs : List Char) : List (List Char) := linesFrom [] cs

def joinLines (ls : List (List Char)) : List Char := List.intercalate ['\n'] ls

/-- The words of the text whose current word begins, reversed, with `word`. -/
def wordsFrom (word : List Char) : List Char → List (List Char)
  | [] => if word.isEmpty then [] else [word.reverse]
  | c :: rest =>
    if isBlank c then
      if word.isEmpty then wordsFrom [] rest else word.reverse :: wordsFrom [] rest
    else wordsFrom (c :: word) rest

/-- The longest blank-free pieces of a text. -/
def words (cs : List Char) : List (List Char) := wordsFrom [] cs

/-- What follows `start` in a text that begins with it. -/
def after? (start text : String) : Option String :=
  (start.toList.isPrefixOf? text.toList).map String.ofList

/-- What precedes `ending` in a text that ends with it. -/
def before? (ending text : String) : Option String :=
  (ending.toList.isSuffixOf? text.toList).map String.ofList

def trimmed (text : String) : String := String.ofList (trim text.toList)

/-- The first word of a text, if it has one. -/
def firstWord? (text : String) : Option String :=
  (words text.toList).head?.map String.ofList

@[simp] theorem splitAt_ne_nil (sep : Char) (cs : List Char) : splitAt sep cs ≠ [] := by
  cases cs with
  | nil => simp [splitAt]
  | cons c rest =>
    rw [splitAt]
    split
    · simp
    · split <;> simp

end Doclets.Text
