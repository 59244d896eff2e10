/-!
Path patterns. A star stands for any text and a question mark for any byte, slashes included; a
double star that fills a component stands for any number of directories. Brackets hold a class of
characters, braces alternatives, and a backslash takes the next character as it is.
-/

namespace Doclets.Glob

inductive Token where
  | literal (c : Char)
  | anyByte
  | anyText
  /-- Any number of directories at the start of a path, or nothing. -/
  | leadingDirectories
  /-- Whatever is below a directory. -/
  | belowDirectory
  /-- Any number of directories between two slashes. -/
  | innerDirectories
  | choice (negated : Bool) (ranges : List (Char × Char))
  | alternatives (branches : List (List Token))

/-- Why a text is no pattern. -/
inductive PatternError where
  | unclosedClass
  | invalidRange (first last : Char)
  | unopenedAlternatives
  | unclosedAlternatives
  | danglingEscape
  deriving DecidableEq

/-- Braces that are still open: the tokens in front of them, reversed, and the alternatives that
are complete, reversed. -/
structure Opening where
  front : List Token
  branches : List (List Token)

structure Reading where
  /-- The tokens of the innermost alternative, reversed. -/
  tokens : List Token
  openings : List Opening
  /-- The character in front of the next one. -/
  last : Option Char

namespace Reading

def start : Reading := ⟨[], [], none⟩

def push (r : Reading) (token : Token) : Reading := { r with tokens := token :: r.tokens }

def isNested (r : Reading) : Bool := !r.openings.isEmpty

/-- Closes the innermost braces. -/
def close (r : Reading) : Except PatternError Reading :=
  match r.openings with
  | [] => .error .unopenedAlternatives
  | opening :: rest =>
    let branches := (r.tokens.reverse :: opening.branches).reverse
    .ok ⟨.alternatives branches :: opening.front, rest, r.last⟩

/-- A comma begins the next alternative, and outside of braces it stands for itself. -/
def comma (r : Reading) : Reading :=
  match r.openings with
  | [] => r.push (.literal ',')
  | opening :: rest =>
    ⟨[], { opening with branches := r.tokens.reverse :: opening.branches } :: rest, r.last⟩

/-- A directory token takes the place of the slash in front of it. -/
def replaceSlash (r : Reading) (token : Token) : Reading :=
  match r.tokens with
  | .leadingDirectories :: rest => { r with tokens := .leadingDirectories :: rest }
  | .belowDirectory :: rest => { r with tokens := .belowDirectory :: rest }
  | _ :: rest => { r with tokens := token :: rest }
  | [] => { r with tokens := [token] }

/-- Whether a component may begin behind this character. -/
def beginsComponent (r : Reading) (before : Option Char) : Bool :=
  before = some '/' || (r.isNested && (before = some ',' || before = some '\x7b'))

/-- Whether an alternative ends in front of this text. -/
def endsHere (r : Reading) : List Char → Bool
  | [] => true
  | c :: _ => r.isNested && (c = ',' || c = '\x7d')

/-- Reads on behind two stars, which have `before` in front of them. Unless they fill a component
they are two single stars. Gives what is left of the text. -/
def doubleStar (r : Reading) (before : Option Char) (rest : List Char) : Reading × List Char :=
  let plain := ((r.push .anyText).push .anyText, rest)
  if r.tokens.isEmpty then
    match rest with
    | [] => (r.push .leadingDirectories, [])
    | '/' :: rest => ({ r.push .leadingDirectories with last := some '/' }, rest)
    | _ => plain
  else if !r.beginsComponent before then plain
  else if r.endsHere rest then (r.replaceSlash .belowDirectory, rest)
  else
    match rest with
    | '/' :: rest => ({ r.replaceSlash .innerDirectories with last := some '/' }, rest)
    | _ => plain

end Reading

/-! ### Classes -/

/-- A class being read; the ranges are reversed. -/
structure Class where
  ranges : List (Char × Char)
  isFirst : Bool
  /-- Whether a dash stands in front that may join two characters to a range. -/
  dash : Bool

namespace Class

def start : Class := ⟨[], true, false⟩

/-- Adds a character, which ends a range that a dash has begun. -/
def add (k : Class) (c : Char) : Except PatternError Class :=
  match k.dash, k.ranges with
  | true, (first, _) :: rest =>
    if c < first then .error (.invalidRange first c) else .ok ⟨(first, c) :: rest, false, false⟩
  | _, ranges => .ok ⟨(c, c) :: ranges, false, false⟩

/-- The ranges of a class that is complete; a dash at its end stands for itself. -/
def finish (k : Class) : List (Char × Char) :=
  (if k.dash then ('-', '-') :: k.ranges else k.ranges).reverse

/-- Reads up to the closing bracket; one that comes first belongs to the class. -/
def read (k : Class) : List Char → Except PatternError (List (Char × Char) × List Char)
  | [] => .error .unclosedClass
  | c :: rest =>
    if c = ']' && !k.isFirst then .ok (k.finish, rest)
    else if c = '-' && !k.isFirst && !k.dash then read { k with dash := true } rest
    else
      match k.add c with
      | .error e => .error e
      | .ok k => read k rest

end Class

/-- The token of a class, after its opening bracket. -/
def readClass (cs : List Char) : Except PatternError (Token × List Char) :=
  let (negated, cs) := match cs with
    | '!' :: rest | '^' :: rest => (true, rest)
    | cs => (false, cs)
  match Class.start.read cs with
  | .error e => .error e
  | .ok (ranges, rest) => .ok (.choice negated ranges, rest)

/-! ### Patterns -/

/-- Reads the rest of a pattern. Every step takes a character, so the length of the text is enough
fuel. -/
def readFrom : Nat → Reading → List Char → Except PatternError Reading
  | 0, r, _ => .ok r
  | _, r, [] => .ok r
  | fuel + 1, r, c :: rest =>
    let before := r.last
    let r := { r with last := some c }
    match c with
    | '?' => readFrom fuel (r.push .anyByte) rest
    | '*' =>
      match rest with
      | '*' :: rest =>
        let (r, rest) := r.doubleStar before rest
        readFrom fuel r rest
      | rest => readFrom fuel (r.push .anyText) rest
    | '[' =>
      match readClass rest with
      | .error e => .error e
      | .ok (token, rest) => readFrom fuel { r.push token with last := some ']' } rest
    | '\x7b' => readFrom fuel { r with tokens := [], openings := ⟨r.tokens, []⟩ :: r.openings } rest
    | '\x7d' =>
      match r.close with
      | .error e => .error e
      | .ok r => readFrom fuel r rest
    | ',' => readFrom fuel r.comma rest
    | '\\' =>
      match rest with
      | [] => .error .danglingEscape
      | c :: rest => readFrom fuel { r.push (.literal c) with last := some c } rest
    | c => readFrom fuel (r.push (.literal c)) rest

/-- The tokens of a pattern. -/
def ofText (text : String) : Except PatternError (List Token) :=
  match readFrom text.length .start text.toList with
  | .error e => .error e
  | .ok r => if r.isNested then .error .unclosedAlternatives else .ok r.tokens.reverse

end Doclets.Glob
