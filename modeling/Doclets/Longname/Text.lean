import Doclets.Longname.Scope
import Doclets.Text.Pieces

/-!
The text of longnames. A longname is the path of a symbol: names joined by punctuation, `.` for a
static member, `#` for an instance member and `~` for an inner one. Quoted and bracketed segments
are opaque. The segment `prototype` is another spelling of `#`.
-/

namespace Doclets.Longname

/-- The longname of the scope that holds every unit. -/
def global : String := "<global>"

/-- Stands for a scope that has no name. -/
def anonymous : String := "<anonymous>"

def moduleMark : String := "module:"

def packageMark : String := "package:"

def isModule (name : String) : Bool := moduleMark.toList.isPrefixOf name.toList

def startsIdentifier (c : Char) : Bool := c.isAlpha || c = '_' || c = '$'

def continuesIdentifier (c : Char) : Bool := c.isAlphanum || c = '_' || c = '$'

/-- The identifier a name begins with; a name that begins otherwise is its own basename, and the
empty name has none. -/
def basename? (name : String) : Option String :=
  match name.toList with
  | [] => none
  | c :: rest =>
    if startsIdentifier c then some (String.ofList (c :: rest.takeWhile continuesIdentifier))
    else some name

/-- Whether the word `prototype` may end in front of this text. -/
def endsSegment : List Char → Bool
  | [] => true
  | c :: _ => isPunctuation c || c = '['

def withoutDot : List Char → List Char
  | '.' :: rest => rest
  | cs => cs

/-- Writes the word `prototype` in a path as `#`, after `out`, the text written so far, reversed.
The word counts at the start of the whole text (`first`) or behind a dot that was read since the
last word (`dot`), and if its segment ends with it. -/
def prototypesFrom (first dot : Bool) (out : List Char) : List Char → List Char
  | [] => out.reverse
  | 'p' :: 'r' :: 'o' :: 't' :: 'o' :: 't' :: 'y' :: 'p' :: 'e' :: rest =>
    if (dot || first) && endsSegment rest then
      let out := '#' :: if dot then out.tail else out
      match rest with
      | '.' :: rest => prototypesFrom false false out rest
      | rest => prototypesFrom false false out rest
    else
      prototypesFrom false false
        ('e' :: 'p' :: 'y' :: 't' :: 'o' :: 't' :: 'o' :: 'r' :: 'p' :: out) rest
  | c :: rest => prototypesFrom false (c = '.') (c :: out) rest

/-- Spells prototypes with `#`: `Foo.prototype.bar` is `Foo#bar` and `Foo.prototype` is `Foo#`.
The bare word stays. -/
def spellPrototypes (name : String) : String :=
  if name = "prototype" then name
  else String.ofList (prototypesFrom true false [] name.toList)

/-- Whether a parent already ends with the punctuation that joins its member. -/
def endsJoined (parent : String) : Bool := parent.toList.getLast?.any isPunctuation

/-- Where a scan stands: inside a quotation or at some depth of brackets. -/
structure Nesting where
  quote : Option Char
  escaped : Bool
  depth : Nat

namespace Nesting

def outside : Nesting := ⟨none, false, 0⟩

def isOutside (n : Nesting) : Bool := n.quote.isNone && n.depth = 0

def step (n : Nesting) (c : Char) : Nesting :=
  match n.quote with
  | some q =>
    ⟨if c = q && !n.escaped then none else some q, c = '\\' && !n.escaped, n.depth⟩
  | none =>
    if c = '"' || c = '\'' then { n with quote := some c }
    else if c = '[' then { n with depth := n.depth + 1 }
    else if c = ']' then { n with depth := n.depth - 1 }
    else n

end Nesting

/-- Cuts a text at its last punctuation outside quotes and brackets that has a character on each
side; `seen` holds the text before this one, reversed. -/
def cutLast (n : Nesting) (seen : List Char) :
    List Char → Option (List Char × Char × List Char)
  | [] => none
  | c :: rest =>
    match cutLast (n.step c) (c :: seen) rest with
    | some cut => some cut
    | none =>
      if isPunctuation c && n.isOutside && !seen.isEmpty && !rest.isEmpty then
        some (seen.reverse, c, rest)
      else none

/-- Cuts a text at its last opening parenthesis. -/
def cutParenthesis : List Char → Option (List Char × List Char)
  | [] => none
  | c :: rest =>
    match cutParenthesis rest with
    | some (before, after) => some (c :: before, after)
    | none => if c = '(' then some ([], rest) else none

/-- A name without its variation, the text in parentheses at its end: `foo(2)` is `foo` and `2`. -/
def splitVariation (name : List Char) : List Char × Option (List Char) :=
  match cutParenthesis name with
  | some (before, after) =>
    match [')'].isSuffixOf? after with
    | some variation =>
      if before.isEmpty || variation.isEmpty || variation.contains ')' then (name, none)
      else (before, some variation)
    | none => (name, none)
  | none => (name, none)

/-- A longname taken apart at its last punctuation. -/
structure Parts where
  longname : String
  memberof : String
  scope : Option Char
  name : String
  /-- Tells apart symbols of one name; written in parentheses after it. -/
  variation : Option String
  deriving DecidableEq

def shorten (name : String) : Parts :=
  let longname := spellPrototypes name
  let (memberof, scope, own) :=
    match cutLast .outside [] longname.toList with
    | some (parent, c, own) => (parent, some c, own)
    | none => ([], none, longname.toList)
  let (own, variation) := splitVariation own
  ⟨longname, String.ofList memberof, scope, String.ofList own, variation.map String.ofList⟩

/-- Whether a name is the path of a member of `parent`. -/
def isMemberPath (name parent : String) : Bool :=
  match parent.toList.isPrefixOf? name.toList with
  | some (c :: _) => isPunctuation c
  | _ => false

end Doclets.Longname
