import Doclets.Decimal.Reading

/-!
The tokens of JSON text. Reading is strict: no comments, no control characters inside strings, no
leading zeros. A string that escapes half of a surrogate pair, and a number that is too large, are
tokens without a value.
-/

namespace Doclets.Json

inductive Token where
  | openObject
  | closeObject
  | openArray
  | closeArray
  | colon
  | comma
  | text (value : String)
  | integer (value : Int)
  | double (value : Float)
  | word (value : Option Bool)
  /-- A string or number that has no value. -/
  | void

namespace Token

def isSpace (c : Char) : Bool := c = ' ' || c = '\n' || c = '\t' || c = '\r'

def hexDigit? (c : Char) : Option Nat :=
  if '0' ≤ c ∧ c ≤ '9' then some (c.toNat - 48)
  else if 'a' ≤ c ∧ c ≤ 'f' then some (c.toNat - 87)
  else if 'A' ≤ c ∧ c ≤ 'F' then some (c.toNat - 55)
  else none

def hexUnit? (a b c d : Char) : Option Nat := do
  return (((← hexDigit? a) * 16 + (← hexDigit? b)) * 16 + (← hexDigit? c)) * 16 + (← hexDigit? d)

def isHigh (u : Nat) : Bool := 0xD800 ≤ u && u < 0xDC00

def isLow (u : Nat) : Bool := 0xDC00 ≤ u && u < 0xE000

/-- The character a backslash and `c` stand for. -/
def escaped? : Char → Option Char
  | '"' => some '"'
  | '\\' => some '\\'
  | '/' => some '/'
  | 'b' => some '\x08'
  | 'f' => some '\x0c'
  | 'n' => some '\n'
  | 'r' => some '\r'
  | 't' => some '\t'
  | _ => none

/-- The rest of a string, after its opening quote; `done` holds its characters so far, reversed, or
nothing if the string has no value. -/
def stringBody (done : Option (List Char)) : List Char → Option (Token × List Char)
  | '"' :: rest =>
    match done with
    | some cs => some (.text (String.ofList cs.reverse), rest)
    | none => some (.void, rest)
  | '\\' :: 'u' :: a :: b :: c :: d :: rest =>
    match hexUnit? a b c d with
    | none => none
    | some u =>
      if isHigh u then
        match rest with
        | '\\' :: 'u' :: e :: f :: g :: h :: others =>
          match hexUnit? e f g h with
          | none => none
          | some v =>
            if isLow v then
              let c := Char.ofNat (0x10000 + (u - 0xD800) * 0x400 + (v - 0xDC00))
              stringBody (done.map (c :: ·)) others
            else stringBody none others
        | rest => stringBody none rest
      else if isLow u then stringBody none rest
      else stringBody (done.map (Char.ofNat u :: ·)) rest
  | '\\' :: c :: rest =>
    match escaped? c with
    | some e => stringBody (done.map (e :: ·)) rest
    | none => none
  | c :: rest =>
    if c.toNat < 0x20 || c = '\\' then none else stringBody (done.map (c :: ·)) rest
  | [] => none

def digits (cs : List Char) : List Nat × List Char :=
  ((cs.takeWhile Char.isDigit).map fun c => c.toNat - 48, cs.dropWhile Char.isDigit)

/-- At least one digit. -/
def someDigits? (cs : List Char) : Option (List Nat × List Char) :=
  match digits cs with
  | ([], _) => none
  | found => some found

def exponentPart? (cs : List Char) : Option (Option (Bool × List Nat) × List Char) :=
  match cs with
  | e :: rest =>
    if e = 'e' || e = 'E' then
      let (down, rest) := match rest with
        | '+' :: r => (false, r)
        | '-' :: r => (true, r)
        | r => (false, r)
      (someDigits? rest).map fun (ds, rest) => (some (down, ds), rest)
    else some (none, cs)
  | [] => some (none, [])

/-- The number a text begins with. -/
def number? (cs : List Char) : Option (Token × List Char) := do
  let (negative, rest) := match cs with
    | '-' :: r => (true, r)
    | r => (false, r)
  let (whole, rest) ← someDigits? rest
  if whole.head? = some 0 ∧ whole.length ≠ 1 then none
  let (fraction, rest) ← match rest with
    | '.' :: r => (someDigits? r).map fun (ds, r) => (some ds, r)
    | r => some (none, r)
  let (exponent, rest) ← exponentPart? rest
  match (Decimal.Literal.mk negative whole fraction exponent).value? with
  | some (.integer n) => return (.integer n, rest)
  | some (.double x) => return (.double x, rest)
  | none => return (.void, rest)

/-- The first token of a text that begins with neither space nor end, and what follows it. -/
def first? : List Char → Option (Token × List Char)
  | '\x7b' :: rest => some (.openObject, rest)
  | '\x7d' :: rest => some (.closeObject, rest)
  | '[' :: rest => some (.openArray, rest)
  | ']' :: rest => some (.closeArray, rest)
  | ':' :: rest => some (.colon, rest)
  | ',' :: rest => some (.comma, rest)
  | '"' :: rest => stringBody (some []) rest
  | 't' :: 'r' :: 'u' :: 'e' :: rest => some (.word (some true), rest)
  | 'f' :: 'a' :: 'l' :: 's' :: 'e' :: rest => some (.word (some false), rest)
  | 'n' :: 'u' :: 'l' :: 'l' :: rest => some (.word none, rest)
  | cs => number? cs

/-- The tokens of a text, after those in `done`, which is reversed. Every token takes a character,
so a text has at most as many tokens as characters: `fuel` is one more than that. -/
def allFrom : Nat → List Token → List Char → Option (List Token)
  | 0, _, _ => none
  | fuel + 1, done, cs =>
    match cs.dropWhile isSpace with
    | [] => some done.reverse
    | rest =>
      match first? rest with
      | some (token, rest) => allFrom fuel (token :: done) rest
      | none => none

def all? (cs : List Char) : Option (List Token) := allFrom (cs.length + 1) [] cs

end Token

end Doclets.Json
