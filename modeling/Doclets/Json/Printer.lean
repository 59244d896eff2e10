import Doclets.Decimal.Shortest
import Doclets.Json.Value

/-!
Writing JSON: on one line without spaces, or indented by two spaces a level.
-/

namespace Doclets.Json

def hexChar (n : Nat) : Char := if n < 10 then Char.ofNat (48 + n) else Char.ofNat (87 + n)

/-- A character of a string as it is written: quotes, backslashes and control characters are
escaped, everything else stands for itself. -/
def escapeChar (c : Char) : List Char :=
  match c with
  | '"' => ['\\', '"']
  | '\\' => ['\\', '\\']
  | '\x08' => ['\\', 'b']
  | '\x0c' => ['\\', 'f']
  | '\n' => ['\\', 'n']
  | '\r' => ['\\', 'r']
  | '\t' => ['\\', 't']
  | c =>
    if c.toNat < 0x20 then ['\\', 'u', '0', '0', hexChar (c.toNat / 16), hexChar (c.toNat % 16)]
    else [c]

/-- A text as a JSON string. -/
def quote (text : String) : String :=
  String.ofList ('"' :: (text.toList.flatMap escapeChar ++ ['"']))

/-- A double is written in positional notation from `1e-5` up to below `1e16`, always with a
point, and otherwise with an exponent. -/
def floatText (x : Float) : String :=
  if !x.isFinite then "null"
  else
    let s := Decimal.shortest x
    if s.digits = 0 then Decimal.signText s.negative ++ "0.0"
    else
      let digits := toString s.digits
      let point : Int := digits.length + s.exponent
      if 0 ≤ s.exponent ∧ point ≤ 16 then s.plain ++ ".0"
      else if -5 < point ∧ point ≤ 16 then s.plain
      else
        let mantissa := match digits.toList with
          | [] => ""
          | [d] => String.ofList [d]
          | d :: ds => String.ofList (d :: '.' :: ds)
        Decimal.signText s.negative ++ mantissa ++ "e" ++ toString (point - 1)

def scalarText : Value → String
  | .null => "null"
  | .bool b => if b then "true" else "false"
  | .int n => toString n
  | .float x => floatText x
  | .str s => quote s
  | .arr _ => "[]"
  | .obj _ => "\x7b\x7d"

mutual

/-- Writes a value without spaces after the text `out`. -/
def writeCompact (out : String) : Value → String
  | .arr items => writeItems (out.push '[') true items ++ "]"
  | .obj members => writeMembers (out.push '\x7b') true members ++ "\x7d"
  | v => out ++ scalarText v

def writeItems (out : String) (first : Bool) : List Value → String
  | [] => out
  | v :: rest => writeItems (writeCompact (if first then out else out.push ',') v) false rest

def writeMembers (out : String) (first : Bool) : List (String × Value) → String
  | [] => out
  | (key, v) :: rest =>
    let out := if first then out else out.push ','
    writeMembers (writeCompact (out ++ quote key ++ ":") v) false rest

end

def Value.compact (v : Value) : String := writeCompact "" v

/-- A new line at a depth of nesting. -/
def newLine (depth : Nat) : String := "\n" ++ String.ofList (List.replicate (2 * depth) ' ')

mutual

/-- Writes a value at a depth of nesting after the text `out`, an item or member a line. -/
def writePretty (depth : Nat) (out : String) : Value → String
  | .arr [] => out ++ "[]"
  | .obj [] => out ++ "\x7b\x7d"
  | .arr items => prettyItems (depth + 1) (out.push '[') true items ++ newLine depth ++ "]"
  | .obj members =>
    prettyMembers (depth + 1) (out.push '\x7b') true members ++ newLine depth ++ "\x7d"
  | v => out ++ scalarText v

def prettyItems (depth : Nat) (out : String) (first : Bool) : List Value → String
  | [] => out
  | v :: rest =>
    let out := (if first then out else out.push ',') ++ newLine depth
    prettyItems depth (writePretty depth out v) false rest

def prettyMembers (depth : Nat) (out : String) (first : Bool) : List (String × Value) → String
  | [] => out
  | (key, v) :: rest =>
    let out := (if first then out else out.push ',') ++ newLine depth
    prettyMembers depth (writePretty depth (out ++ quote key ++ ": ") v) false rest

end

def Value.pretty (v : Value) : String := writePretty 0 "" v

end Doclets.Json
