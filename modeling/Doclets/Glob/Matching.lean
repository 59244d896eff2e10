import Doclets.Glob.Pattern

/-!
Matching paths against patterns, byte by byte. A token takes the places in a path that may be
reached before it to those that may be reached behind it; a place is the number of bytes in front
of it.
-/

namespace Doclets.Glob

/-- The bytes of a path. -/
abbrev Bytes := Array UInt8

def bytesOf (text : String) : Bytes := text.toUTF8.data

def slash : UInt8 := 0x2F

namespace Bytes

/-- Whether the byte behind a place satisfies `p`. -/
def nextIs (path : Bytes) (p : UInt8 → Bool) (place : Nat) : Bool := path[place]?.any p

/-- The places from the smallest of `places` on. -/
def onward (path : Bytes) (places : List Nat) : List Nat :=
  match places.min? with
  | none => []
  | some least => (List.range (path.size + 1)).filter fun place => least ≤ place

/-- The places behind the slashes that stand at the smallest of `places` or after it. -/
def behindSlashes (path : Bytes) (places : List Nat) : List Nat :=
  ((path.onward places).filter (path.nextIs (· == slash))).map (· + 1)

/-- The places one byte further on, where that byte satisfies `p`. -/
def pass (path : Bytes) (p : UInt8 → Bool) (places : List Nat) : List Nat :=
  (places.filter (path.nextIs p)).map (· + 1)

end Bytes

/-- The bytes of a class: a range of longer characters spans from the last byte of the first to the
first byte of the last. -/
def rangeBytes (range : Char × Char) : List (UInt8 × UInt8) :=
  let first := (bytesOf (String.singleton range.1)).toList
  let last := (bytesOf (String.singleton range.2)).toList
  let single := fun b : UInt8 => (b, b)
  if range.1 = range.2 then first.map single
  else
    match first.reverse, last with
    | low :: before, high :: after =>
      before.reverse.map single ++ (low, high) :: after.map single
    | _, _ => []

def inClass (negated : Bool) (ranges : List (Char × Char)) (b : UInt8) : Bool :=
  ((ranges.flatMap rangeBytes).any fun (first, last) => decide (first ≤ b ∧ b ≤ last)) != negated

mutual

/-- Whether a token stands for nothing: alternatives that are all empty. -/
def Token.isVoid : Token → Bool
  | .alternatives branches => areVoid branches
  | _ => false

/-- Whether every alternative is empty. -/
def areVoid : List (List Token) → Bool
  | [] => true
  | branch :: rest => isVoid branch && areVoid rest

/-- Whether a pattern has no tokens but void ones. -/
def isVoid : List Token → Bool
  | [] => true
  | token :: rest => token.isVoid && isVoid rest

end

mutual

/-- The places that may be reached behind a token. -/
def Token.reach (path : Bytes) (places : List Nat) : Token → List Nat
  | .literal c =>
    (bytesOf (String.singleton c)).foldl (fun places b => path.pass (· == b) places) places
  | .anyByte => path.pass (fun _ => true) places
  | .anyText => path.onward places
  | .leadingDirectories => (places ++ path.behindSlashes places).eraseDups
  | .belowDirectory => path.onward (path.pass (· == slash) places)
  | .innerDirectories =>
    match (places.filter (path.nextIs (· == slash))).min? with
    | none => []
    | some least => path.behindSlashes [least]
  | .choice negated ranges => path.pass (inClass negated ranges) places
  | .alternatives branches =>
    if areVoid branches then places else (reachAny path places branches).eraseDups

/-- The places that may be reached behind one of several alternatives; empty ones do not count. -/
def reachAny (path : Bytes) (places : List Nat) : List (List Token) → List Nat
  | [] => []
  | branch :: rest =>
    if isVoid branch then reachAny path places rest
    else reach path places branch ++ reachAny path places rest

/-- The places that may be reached behind a pattern. -/
def reach (path : Bytes) (places : List Nat) : List Token → List Nat
  | [] => places
  | token :: rest => reach path (token.reach path places) rest

end

/-! ### Names -/

def isLiteral : Token → Bool
  | .literal _ => true
  | _ => false

def isSlash : Token → Bool
  | .literal c => c = '/'
  | _ => false

def endsInDot (tokens : List Token) : Bool :=
  match tokens.getLast? with
  | some (.literal c) => c = '.'
  | _ => false

/-- Whether a pattern that ends in a dot asks for a file name or an extension rather than for an
end of the path. -/
def asksName (tokens : List Token) : Bool :=
  let (fromRoot, tail) := match tokens with
    | .leadingDirectories :: rest => (false, rest)
    | tokens => (true, tokens)
  match tail with
  | .anyText :: rest => !(rest.all isLiteral && 2 ≤ rest.length)
  | tail =>
    if tail.all isLiteral then !fromRoot && !tail.any isSlash else true

/-- Whether a pattern matches a path, all of it. Without other tokens, leading directories match
every path. A path that ends in a dot has neither a file name nor an extension. -/
def isMatch (tokens : List Token) (path : String) : Bool :=
  match tokens with
  | [.leadingDirectories] => true
  | tokens =>
    if endsInDot tokens && asksName tokens then false
    else
      let path := bytesOf path
      (reach path [0] tokens).contains path.size

end Doclets.Glob
