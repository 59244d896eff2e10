import Doclets.Json.Token
import Doclets.Json.Value

/-!
Reading JSON text. Tokens are taken one by one; the arrays and objects that are still open wait in
a list of frames, so a text may nest as deeply as it likes.
-/

namespace Doclets.Json

/-- An array or object that is still open. Items are kept reversed. -/
inductive Frame where
  | arr (items : List Value)
  | obj (members : List (String × Value))
  | member (members : List (String × Value)) (key : String)

/-- What the next token has to be. -/
inductive Need where
  | value
  | itemOrClose
  | keyOrClose
  | key
  | colon
  | commaOrClose
  | nothing (value : Value)

structure Reader where
  frames : List Frame
  need : Need

/-- What a reader does with what JSON leaves open. -/
structure Policy where
  /-- How a member joins the members in front of it. -/
  join : String → Value → List (String × Value) → List (String × Value)
  /-- What stands for a string or number without a value; none if that is refused. -/
  void : Option Value
  /-- The arrays and objects that may be open at once, if there is a bound. -/
  limit : Option Nat

/-- Of two members with one key the later value counts, in the place of the earlier. -/
def Policy.plain : Policy := ⟨Ledger.insert, none, none⟩

namespace Reader

variable (p : Policy)

/-- Hands a finished value to the frame that waits for it. -/
def deliver (v : Value) : List Frame → Option Reader
  | [] => some ⟨[], .nothing v⟩
  | .arr items :: rest => some ⟨.arr (v :: items) :: rest, .commaOrClose⟩
  | .member members key :: rest => some ⟨.obj (p.join key v members) :: rest, .commaOrClose⟩
  | .obj _ :: _ => none

/-- Opens an array or object, within the limit. -/
def open? (frame : Frame) (need : Need) (frames : List Frame) : Option Reader :=
  if p.limit.all fun limit => frames.length < limit then some ⟨frame :: frames, need⟩ else none

def close? : List Frame → Token → Option Reader
  | .arr items :: rest, .closeArray => deliver p (.arr items.reverse) rest
  | .obj members :: rest, .closeObject => deliver p (.obj members) rest
  | _, _ => none

def begin? (frames : List Frame) : Token → Option Reader
  | .openArray => open? p (.arr []) .itemOrClose frames
  | .openObject => open? p (.obj []) .keyOrClose frames
  | .text s => deliver p (.str s) frames
  | .integer n => deliver p (.int n) frames
  | .double x => deliver p (.float x) frames
  | .word none => deliver p .null frames
  | .word (some b) => deliver p (.bool b) frames
  | .void => p.void.bind fun v => deliver p v frames
  | _ => none

def key? : List Frame → Token → Option Reader
  | .obj members :: rest, .text key => some ⟨.member members key :: rest, .colon⟩
  | _, _ => none

def step (r : Reader) (token : Token) : Option Reader :=
  match r.need with
  | .value => begin? p r.frames token
  | .itemOrClose => (close? p r.frames token).or (begin? p r.frames token)
  | .keyOrClose => (close? p r.frames token).or (key? r.frames token)
  | .key => key? r.frames token
  | .colon =>
    match token with
    | .colon => some ⟨r.frames, .value⟩
    | _ => none
  | .commaOrClose =>
    match token, r.frames with
    | .comma, .arr _ :: _ => some ⟨r.frames, .value⟩
    | .comma, .obj _ :: _ => some ⟨r.frames, .key⟩
    | token, frames => close? p frames token
  | .nothing _ => none

def run : Reader → List Token → Option Reader
  | r, [] => some r
  | r, token :: rest =>
    match r.step p token with
    | some next => run next rest
    | none => none

end Reader

/-- The value that a text holds, with nothing but space around it. -/
def Value.read? (p : Policy) (text : String) : Option Value := do
  let tokens ← Token.all? text.toList
  match ← Reader.run p ⟨[], .value⟩ tokens with
  | ⟨_, .nothing v⟩ => some v
  | _ => none

def Value.ofText? (text : String) : Option Value := Value.read? .plain text

end Doclets.Json
