/-!
The encodings of source files. A byte order mark in front is dropped, whatever the encoding.
-/

namespace Doclets

inductive Encoding where
  | utf8
  | latin1
  deriving DecidableEq

namespace Encoding

def name : Encoding → String
  | utf8 => "utf8"
  | latin1 => "latin1"

/-- The encoding of a name, in capital or small letters. -/
def ofName? (name : String) : Option Encoding :=
  match name.toLower with
  | "utf8" | "utf-8" => some utf8
  | "latin1" | "latin-1" | "iso-8859-1" | "binary" => some latin1
  | _ => none

def withoutMark (bytes : ByteArray) : ByteArray :=
  if bytes.size ≥ 3 && bytes[0]! = 0xEF && bytes[1]! = 0xBB && bytes[2]! = 0xBF then
    bytes.extract 3 bytes.size
  else bytes

/-- The text that bytes stand for, if they stand for one. -/
def decode? (e : Encoding) (bytes : ByteArray) : Option String :=
  let bytes := withoutMark bytes
  match e with
  | utf8 => String.fromUTF8? bytes
  | latin1 => some (String.ofList (bytes.toList.map fun b => Char.ofNat b.toNat))

end Encoding

end Doclets
