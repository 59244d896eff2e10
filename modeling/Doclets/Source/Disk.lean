import Doclets.Ledger
import Doclets.Path

/-!
Files and directories as a value. Paths are followed component by component: an empty component or
a dot stays where it is, which has to be a directory, and two dots go back.
-/

namespace Doclets

inductive Entry where
  | file (bytes : ByteArray)
  | directory (entries : List (String × Entry))

/-- Why a path leads to no file contents. -/
inductive ReadFailure where
  | notFound
  | notADirectory
  | isADirectory
  | nameTooLong
  | nulByte
  deriving DecidableEq

def ReadFailure.message : ReadFailure → String
  | notFound => "No such file or directory (os error 2)"
  | notADirectory => "Not a directory (os error 20)"
  | isADirectory => "Is a directory (os error 21)"
  | nameTooLong => "File name too long (os error 36)"
  | nulByte => "file name contained an unexpected NUL byte"

/-- Why a path leads to no text. -/
inductive TextFailure where
  | unreadable (failure : ReadFailure)
  | notUtf8
  deriving DecidableEq

def TextFailure.message : TextFailure → String
  | unreadable failure => failure.message
  | notUtf8 => "stream did not contain valid UTF-8"

/-- The entries below the root, and the directory that relative paths start from. -/
structure Disk where
  root : Entry
  directory : String

namespace Entry

/-- The entries of a directory; a file has none. -/
def entries : Entry → List (String × Entry)
  | .directory entries => entries
  | .file _ => []

/-- Puts an entry where names lead to, through directories that are made on the way. -/
def put (there : Entry) : List String → Entry → Entry
  | [], entry => entry
  | name :: rest, entry =>
    let below := (Ledger.get? name there.entries).getD (.directory [])
    .directory (Ledger.insert name (put below rest entry) there.entries)

end Entry

namespace Disk

def maxName : Nat := 255

/-- Follows components from the last of a chain of entries, which is given reversed. -/
def follow : List Entry → List String → Except ReadFailure Entry
  | [], _ => .error .notFound
  | here :: _, [] => .ok here
  | here :: above, name :: rest =>
    match here with
    | .file _ => .error .notADirectory
    | .directory entries =>
      if name = "" || name = "." then follow (here :: above) rest
      else if name = ".." then
        match above with
        | [] => follow [here] rest
        | _ => follow above rest
      else if maxName < name.utf8ByteSize then .error .nameTooLong
      else
        match Ledger.get? name entries with
        | some entry => follow (entry :: here :: above) rest
        | none => .error .notFound

/-- The entry that a path leads to. -/
def find (d : Disk) (path : String) : Except ReadFailure Entry :=
  if path = "" then .error .notFound
  else if path.toList.contains '\x00' then .error .nulByte
  else if 4096 ≤ path.utf8ByteSize then .error .nameTooLong
  else
    follow [d.root] ((Text.splitAt '/' (Path.join d.directory path).toList).map String.ofList)

/-- The bytes of the file that a path leads to. -/
def read (d : Disk) (path : String) : Except ReadFailure ByteArray :=
  match d.find path with
  | .ok (.file bytes) => .ok bytes
  | .ok (.directory _) => .error .isADirectory
  | .error failure => .error failure

/-- The text of the file that a path leads to. -/
def text (d : Disk) (path : String) : Except TextFailure String :=
  match d.read path with
  | .error failure => .error (.unreadable failure)
  | .ok bytes =>
    match String.fromUTF8? bytes with
    | some text => .ok text
    | none => .error .notUtf8

def isFile (d : Disk) (path : String) : Bool :=
  match d.find path with
  | .ok (.file _) => true
  | _ => false

def isDirectory (d : Disk) (path : String) : Bool :=
  match d.find path with
  | .ok (.directory _) => true
  | _ => false

/-- The names that lead from the root to where a path leads, once two dots are followed back. -/
def address (d : Disk) (path : String) : List String :=
  (((Path.components (Path.join d.directory path)).drop 1).foldl
    (fun names name => if name = ".." then names.drop 1 else name :: names) []).reverse

/-- Writes a file into a directory that is there. -/
def write (d : Disk) (path : String) (bytes : ByteArray) : Except ReadFailure Disk :=
  let put := { d with root := d.root.put (d.address path) (.file bytes) }
  match d.find path with
  | .ok (.file _) => .ok put
  | .ok (.directory _) => .error .isADirectory
  | .error .notFound =>
    if !Path.endsInName path then .error .isADirectory
    else if d.isDirectory ((Path.parent? (Path.join d.directory path)).getD "/") then .ok put
    else .error .notFound
  | .error failure => .error failure

/-- Makes a directory and those around it, where they are missing. The second argument bounds the
directories that are looked at; a path has no more of them than characters. -/
def makeWithin (d : Disk) : Nat → String → Except ReadFailure Disk
  | 0, _ => .ok d
  | fuel + 1, path =>
    match d.find path with
    | .ok (.directory _) => .ok d
    | .ok (.file _) => .error .notADirectory
    | .error .notFound =>
      match Path.parent? path with
      | none => .error .notFound
      | some parent =>
        match if parent = "" then .ok d else d.makeWithin fuel parent with
        | .error failure => .error failure
        | .ok d =>
          if d.isDirectory path then .ok d
          else .ok { d with root := d.root.put (d.address path) (.directory []) }
    | .error failure => .error failure

def makeDirectory (d : Disk) (path : String) : Except ReadFailure Disk :=
  d.makeWithin (path.length + 1) path

end Disk

end Doclets
