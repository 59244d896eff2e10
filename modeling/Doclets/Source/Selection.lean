import Doclets.Glob.Matching
import Doclets.Source.Disk

/-!
Which files are units. Paths are given one by one: a file is taken as it is, and a directory is
walked through, in the order of names. A file has to pass the filter either way.
-/

namespace Doclets

/-- What is said about the sources: where they are, and which of the files there count. -/
structure SourceRules where
  paths : List String
  /-- Files, and directories with everything below, that never count. -/
  exclude : List String
  includePattern : Option String
  excludePattern : Option String

/-- A text that was meant as a pattern and is none. -/
structure InvalidPattern where
  text : String
  deriving DecidableEq

def InvalidPattern.message (e : InvalidPattern) : String :=
  "invalid glob pattern '" ++ e.text ++ "'"

/-- Decides whether a file counts. -/
structure Selection where
  included : Option (List Glob.Token)
  excluded : Option (List Glob.Token)
  excludedPaths : List String

namespace Selection

def pattern? : Option String → Except InvalidPattern (Option (List Glob.Token))
  | none => .ok none
  | some text =>
    match Glob.ofText text with
    | .ok tokens => .ok (some tokens)
    | .error _ => .error ⟨text⟩

/-- The filter of the rules; relative paths start from `directory`. -/
def ofRules (rules : SourceRules) (directory : String) : Except InvalidPattern Selection := do
  let included ← pattern? rules.includePattern
  let excluded ← pattern? rules.excludePattern
  return ⟨included, excluded, rules.exclude.map (Path.join directory)⟩

/-- The path with its backslashes turned into slashes, as patterns see it. -/
def normalized (path : String) : String := path.map fun c => if c = '\\' then '/' else c

/-- Whether a file counts. -/
def admits (s : Selection) (path : String) : Bool :=
  let seen := normalized path
  !(s.excludedPaths.any (Path.startsWith path)) &&
    s.included.all (Glob.isMatch · seen) && !s.excluded.any (Glob.isMatch · seen)

end Selection

/-- The files below a directory that is found at `path`, in the order of names, down to `depth`
directories. -/
def Entry.filesBelow : Nat → String → Entry → List String
  | 0, _, _ => []
  | depth + 1, path, there =>
    (there.entries.mergeSort fun a b => decide (a.1 ≤ b.1)).flatMap fun (name, entry) =>
      match entry with
      | .file _ => [Path.join path name]
      | .directory _ => entry.filesBelow depth (Path.join path name)

namespace Disk

/-- The files that a path stands for. -/
def filesAt (d : Disk) (depth : Nat) (path : String) : List String :=
  match d.find path with
  | .ok (.file _) => [path]
  | .ok there => there.filesBelow depth path
  | .error _ => []

/-- Adds to a list of paths those that lead elsewhere than the paths there are. -/
def addNew (found : List String) (path : String) : List String :=
  if found.any fun other => Path.components other = Path.components path then found
  else found ++ [path]

/-- The files that paths stand for and that count, each in its first place. -/
def select (d : Disk) (selection : Selection) (depth : Nat) (paths : List String) : List String :=
  ((paths.flatMap fun path => d.filesAt depth (Path.join d.directory path)).filter
    selection.admits).foldl addNew []

end Disk

end Doclets
