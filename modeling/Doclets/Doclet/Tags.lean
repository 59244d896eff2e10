import Doclets.Comment.Text
import Doclets.Doclet
import Doclets.Path

/-!
Reading a comment into a doclet. A comment is a description followed by block tags; a tag starts
on a line whose first characters are `@` and a letter. The tags that name a symbol or relate it to
others are interpreted, and every other tag is kept as it is.
-/

namespace Doclets

/-- A comment taken apart. -/
structure ParsedComment where
  description : Option String
  tags : List Tag
  deriving DecidableEq

namespace ParsedComment

/-- The title of the tag that a line starts, and the text behind it. -/
def tagLine? (line : List Char) : Option (List Char × List Char) :=
  match Text.trimStart line with
  | '@' :: c :: rest =>
    if c.isAlpha then
      let title := (c :: rest).takeWhile fun c => !Text.isBlank c
      let value := (c :: rest).dropWhile fun c => !Text.isBlank c
      some (title, Text.trim value)
    else none
  | _ => none

/-- The lines in front of the first tag, and each tag with its lines. -/
def sections : List (List Char) → List (List Char) × List (List Char × List (List Char))
  | [] => ([], [])
  | line :: rest =>
    let (front, tags) := sections rest
    match tagLine? line with
    | some (title, first) => ([], (title, first :: front) :: tags)
    | none => (line :: front, tags)

def trimmedLines (lines : List (List Char)) : String :=
  String.ofList (Text.trim (Text.joinLines lines))

/-- Takes the content of a comment apart. -/
def ofContent (content : List Char) : ParsedComment :=
  let (front, tags) := sections (Text.lines content)
  let description := trimmedLines front
  { description := if description.isEmpty then none else some description
    tags := tags.map fun (title, lines) => ⟨String.ofList title, trimmedLines lines⟩ }

/-- Takes a written comment apart. -/
def ofRaw (raw : String) : ParsedComment := ofContent (Comment.content raw.toList)

end ParsedComment

namespace Doclet

/-- The names of a union of types: what stands between bars, without the parentheses around the
whole. -/
def unionNames? (text : String) : Option (List String) :=
  let opened := (Text.trim text.toList).dropWhile fun c => c = '('
  let inner := Text.dropEndWhile (fun c => c = ')') opened
  let names := ((Text.splitAt '|' inner).map Text.trim).filter fun name => !name.isEmpty
  if names.isEmpty then none else some (names.map String.ofList)

/-- Cuts a text behind the brace that closes the last of `depth + 1` open ones. -/
def closingBrace? (depth : Nat) : List Char → Option (List Char × List Char)
  | [] => none
  | c :: rest =>
    if c = '\x7b' then (closingBrace? (depth + 1) rest).map fun (inner, after) => (c :: inner, after)
    else if c = '\x7d' then
      match depth with
      | 0 => some ([], rest)
      | depth + 1 => (closingBrace? depth rest).map fun (inner, after) => (c :: inner, after)
    else (closingBrace? depth rest).map fun (inner, after) => (c :: inner, after)

/-- Takes a type in braces off the front of a value. A brace that is never closed begins no
type. -/
def splitType (value : String) : Option (List String) × String :=
  match Text.trim value.toList with
  | '\x7b' :: rest =>
    match closingBrace? 0 rest with
    | some (inner, after) =>
      (unionNames? (String.ofList inner), String.ofList (Text.trim after))
    | none => (none, String.ofList ('\x7b' :: rest))
  | cs => (none, String.ofList cs)

/-- A name in braces or a bare one. -/
def typeOrWord? (value : String) : Option String :=
  match splitType value with
  | (some names, _) => names.head?
  | (none, rest) => Text.firstWord? rest

/-- `source`, or `source as newName`. -/
def borrow? (value : String) : Option Borrow :=
  match (Text.words value.toList).map String.ofList with
  | [] => none
  | source :: "as" :: newName :: _ => some ⟨source, some newName⟩
  | source :: _ => some ⟨source, none⟩

/-- The longname of a module; one that is not named has the name of its file. -/
def moduleName (value file : String) : String :=
  let name := (Text.firstWord? (splitType value).2).getD (Path.fileStem file)
  if Longname.isModule name then name else Longname.moduleMark ++ name

def withName (d : Doclet) (name : Option String) : Doclet :=
  if name.isSome then { d with name := name } else d

/-- The types of a value, which replace those there are if it has any. -/
def withTypes (d : Doclet) (names : Option (List String)) : Doclet :=
  if names.isSome then { d with typeNames := names } else d

/-- A tag for a kind may hold a type and a name. -/
def withKind (d : Doclet) (kind : DocletKind) (value : String) : Doclet :=
  let (names, rest) := splitType value
  (({ d with kind := some kind } : Doclet).withTypes names).withName (Text.firstWord? rest)

/-- Adds to a list what is not in it. -/
def addOnce (items : List String) : Option String → List String
  | some item => if items.contains item then items else items ++ [item]
  | none => items

/-- The kind that a tag of this title gives. -/
def kindOfTitle? : String → Option DocletKind
  | "class" | "constructor" => some .class
  | "function" | "func" | "method" => some .function
  | "member" | "var" => some .member
  | "constant" | "const" => some .constant
  | "namespace" => some .namespace
  | "interface" => some .interface
  | "typedef" => some .typedef
  | "event" => some .event
  | "external" | "host" => some .external
  | "mixin" => some .mixin
  | _ => none

def applyTag (d : Doclet) (tag : Tag) : Doclet :=
  match kindOfTitle? tag.title with
  | some kind => d.withKind kind tag.value
  | none =>
    match tag.title with
    | "name" => d.withName (Text.firstWord? tag.value)
    | "kind" => { d with kind := DocletKind.ofName? (Text.trimmed tag.value) }
    | "module" =>
      { d with kind := some .module, name := some (moduleName tag.value d.origin.file) }
    | "memberof" | "memberof!" =>
      match Text.firstWord? tag.value with
      | some parent => d.withMemberof parent
      | none => d
    | "this" => { d with thisName := Text.firstWord? tag.value }
    | "borrows" =>
      match borrow? tag.value with
      | some borrow => { d with borrowed := some (d.borrowed.getD [] ++ [borrow]) }
      | none => d
    | "augments" | "extends" =>
      match typeOrWord? tag.value with
      | some parent => d.augment parent
      | none => d
    | "mixes" => { d with mixes := addOnce d.mixes (Text.firstWord? tag.value) }
    | "implements" => { d with implements := addOnce d.implements (typeOrWord? tag.value) }
    | "enum" =>
      ({ d with isEnum := true, kind := some (d.kind.getD .member) } : Doclet).withTypes
        (splitType tag.value).1
    | "type" => { d with typeNames := (splitType tag.value).1 }
    | "instance" => { d with scope := some .perInstance }
    | "static" => { d with scope := some .static }
    | "inner" => { d with scope := some .inner }
    | "global" => { d with scope := some .global }
    | "description" | "desc" =>
      { d with description := if tag.value.isEmpty then none else some tag.value }
    | _ => { d with tags := d.tags ++ [tag] }

/-- The doclet of a written comment; a blank one makes a doclet without documentation. -/
def ofComment (raw : String) (origin : Origin) : Doclet :=
  let d := { empty with origin := origin }
  if (Text.trim raw.toList).isEmpty then { d with undocumented := true }
  else
    let parsed := ParsedComment.ofRaw raw
    parsed.tags.foldl applyTag { d with comment := raw, description := parsed.description }

end Doclet

end Doclets
