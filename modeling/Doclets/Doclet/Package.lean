import Doclets.Doclet

/-!
The doclet of the package that is documented, from its manifest.
-/

namespace Doclets.Doclet

open Json (Value)

/-- A text of the manifest; an empty one counts as missing. -/
def manifestText? (manifest : Value) (key : String) : Option String :=
  ((manifest.get? key).bind Value.str?).filter fun text => !text.isEmpty

def manifestItems (manifest : Value) (key : String) : List Value :=
  ((manifest.get? key).bind Value.items?).getD []

/-- The licenses of a package: one under `license`, or a list under `licenses`, whose entries are
names or objects with a `type`. -/
def manifestLicenses (manifest : Value) : List String :=
  match manifestText? manifest "license" with
  | some license => [license]
  | none =>
    (manifestItems manifest "licenses").filterMap fun entry =>
      entry.str?.or ((entry.get? "type").bind Value.str?)

/-- The doclet of a package. A manifest that is no object makes an unnamed one. -/
def ofManifest (manifest : Value) (files : List String) : Doclet :=
  let name := manifestText? manifest "name"
  { empty with
    longname := Longname.packageMark ++ name.getD ""
    name := name
    kind := some .package
    description := manifestText? manifest "description"
    package := some
      { version := manifestText? manifest "version"
        licenses := manifestLicenses manifest
        homepage := manifestText? manifest "homepage"
        keywords := (manifestItems manifest "keywords").filterMap Value.str?
        files := files } }

end Doclets.Doclet
