import Doclets.CommandLine.Invocation

/-!
The program itself. It reads the files that an invocation may ask for, and shows what the
invocation comes to.
-/

namespace Doclets.Program

def usage : String := "Usage: doclets [OPTIONS] [FILES]..."

/-- Adds to a disk what is at a path, with the contents of directories down to `depth`. -/
def load : Nat → Disk → String → IO Disk
  | depth, d, path => do
    let place := (← IO.currentDir) / path
    if ← place.isDir then
      let d := (d.makeDirectory path).toOption.getD d
      match depth with
      | 0 => return d
      | depth + 1 =>
        (← place.readDir).foldlM (fun d found => load depth d (Path.join path found.fileName)) d
    else if ← place.pathExists then
      return { d with root := d.root.put (d.address path) (.file (← IO.FS.readBinFile place)) }
    else return d

/-- Writes the output to a file, or else to the terminal. -/
def deliver (path : Option String) (text : String) : IO Unit := do
  match path with
  | none => IO.println text
  | some path =>
    match Path.parent? path with
    | some "" | none => pure ()
    | some parent => IO.FS.createDirAll parent
    IO.FS.writeFile path text

/-- The exit status of an invocation. -/
def invoke (arguments : Arguments) : IO UInt32 := do
  let directory := toString (← IO.currentDir)
  let disk ← (arguments.setting? .configure).toList.foldlM (load 0) ⟨.directory [], directory⟩
  match Settings.load disk arguments with
  | .error e => fail e
  | .ok settings =>
    let disk ← settings.source.paths.foldlM (load settings.scanDepth) disk
    let others := settings.output.package.toList ++ settings.output.destination.toList
    let disk ← others.foldlM (load 0) disk
    match settings.run disk with
    | .error e => fail e
    | .ok outcome =>
      match settings.write disk outcome with
      | .error e => fail e
      | .ok _ =>
        deliver (settings.outputPath? disk) outcome.text
        report settings arguments outcome.diagnostics
where
  fail (e : InvocationError) : IO UInt32 := do
    IO.eprintln ("Error: " ++ e.message)
    return 1
  report (settings : Settings) (arguments : Arguments) (ds : List Diagnostic) : IO UInt32 := do
    let color := !arguments.isOn .noColor && (← (← IO.getStderr).isTty)
    if !ds.isEmpty then IO.eprintln (Report.text color ds)
    (Report.summary color ds).forM IO.eprintln
    return (Report.exitStatus settings.output.pedantic ds).toUInt32

end Doclets.Program

open Doclets in
def main (arguments : List String) : IO UInt32 := do
  match Arguments.ofList arguments with
  | .ok arguments => Program.invoke arguments
  | .error .helpWanted =>
    IO.println Program.usage
    return 0
  | .error .versionWanted =>
    IO.println "doclets 0.1.0"
    return 0
  | .error _ =>
    IO.eprintln Program.usage
    return 2
