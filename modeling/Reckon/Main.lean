import Reckon.CommandLine.Run

/-!
# The program

Looks up the files that the command line names, calls the program, writes the
files it changed, and prints what it has to say. There are no archive libraries here, so
that no archive can be opened.
-/

namespace Reckon.Main

/-- A location as a path from the working directory. -/
def diskPath (l : Location) : String :=
  String.ofList (Files.locationText l)

/-- What stands on the disk at a location. -/
def lookUp (l : Location) : IO (Option Entry) := do
  try
    let bytes ← IO.FS.readBinFile (diskPath l)
    return some (.file bytes.toList)
  catch
    | .inappropriateType .. => return some .directory
    | _ => return none

/-- Add what stands at every location on the way along some names. -/
def load (fs : Files) (l : Location) : List Text → IO Files
  | [] => return fs
  | name :: rest => do
    let l := Files.next l name
    if Files.isGiven l then load fs l rest
    else
      match ← lookUp l with
      | some .directory => load (fs.insert l .directory) l rest
      | some e => return fs.insert l e
      | none => return fs

/-- Write a file whose bytes differ from those it had. -/
def store (before : Files) (e : Location × Entry) : IO Unit :=
  match e.2 with
  | .file b =>
    if before.entry? e.1 = some e.2 then return ()
    else IO.FS.writeBinFile (diskPath e.1) ⟨b.toArray⟩
  | .directory => return ()

/-- Eight processors, and a directory for archives that none will be unpacked into. -/
def host : Host := .plain 8 ⟨[], [".unpacked".toList]⟩

/-- Run the program on the words of a command line. -/
def run (words : List Text) : IO CommandLine.Session := do
  let mut before := Files.nothing
  for p in CommandLine.namedPaths words do
    before ← load before (Files.start p) p.names
  let session := CommandLine.run host before words
  for e in session.files.entries do
    store before e
  return session

end Reckon.Main

def main (arguments : List String) : IO UInt32 := do
  let session ← Reckon.Main.run (arguments.map String.toList)
  IO.print (String.ofList session.ending.stdout)
  IO.eprint (String.ofList session.ending.stderr)
  return UInt32.ofNat session.ending.exitCode
