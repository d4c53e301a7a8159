import Montage.CommandLine

/-!
# The program

Reads the files that the arguments name, runs the command on them, and writes what it yields.
-/

namespace Montage

open CommandLine

/-- The text of a file, if it can be read. -/
def readFile? (path : String) : IO (Option String) :=
  try some <$> IO.FS.readFile path
  catch _ => return none

def readFiles : List String → IO Files
  | [] => return fun _ => none
  | path :: rest => do
    let text ← readFile? path
    let others ← readFiles rest
    return fun p => if p = path then text else others p

/-- Writes a file, and makes the directories it stands in. -/
def writeFile (path text : String) : IO Unit := do
  let parts := path.splitOn "/"
  let directory := "/".intercalate parts.dropLast
  unless directory.isEmpty do IO.FS.createDirAll directory
  IO.FS.writeFile path text

def perform (r : Result) : IO UInt32 := do
  for line in r.errorLines do IO.eprintln line
  match r.file with
  | some (path, text) => writeFile path text
  | none => pure ()
  IO.print r.output
  return r.exitCode

end Montage

def main (words : List String) : IO UInt32 := do
  let files ←
    match Montage.CommandLine.parse words with
    | some command => Montage.readFiles command.inputs
    | none => pure fun _ => none
  Montage.perform (Montage.CommandLine.run files words)
