import Montage.Project.Reader

/-!
# The command line

Three commands: `generate` runs the pass of a project and writes the document, `validate` reports
the references that a project does not define, `resolve` resolves the references in a value. A
command is a function of its arguments and of the texts of the files they name.
-/

namespace Montage.CommandLine

/-! ## Arguments -/

/-- A command with its arguments. -/
inductive Command
  | generate (project : String) (out : Option String) (strict : Bool)
  | validate (project : String)
  | resolve (value refs : String) (flexible : Bool)
  deriving DecidableEq, Repr

/-- The arguments that a command takes: options with a value, and flags. -/
structure Options where
  values : List String
  flags : List String

/-- Arguments read so far: the values of options, and the flags. -/
structure Given where
  values : List (String × String) := []
  flags : List String := []

namespace Given

/-- A flag, which may be given once. -/
def addFlag (g : Given) (name : String) : Option Given :=
  if g.flags.contains name then none else some { g with flags := g.flags ++ [name] }

/-- An option with its value, which may be given once. -/
def addValue (g : Given) (name value : String) : Option Given :=
  if Fields.hasKey g.values name then none
  else some { g with values := g.values ++ [(name, value)] }

def value? (g : Given) (name : String) : Option String := Fields.get? g.values name

def has (g : Given) (name : String) : Bool := g.flags.contains name

end Given

/-- Whether a word can be the value of an option: it does not look like another option. -/
def isValue (word : String) : Bool := !word.startsWith "-" || word == "-"

/-- Reads arguments; `none` where one of them is not known, is given twice or lacks its value. -/
def readArguments (options : Options) : Given → List String → Option Given
  | g, [] => some g
  | g, [word] =>
    if options.flags.contains word then g.addFlag word else none
  | g, word :: value :: rest =>
    if options.flags.contains word then
      (g.addFlag word).bind fun g => readArguments options g (value :: rest)
    else if options.values.contains word && isValue value then
      (g.addValue word value).bind fun g => readArguments options g rest
    else none

/-- What asks for a report of what is done; every command takes it. -/
def verboseFlags : List String := ["-v", "--verbose"]

def parse : List String → Option Command
  | "generate" :: words => do
    let g ← readArguments ⟨["--in", "--out"], "--strict" :: verboseFlags⟩ {} words
    return .generate (← g.value? "--in") (g.value? "--out") (g.has "--strict")
  | "validate" :: words => do
    let g ← readArguments ⟨["--in"], verboseFlags⟩ {} words
    return .validate (← g.value? "--in")
  | "resolve" :: words => do
    let g ← readArguments ⟨["--value", "--refs"], "--flexible" :: verboseFlags⟩ {} words
    return .resolve (← g.value? "--value") (← g.value? "--refs") (g.has "--flexible")
  | word :: words => if verboseFlags.contains word then parse words else none
  | [] => none

def Command.inputs : Command → List String
  | .generate project _ _ => [project]
  | .validate project => [project]
  | .resolve value refs _ => [value, refs]

/-! ## Results -/

/-- What a command does: its exit code, its output, its warnings, the text of an error, and a file
that it writes. -/
structure Result where
  exitCode : UInt32
  output : String := ""
  warnings : List String := []
  error : Option String := none
  file : Option (String × String) := none

namespace Result

def failed (why : String) : Result := { exitCode := 1, error := some why }

/-- Arguments that are no command. -/
def rejected : Result := { exitCode := 2, error := some "unknown command or arguments" }

def errorLines (r : Result) : List String :=
  r.warnings.map ("warning: " ++ ·) ++ r.error.toList.map ("Error: " ++ ·)

end Result

/-! ## Commands -/

/-- The texts of files by path; `none` where there is no such file. -/
abbrev Files := String → Option String

def loadProject (files : Files) (path : String) : Except String Project :=
  match files path with
  | none => .error ("open project '" ++ path ++ "'")
  | some text =>
    match Project.ofText? text with
    | some p => .ok p
    | none => .error "parse project JSON"

/-- A value as it is written out, on lines of its own. -/
def written (v : Json) : String := v.pretty ++ "\n"

/-- Runs the pass of a project and writes the document. -/
def generate (files : Files) (path : String) (out : Option String) (strict : Bool) : Result :=
  match loadProject files path with
  | .error why => .failed why
  | .ok p =>
    match p.baseDocument.validate *> p.generate strict with
    | .error f => .failed f.message
    | .ok report =>
      let text := written report.document.toJson
      let warnings := report.notes.map Diagnostic.display
      match out with
      | none => { exitCode := 0, output := text, warnings }
      | some out => { exitCode := 0, file := some (out, text), warnings }

def missingLine (m : Missing) : String :=
  "entries[" ++ toString m.index ++ "] (" ++ m.presetId ++ "): missing " ++
    ", ".intercalate m.keys ++ "\n"

/-- Reports the references that a project does not define. -/
def validate (files : Files) (path : String) : Result :=
  match loadProject files path with
  | .error why => .failed why
  | .ok p =>
    match p.validate with
    | .error f => .failed f.message
    | .ok () =>
      match p.missingReferences with
      | [] =>
        { exitCode := 0
          output := "ok: " ++ toString p.entries.length ++ " entries, all references defined\n" }
      | missing => { exitCode := 1, output := String.join (missing.map missingLine) }

def resolve (files : Files) (value refs : String) (flexible : Bool) : Result :=
  match (files value).bind Json.read, (files refs).bind Reference.Pool.ofText? with
  | some v, some pool =>
    let r := if flexible then Reference.resolveFlexible pool v else Reference.resolve pool v
    { exitCode := 0, output := written r.value, warnings := r.notes.map Diagnostic.display }
  | none, _ => .failed "parse value JSON"
  | _, none => .failed "parse references JSON"

/-- Runs a command on files. -/
def Command.run (files : Files) : Command → Result
  | .generate project out strict => CommandLine.generate files project out strict
  | .validate project => CommandLine.validate files project
  | .resolve value refs flexible => CommandLine.resolve files value refs flexible

/-- Runs the command that words name on files. -/
def run (files : Files) (words : List String) : Result :=
  match parse words with
  | some command => command.run files
  | none => .rejected

end Montage.CommandLine
