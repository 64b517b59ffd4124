import GraphSchema.Validate.Arguments
import GraphSchema.Validate.LogLevel
import GraphSchema.Validate.Report

/-!
# The command line

The program reads its arguments, looks at the files they name and prints what the command gives. All
decisions are made elsewhere; here directories are listed, files are read and texts are printed.
-/

namespace GraphSchema

/-- What the program says about its use. -/
def usage : String :=
  "Validates graphdef schema files.\n\n" ++
  "Usage: graphdef [OPTIONS] [COMMAND]\n\n" ++
  "Commands:\n" ++
  "  validate  Parse and validate graphdef schema files\n" ++
  "  help      Print this message\n\n" ++
  "Options:\n" ++
  "  -v, --verbose  Enable verbose output\n" ++
  "  -h, --help     Print help\n" ++
  "  -V, --version  Print version"

/-- What the program says about itself. -/
def version : String := "graphdef 0.0.1"

/-- What is wrong with the arguments. -/
def ArgumentRefusal.message : ArgumentRefusal → String
  | displayHelp => usage
  | displayVersion => version
  | missingRequiredArgument => "error: no paths were given"
  | unknownArgument => "error: unexpected argument found"
  | invalidSubcommand => "error: unrecognized subcommand"
  | argumentConflict => "error: an argument cannot be used multiple times"
  | invalidValue => "error: a value is required but none was supplied"
  | tooManyValues => "error: an unexpected value was found"

/-- Does the program fail when it refuses its arguments? -/
def ArgumentRefusal.isError : ArgumentRefusal → Bool
  | displayHelp | displayVersion => false
  | _ => true

/-- The reason why a path leads nowhere. -/
def reasonOf (error : IO.Error) : String :=
  match error with
  | .noFileOrDirectory .. => PathError.notFound.message
  | .inappropriateType .. => PathError.notDirectory.message
  | .invalidArgument _ 36 _ => PathError.nameTooLong.message
  | other => toString other

/-- Is there a directory at a path? -/
def isDirectory (path : Path) : IO Bool := do
  let real ← IO.FS.realPath path.text
  real.isDir

/-- The full path of a file. -/
def located (path : Path) : IO FoundFile := do
  let real ← IO.FS.realPath path.text
  pure ⟨path, ⟨real.toString⟩⟩

/-- The files under a directory, or the first failure of a walk from `start`. -/
partial def filesUnder (start directory : Path) : IO (Except ValidateFailure (List FoundFile)) := do
  match directory.refused? with
  | some reason => pure (.error (.walk start directory reason.message))
  | none =>
    let real ← IO.FS.realPath directory.text
    let mut found := []
    for entry in ← real.readDir do
      let path := directory.join entry.fileName
      if ← isDirectory path then
        match ← filesUnder start path with
        | .ok files => found := found ++ files
        | .error failure => return .error failure
      else found := found ++ [← located path]
    pure (.ok found)

/-- What lies at or under a path, or why the path leads nowhere. -/
def reach (path : Path) : IO (Except ValidateFailure Reached) := do
  match path.refused? with
  | some reason => pure (.error (.walk path path reason.message))
  | none =>
    try
      if ← isDirectory path then
        match ← filesUnder path path with
        | .ok files => pure (.ok (.directory files))
        | .error failure => pure (.error failure)
      else pure (.ok (.file (← located path)))
    catch error => pure (.error (.walk path path (reasonOf error)))

/-- Checks one file. -/
def reportOf (path : Path) : IO (Except ValidateFailure FileReport) := do
  try
    match String.fromUTF8? (← IO.FS.readBinFile path.text) with
    | some source => pure (.ok (.of path source))
    | none => pure (.error (.unreadable path notText))
  catch error => pure (.error (.unreadable path (reasonOf error)))

/-- Carries out the command `validate`. -/
def runValidate (options : ValidateOptions) : IO (Option CommandResult) := do
  let mut found := []
  for path in options.paths do
    match ← reach ⟨path⟩ with
    | .ok reached => found := found ++ [reached]
    | .error failure => return some failure.result
  match Selection.of (Extension.normalized options.extensions) found with
  | .error failure => pure (some failure.result)
  | .ok selection =>
    let mut reports := []
    for path in selection.paths do
      match ← reportOf path with
      | .ok report => reports := reports ++ [report]
      | .error failure => return some failure.result
    pure (FileReport.summary? options.json selection.skipped (FileReport.sorted reports))

/-- Says so if the environment asks for a level of detail that does not exist. -/
def warnAboutLogLevel : IO Unit := do
  match ← IO.getEnv "LOG_LEVEL" with
  | none => pure ()
  | some word =>
    match LogLevel.ofText? word with
    | some _ => pure ()
    | none =>
      IO.eprintln ("WARN Invalid `LOG_LEVEL` environment variable value: `" ++ Text.trim word ++ "`")

/-- Prints the result of a command, or says that there is none. -/
def printResult : Option CommandResult → IO UInt32
  | none => do
    IO.eprintln "a line is too long to be shown"
    pure 101
  | some result => do
    match result.stdout with
    | some text => IO.println text
    | none => pure ()
    match result.stderr with
    | some text => IO.eprintln text
    | none => pure ()
    pure (if result.success then 0 else 1)

end GraphSchema

open GraphSchema in
/-- Runs the program. -/
def main (arguments : List String) : IO UInt32 := do
  match Invocation.ofArguments arguments with
  | .error refusal =>
    if refusal.isError then
      IO.eprintln refusal.message
      pure 2
    else
      IO.println refusal.message
      pure 0
  | .ok invocation =>
    if !invocation.verbose then warnAboutLogLevel
    match invocation.command with
    | none =>
      IO.println usage
      pure 0
    | some options => printResult (← runValidate options)
