import GraphSchema.Text.Split

/-!
# Command line arguments

The program knows one command, `validate`, which takes paths, a list of file extensions and a flag
for JSON, and the flag `--verbose` before it. Arguments are read from left to right and the first
one that does not fit decides how they are refused. A value that is given to an option or as a path
is looked at only when the next option or the end is reached; an empty path is refused then.
-/

namespace GraphSchema

/-- What the command `validate` is asked to do. -/
structure ValidateOptions where
  extensions : List String
  json : Bool
  paths : List String
deriving DecidableEq, Repr, Inhabited

/-- What the program is asked to do. -/
structure Invocation where
  verbose : Bool
  command : Option ValidateOptions
deriving DecidableEq, Repr, Inhabited

/-- Why arguments are not carried out: they ask for a text about the program, or they are wrong. -/
inductive ArgumentRefusal where
  | displayHelp
  | displayVersion
  | missingRequiredArgument
  | unknownArgument
  | invalidSubcommand
  | argumentConflict
  | invalidValue
  | tooManyValues
deriving DecidableEq, Repr, Inhabited

namespace Arguments

/-- The form of an argument: `--`, `--name` with a value after `=` if there is one, `-` with
letters, or anything else. -/
inductive Form where
  | escape
  | long (name : String) (value : Option String)
  | short (letters : List Char)
  | plain
deriving DecidableEq, Repr, Inhabited

/-- The form of an argument. -/
def form (argument : String) : Form :=
  match argument.toList with
  | ['-', '-'] => .escape
  | '-' :: '-' :: rest =>
    let name := rest.takeWhile (· != '=')
    .long (String.ofList name)
      (match rest.dropWhile (· != '=') with
        | [] => none
        | _ :: value => some (String.ofList value))
  | '-' :: letter :: letters => .short (letter :: letters)
  | _ => .plain

/-- The values that a list separated by commas stands for. -/
def listed (value : String) : List String :=
  (Text.segments ',' value.toList).map String.ofList

/-- The arguments of `validate` that were read: the extensions and paths that were accepted, the
paths that were not looked at yet, and whether an extension has to follow. -/
structure Scan where
  extensions : List String
  json : Bool
  paths : List String
  unchecked : List String
  awaiting : Bool
  escaped : Bool
deriving DecidableEq, Repr, Inhabited

namespace Scan

/-- Looks at the values that were given so far. -/
def settled (scan : Scan) : Except ArgumentRefusal Scan :=
  if scan.awaiting || scan.unchecked.contains "" then .error .invalidValue
  else .ok { scan with paths := scan.paths ++ scan.unchecked, unchecked := [] }

/-- Takes an option by its name. -/
def long (scan : Scan) (name : String) (value : Option String) : Except ArgumentRefusal Scan :=
  match name, value with
  | "json", none => do
    let scan ← scan.settled
    if scan.json then .error .argumentConflict else .ok { scan with json := true }
  | "help", none => do
    let _ ← scan.settled
    .error .displayHelp
  | "json", some _ | "help", some _ => .error .tooManyValues
  | "file-exts", none => do
    let scan ← scan.settled
    .ok { scan with awaiting := true }
  | "file-exts", some value => do
    let scan ← scan.settled
    .ok { scan with extensions := scan.extensions ++ listed value }
  | _, _ => .error .unknownArgument

/-- Takes the letters of a short option; there is only the one for help. -/
def short (scan : Scan) (letters : List Char) : Except ArgumentRefusal Scan :=
  if letters.head? = some 'h' then do
    let _ ← scan.settled
    .error .displayHelp
  else .error .unknownArgument

/-- Takes a value: an extension if one has to follow, else a path. -/
def plain (scan : Scan) (value : String) : Except ArgumentRefusal Scan :=
  if scan.awaiting then
    .ok { scan with extensions := scan.extensions ++ listed value, awaiting := false }
  else .ok { scan with unchecked := scan.unchecked ++ [value] }

/-- Takes one argument of `validate`. After `--` every argument is a path. -/
def step (scan : Scan) (argument : String) : Except ArgumentRefusal Scan :=
  if scan.escaped then do
    if scan.awaiting then .error .invalidValue
    else .ok { scan with unchecked := scan.unchecked ++ [argument] }
  else match form argument with
    | .escape => .ok { scan with escaped := true }
    | .long name value => scan.long name value
    | .short letters => scan.short letters
    | .plain => scan.plain argument

/-- What the arguments of `validate` ask for, once all are read. -/
def finish (scan : Scan) : Except ArgumentRefusal ValidateOptions := do
  let scan ← scan.settled
  if scan.paths.isEmpty then .error .missingRequiredArgument
  else
    .ok ⟨if scan.extensions.isEmpty then ["gdef"] else scan.extensions, scan.json, scan.paths⟩

end Scan

/-- Reads the arguments of `validate`. -/
def validateOptions (arguments : List String) : Except ArgumentRefusal ValidateOptions := do
  let scan ← arguments.foldlM Scan.step ⟨[], false, [], [], false, false⟩
  scan.finish

/-- Takes the letters of short options in front of the command. -/
def shortOptions (verbose : Bool) : List Char → Except ArgumentRefusal Bool
  | [] => .ok verbose
  | 'v' :: letters =>
    if verbose then .error .argumentConflict else shortOptions true letters
  | 'h' :: _ => .error .displayHelp
  | 'V' :: _ => .error .displayVersion
  | _ => .error .unknownArgument

/-- Takes an option in front of the command by its name. -/
def longOption (verbose : Bool) (name : String) (value : Option String) :
    Except ArgumentRefusal Bool :=
  match name, value with
  | "verbose", none => if verbose then .error .argumentConflict else .ok true
  | "help", none => .error .displayHelp
  | "version", none => .error .displayVersion
  | "verbose", some _ | "help", some _ | "version", some _ => .error .tooManyValues
  | _, _ => .error .unknownArgument

/-- The commands that help can be asked about. -/
def helpTopic : List String → ArgumentRefusal
  | [] | ["validate"] | ["help"] => .displayHelp
  | _ => .invalidSubcommand

/-- Reads the arguments after the name of the program. After `--` no command can follow. -/
def read (verbose escaped : Bool) : List String → Except ArgumentRefusal Invocation
  | [] => .ok ⟨verbose, none⟩
  | argument :: rest =>
    if escaped then
      .error (if argument = "validate" ∨ argument = "help" then .unknownArgument
        else .invalidSubcommand)
    else match form argument with
      | .escape => read verbose true rest
      | .long name value => do read (← longOption verbose name value) false rest
      | .short letters => do read (← shortOptions verbose letters) false rest
      | .plain =>
        if argument = "validate" then do .ok ⟨verbose, some (← validateOptions rest)⟩
        else if argument = "help" then .error (helpTopic rest)
        else .error .invalidSubcommand

end Arguments

/-- Reads the arguments after the name of the program. -/
def Invocation.ofArguments (arguments : List String) : Except ArgumentRefusal Invocation :=
  Arguments.read false false arguments

end GraphSchema
