import LineTally.Log.Filter
import LineTally.Survey
import LineTally.Text.Terminal

/-!
# The command line

One path is given, and the report on it is printed. The arguments are read in order. Help and
version are printed as soon as they are asked for; after `--` everything is a path, and so is `-`.
Anything else that starts with `-` is refused, and so is a second path.

An empty path is refused too, but only when the path is needed: when a flag is met after it, or
when there are no more arguments. Until then any other mistake comes first.

Only the log depends on the log filter; what is printed and the exit code do not.
-/

set_option autoImplicit false

namespace LineTally

/-- What is asked for. -/
inductive Command
  | help
  | version
  | report (path : Path)
  deriving DecidableEq, Repr

/-- Why a list of arguments is refused. -/
inductive UsageError
  | missingPath
  | emptyPath
  | unexpectedArgument (text : List Char)
  | unexpectedValue (value : List Char) (flag : String)
  deriving DecidableEq, Repr

namespace UsageError

/-- What an error says; only its first line matters. What was given is repeated without the
characters that a terminal would obey. -/
def message : UsageError → List Char
  | missingPath => "error: the following required arguments were not provided:".toList
  | emptyPath => "error: a value is required for '<path>' but none was supplied".toList
  | unexpectedArgument text =>
    "error: unexpected argument '".toList ++ Terminal.withoutControls text ++ "' found".toList
  | unexpectedValue value flag =>
    "error: unexpected value '".toList ++ Terminal.withoutControls value ++ "' for '--".toList ++
      flag.toList ++ "' found; no more were expected".toList

end UsageError

/-- An argument by its form. -/
inductive Argument
  | separator
  | longFlag (name : Bytes) (value? : Option Bytes)
  | shortFlags (letters : Bytes)
  | positional (path : Path)
  deriving DecidableEq, Repr

namespace Argument

def hyphen : UInt8 := 0x2D

def equalSign : UInt8 := 0x3D

/-- The name of a long flag and the value attached to it. -/
def ofLong (body : Bytes) : Argument :=
  match body.dropWhile (· ≠ equalSign) with
  | [] => longFlag body none
  | _ :: value => longFlag (body.takeWhile (· ≠ equalSign)) (some value)

def ofBytes (argument : Bytes) : Argument :=
  match argument with
  | a :: b :: rest =>
    if a = hyphen then
      if b = hyphen then
        if rest.isEmpty then separator else ofLong rest
      else shortFlags (b :: rest)
    else positional argument
  | _ => positional argument

/-- The flags by name and by letter. -/
def flags : List (String × Char × Command) :=
  [("help", 'h', .help), ("version", 'V', .version)]

def flagNamed? (name : List Char) : Option (String × Command) :=
  (flags.find? fun f => f.1.toList = name).map fun f => (f.1, f.2.2)

def flagLettered? (letter : Char) : Option Command :=
  (flags.find? fun f => f.2.1 = letter).map fun f => f.2.2

/-- What a long flag asks for. A flag takes no value. -/
def readLong (name : Bytes) (value? : Option Bytes) : Except UsageError Command :=
  let text := Utf8.decodeLossy name
  match (Utf8.decode? name).bind flagNamed?, value? with
  | none, _ => .error (.unexpectedArgument ("--".toList ++ text))
  | some (flag, _), some value => .error (.unexpectedValue (Utf8.decodeLossy value) flag)
  | some (_, command), none => .ok command

/-- What letters after one hyphen ask for. The first one decides. -/
def readShort (letters : Bytes) : Except UsageError Command :=
  match Utf8.pieces letters with
  | .char letter :: _ =>
    match flagLettered? letter with
    | some command => .ok command
    | none => .error (.unexpectedArgument ['-', letter])
  | _ => .error (.unexpectedArgument ('-' :: Utf8.decodeLossy letters))

end Argument

namespace Command

/-- A flag is met when some path may have been given; an empty one is refused now. -/
def afterPath (path? : Option Path) : Except UsageError Command → Except UsageError Command
  | .error e => .error e
  | .ok command => if path? = some [] then .error .emptyPath else .ok command

def conclude : Option Path → Except UsageError Command
  | none => .error .missingPath
  | some [] => .error .emptyPath
  | some path => .ok (.report path)

def ofPaths (path? : Option Path) : List Bytes → Except UsageError Command
  | [] => conclude path?
  | argument :: rest =>
    match path? with
    | some _ => .error (.unexpectedArgument (Utf8.decodeLossy argument))
    | none => ofPaths (some argument) rest

/-- What the arguments ask for, when some path may have been given before. -/
def ofArgumentsAfter (path? : Option Path) : List Bytes → Except UsageError Command
  | [] => conclude path?
  | argument :: rest =>
    match Argument.ofBytes argument with
    | .separator => ofPaths path? rest
    | .longFlag name value? => afterPath path? (Argument.readLong name value?)
    | .shortFlags letters => afterPath path? (Argument.readShort letters)
    | .positional path =>
      match path? with
      | some _ => .error (.unexpectedArgument (Utf8.decodeLossy path))
      | none => ofArgumentsAfter (some path) rest

def ofArguments (arguments : List Bytes) : Except UsageError Command :=
  ofArgumentsAfter none arguments

end Command

/-- What a run of the program leaves behind. -/
structure Outcome where
  code : Nat
  output : List Char
  diagnostics : List (List Char)
  deriving DecidableEq, Repr

namespace CommandLine

def helpLines : List String :=
  ["Counts blank, comment and code lines across unique Java files",
   "",
   "Usage: javaloc <path>",
   "",
   "Arguments:",
   "  <path>  File or directory to analyze",
   "",
   "Options:",
   "  -h, --help     Print help",
   "  -V, --version  Print version"]

def versionLines : List String := ["javaloc 0.1.0"]

/-- Lines as they are printed, each with a line feed at its end. -/
def printed (lines : List String) : List Char :=
  lines.flatMap fun line => line.toList ++ ['\n']

/-- The lines of a text that a line feed follows. A carriage return before a line feed belongs to
the end of the line. -/
def diagnosticLines (text : List Char) : List (List Char) :=
  (separated '\n' text).map fun line =>
    if line.getLast? = some '\r' then line.dropLast else line

def logLines (filter : LogFilter) (events : List Event) : List (List Char) :=
  (events.filter filter.passes).flatMap fun e => diagnosticLines e.line

/-- The report on a path and the log of the run. -/
def reportOn (t : FileTree) (filter : LogFilter) (path : Path) : Outcome :=
  let survey := t.survey .standard path
  ⟨0, survey.tally.report ++ ['\n'],
   logLines filter (survey.events ++ [.finished path survey.tally])⟩

def run (t : FileTree) (logSetting : Option Bytes) (arguments : List Bytes) : Outcome :=
  match Command.ofArguments arguments with
  | .error e => ⟨2, [], (diagnosticLines e.message).take 1⟩
  | .ok .help => ⟨0, printed helpLines, []⟩
  | .ok .version => ⟨0, printed versionLines, []⟩
  | .ok (.report path) => reportOn t (.ofSetting logSetting) path

end CommandLine

end LineTally
