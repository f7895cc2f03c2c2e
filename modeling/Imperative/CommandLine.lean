import Imperative.Program
import Imperative.Tree.Outline

/-!
# The command line

    sprig [--lex | --parse | --validate] [--max-depth N] [-v...] FILE

Arguments are read from left to right, and the first one that does not fit decides.  What
can only be judged when all of them are known comes last: that there is a file, and that
at most one of the three modes is asked for.  A request for the version or for help is
granted as soon as it is reached.

What the command prints is the tokens, the outline of the module before or after analysis,
or the record of the program at its end.  Nothing is printed when something fails.  The
exit code is 0 for success, 1 for a file or a program that fails, and 2 for arguments that
do not fit.
-/

namespace Imperative

/-- What the command leaves behind: its exit code, its output, and what it has to say beside
its output. -/
structure Report where
  exitCode : Nat
  output : String := ""
  remarks : String := ""
  deriving DecidableEq, Repr

namespace CommandLine

/-- The arguments as far as they have been read. -/
structure Options where
  file : Option String := none
  lex : Bool := false
  parse : Bool := false
  validate : Bool := false
  limit : Option Nat := none
  verbosity : Nat := 0
  deriving DecidableEq, Repr

/-- Why reading the arguments stopped early. -/
inductive Interruption where
  | version
  | help
  | misuse (complaint : String)
  deriving DecidableEq, Repr

/-- Reading arguments: options, unless something stops it. -/
abbrev Reading := Except Interruption Options

/-- Stops with a complaint. -/
def misuse {α : Type} (complaint : String) : Except Interruption α :=
  .error (.misuse complaint)

/-- The value of a number argument: digits, perhaps with a plus sign, below 2⁶⁴. -/
def number? (text : String) : Option Nat :=
  let digits := match text.toList with
    | '+' :: rest => rest
    | all => all
  let value := Parse.decimalValue digits
  if !digits.isEmpty && digits.all Char.isDigit && value < UInt64.size then some value else none

/-- Takes an argument that is the name of a file. -/
def readFile (options : Options) (name : String) : Reading :=
  if options.file.isSome then misuse ("unexpected argument '" ++ name ++ "'")
  else if name.isEmpty then misuse "a file name must not be empty"
  else .ok { options with file := some name }

/-- Takes the value of the limit on the call stack. -/
def readLimit (options : Options) (text : String) : Reading :=
  if options.limit.isSome then misuse "'--max-depth' cannot be given twice"
  else
    match number? text with
    | some limit => .ok { options with limit := some limit }
    | none => misuse ("invalid value '" ++ text ++ "' for '--max-depth'")

/-- Takes a flag that may be given once. -/
def readOnce (name : String) (given : Bool) (options : Options) : Reading :=
  if given then misuse ("'--" ++ name ++ "' cannot be given twice") else .ok options

/-- Takes a flag with a long name and no value. -/
def readLong (options : Options) : String → Reading
  | "lex" => readOnce "lex" options.lex { options with lex := true }
  | "parse" => readOnce "parse" options.parse { options with parse := true }
  | "validate" => readOnce "validate" options.validate { options with validate := true }
  | "verbose" => .ok { options with verbosity := options.verbosity + 1 }
  | "version" => .error .version
  | "help" => .error .help
  | name => misuse ("unexpected argument '--" ++ name ++ "'")

/-- Takes flags of one letter that are written together. -/
def readShort (options : Options) : List Char → Reading
  | [] => .ok options
  | 'v' :: rest => readShort { options with verbosity := options.verbosity + 1 } rest
  | 'V' :: _ => .error .version
  | 'h' :: _ => .error .help
  | c :: _ => misuse ("unexpected argument '-" ++ c.toString ++ "'")

/-- Whether an argument cannot be the value of the one before it. -/
def looksLikeFlag (argument : String) : Bool :=
  match argument.toList with
  | '-' :: _ :: _ => true
  | _ => false

/-- Takes an argument that starts with two dashes, with what follows its equals sign if it
has one. -/
def readLongWith (options : Options) (name : String) : Option String → Reading
  | none => readLong options name
  | some value =>
    if name = "max-depth" then readLimit options value
    else misuse ("unexpected value '" ++ value ++ "' for '--" ++ name ++ "'")

/-- The name and the value of an argument behind its two dashes. -/
def splitValue (text : List Char) : String × Option String :=
  (String.ofList (text.takeWhile (· != '=')),
    match text.dropWhile (· != '=') with
    | [] => none
    | _ :: value => some (String.ofList value))

/-- Reads arguments of which every one is a file name. -/
def readFiles (options : Options) : List String → Reading
  | [] => .ok options
  | name :: rest => do readFiles (← readFile options name) rest

/-- Reads the arguments from left to right.  Two dashes alone end the flags, and one dash
alone is a file name. -/
def readArguments (options : Options) : List String → Reading
  | [] => .ok options
  | "--" :: rest => readFiles options rest
  | "--max-depth" :: [] => misuse "a value is required for '--max-depth'"
  | "--max-depth" :: value :: rest => do
    if looksLikeFlag value then misuse "a value is required for '--max-depth'"
    else readArguments (← readLimit options value) rest
  | argument :: rest => do
    match argument.toList with
    | '-' :: '-' :: text =>
      let (name, value) := splitValue text
      readArguments (← readLongWith options name value) rest
    | '-' :: c :: letters => readArguments (← readShort options (c :: letters)) rest
    | _ => readArguments (← readFile options argument) rest

/-- What the command does with the file. -/
inductive Mode where
  | lex | parse | validate | run
  deriving DecidableEq, Repr

/-- A complete request. -/
structure Request where
  file : String
  mode : Mode
  limit : Nat
  verbosity : Nat
  deriving DecidableEq, Repr

/-- The one mode that is asked for. -/
def Options.mode (options : Options) : Except Interruption Mode :=
  match options.lex, options.parse, options.validate with
  | false, false, false => .ok .run
  | true, false, false => .ok .lex
  | false, true, false => .ok .parse
  | false, false, true => .ok .validate
  | _, _, _ => misuse "'--lex', '--parse' and '--validate' exclude each other"

/-- The request made by a list of arguments. -/
def request (arguments : List String) : Except Interruption Request := do
  let options ← readArguments {} arguments
  let mode ← options.mode
  match options.file with
  | none => misuse "a file is required"
  | some file =>
    return {
      file, mode
      limit := options.limit.getD defaultLimit
      verbosity := options.verbosity }

/-- How the command is used. -/
def usage : String :=
  "Usage: sprig [OPTIONS] <FILE>\n\n"
    ++ "Options:\n"
    ++ "      --lex            Stop after lexing and print the tokens\n"
    ++ "      --parse          Stop after parsing and print the tree\n"
    ++ "      --validate       Stop after analysis and print the annotated tree\n"
    ++ "      --max-depth <N>  Maximum number of activation records on the call stack\n"
    ++ "  -v, --verbose...     Increase the detail of the log\n"
    ++ "  -h, --help           Print help\n"
    ++ "  -V, --version        Print version\n"

/-- What the command leaves behind when reading its arguments stopped early. -/
def Interruption.report : Interruption → Report
  | version => { exitCode := 0, output := "sprig 0.1.0\n" }
  | help => { exitCode := 0, output := usage }
  | misuse complaint => { exitCode := 2, remarks := "error: " ++ complaint ++ "\n\n" ++ usage }

/-- What the command leaves behind when a stage has failed. -/
def failed (failure : Failure) (log : String) : Report :=
  let d := failure.diagnostic
  { exitCode := 1
    remarks := log ++ d.code ++ ": " ++ d.message ++ "\n"
      ++ (match d.help with
        | none => ""
        | some help => "help: " ++ help ++ "\n") }

/-- Whether the log shows events of a severity. -/
def Request.shows (r : Request) : Severity → Bool
  | .debug => 2 ≤ r.verbosity
  | .trace => 3 ≤ r.verbosity

/-- Adds an event to the log, if the log shows it. -/
def Request.observe (r : Request) (log : String) (event : Event) : String :=
  if r.shows event.severity then
    log ++ event.severity.text ++ " " ++ event.message
      ++ String.join (event.fields.map fun field => " " ++ field.1 ++ "=" ++ field.2) ++ "\n"
  else log

/-- Prints the tokens of a text. -/
def lexReport (text : String) : Report :=
  match Imperative.lex text with
  | .error fault => failed (.lexical fault) ""
  | .ok tokens =>
    { exitCode := 0, output := String.join (tokens.map fun token => token.display ++ "\n") }

/-- Prints the outline of the module that a text spells. -/
def parseReport (text : String) : Report :=
  match Module.parse text with
  | .error e => failed (.parse e) ""
  | .ok module => { exitCode := 0, output := module.outline.render ++ "\n" }

/-- Prints the outline of the analysed module. -/
def validateReport (r : Request) (text : String) : Report :=
  match Module.parse text with
  | .error e => failed (.parse e) ""
  | .ok module =>
    let analysis := module.analyze
    let log := analysis.events.foldl r.observe ""
    match analysis.verdict with
    | .error e => failed (.analysis e) log
    | .ok () => { exitCode := 0, output := analysis.module.outline.render ++ "\n", remarks := log }

/-- Prints the record of the program at its end, if the program ends within the fuel. -/
def runReport (fuel : Nat) (r : Request) (text : String) : Report :=
  match execute r.observe "" fuel r.limit text with
  | none => { exitCode := 1, remarks := "error: the program did not end\n" }
  | some (log, .error failure) => failed failure log
  | some (log, .ok record) => { exitCode := 0, output := record.display, remarks := log }

/-- Does what is asked for with the bytes of the file, which are absent if the name does not
lead to a file that can be read. -/
def Request.perform (fuel : Nat) (r : Request) (contents : Option ByteArray) : Report :=
  match contents with
  | none => { exitCode := 1, remarks := "error: input must be a file\n" }
  | some bytes =>
    match String.fromUTF8? bytes with
    | none => { exitCode := 1, remarks := "error: input is not valid UTF-8\n" }
    | some text =>
      match r.mode with
      | .lex => lexReport text
      | .parse => parseReport text
      | .validate => validateReport r text
      | .run => runReport fuel r text

/-- More steps of execution than can be made in practice. -/
def stepBudget : Nat := 1 <<< 62

end CommandLine

end Imperative
