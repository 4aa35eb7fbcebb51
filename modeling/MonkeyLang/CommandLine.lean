import MonkeyLang.Arguments
import MonkeyLang.FileTree
import MonkeyLang.Session
import MonkeyLang.Text.Utf8

/-! The command line: a program from a file or from an argument is run once, or a session is started. The exit
status is 0 for success, 1 for a program with errors and 2 for arguments or input that cannot be used. -/

namespace MonkeyLang

inductive RunFailure
  | unknownMode (name : String)
  | unsupportedSuffix
  | unreadable (fault : FileFault)
  | undecodable (flaw : Text.Utf8.Flaw)
  | syntaxErrors (messages : List String)
  | stopped (failure : Failure)
deriving DecidableEq

def Failure.message : Failure → String
  | .unreadable error => error.message
  | .fault cause => cause.message

def RunFailure.message : RunFailure → String
  | unknownMode name => "Unknown mode: " ++ Text.quote name
  | unsupportedSuffix => "Only .monkey files are supported."
  | unreadable fault => fault.message
  | undecodable flaw => flaw.message
  | syntaxErrors messages => toString messages.length ++ " syntax error(s)"
  | stopped failure => failure.message

/-- A run: its result, if it ends with one, what it wrote and its log. -/
structure Run where
  result : Except RunFailure (Option Value)
  output : String
  log : List LogEntry

namespace Run

def suffix : List Char := ".monkey".toList

/-- The text of a program file: UTF-8 with any kind of line ends. -/
def decode (bytes : List UInt8) : Except RunFailure String :=
  match Text.Utf8.decode bytes with
  | .ok text => .ok (String.ofList (Text.unifyNewlines text))
  | .error flaw => .error (.undecodable flaw)

/-- The text of the program: the source itself, or what the file that it names holds. -/
def text (read : String → Except FileFault (List UInt8)) (isString : Bool) (source : String) :
    Except RunFailure String :=
  if isString then .ok source
  else if suffix.isSuffixOf source.toList then
    match read source with
    | .ok bytes => decode bytes
    | .error fault => .error (.unreadable fault)
  else .error .unsupportedSuffix

/-- A run that shows a text, or stops at the fault that there is instead. -/
def showing (result : Option Value) (log : List LogEntry) : Except Fault String → Run
  | .ok text => ⟨.ok result, text ++ "\n", log⟩
  | .error fault => ⟨.error (.stopped (.fault fault)), "", log⟩

/-- Evaluates a program in a world of its own and shows its value. -/
def evaluate (limit : Nat) (log : List LogEntry) (program : Node) : Run :=
  let (result, after) := World.fresh.eval limit program 0
  let log := log ++ after.calls.reverse.map .calling
  match result with
  | .ok (some value) => showing (some value) log (value.text? limit)
  | .ok none => ⟨.ok none, "", log⟩
  | .error fault => ⟨.error (.stopped (.fault fault)), "", log⟩

def ofText (limit : Nat) (mode : Mode) (text : String) : Run :=
  if mode = .tokens then ⟨.ok none, tokenLines text, []⟩
  else
    let parsed := Parsed.ofText limit text
    match parsed.result with
    | .error failure => ⟨.error (.stopped failure), "", parsed.log⟩
    | .ok program =>
      if parsed.errors ≠ [] then ⟨.error (.syntaxErrors parsed.messages), "", parsed.log⟩
      else if mode = .ast then showing none parsed.log (program.text? limit)
      else evaluate limit parsed.log program

def ofSource (limit : Nat) (read : String → Except FileFault (List UInt8)) (modeName : String) (isString : Bool)
    (source : String) : Run :=
  match Mode.ofName? modeName with
  | none => ⟨.error (.unknownMode modeName), "", []⟩
  | some mode =>
    match text read isString source with
    | .ok program => ofText limit mode program
    | .error failure => ⟨.error failure, "", []⟩

end Run

/-- What surrounds the command line: files by path, the lines that can be read, the name of the user and the level
of the log that is asked for. -/
structure Surroundings where
  read : String → Except FileFault (List UInt8)
  input : List Input
  user : Option String
  logLevel : Option String

/-- What the command line comes to: its exit status, or the failure that leaves it, and what it wrote. -/
structure Report where
  status : Except Failure Nat
  output : String
  errors : String

namespace CommandLine

def usage : String := "usage: monkey [-h] [-s] [--tokens | --ast] [--repl] [--verbose] [source]\n"

def help : String :=
  usage ++
    "\npositional arguments:\n" ++
    "  source        Filename or raw source (with -s)\n" ++
    "\noptions:\n" ++
    "  -h, --help    show this help message and exit\n" ++
    "  -s, --string  Interpret source as literal string\n" ++
    "  --tokens      Print the token stream instead of evaluating\n" ++
    "  --ast         Print the parsed program instead of evaluating\n" ++
    "  --repl        Launch interactive REPL instead of running a program\n" ++
    "  --verbose     Enable debug logging\n"

/-- The log is written if it is asked for by a flag or by its level. -/
def logText (options : Options) (level : Option String) (log : List LogEntry) : String :=
  if options.verbose || level.any showsLog then String.join (log.map LogEntry.line) else ""

/-- The status that a failed run leads to, unless the failure leaves the command line. -/
def failureStatus : RunFailure → Except Failure Nat
  | .syntaxErrors _ => .ok 1
  | .unknownMode _ | .unsupportedSuffix | .unreadable _ | .undecodable _ => .ok 2
  | .stopped (.fault .exhausted) => .ok 1
  | .stopped (.fault (.numeral _)) => .ok 2
  | .stopped failure => .error failure

def failureText (failure : RunFailure) : String :=
  match failureStatus failure with
  | .error _ => ""
  | .ok _ =>
    "monkey: " ++ failure.message ++ "\n" ++
      match failure with
      | .syntaxErrors messages => String.join (messages.map fun message => "\t" ++ message ++ "\n")
      | _ => ""

def report (options : Options) (level : Option String) (run : Run) : Report :=
  match run.result with
  | .error failure =>
    ⟨failureStatus failure, run.output, logText options level run.log ++ failureText failure⟩
  | .ok result =>
    match result with
    | some (.error reason) =>
      ⟨.ok 1, run.output,
        logText options level (run.log ++ [.runtimeError (Value.error reason).inspect])⟩
    | _ => ⟨.ok 0, run.output, logText options level run.log⟩

def reportSession (options : Options) (level : Option String) (transcript : Session.Transcript) : Report where
  status :=
    match transcript.failure with
    | some failure => .error failure
    | none => .ok 0
  output := String.join transcript.shown
  errors := logText options level transcript.log

/-- The source that the options ask to run; none if they ask for a session. -/
def source? (options : Options) : Option String := if options.repl then none else options.source

def run (limit : Nat) (surroundings : Surroundings) (arguments : List String) : Report :=
  match Invocation.ofArguments arguments with
  | .help => ⟨.ok 0, help, ""⟩
  | .misuse cause => ⟨.ok 2, "", usage ++ "monkey: error: " ++ cause.message ++ "\n"⟩
  | .start options =>
    match source? options with
    | none =>
      reportSession options surroundings.logLevel
        (Session.run limit (.fresh options.mode) (Session.greeting surroundings.user) surroundings.input)
    | some source =>
      report options surroundings.logLevel
        (Run.ofSource limit surroundings.read options.mode.name options.isString source)

end CommandLine

end MonkeyLang
