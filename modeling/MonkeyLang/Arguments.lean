import MonkeyLang.Mode
import MonkeyLang.Text.DecimalDigit

/-! Arguments of the command line: flags, which may stand anywhere before a `--`, and at most one source. -/

namespace MonkeyLang

inductive Flag
  | help
  | string
  | tokens
  | ast
  | repl
  | verbose
deriving DecidableEq

namespace Flag

def spellings : List (String × Flag) :=
  [("-h", help), ("--help", help), ("-s", string), ("--string", string), ("--tokens", tokens),
    ("--ast", ast), ("--repl", repl), ("--verbose", verbose)]

def ofSpelling? (spelling : String) : Option Flag := spellings.lookup spelling

/-- The name of a flag in messages: its spellings. -/
def name (flag : Flag) : String :=
  "/".intercalate ((spellings.filter fun entry => entry.2 = flag).map (·.1))

end Flag

/-- Why arguments are refused. -/
inductive Misuse
  | ambiguous (argument : String) (candidates : List String)
  | ignoredValue (flag : Flag) (value : String)
  | conflict (flag earlier : Flag)
  | unrecognized (arguments : List String)
deriving DecidableEq

def Misuse.message : Misuse → String
  | ambiguous argument candidates =>
    "ambiguous option: " ++ argument ++ " could match " ++ ", ".intercalate candidates
  | ignoredValue flag value =>
    "argument " ++ flag.name ++ ": ignored explicit argument " ++ Text.quote value
  | conflict flag earlier =>
    "argument " ++ flag.name ++ ": not allowed with argument " ++ earlier.name
  | unrecognized arguments => "unrecognized arguments: " ++ " ".intercalate arguments

/-- What an argument is, seen by itself. -/
inductive Argument
  | plain (text : String)
  /-- The sign that no flags follow. -/
  | marker
  /-- A flag in the spelling that it stands for, with the text attached to it. -/
  | knownFlag (flag : Flag) (spelling : List Char) (attached : Option (List Char))
  | unknownFlag (text : String)

namespace Argument

/-- A text before and after its first equals sign, if it has one. -/
def splitEquals (text : List Char) : List Char × Option (List Char) :=
  match text.dropWhile (· ≠ '=') with
  | _ :: value => (text.takeWhile (· ≠ '='), some value)
  | [] => (text, none)

/-- A minus sign and a decimal number, with digits of any script; one line feed may follow. -/
def isNegativeNumber (text : List Char) : Bool :=
  let isDigit (c : Char) := (Text.decimalDigit? c).isSome
  let isEnd (rest : List Char) := rest = [] || rest = ['\n']
  match text with
  | '-' :: rest =>
    let whole := rest.takeWhile isDigit
    match rest.dropWhile isDigit with
    | '.' :: fraction => fraction.takeWhile isDigit ≠ [] && isEnd (fraction.dropWhile isDigit)
    | others => whole ≠ [] && isEnd others
  | _ => false

/-- The flags that an argument may stand for although it spells none: one that begins with it, or a flag of one
letter with a text attached. -/
def candidates (text : List Char) : List (Flag × List Char × Option (List Char)) :=
  match text with
  | '-' :: '-' :: _ =>
    let (start, value) := splitEquals text
    (Flag.spellings.filter fun (spelling, _) => start.isPrefixOf spelling.toList).map fun (spelling, flag) =>
      (flag, spelling.toList, value)
  | _ =>
    Flag.spellings.filterMap fun (spelling, flag) =>
      if spelling.toList = text.take 2 then some (flag, text.take 2, some (text.drop 2))
      else if text.isPrefixOf spelling.toList then some (flag, spelling.toList, none)
      else none

/-- What an argument before any marker is. -/
def classify (argument : String) : Except Misuse Argument :=
  let text := argument.toList
  match text with
  | '-' :: _ :: _ =>
    let (start, value) := splitEquals text
    match Flag.ofSpelling? argument, Flag.ofSpelling? (String.ofList start), value with
    | some flag, _, _ => .ok (.knownFlag flag text none)
    | none, some flag, some value => .ok (.knownFlag flag start (some value))
    | none, _, _ =>
      match candidates text with
      | [(flag, spelling, attached)] => .ok (.knownFlag flag spelling attached)
      | first :: second :: others =>
        .error (.ambiguous argument ((first :: second :: others).map fun found => String.ofList found.2.1))
      | [] =>
        if isNegativeNumber text || text.contains ' ' then .ok (.plain argument)
        else .ok (.unknownFlag argument)
  | _ => .ok (.plain argument)

/-- What all arguments are. After the marker everything is plain. -/
def classifyAll : List String → Except Misuse (List Argument)
  | [] => .ok []
  | "--" :: rest => .ok (.marker :: rest.map .plain)
  | argument :: rest => do return (← classify argument) :: (← classifyAll rest)

/-- The flags in an argument. The text attached to a flag of one letter is read as more such flags; no flag takes
a value. -/
def flags (flag : Flag) (spelling : List Char) : Option (List Char) → Except Misuse (List Flag)
  | none => .ok [flag]
  | some [] => .error (.ignoredValue flag "")
  | some (letter :: rest) =>
    if spelling[1]? = some '-' then .error (.ignoredValue flag (String.ofList (letter :: rest)))
    else
      match Flag.ofSpelling? (String.ofList ['-', letter]) with
      | none => .error (.ignoredValue flag (String.ofList (letter :: rest)))
      | some next => (flags next ['-', letter] (if rest = [] then none else some rest)).map (flag :: ·)
termination_by attached => attached.elim 0 (·.length + 1)
decreasing_by
  split
  · simp
  · simp

end Argument

structure Options where
  source : Option String
  isString : Bool
  mode : Mode
  repl : Bool
  verbose : Bool
deriving DecidableEq

inductive Invocation
  | help
  | misuse (cause : Misuse)
  | start (options : Options)
deriving DecidableEq

namespace Invocation

/-- The options with a flag set; none if the flag asks for help. -/
def set (options : Options) : Flag → Except Misuse (Option Options)
  | .help => .ok none
  | .string => .ok (some { options with isString := true })
  | .repl => .ok (some { options with repl := true })
  | .verbose => .ok (some { options with verbose := true })
  | .tokens =>
    if options.mode = .ast then .error (.conflict .tokens .ast)
    else .ok (some { options with mode := .tokens })
  | .ast =>
    if options.mode = .tokens then .error (.conflict .ast .tokens)
    else .ok (some { options with mode := .ast })

/-- The options with the flags set one after the other, up to one that asks for help. -/
def setAll (options : Options) : List Flag → Except Misuse (Option Options)
  | [] => .ok (some options)
  | flag :: rest =>
    match set options flag with
    | .ok (some options) => setAll options rest
    | result => result

/-- Takes the arguments one by one. The first plain one is the source, and a marker next to it belongs to it;
what is left over has no place. -/
def take (options : Options) (hasSource : Bool) (left : List String) : List Argument → Invocation
  | [] => if left = [] then .start options else .misuse (.unrecognized left.reverse)
  | .plain text :: .marker :: rest =>
    if hasSource then take options true ("--" :: text :: left) rest
    else take { options with source := some text } true left rest
  | .plain text :: rest =>
    if hasSource then take options true (text :: left) rest
    else take { options with source := some text } true left rest
  | .marker :: .plain text :: rest =>
    if hasSource then take options true (text :: "--" :: left) rest
    else take { options with source := some text } true left rest
  | .marker :: rest => take options true (if hasSource then "--" :: left else left) rest
  | .unknownFlag text :: rest => take options hasSource (text :: left) rest
  | .knownFlag flag spelling attached :: rest =>
    match Argument.flags flag spelling attached with
    | .error cause => .misuse cause
    | .ok flags =>
      match setAll options flags with
      | .error cause => .misuse cause
      | .ok none => .help
      | .ok (some options) => take options hasSource left rest

def ofArguments (arguments : List String) : Invocation :=
  match Argument.classifyAll arguments with
  | .error cause => .misuse cause
  | .ok classified => take ⟨none, false, .eval, false, false⟩ false [] classified

end Invocation

end MonkeyLang
