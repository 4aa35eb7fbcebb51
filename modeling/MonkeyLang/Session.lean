import MonkeyLang.Mode
import MonkeyLang.Program

/-! Sessions: programs line by line. Each line is a program of its own, the bindings last from line to line, and a
line may also switch the mode or end the session. A line whose evaluation reaches the limit keeps what it bound
before; every other fault, of evaluation too, ends the session. -/

namespace MonkeyLang

/-- The mode in force, the scopes there are, and the scope in which lines are evaluated. -/
structure Session where
  mode : Mode
  world : World
  scope : Nat

/-- What reading a line may bring. The end of the input is the end of the list of readings. -/
inductive Input
  | line (text : String)
  | interrupt
deriving DecidableEq

namespace Session

inductive Next
  | goOn
  | close
  | fail (failure : Failure)

/-- The answer to a line: the session after it, the text shown, the log and what follows. -/
structure Reply where
  session : Session
  output : String
  log : List LogEntry
  next : Next

def prompt : String := ">> "

def farewell : String := "Exiting Monkey REPL.\n"

def greeting (user : Option String) : String :=
  "Hello " ++ user.getD "there" ++ "! This is the Monkey programming language!\n" ++
    "Feel free to type in commands\n"

/-- The session in a mode, with nothing bound. -/
def fresh (mode : Mode) : Session := ⟨mode, .fresh, 0⟩

/-- A session cannot be started in a mode that there is not. -/
structure UnknownMode where
  name : String
deriving DecidableEq

def UnknownMode.message (unknown : UnknownMode) : String := "Unknown REPL mode: " ++ Text.quote unknown.name

/-- The session in the mode of a name, with nothing bound. -/
def ofModeName (name : String) : Except UnknownMode Session :=
  match Mode.ofName? name with
  | some mode => .ok (fresh mode)
  | none => .error ⟨name⟩

def errorText (messages : List String) : String :=
  "[error] >>> parser errors:\n" ++ String.join (messages.map fun message => "\t" ++ message ++ "\n")

/-- A text on a line of its own, or the fault that there is instead. -/
def showing (session : Session) (log : List LogEntry) : Except Fault String → Reply
  | .ok text => ⟨session, text ++ "\n", log, .goOn⟩
  | .error fault => ⟨session, "", log, .fail (.fault fault)⟩

def evaluate (limit : Nat) (session : Session) (log : List LogEntry) (program : Node) : Reply :=
  let (result, after) := { session.world with calls := [] }.eval limit program session.scope
  let session := { session with world := after }
  let log := log ++ after.calls.reverse.map .calling
  match result with
  | .ok (some value) => session.showing log (value.text? limit)
  | .ok none => ⟨session, "", log, .goOn⟩
  | .error .exhausted => ⟨session, "[error] >>> " ++ Fault.exhausted.message ++ "\n", log, .goOn⟩
  | .error fault => ⟨session, "", log, .fail (.fault fault)⟩

/-- Reads a line's program and shows its tree or its value. -/
def interpret (limit : Nat) (session : Session) (line : String) : Reply :=
  let parsed := Parsed.ofText limit line
  match parsed.result with
  | .error failure => ⟨session, "", parsed.log, .fail failure⟩
  | .ok program =>
    if parsed.errors ≠ [] then ⟨session, errorText parsed.messages, parsed.log, .goOn⟩
    else if session.mode = .ast then session.showing parsed.log (program.text? limit)
    else session.evaluate limit parsed.log program

/-- The answer to a line without blanks around it. -/
def respondTo (limit : Nat) (session : Session) (line : String) : Reply :=
  if line = "" then ⟨session, "", [], .goOn⟩
  else if line = "exit" || line = "quit" then ⟨session, farewell, [], .close⟩
  else
    match Mode.request? line with
    | some (.accepted mode) => ⟨{ session with mode }, (Mode.Request.accepted mode).answer, [], .goOn⟩
    | some (.refused name) => ⟨session, (Mode.Request.refused name).answer, [], .goOn⟩
    | none =>
      if session.mode = .tokens then ⟨session, tokenLines line, [], .goOn⟩
      else session.interpret limit line

def respond (limit : Nat) (session : Session) (line : String) : Reply :=
  session.respondTo limit (String.ofList (Text.trim line.toList))

/-- A whole session: what was shown before each reading and after the last one, the log, the session at the end
and the failure that ended it, if one did. -/
structure Transcript where
  shown : List String
  log : List LogEntry
  session : Session
  failure : Option Failure

/-- Goes through the readings, with a text already shown since the last one. -/
def run (limit : Nat) (session : Session) (shown : String) : List Input → Transcript
  | [] | .interrupt :: _ => ⟨[shown ++ prompt, "\n" ++ farewell], [], session, none⟩
  | .line text :: rest =>
    let reply := session.respond limit text
    match reply.next with
    | .goOn =>
      let later := run limit reply.session reply.output rest
      { later with shown := (shown ++ prompt) :: later.shown, log := reply.log ++ later.log }
    | .close => ⟨[shown ++ prompt, reply.output], reply.log, reply.session, none⟩
    | .fail failure => ⟨[shown ++ prompt, reply.output], reply.log, reply.session, some failure⟩

end Session

end MonkeyLang
