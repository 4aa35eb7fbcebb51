import MonkeyLang.Scope
import MonkeyLang.SyntaxError

/-! The log: what parsing, evaluation and the command line report on their work. -/

namespace MonkeyLang

inductive LogEntry
  | syntaxError (error : SyntaxError)
  | parsed (statements errors : Nat)
  | calling (call : Call)
  | runtimeError (text : String)

namespace LogEntry

/-- The part of the program that reports. -/
def channel : LogEntry → String
  | syntaxError _ | parsed _ _ => "monkey.monkey_parser"
  | calling _ => "monkey.monkey_evaluator"
  | runtimeError _ => "monkey.monkey_cli"

def message : LogEntry → String
  | syntaxError error => "syntax error recorded: " ++ error.message
  | parsed statements errors =>
    "parsed " ++ toString statements ++ " statement(s) with " ++ toString errors ++ " error(s)"
  | calling call => "calling " ++ call.text ++ " with " ++ toString call.count ++ " argument(s)"
  | runtimeError text => "program ended with runtime error: " ++ text

def line (entry : LogEntry) : String := "DEBUG " ++ entry.channel ++ ": " ++ entry.message ++ "\n"

end LogEntry

/-- All reports are of the lowest rank: the name of a level, in any case, shows them if it is that rank's or lets
everything through. -/
def showsLog (level : String) : Bool :=
  let upper := level.toList.map fun c => if c = 'ſ' then 'S' else c.toUpper
  upper = "DEBUG".toList || upper = "NOTSET".toList

end MonkeyLang
