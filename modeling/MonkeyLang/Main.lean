import MonkeyLang.CommandLine

/-! The executable: reads the arguments, files and lines that the command line asks for and writes what it
answers. -/

namespace MonkeyLang

/-- The name of the user, from the variables that may hold it. -/
def userName : IO (Option String) := do
  for source in ["LOGNAME", "USER", "LNAME", "USERNAME"] do
    match ← IO.getEnv source with
    | some "" | none => continue
    | some name => return some name
  return none

def readFile (path : String) : IO (Except FileFault (List UInt8)) := do
  if path.toList.contains '\x00' then return .error .nullCharacter
  try
    return .ok (← IO.FS.readBinFile path).toList
  catch
    | .noFileOrDirectory _ _ _ => return .error (.missing path)
    | .inappropriateType _ 21 _ => return .error (.directory path)
    | .inappropriateType _ _ _ => return .error (.notDirectory path)
    | failure => return .error (.refused (toString failure))

def write (report : Report) : IO UInt32 := do
  IO.print report.output
  IO.eprint report.errors
  match report.status with
  | .ok status => return status.toUInt32
  | .error failure =>
    IO.eprintln failure.message
    return 1

/-- Reads and answers lines until the session ends. -/
partial def converse (options : Options) (level : Option String) (session : Session) : IO UInt32 := do
  IO.print Session.prompt
  (← IO.getStdout).flush
  let typed ← (← IO.getStdin).getLine
  if typed = "" then
    IO.print ("\n" ++ Session.farewell)
    return 0
  let reply := session.respond defaultLimit typed
  IO.eprint (CommandLine.logText options level reply.log)
  IO.print reply.output
  match reply.next with
  | .goOn => converse options level reply.session
  | .close => return 0
  | .fail failure =>
    IO.eprintln failure.message
    return 1

end MonkeyLang

open MonkeyLang in
def main (arguments : List String) : IO UInt32 := do
  let level ← IO.getEnv "MONKEY_LOG_LEVEL"
  let user ← userName
  match Invocation.ofArguments arguments with
  | .start options =>
    match CommandLine.source? options with
    | none =>
      IO.print (Session.greeting user)
      converse options level (.fresh options.mode)
    | some source =>
      let content ← if options.isString then pure (.ok []) else readFile source
      write (CommandLine.run defaultLimit ⟨fun _ => content, [], user, level⟩ arguments)
  | _ => write (CommandLine.run defaultLimit ⟨fun _ => .error .nullCharacter, [], user, level⟩ arguments)
