import SessionKeys.Server.Message

/-!
The program: a server that is configured from the environment of the process. Messages come from
standard input and are answered on standard output; the start and all events are logged on standard
error.
-/

namespace SessionKeys

/-- The variables that the process was given. -/
def givenEnvironment : IO Environment := do
  let values ← Config.variableNames.mapM fun name => do return (name, ← IO.getEnv name)
  return fun name => (values.lookup name).join

/-- Answers lines until the input ends. -/
partial def serve (e : Engine) (input output log : IO.FS.Stream) : IO Unit := do
  let line ← input.getLine
  if line.isEmpty then return
  let reply := Server.respond e line
  for event in reply.events do log.putStrLn event.line
  if let some answer := reply.line then
    output.putStrLn answer
    output.flush
  serve reply.engine input output log

/-- Starts a server and runs it to the end of its input; gives the exit code. -/
def runProgram : IO UInt32 := do
  let log ← IO.getStderr
  match Server.start (← givenEnvironment) with
  | .error e =>
    log.putStrLn (Server.fatalLine e)
    return 1
  | .ok e =>
    log.putStrLn (Server.startedLine e.config)
    serve e (← IO.getStdin) (← IO.getStdout) log
    return 0

end SessionKeys

def main : IO UInt32 :=
  SessionKeys.runProgram
