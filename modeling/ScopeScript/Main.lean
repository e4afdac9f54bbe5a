import ScopeScript.CommandLine
import ScopeScript.Console

/-!
# The programs

The command that works on a file and the console are one executable, which is the console when it is
called `repl`.
-/

open ScopeScript

/-- Reads a file. -/
def readSource (path : String) : IO (Except Command.ReadFault String) := do
  try
    return Command.decode (← IO.FS.readBinFile path)
  catch e =>
    match e with
    | .noFileOrDirectory .. => return .error .missing
    | .inappropriateType .. => return .error .directory
    | e => return .error (.other (toString e))

/-- Serves the console until it ends or there is nothing more to read. -/
partial def serveConsole (console : Console) : IO UInt32 := do
  let line ← (← IO.getStdin).getLine
  if line.isEmpty then
    IO.print Console.farewell
    return 0
  match console.read .ample line with
  | none => return 1
  | some reply =>
    IO.print reply.printed
    (← IO.getStdout).flush
    IO.eprint reply.reported
    match reply.next with
    | some console => serveConsole console
    | none => return 0

/-- Works on a file. -/
def serveCommand (arguments : List String) : IO UInt32 := do
  match Command.ofArguments arguments with
  | none =>
    IO.eprint Command.usage
    return 2
  | some command =>
    let read : String → Except Command.ReadFault String ← match command with
      | .file path .. => do
        let content ← readSource path
        pure fun _ => content
      | _ => pure fun _ => .error .missing
    match command.perform .ample read with
    | none => return 1
    | some result =>
      IO.print result.printed
      IO.eprint result.reported
      return result.exit.toUInt32

/-- The executable. -/
def main (arguments : List String) : IO UInt32 := do
  if (← IO.appPath).fileStem = some "repl" then
    IO.print Console.greeting
    (← IO.getStdout).flush
    serveConsole .new
  else
    serveCommand arguments
