/-
The program: it reads arguments, files and standard input, lets the command
line decide, and writes what comes out.
-/
import Mathlib
import Scriptlet.CommandLine

namespace Scriptlet

/-- More steps than any run takes. -/
def stepBound : Nat := Nat.pow 2 62

def readFile (file : String) : IO (Except CommandLine.InputFault ByteArray) := do
  try
    return .ok (← IO.FS.readBinFile file)
  catch fault =>
    match fault with
    | .noFileOrDirectory .. => return .error .missing
    | .inappropriateType .. => return .error .directory
    | other => return .error (.other (toString other))

/-- The bytes up to the next line feed, and whether there was one. -/
partial def readLine (input : IO.FS.Stream) (before : ByteArray) : IO (ByteArray × Bool) := do
  let byte ← input.read 1
  if byte.isEmpty then return (before, false)
  else if byte.data.contains 10 then return (before ++ byte, true)
  else readLine input (before ++ byte)

/-- Show what was printed behind the first `shown` bytes. -/
def showNew (session : Session) (shown : Nat) : IO Nat := do
  let output ← IO.getStdout
  output.putStr (session.machine.sink.textFrom shown)
  output.flush
  return session.machine.sink.written.size

/-- The clock of a run that begins now.  No run can look at the time while it lasts, so a
millisecond passes with each of its host calls. -/
def hostClock : IO Clock := do
  let now ← Std.Time.Timestamp.now
  return .ticking now.toMillisecondsSinceUnixEpoch.toInt

/-- Answer lines as they come in. -/
partial def converse (session : Session) (shown : Nat) : IO UInt32 := do
  let prompted := CommandLine.say session CommandLine.prompt
  let shown ← showNew prompted shown
  let (bytes, more) ← readLine (← IO.getStdin) .empty
  match CommandLine.inputLines bytes with
  | [] =>
      IO.println ""
      return 0
  | line :: _ =>
      match CommandLine.decode line with
      | .error fault =>
          (← IO.getStderr).putStr (CommandLine.unusable "Failed to read from stdin" fault)
          return 1
      | .ok text =>
          let machine := { prompted.machine with clock := ← hostClock }
          let (after, complaint) :=
            CommandLine.answer stepBound { prompted with machine := machine } text
          let shown ← showNew after shown
          (← IO.getStderr).putStr complaint
          if more then converse after shown
          else
            IO.println CommandLine.prompt
            return 0

def runCommand (command : CommandLine.Command) : IO UInt32 := do
  let clock ← hostClock
  match command.file? with
  | none => converse (.initial .unlimited clock) 0
  | some file =>
      let content ← readFile file
      let report := CommandLine.execute ⟨fun _ => content, .empty, clock, stepBound⟩ command
      (← IO.getStdout).putStr report.out
      (← IO.getStderr).putStr report.err
      return UInt32.ofNat report.code

end Scriptlet

def main (arguments : List String) : IO UInt32 := do
  match Scriptlet.CommandLine.invocation? arguments with
  | none =>
      (← IO.getStderr).putStr Scriptlet.CommandLine.usage
      return 2
  | some invocation =>
      if invocation.logging then IO.FS.writeFile "app.log" ""
      Scriptlet.runCommand invocation.command
