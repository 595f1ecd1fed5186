/-
The command line: which command its arguments ask for, and what the command
writes.  Files and input are given as bytes, and what is written is a value, so
nothing here touches the world.
-/
import Scriptlet.Session
import Scriptlet.Text.Quoted
import Scriptlet.Token.Json
import Scriptlet.Tree.Printer

namespace Scriptlet.CommandLine

inductive Command where
  | tokenize (file : String) (json : Bool)
  | parse (file : String) (program : Bool)
  | evaluate (file : String)
  | run (file : String)
  | repl
deriving DecidableEq, Repr

/-- The file that a command works on. -/
def Command.file? : Command → Option String
  | tokenize file _ => some file
  | parse file _ => some file
  | evaluate file => some file
  | run file => some file
  | repl => none

structure Invocation where
  command : Command
  /-- Whether a log file is wanted. -/
  logging : Bool
deriving DecidableEq, Repr

/-- The arguments of a command, sorted: the switches, and what is none. -/
structure Arguments where
  switches : List String
  operands : List String

/-- Switches begin with a dash; behind two dashes alone there are none. -/
def Arguments.ofList : List String → Arguments
  | [] => ⟨[], []⟩
  | "--" :: rest => ⟨[], rest⟩
  | argument :: rest =>
      let others := ofList rest
      if argument.startsWith "-" && argument != "-" then
        { others with switches := argument :: others.switches }
      else { others with operands := argument :: others.operands }

/-- The command that a name, its operands and its switches stand for.  A file
has a name. -/
def command? (name : String) (operands switches : List String) : Option Command :=
  match name, operands, switches with
  | "repl", [], [] => some .repl
  | _, [""], _ => none
  | "tokenize", [file], [] => some (.tokenize file false)
  | "tokenize", [file], ["--json"] => some (.tokenize file true)
  | "parse", [file], [] => some (.parse file false)
  | "parse", [file], ["--program"] => some (.parse file true)
  | "evaluate", [file], [] => some (.evaluate file)
  | "run", [file], [] => some (.run file)
  | _, _, _ => none

/-- The log switch stands before the name of the command or behind it, at most
once at either place; a command's own switches follow its name.  Without a name
the command is `repl`, and a name never stands behind two dashes. -/
def invocation? (arguments : List String) : Option Invocation :=
  let before := arguments.takeWhile (· == "--log")
  let (name, rest) :=
    match arguments.dropWhile (· == "--log") with
    | [] => ("repl", [])
    | "--" :: rest => ("repl", "--" :: rest)
    | name :: rest => (name, rest)
  let ⟨switches, operands⟩ := Arguments.ofList rest
  let behind := switches.filter (· == "--log")
  if 1 < before.length || 1 < behind.length then none
  else
    (command? name operands (switches.filter (· != "--log"))).map fun command =>
      ⟨command, !(before ++ behind).isEmpty⟩

def usage : String :=
  "usage: [--log] [repl]\n" ++
  "       [--log] tokenize [--json] FILE\n" ++
  "       [--log] parse [--program] FILE\n" ++
  "       [--log] evaluate FILE\n" ++
  "       [--log] run FILE\n"

/-- Why a file or the input cannot be used. -/
inductive InputFault where
  | missing
  | directory
  | notText
  | other (reason : String)

def InputFault.reason : InputFault → String
  | missing => "No such file or directory (os error 2)"
  | directory => "Is a directory (os error 21)"
  | notText => "stream did not contain valid UTF-8"
  | other reason => reason

/-- What the command line is given besides its arguments. -/
structure Surroundings where
  file : String → Except InputFault ByteArray
  input : ByteArray
  clock : Clock
  /-- The bound on the steps of a run. -/
  bound : Nat

/-- What a command leaves behind. -/
structure Report where
  code : Nat
  out : String
  err : String

/-- Texts on lines of their own. -/
def lines (texts : List String) : String :=
  String.join (texts.map (· ++ "\n"))

def failureLines (failure : Failure) : String :=
  lines (failure.diagnostics.map Diagnostic.text)

/-- The report on an input that cannot be used. -/
def unusable (what : String) (fault : InputFault) : String :=
  "Error: " ++ what ++ "\n\nCaused by:\n    " ++ fault.reason ++ "\n"

def decode (bytes : ByteArray) : Except InputFault String :=
  match String.fromUTF8? bytes with
  | some text => .ok text
  | none => .error .notText

/-- The report on a step of a session; `display` writes its result. -/
def reportOn {α : Type} (display : α → String) :
    Except Failure α × Session → Report
  | (.ok value, after) => ⟨0, after.machine.sink.textFrom 0 ++ display value, ""⟩
  | (.error failure, after) =>
      ⟨failure.exitCode, after.machine.sink.textFrom 0, failureLines failure⟩

def tokenize (json : Bool) (source : String) : Report :=
  let scanned := Source.scan source
  let out :=
    if json then tokensToJson scanned.tokens ++ "\n"
    else lines (scanned.tokens.map Token.listing)
  ⟨if scanned.faults.isEmpty then 0 else 65, out,
    lines (scanned.faults.map Diagnostic.text)⟩

/-- Let a command work on the text of a file. -/
def withFile (surroundings : Surroundings) (file : String) (work : String → Report) :
    Report :=
  match surroundings.file file >>= decode with
  | .ok source => work source
  | .error fault => ⟨1, "", unusable ("Failed to read file " ++ Text.quoted file) fault⟩

/-- Lines end with a line feed, which may follow a carriage return. -/
def inputLines (bytes : ByteArray) : List ByteArray :=
  split [] bytes.toList
where
  /-- `before` holds the current line backwards. -/
  split (before : List UInt8) : List UInt8 → List ByteArray
    | [] => if before.isEmpty then [] else [⟨before.reverse.toArray⟩]
    | 10 :: rest =>
        let line := match before with
          | 13 :: text => text
          | text => text
        ⟨line.reverse.toArray⟩ :: split [] rest
    | byte :: rest => split (byte :: before) rest

/-- Write to where a session prints. -/
def say (session : Session) (text : String) : Session :=
  let ⟨machine, issued⟩ := session
  ⟨{ machine with sink := machine.sink.write text }, issued⟩

def prompt : String := "> "

/-- Answer one line of input.  A fault is reported and ends nothing. -/
def answer (bound : Nat) (session : Session) (line : String) : Session × String :=
  match session.run bound line with
  | (.ok _, after) => (after, "")
  | (.error failure, after) => (after, failureLines failure)

/-- Prompt for each line and answer it, until the input ends. -/
def converse (bound : Nat) (session : Session) (err : String) :
    List ByteArray → Report
  | [] =>
      let after := say session (prompt ++ "\n")
      ⟨0, after.machine.sink.textFrom 0, err⟩
  | bytes :: rest =>
      let prompted := say session prompt
      match decode bytes with
      | .error fault =>
          ⟨1, prompted.machine.sink.textFrom 0,
            err ++ unusable "Failed to read from stdin" fault⟩
      | .ok line =>
          let (after, complaint) := answer bound prompted line
          converse bound after (err ++ complaint) rest

def execute (surroundings : Surroundings) (command : Command) : Report :=
  let session := Session.initial .unlimited surroundings.clock
  match command with
  | .tokenize file json => withFile surroundings file (tokenize json)
  | .parse file true =>
      withFile surroundings file fun source =>
        reportOn (fun program => lines (program.map Stmt.text)) (session.readProgram source)
  | .parse file false =>
      withFile surroundings file fun source =>
        reportOn (fun expr => lines [expr.text]) (session.readExpression source)
  | .evaluate file =>
      withFile surroundings file fun source =>
        reportOn (fun value => lines [value.text]) (session.evaluate surroundings.bound source)
  | .run file =>
      withFile surroundings file fun source =>
        reportOn (fun _ => "") (session.run surroundings.bound source)
  | .repl => converse surroundings.bound session "" (inputLines surroundings.input)

end Scriptlet.CommandLine
