/-
A session takes sources one after the other.  Global names, the side table and
the count of node identities live on between them, so a function can be
declared in one source and called in the next.  A source that fails leaves the
session usable.
-/
import Scriptlet.Binding.Resolve
import Scriptlet.Machine.Evaluate
import Scriptlet.Source.Scan
import Scriptlet.Tree.Reader.Statement

namespace Scriptlet

/-- Why a source was not run to its end. -/
inductive Failure where
  /-- Faults found before anything was run. -/
  | static (faults : List Diagnostic)
  | stopped (stop : Stop)

namespace Failure

/-- The faults to report, in order. -/
def diagnostics : Failure → List Diagnostic
  | static faults => faults
  | stopped (.fault diagnostic) => [diagnostic]
  | stopped _ => []

def message (failure : Failure) : String :=
  "\n".intercalate (failure.diagnostics.map Diagnostic.text)

/-- The exit status by which a process tells what happened. -/
def exitCode : Failure → Nat
  | static _ => 65
  | stopped _ => 70

end Failure

/-- Read a source by a rule of the grammar, after so many identities were handed out.
They are used up even if it has faults; lexical faults are reported first. -/
def readSource {α : Type} (rule : Nat → Reader α) (issued : Nat) (source : String) :
    Except Failure α × Nat :=
  let scanned := Source.scan source
  let parsed := Reader.parse rule scanned.tokens issued
  let result :=
    match parsed.result with
    | .ok tree =>
        if scanned.faults.isEmpty then .ok tree else .error (.static scanned.faults)
    | .error faults => .error (.static (scanned.faults ++ faults))
  (result, parsed.issued)

structure Session where
  machine : Machine
  /-- The number of node identities handed out so far. -/
  issued : Nat

namespace Session

def initial (sink : Sink) (clock : Clock) : Session :=
  ⟨.initial sink clock, 0⟩

/-- Read a source by a rule of the grammar. -/
def read {α : Type} (rule : Nat → Reader α) (session : Session)
    (source : String) : Except Failure α × Session :=
  let (result, issued) := readSource rule session.issued source
  (result, { session with issued := issued })

def readProgram (session : Session) (source : String) :
    Except Failure (List Stmt) × Session :=
  session.read Reader.program source

def readExpression (session : Session) (source : String) :
    Except Failure Expr × Session :=
  session.read Reader.wholeExpression source

/-- Let the session's machine act. -/
def act {α : Type} (session : Session) (action : Eval α) : Except Failure α × Session :=
  let ⟨machine, issued⟩ := session
  match action machine with
  | .ok value after => (.ok value, ⟨after, issued⟩)
  | .error stop after => (.error (.stopped stop), ⟨after, issued⟩)

/-- Read, resolve and run a source as one program. -/
def run (session : Session) (bound : Nat) (source : String) :
    Except Failure Unit × Session :=
  match session.readProgram source with
  | (.error failure, after) => (.error failure, after)
  | (.ok program, after) =>
      match resolve program with
      | .error faults => (.error (.static faults), after)
      | .ok table =>
          { after with machine := after.machine.addTable table }.act
            (Eval.runProgram bound program)

/-- Read and evaluate a source as one expression.  Outside all blocks every
variable is global, so there is nothing to resolve. -/
def evaluate (session : Session) (bound : Nat) (source : String) :
    Except Failure Value × Session :=
  match session.readExpression source with
  | (.error failure, after) => (.error failure, after)
  | (.ok expr, after) => after.act (Eval.evaluate bound expr)

end Session

end Scriptlet
