/-
Running programs in which a `for` is a node of its own.

A `for` opens one scope, runs its first clause there once, and then goes round in that scope:
condition, body, increment.  Names are resolved for trees of this form, so no scope is counted
that is not opened.
-/
import Scriptlet.Proofs.Loops.Written
import Scriptlet.Proofs.Session.Steps

namespace Scriptlet.Loops

/-! ### Resolving -/

section Resolving

open Binding

def inOptional (scopes : Scopes) : Option Expr → Findings
  | none => .empty
  | some value => inExpr scopes none value

/-- A variable, and the scopes behind it. -/
def inVariable (scopes : Scopes) (name : Token) : Option Expr → Findings × Scopes
  | none => (redeclaration scopes name, declare scopes name.lexeme)
  | some initial =>
      let inside := declare scopes name.lexeme
      (redeclaration scopes name ++ inExpr inside (pendingOf scopes name.lexeme) initial, inside)

def inClause (scopes : Scopes) : Option Clause → Findings × Scopes
  | none => (.empty, scopes)
  | some (.declare name initial) => inVariable scopes name initial
  | some (.expression value) => (inExpr scopes none value, scopes)

mutual

def inStatement (inFunction : Bool) (scopes : Scopes) : Statement → Findings
  | .expression value => inExpr scopes none value
  | .print value => inExpr scopes none value
  | .block body => inDeclarations inFunction ([] :: scopes) body
  | .branch condition whenTrue none =>
      inExpr scopes none condition ++ inStatement inFunction scopes whenTrue
  | .branch condition whenTrue (some whenFalse) =>
      inExpr scopes none condition ++ inStatement inFunction scopes whenTrue ++
        inStatement inFunction scopes whenFalse
  | .loop condition body => inExpr scopes none condition ++ inStatement inFunction scopes body
  | .for_ initial condition increment body =>
      let (found, inside) := inClause ([] :: scopes) initial
      found ++ (inOptional inside condition ++
        (inStatement inFunction inside body ++ inOptional inside increment))
  | .leave keyword value =>
      (if inFunction then .empty else .fault keyword .returnOutsideFunction) ++
        inOptional scopes value

/-- A declaration, and the scopes behind it. -/
def inDeclaration (inFunction : Bool) (scopes : Scopes) : Declaration → Findings × Scopes
  | .declare name initial => inVariable scopes name initial
  | .function name params body =>
      let inside := declare scopes name.lexeme
      let (foundParams, bodyScopes) := inParams ([] :: inside) params
      (redeclaration scopes name ++ foundParams ++ inDeclarations true bodyScopes body, inside)
  | .statement statement => (inStatement inFunction scopes statement, scopes)

def inDeclarations (inFunction : Bool) (scopes : Scopes) : List Declaration → Findings
  | [] => .empty
  | first :: rest =>
      (inDeclaration inFunction scopes first).1 ++
        inDeclarations inFunction (inDeclaration inFunction scopes first).2 rest

end

/-- The side table of a program in this form, or all its binding faults. -/
def resolve (program : List Declaration) : Except (List Diagnostic) Table :=
  let found := inDeclarations false [] program
  if found.faults.isEmpty then .ok (.ofList found.entries) else .error found.faults

end Resolving

/-! ### Running -/

/-- Where a function was declared: in which scope, and with which body. -/
structure Site where
  scope : Nat
  body : List Declaration

structure State extends Outside where
  scopes : ScopeTree (ValueIn Site)
  current : Nat
  table : Table

instance : HasOutside State where
  outside := State.toOutside
  modifyOutside change state := { state with toOutside := change state.toOutside }

abbrev Run := EStateM Stop State

namespace Run

open Eval (fail lift freshIdentity deeper printLine flush callHost checkCall)

def define (name : String) (value : ValueIn Site) : Run Unit :=
  modify fun state => { state with scopes := state.scopes.define state.current name value }

def readVariable (id : NodeId) (name : Token) : Run (ValueIn Site) := fun state =>
  match state.table.distance? id with
  | some distance =>
      match state.scopes.readAt state.current distance name.lexeme with
      | .ok value => .ok value state
      | .error defect => .error (.defect defect) state
  | none =>
      match state.scopes.lookup? Machine.globals name.lexeme with
      | some value => .ok value state
      | none => fail name (.undefinedVariable name.lexeme) state

def assignmentScope (id : NodeId) (name : Token) : Run Nat := fun state =>
  match state.table.distance? id with
  | some distance =>
      match state.scopes.scopeAt state.current distance with
      | .ok target => .ok target state
      | .error defect => .error (.defect defect) state
  | none =>
      match state.scopes.holder? name.lexeme Machine.globals with
      | some target => .ok target state
      | none => fail name (.undefinedVariable name.lexeme) state

def writeVariable (id : NodeId) (name : Token) (value : ValueIn Site) : Run Unit := do
  let target ← assignmentScope id name
  modify fun state => { state with scopes := state.scopes.define target name.lexeme value }

def openScope (parent : Nat) : Run Nat := fun state =>
  .ok state.scopes.size { state with scopes := state.scopes.child parent }

def within {α : Type} (scope : Nat) (action : Run α) : Run α := fun state =>
  let outside := state.current
  match action { state with current := scope } with
  | .ok value after => .ok value { after with current := outside }
  | .error stop after => .error stop { after with current := outside }

def openFrame (function : ClosureIn Site) (arguments : List (ValueIn Site)) : Run Nat := do
  let frame ← openScope function.scope.scope
  modify fun state =>
    { state with
      scopes := state.scopes.defineAll frame (function.params.map Token.lexeme) arguments }
  return frame

section Clauses

variable (evaluate : Expr → Run (ValueIn Site)) (execute : Statement → Run (Flow (ValueIn Site)))

def declare (name : Token) : Option Expr → Run Unit
  | none => define name.lexeme .nil
  | some initial => do define name.lexeme (← evaluate initial)

/-- The first clause of a `for`. -/
def enter : Option Clause → Run Unit
  | none => return ()
  | some (.declare name initial) => declare evaluate name initial
  | some (.expression value) => do let _ ← evaluate value

/-- Whether there is another round; without a condition there always is. -/
def goesOn : Option Expr → Run Bool
  | none => return true
  | some condition => return (← evaluate condition).isTruthy

/-- The end of a round. -/
def advance : Option Expr → Run Unit
  | none => return ()
  | some increment => do let _ ← evaluate increment

def perform : Declaration → Run (Flow (ValueIn Site))
  | .declare name initial => do
      declare evaluate name initial
      return .normal
  | .function name params body => do
      let identity ← freshIdentity
      let scope := (← get).current
      define name.lexeme (.closure ⟨name, params, rewriteAll body, ⟨scope, body⟩, identity⟩)
      return .normal
  | .statement statement => execute statement

end Clauses

mutual

def evaluate : Nat → Expr → Run (ValueIn Site)
  | 0, _ => throw .exhausted
  | bound + 1, expr =>
      match expr with
      | .constant value => return .ofConstant value
      | .group inner => evaluate bound inner
      | .unary operator operand => do
          lift operator (Operator.unary operator (← evaluate bound operand))
      | .binary left operator right => do
          let a ← evaluate bound left
          let b ← evaluate bound right
          lift operator (Operator.binary operator a b)
      | .logical left operator right => do
          let a ← evaluate bound left
          if Operator.decides operator a then return a else evaluate bound right
      | .variable id name => readVariable id name
      | .assign id name value => do
          let result ← evaluate bound value
          writeVariable id name result
          return result
      | .call callee paren arguments => do
          let target ← evaluate bound callee
          let values ← evaluateAll bound arguments
          let function ← checkCall target values paren
          deeper (call bound function values paren)

def evaluateAll : Nat → List Expr → Run (List (ValueIn Site))
  | 0, _ => throw .exhausted
  | _ + 1, [] => return []
  | bound + 1, first :: rest => do
      let value ← evaluate bound first
      let values ← evaluateAll bound rest
      return value :: values

def call : Nat → CallableIn Site → List (ValueIn Site) → Token → Run (ValueIn Site)
  | 0, _, _, _ => throw .exhausted
  | _ + 1, .host function, arguments, paren => callHost function arguments paren
  | bound + 1, .closure function, arguments, _ => do
      let frame ← openFrame function arguments
      match ← within frame (performAll bound function.scope.body) with
      | .leave value => return value
      | .normal => return .nil

def execute : Nat → Statement → Run (Flow (ValueIn Site))
  | 0, _ => throw .exhausted
  | bound + 1, statement =>
      match statement with
      | .expression value => do
          let _ ← evaluate bound value
          return .normal
      | .print value => do
          printLine (← evaluate bound value).text
          return .normal
      | .block body => do
          let scope ← openScope (← get).current
          within scope (performAll bound body)
      | .branch condition whenTrue whenFalse => do
          if (← evaluate bound condition).isTruthy then execute bound whenTrue
          else
            match whenFalse with
            | some other => execute bound other
            | none => return .normal
      | .loop condition body => do
          if (← evaluate bound condition).isTruthy then
            match ← execute bound body with
            | .leave value => return .leave value
            | .normal => execute bound statement
          else return .normal
      | .for_ initial condition increment body => do
          let scope ← openScope (← get).current
          within scope do
            enter (evaluate bound) initial
            rounds bound condition increment body
      | .leave _ none => return .leave .nil
      | .leave _ (some value) => return .leave (← evaluate bound value)

/-- The rounds of a `for` from the next one on. -/
def rounds : Nat → Option Expr → Option Expr → Statement → Run (Flow (ValueIn Site))
  | 0, _, _, _ => throw .exhausted
  | bound + 1, condition, increment, body => do
      if ← goesOn (evaluate bound) condition then
        match ← execute bound body with
        | .leave value => return .leave value
        | .normal => do
            advance (evaluate bound) increment
            rounds bound condition increment body
      else return .normal

def performAll : Nat → List Declaration → Run (Flow (ValueIn Site))
  | 0, _ => throw .exhausted
  | _ + 1, [] => return .normal
  | bound + 1, first :: rest => do
      match ← perform (evaluate bound) (execute bound) first with
      | .leave value => return .leave value
      | .normal => performAll bound rest

end

def runAll (bound : Nat) : List Declaration → Run Unit
  | [] => return ()
  | first :: rest => do
      let _ ← perform (evaluate bound) (execute bound) first
      runAll bound rest

def runProgram (bound : Nat) (program : List Declaration) : Run Unit := fun state =>
  match runAll bound program state with
  | .ok _ after => flush after
  | .error stop after => .error stop { after with current := Machine.globals }

end Run

/-! ### Sessions -/

/-- A session that reads, resolves and runs trees in this form. -/
structure Session where
  state : State
  issued : Nat

namespace Session

def initial (sink : Sink) (clock : Clock) : Session where
  state :=
    { scopes :=
        ScopeTree.empty.root.define Machine.globals HostAction.clock.name (.host ⟨.clock, 0, 0⟩)
      current := Machine.globals
      table := .empty
      sink := sink
      depth := 0
      clock := clock
      nextIdentity := 1 }
  issued := 0

def act {α : Type} (session : Session) (action : Run α) : Except Failure α × Session :=
  match action session.state with
  | .ok value after => (.ok value, { session with state := after })
  | .error stop after => (.error (.stopped stop), { session with state := after })

def read {α : Type} (rule : Nat → Reader α) (session : Session) (source : String) :
    Except Failure α × Session :=
  let (result, issued) := readSource rule session.issued source
  (result, { session with issued := issued })

def run (session : Session) (bound : Nat) (source : String) : Except Failure Unit × Session :=
  match session.read program source with
  | (.error failure, after) => (.error failure, after)
  | (.ok program, after) =>
      match resolve program with
      | .error faults => (.error (.static faults), after)
      | .ok table =>
          { after with state := { after.state with table := after.state.table.merge table } }.act
            (Run.runProgram bound program)

def evaluate (session : Session) (bound : Nat) (source : String) :
    Except Failure (ValueIn Site) × Session :=
  match session.read Reader.wholeExpression source with
  | (.error failure, after) => (.error failure, after)
  | (.ok expr, after) => after.act (Run.evaluate bound expr)

def perform (session : Session) : Step → Answer Site × Session
  | .run bound source =>
      let (result, after) := session.run bound source
      (result.map fun _ => .done, after)
  | .evaluate bound source =>
      let (result, after) := session.evaluate bound source
      (result.map .value, after)
  | .readProgram source =>
      let (result, after) := session.read program source
      (result.map fun body => .program (rewriteAll body), after)
  | .readExpression source =>
      let (result, after) := session.read Reader.wholeExpression source
      (result.map .expression, after)

/-- The session behind some steps, whether they failed or not. -/
def afterSteps (session : Session) : List Step → Session
  | [] => session
  | step :: rest => (session.perform step).2.afterSteps rest

/-- The answers to some steps, each with the outside as the step left it. -/
def transcript (session : Session) : List Step → List (Answer Site × Outside)
  | [] => []
  | step :: rest =>
      let (answer, after) := session.perform step
      (answer, after.state.toOutside) :: after.transcript rest

end Session

end Scriptlet.Loops
