/-
Running programs by the rule of lexical scoping, without side table.

Every declaration of a local name makes a cell of its own, and the cells that
code can see are passed along with it: a function closes over those that were
declared before it, and itself.  A name that no scope around an occurrence
declares is global.
-/
import Scriptlet.Proofs.Session.Steps

namespace Scriptlet.Reference

/-- The local scopes around a place, innermost first, and in each of them the
names declared so far, the last one first, with their cells. -/
abbrev Env := List (List (String × Nat))

/-- The cell that a name denotes. -/
def Env.find? (env : Env) (name : String) : Option Nat :=
  env.findSome? (·.lookup name)

/-- Declare a name in the innermost scope; global names have no cells. -/
def Env.bind (name : String) (cell : Nat) : Env → Env
  | [] => []
  | names :: outer => ((name, cell) :: names) :: outer

structure Store extends Outside where
  globals : List (String × ValueIn Env)
  cells : List (ValueIn Env)

instance : HasOutside Store where
  outside := Store.toOutside
  modifyOutside change store := { store with toOutside := change store.toOutside }

abbrev Run := EStateM Stop Store

namespace Run

open Eval (fail lift freshIdentity deeper printLine flush callHost checkCall)

/-- Make a cell for a name that is declared. -/
def declare (env : Env) (name : String) : Run Env := fun store =>
  match env with
  | [] => .ok [] store
  | _ :: _ => .ok (env.bind name store.cells.length) { store with cells := store.cells ++ [.nil] }

/-- Give a name its value, where it is declared. -/
def define (env : Env) (name : String) (value : ValueIn Env) : Run Unit :=
  modify fun store =>
    match env.find? name with
    | some cell => { store with cells := store.cells.set cell value }
    | none => { store with globals := bindName name value store.globals }

def read (env : Env) (name : Token) : Run (ValueIn Env) := fun store =>
  match env.find? name.lexeme with
  | some cell => .ok (store.cells.getD cell .nil) store
  | none =>
      match store.globals.lookup name.lexeme with
      | some value => .ok value store
      | none => fail name (.undefinedVariable name.lexeme) store

/-- Change a variable.  A global must have been declared. -/
def assign (env : Env) (name : Token) (value : ValueIn Env) : Run Unit := fun store =>
  match env.find? name.lexeme with
  | some cell => .ok () { store with cells := store.cells.set cell value }
  | none =>
      match store.globals.lookup name.lexeme with
      | some _ => .ok () { store with globals := bindName name.lexeme value store.globals }
      | none => fail name (.undefinedVariable name.lexeme) store

/-- The scope of a call: the parameters, declared one after the other inside the
scopes of the function. -/
def openFrame (env : Env) : List (String × ValueIn Env) → Run Env
  | [] => return env
  | (name, value) :: rest => do
      let inside ← declare env name
      define inside name value
      openFrame inside rest

mutual

def evaluate : Nat → Env → Expr → Run (ValueIn Env)
  | 0, _, _ => throw .exhausted
  | bound + 1, env, expr =>
      match expr with
      | .constant value => return .ofConstant value
      | .group inner => evaluate bound env inner
      | .unary operator operand => do
          lift operator (Operator.unary operator (← evaluate bound env operand))
      | .binary left operator right => do
          let a ← evaluate bound env left
          let b ← evaluate bound env right
          lift operator (Operator.binary operator a b)
      | .logical left operator right => do
          let a ← evaluate bound env left
          if Operator.decides operator a then return a else evaluate bound env right
      | .variable _ name => read env name
      | .assign _ name value => do
          let result ← evaluate bound env value
          assign env name result
          return result
      | .call callee paren arguments => do
          let target ← evaluate bound env callee
          let values ← evaluateAll bound env arguments
          let function ← checkCall target values paren
          deeper (call bound function values paren)

def evaluateAll : Nat → Env → List Expr → Run (List (ValueIn Env))
  | 0, _, _ => throw .exhausted
  | _ + 1, _, [] => return []
  | bound + 1, env, first :: rest => do
      let value ← evaluate bound env first
      let values ← evaluateAll bound env rest
      return value :: values

def call : Nat → CallableIn Env → List (ValueIn Env) → Token → Run (ValueIn Env)
  | 0, _, _, _ => throw .exhausted
  | _ + 1, .host function, arguments, paren => callHost function arguments paren
  | bound + 1, .closure function, arguments, _ => do
      let names := function.params.map Token.lexeme
      let env ← openFrame ([] :: function.scope) (names.zip arguments)
      match ← executeAll bound env function.body with
      | .leave value => return value
      | .normal => return .nil

/-- Run a statement, which changes the scopes around what follows by what it
declares. -/
def execute : Nat → Env → Stmt → Run (Flow (ValueIn Env) × Env)
  | 0, _, _ => throw .exhausted
  | bound + 1, env, stmt =>
      match stmt with
      | .expression value => do
          let _ ← evaluate bound env value
          return (.normal, env)
      | .print value => do
          printLine (← evaluate bound env value).text
          return (.normal, env)
      | .declare name none => do
          let inside ← declare env name.lexeme
          define inside name.lexeme .nil
          return (.normal, inside)
      | .declare name (some initial) => do
          let inside ← declare env name.lexeme
          define inside name.lexeme (← evaluate bound inside initial)
          return (.normal, inside)
      | .block body => do
          return (← executeAll bound ([] :: env) body, env)
      | .branch condition whenTrue whenFalse => do
          if (← evaluate bound env condition).isTruthy then
            return ((← execute bound env whenTrue).1, env)
          else
            match whenFalse with
            | some other => return ((← execute bound env other).1, env)
            | none => return (.normal, env)
      | .loop condition body => do
          if (← evaluate bound env condition).isTruthy then
            match (← execute bound env body).1 with
            | .leave value => return (.leave value, env)
            | .normal => execute bound env stmt
          else return (.normal, env)
      | .function name params body => do
          let identity ← freshIdentity
          let inside ← declare env name.lexeme
          define inside name.lexeme (.closure ⟨name, params, body, inside, identity⟩)
          return (.normal, inside)
      | .leave _ none => return (.leave .nil, env)
      | .leave _ (some value) => return (.leave (← evaluate bound env value), env)

/-- Run statements until one leaves the function they are in. -/
def executeAll : Nat → Env → List Stmt → Run (Flow (ValueIn Env))
  | 0, _, _ => throw .exhausted
  | _ + 1, _, [] => return .normal
  | bound + 1, env, first :: rest => do
      match ← execute bound env first with
      | (.leave value, _) => return .leave value
      | (.normal, inside) => executeAll bound inside rest

end

/-- Run the statements of a program, outside all local scopes. -/
def runAll (bound : Nat) : List Stmt → Run Unit
  | [] => return ()
  | first :: rest => do
      let _ ← execute bound [] first
      runAll bound rest

def runProgram (bound : Nat) (program : List Stmt) : Run Unit := do
  runAll bound program
  flush

end Run

/-- A session with a store in place of the machine.  Sources are read and resolved
as ever, but what the resolver finds out is only good for rejecting a source. -/
structure Session where
  store : Store
  issued : Nat

namespace Session

def initial (sink : Sink) (clock : Clock) : Session where
  store :=
    { sink := sink, depth := 0, clock := clock, nextIdentity := 1, cells := []
      globals := [(HostAction.clock.name, .host ⟨.clock, 0, 0⟩)] }
  issued := 0

def act {α : Type} (session : Session) (action : Run α) : Except Failure α × Session :=
  match action session.store with
  | .ok value after => (.ok value, { session with store := after })
  | .error stop after => (.error (.stopped stop), { session with store := after })

def read {α : Type} (rule : Nat → Reader α) (session : Session) (source : String) :
    Except Failure α × Session :=
  let (result, issued) := readSource rule session.issued source
  (result, { session with issued := issued })

def run (session : Session) (bound : Nat) (source : String) : Except Failure Unit × Session :=
  match session.read Reader.program source with
  | (.error failure, after) => (.error failure, after)
  | (.ok program, after) =>
      match resolve program with
      | .error faults => (.error (.static faults), after)
      | .ok _ => after.act (Run.runProgram bound program)

def evaluate (session : Session) (bound : Nat) (source : String) :
    Except Failure (ValueIn Env) × Session :=
  match session.read Reader.wholeExpression source with
  | (.error failure, after) => (.error failure, after)
  | (.ok expr, after) => after.act (Run.evaluate bound [] expr)

def perform (session : Session) : Step → Answer Env × Session
  | .run bound source =>
      let (result, after) := session.run bound source
      (result.map fun _ => .done, after)
  | .evaluate bound source =>
      let (result, after) := session.evaluate bound source
      (result.map .value, after)
  | .readProgram source =>
      let (result, after) := session.read Reader.program source
      (result.map .program, after)
  | .readExpression source =>
      let (result, after) := session.read Reader.wholeExpression source
      (result.map .expression, after)

def transcript (session : Session) : List Step → List (Answer Env × Outside)
  | [] => []
  | step :: rest =>
      let (answer, after) := session.perform step
      (answer, after.store.toOutside) :: after.transcript rest

end Session

end Scriptlet.Reference
