/-
Running programs by the names alone, without side table.

Whatever the code reads or assigns is looked for from the scope where it runs, outward
along the chain of scopes.  All else is done as ever, on the same machine.
-/
import Scriptlet.Proofs.Runs.Moments

namespace Scriptlet.Walk

open Eval

/-- Read a variable: the nearest binding of its name. -/
def readVariable (name : Token) : Eval Value := fun machine =>
  match machine.scopes.lookup? machine.current name.lexeme with
  | some value => .ok value machine
  | none => fail name (.undefinedVariable name.lexeme) machine

/-- Assign a variable: the nearest binding of its name. -/
def writeVariable (name : Token) (value : Value) : Eval Unit := fun machine =>
  match machine.scopes.assign? machine.current name.lexeme value with
  | some scopes => .ok () { machine with scopes := scopes }
  | none => fail name (.undefinedVariable name.lexeme) machine

mutual

def evaluate : Nat → Expr → Eval Value
  | 0, _ => throw .exhausted
  | bound + 1, expr =>
      match expr with
      | .constant value => return .ofConstant value
      | .group inner => evaluate bound inner
      | .unary operator operand => do
          lift operator (Operator.unary operator (← evaluate bound operand))
      | .binary left operator right => do
          let a ← evaluate bound left
          let b ← evaluate bound right
          lift operator (Operator.binary operator a b)
      | .logical left operator right => do
          let a ← evaluate bound left
          if Operator.decides operator a then return a else evaluate bound right
      | .variable _ name => readVariable name
      | .assign _ name value => do
          let result ← evaluate bound value
          writeVariable name result
          return result
      | .call callee paren arguments => do
          let target ← evaluate bound callee
          let values ← evaluateAll bound arguments
          let function ← checkCall target values paren
          deeper (call bound function values paren)

def evaluateAll : Nat → List Expr → Eval (List Value)
  | 0, _ => throw .exhausted
  | _ + 1, [] => return []
  | bound + 1, first :: rest => do
      let value ← evaluate bound first
      let values ← evaluateAll bound rest
      return value :: values

def call : Nat → Callable → List Value → Token → Eval Value
  | 0, _, _, _ => throw .exhausted
  | _ + 1, .host function, arguments, paren => callHost function arguments paren
  | bound + 1, .closure function, arguments, _ => do
      let frame ← openFrame function arguments
      match ← within frame (executeAll bound function.body) with
      | .leave value => return value
      | .normal => return .nil

def execute : Nat → Stmt → Eval (Flow Value)
  | 0, _ => throw .exhausted
  | bound + 1, stmt =>
      match stmt with
      | .expression value => do
          let _ ← evaluate bound value
          return .normal
      | .print value => do
          printLine (← evaluate bound value).text
          return .normal
      | .declare name none => do
          define name.lexeme .nil
          return .normal
      | .declare name (some initial) => do
          define name.lexeme (← evaluate bound initial)
          return .normal
      | .block body => do
          let scope ← openScope (← get).current
          within scope (executeAll bound body)
      | .branch condition whenTrue whenFalse => do
          if (← evaluate bound condition).isTruthy then execute bound whenTrue
          else
            match whenFalse with
            | some other => execute bound other
            | none => return .normal
      | .loop condition body => do
          if (← evaluate bound condition).isTruthy then
            match ← execute bound body with
            | .leave value => return .leave value
            | .normal => execute bound stmt
          else return .normal
      | .function name params body => do
          let identity ← freshIdentity
          let scope := (← get).current
          define name.lexeme (.closure ⟨name, params, body, scope, identity⟩)
          return .normal
      | .leave _ none => return .leave .nil
      | .leave _ (some value) => return .leave (← evaluate bound value)

def executeAll : Nat → List Stmt → Eval (Flow Value)
  | 0, _ => throw .exhausted
  | _ + 1, [] => return .normal
  | bound + 1, first :: rest => do
      match ← execute bound first with
      | .leave value => return .leave value
      | .normal => executeAll bound rest

end

def runAll (bound : Nat) : List Stmt → Eval Unit
  | [] => return ()
  | first :: rest => do
      let _ ← execute bound first
      runAll bound rest

def runProgram (bound : Nat) (program : List Stmt) : Eval Unit := fun machine =>
  match runAll bound program machine with
  | .ok _ after => flush after
  | .error stop after => .error stop { after with current := Machine.globals }

end Scriptlet.Walk

namespace Scriptlet

/-- Do the work by the names alone. -/
def Task.walk (bound : Nat) : (task : Task) → Eval task.Result
  | evaluate expr => Walk.evaluate bound expr
  | evaluateAll exprs => Walk.evaluateAll bound exprs
  | call callee arguments paren => Walk.call bound callee arguments paren
  | execute stmt => Walk.execute bound stmt
  | executeAll stmts => Walk.executeAll bound stmts
  | inScope scope stmts => Eval.within scope (Walk.executeAll bound stmts)
  | program stmts => Walk.runAll bound stmts

end Scriptlet
