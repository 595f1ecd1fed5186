/-
Running programs.

The functions recurse on a bound for the number of steps, of which every
evaluation uses at most one for each level it descends and each round of a
loop it makes.  A run that ends does so with every larger bound in the same
way.
-/
import Scriptlet.Machine.Basic

namespace Scriptlet

/-- How a statement ends: falling through, or leaving the function it is in. -/
inductive Flow (α : Type) where
  | normal
  | leave (value : α)

namespace Eval

/-- The scope of a call: inside the scope of the declaration, with the
arguments bound to the parameters. -/
def openFrame (function : Closure) (arguments : List Value) : Eval Nat := do
  let frame ← openScope function.scope
  modify fun machine =>
    { machine with
      scopes := machine.scopes.defineAll frame (function.params.map Token.lexeme) arguments }
  return frame

mutual

def evaluate : Nat → Expr → Eval Value
  | 0, _ => throw .exhausted
  | bound + 1, expr =>
      match expr with
      | .constant value => return .ofConstant value
      | .group inner => evaluate bound inner
      | .unary operator operand => do
          lift operator (Operator.unary operator (← evaluate bound operand))
      | .binary left operator right => do
          let a ← evaluate bound left
          let b ← evaluate bound right
          lift operator (Operator.binary operator a b)
      | .logical left operator right => do
          let a ← evaluate bound left
          if Operator.decides operator a then return a else evaluate bound right
      | .variable id name => readVariable id name
      | .assign id name value => do
          let result ← evaluate bound value
          writeVariable id name result
          return result
      | .call callee paren arguments => do
          let target ← evaluate bound callee
          let values ← evaluateAll bound arguments
          let function ← checkCall target values paren
          deeper (call bound function values paren)

/-- Values of expressions, from first to last. -/
def evaluateAll : Nat → List Expr → Eval (List Value)
  | 0, _ => throw .exhausted
  | _ + 1, [] => return []
  | bound + 1, first :: rest => do
      let value ← evaluate bound first
      let values ← evaluateAll bound rest
      return value :: values

/-- Run the body of a function in a scope of its own. -/
def call : Nat → Callable → List Value → Token → Eval Value
  | 0, _, _, _ => throw .exhausted
  | _ + 1, .host function, arguments, paren => callHost function arguments paren
  | bound + 1, .closure function, arguments, _ => do
      let frame ← openFrame function arguments
      match ← within frame (executeAll bound function.body) with
      | .leave value => return value
      | .normal => return .nil

def execute : Nat → Stmt → Eval (Flow Value)
  | 0, _ => throw .exhausted
  | bound + 1, stmt =>
      match stmt with
      | .expression value => do
          let _ ← evaluate bound value
          return .normal
      | .print value => do
          printLine (← evaluate bound value).text
          return .normal
      | .declare name none => do
          define name.lexeme .nil
          return .normal
      | .declare name (some initial) => do
          define name.lexeme (← evaluate bound initial)
          return .normal
      | .block body => do
          let scope ← openScope (← get).current
          within scope (executeAll bound body)
      | .branch condition whenTrue whenFalse => do
          if (← evaluate bound condition).isTruthy then execute bound whenTrue
          else
            match whenFalse with
            | some other => execute bound other
            | none => return .normal
      | .loop condition body => do
          if (← evaluate bound condition).isTruthy then
            match ← execute bound body with
            | .leave value => return .leave value
            | .normal => execute bound stmt
          else return .normal
      | .function name params body => do
          let identity ← freshIdentity
          let scope := (← get).current
          define name.lexeme (.closure ⟨name, params, body, scope, identity⟩)
          return .normal
      | .leave _ none => return .leave .nil
      | .leave _ (some value) => return .leave (← evaluate bound value)

/-- Run statements until one leaves the function they are in. -/
def executeAll : Nat → List Stmt → Eval (Flow Value)
  | 0, _ => throw .exhausted
  | _ + 1, [] => return .normal
  | bound + 1, first :: rest => do
      match ← execute bound first with
      | .leave value => return .leave value
      | .normal => executeAll bound rest

end

/-- Run the statements of a program; none of them can leave it. -/
def runAll (bound : Nat) : List Stmt → Eval Unit
  | [] => return ()
  | first :: rest => do
      let _ ← execute bound first
      runAll bound rest

/-- Run a program.  After a fault the machine is ready for the next one; what
was printed is flushed only without one. -/
def runProgram (bound : Nat) (program : List Stmt) : Eval Unit := fun machine =>
  match runAll bound program machine with
  | .ok _ after => flush after
  | .error stop after => .error stop { after with current := Machine.globals }

end Eval

end Scriptlet
