/-
The moments of a run.

The evaluator is a function, and a theorem about its results says nothing about the way
there.  A moment is a piece of work that the evaluator is about to begin, with the machine
it finds; from a moment the run enters those of the parts of the work, each when the parts
before it have ended well.
-/
import Mathlib.Logic.Relation
import Scriptlet.Machine.Evaluate

namespace Scriptlet

/-- What the evaluator can be at. -/
inductive Task where
  | evaluate (expr : Expr)
  | evaluateAll (exprs : List Expr)
  | call (callee : Callable) (arguments : List Value) (paren : Token)
  | execute (stmt : Stmt)
  | executeAll (stmts : List Stmt)
  /-- Statements with a scope that is theirs. -/
  | inScope (scope : Nat) (stmts : List Stmt)
  | program (stmts : List Stmt)

namespace Task

abbrev Result : Task → Type
  | evaluate _ => Value
  | evaluateAll _ => List Value
  | call _ _ _ => Value
  | execute _ => Flow Value
  | executeAll _ => Flow Value
  | inScope _ _ => Flow Value
  | program _ => Unit

def run (bound : Nat) : (task : Task) → Eval task.Result
  | evaluate expr => Eval.evaluate bound expr
  | evaluateAll exprs => Eval.evaluateAll bound exprs
  | call callee arguments paren => Eval.call bound callee arguments paren
  | execute stmt => Eval.execute bound stmt
  | executeAll stmts => Eval.executeAll bound stmts
  | inScope scope stmts => Eval.within scope (Eval.executeAll bound stmts)
  | program stmts => Eval.runAll bound stmts

end Task

/-- Work that is about to begin. -/
structure Moment where
  bound : Nat
  task : Task
  machine : Machine

/-- From a moment the run comes to the moment of a part of its work. -/
inductive Enters : Moment → Moment → Prop
  | group {bound : Nat} {machine : Machine} (inner : Expr) :
      Enters ⟨bound + 1, .evaluate (.group inner), machine⟩ ⟨bound, .evaluate inner, machine⟩
  | operand {bound : Nat} {machine : Machine} (operator : Token) (operand : Expr) :
      Enters ⟨bound + 1, .evaluate (.unary operator operand), machine⟩
        ⟨bound, .evaluate operand, machine⟩
  | left {bound : Nat} {machine : Machine} (left : Expr) (operator : Token) (right : Expr) :
      Enters ⟨bound + 1, .evaluate (.binary left operator right), machine⟩
        ⟨bound, .evaluate left, machine⟩
  | right {bound : Nat} {machine after : Machine} {left : Expr} {value : Value} (operator : Token)
      (right : Expr) (hleft : Eval.evaluate bound left machine = .ok value after) :
      Enters ⟨bound + 1, .evaluate (.binary left operator right), machine⟩
        ⟨bound, .evaluate right, after⟩
  | deciding {bound : Nat} {machine : Machine} (left : Expr) (operator : Token) (right : Expr) :
      Enters ⟨bound + 1, .evaluate (.logical left operator right), machine⟩
        ⟨bound, .evaluate left, machine⟩
  | undecided {bound : Nat} {machine after : Machine} {left : Expr} {value : Value}
      {operator : Token} (right : Expr)
      (hleft : Eval.evaluate bound left machine = .ok value after)
      (hopen : Operator.decides operator value = false) :
      Enters ⟨bound + 1, .evaluate (.logical left operator right), machine⟩
        ⟨bound, .evaluate right, after⟩
  | assigned {bound : Nat} {machine : Machine} (id : NodeId) (name : Token) (value : Expr) :
      Enters ⟨bound + 1, .evaluate (.assign id name value), machine⟩
        ⟨bound, .evaluate value, machine⟩
  | callee {bound : Nat} {machine : Machine} (callee : Expr) (paren : Token)
      (arguments : List Expr) :
      Enters ⟨bound + 1, .evaluate (.call callee paren arguments), machine⟩
        ⟨bound, .evaluate callee, machine⟩
  | arguments {bound : Nat} {machine after : Machine} {callee : Expr} {target : Value}
      (paren : Token) (arguments : List Expr)
      (hcallee : Eval.evaluate bound callee machine = .ok target after) :
      Enters ⟨bound + 1, .evaluate (.call callee paren arguments), machine⟩
        ⟨bound, .evaluateAll arguments, after⟩
  | called {bound : Nat} {machine between after checked : Machine} {callee : Expr} {target : Value}
      {paren : Token} {arguments : List Expr} {values : List Value} {function : Callable}
      (hcallee : Eval.evaluate bound callee machine = .ok target between)
      (harguments : Eval.evaluateAll bound arguments between = .ok values after)
      (hfunction : Eval.checkCall target values paren after = .ok function checked) :
      Enters ⟨bound + 1, .evaluate (.call callee paren arguments), machine⟩
        ⟨bound, .call function values paren, { checked with depth := checked.depth + 1 }⟩
  | firstValue {bound : Nat} {machine : Machine} (first : Expr) (rest : List Expr) :
      Enters ⟨bound + 1, .evaluateAll (first :: rest), machine⟩ ⟨bound, .evaluate first, machine⟩
  | moreValues {bound : Nat} {machine after : Machine} {first : Expr} {value : Value}
      (rest : List Expr) (hfirst : Eval.evaluate bound first machine = .ok value after) :
      Enters ⟨bound + 1, .evaluateAll (first :: rest), machine⟩ ⟨bound, .evaluateAll rest, after⟩
  | functionBody {bound frame : Nat} {machine after : Machine} {function : Closure}
      {arguments : List Value} (paren : Token)
      (hframe : Eval.openFrame function arguments machine = .ok frame after) :
      Enters ⟨bound + 1, .call (.closure function) arguments paren, machine⟩
        ⟨bound, .inScope frame function.body, after⟩
  | expression {bound : Nat} {machine : Machine} (value : Expr) :
      Enters ⟨bound + 1, .execute (.expression value), machine⟩ ⟨bound, .evaluate value, machine⟩
  | printed {bound : Nat} {machine : Machine} (value : Expr) :
      Enters ⟨bound + 1, .execute (.print value), machine⟩ ⟨bound, .evaluate value, machine⟩
  | initial {bound : Nat} {machine : Machine} (name : Token) (initial : Expr) :
      Enters ⟨bound + 1, .execute (.declare name (some initial)), machine⟩
        ⟨bound, .evaluate initial, machine⟩
  | blockBody {bound scope : Nat} {machine after : Machine} (body : List Stmt)
      (hscope : Eval.openScope machine.current machine = .ok scope after) :
      Enters ⟨bound + 1, .execute (.block body), machine⟩ ⟨bound, .inScope scope body, after⟩
  | branching {bound : Nat} {machine : Machine} (condition : Expr) (whenTrue : Stmt)
      (whenFalse : Option Stmt) :
      Enters ⟨bound + 1, .execute (.branch condition whenTrue whenFalse), machine⟩
        ⟨bound, .evaluate condition, machine⟩
  | whenTrue {bound : Nat} {machine after : Machine} {condition : Expr} {value : Value}
      (whenTrue : Stmt) (whenFalse : Option Stmt)
      (hcondition : Eval.evaluate bound condition machine = .ok value after)
      (htruthy : value.isTruthy = true) :
      Enters ⟨bound + 1, .execute (.branch condition whenTrue whenFalse), machine⟩
        ⟨bound, .execute whenTrue, after⟩
  | whenFalse {bound : Nat} {machine after : Machine} {condition : Expr} {value : Value}
      (whenTrue other : Stmt) (hcondition : Eval.evaluate bound condition machine = .ok value after)
      (htruthy : value.isTruthy = false) :
      Enters ⟨bound + 1, .execute (.branch condition whenTrue (some other)), machine⟩
        ⟨bound, .execute other, after⟩
  | looping {bound : Nat} {machine : Machine} (condition : Expr) (body : Stmt) :
      Enters ⟨bound + 1, .execute (.loop condition body), machine⟩
        ⟨bound, .evaluate condition, machine⟩
  | loopBody {bound : Nat} {machine after : Machine} {condition : Expr} {value : Value}
      (body : Stmt) (hcondition : Eval.evaluate bound condition machine = .ok value after)
      (htruthy : value.isTruthy = true) :
      Enters ⟨bound + 1, .execute (.loop condition body), machine⟩ ⟨bound, .execute body, after⟩
  | loopAgain {bound : Nat} {machine between after : Machine} {condition : Expr} {value : Value}
      {body : Stmt} (hcondition : Eval.evaluate bound condition machine = .ok value between)
      (htruthy : value.isTruthy = true)
      (hbody : Eval.execute bound body between = .ok .normal after) :
      Enters ⟨bound + 1, .execute (.loop condition body), machine⟩
        ⟨bound, .execute (.loop condition body), after⟩
  | leaving {bound : Nat} {machine : Machine} (keyword : Token) (value : Expr) :
      Enters ⟨bound + 1, .execute (.leave keyword (some value)), machine⟩
        ⟨bound, .evaluate value, machine⟩
  | firstStmt {bound : Nat} {machine : Machine} (first : Stmt) (rest : List Stmt) :
      Enters ⟨bound + 1, .executeAll (first :: rest), machine⟩ ⟨bound, .execute first, machine⟩
  | moreStmts {bound : Nat} {machine after : Machine} {first : Stmt} (rest : List Stmt)
      (hfirst : Eval.execute bound first machine = .ok .normal after) :
      Enters ⟨bound + 1, .executeAll (first :: rest), machine⟩ ⟨bound, .executeAll rest, after⟩
  | inside {bound scope : Nat} {machine : Machine} (stmts : List Stmt) :
      Enters ⟨bound, .inScope scope stmts, machine⟩
        ⟨bound, .executeAll stmts, { machine with current := scope }⟩
  | firstOfProgram {bound : Nat} {machine : Machine} (first : Stmt) (rest : List Stmt) :
      Enters ⟨bound, .program (first :: rest), machine⟩ ⟨bound, .execute first, machine⟩
  | moreOfProgram {bound : Nat} {machine after : Machine} {first : Stmt} {flow : Flow Value}
      (rest : List Stmt) (hfirst : Eval.execute bound first machine = .ok flow after) :
      Enters ⟨bound, .program (first :: rest), machine⟩ ⟨bound, .program rest, after⟩

/-- The later moment belongs to the work that begins at the earlier one. -/
abbrev Reaches : Moment → Moment → Prop :=
  Relation.ReflTransGen Enters

namespace Moment

/-- A bound for the number of moments that the run enters one from the other. -/
def weight : Moment → Nat
  | ⟨bound, .inScope _ _, _⟩ => 2 * bound + 1
  | ⟨bound, .program stmts, _⟩ => 2 * bound + 1 + stmts.length
  | ⟨bound, _, _⟩ => 2 * bound

end Moment

theorem Enters.weight_lt {moment next : Moment} (h : Enters moment next) :
    next.weight < moment.weight := by
  cases h <;> simp only [Moment.weight, List.length_cons] <;> omega

namespace Moment

/-- What holds of a moment if it holds of those that are entered from it holds of all. -/
theorem entersInduction {motive : Moment → Prop}
    (h : ∀ moment, (∀ next, Enters moment next → motive next) → motive moment)
    (moment : Moment) : motive moment := by
  induction hweight : moment.weight using Nat.strongRecOn generalizing moment with
  | ind weight ih =>
      subst hweight
      exact h moment fun next hnext => ih next.weight hnext.weight_lt next rfl

/-- The work ends with this stop. -/
def Stops (moment : Moment) (stop : Stop) : Prop :=
  ∃ after, moment.task.run moment.bound moment.machine = .error stop after

/-- The work ends with a stop that comes from none of its parts. -/
def Raises (moment : Moment) (stop : Stop) : Prop :=
  moment.Stops stop ∧ ∀ next, Enters moment next → ¬ next.Stops stop

end Moment

end Scriptlet
