/-
The grammar of expressions.  The rules are written over the rule `inner` for a
nested expression, so that each of them stands alone; `expression` ties the
knot.  Nesting uses up tokens, so a bound above the number of tokens is never
reached.
-/
import Scriptlet.Tree.Reader.Cursor

namespace Scriptlet.Reader

/-- Calls take, and functions declare, at most this many arguments. -/
def maxArity : Nat := 255

/-- Further operands of a left-associative level, added to what was read. -/
def chain (operators : Kind → Bool) (node : Expr → Token → Expr → Expr)
    (operand : Reader Expr) : Nat → Expr → Reader Expr
  | 0, _ => exhausted
  | bound + 1, left => do
      match ← accept? operators with
      | none => return left
      | some operator =>
          let right ← operand
          chain operators node operand bound (node left operator right)

/-- `operand ( operator operand )*`, grouped from the left. -/
def level (bound : Nat) (operators : Kind → Bool) (node : Expr → Token → Expr → Expr)
    (operand : Reader Expr) : Reader Expr := do
  chain operators node operand bound (← operand)

/-- Report the fault if no more arguments are allowed behind `count`. -/
def limit (count : Nat) (fault : GrammarFault) : Reader Unit :=
  if maxArity ≤ count then reportHere fault else return ()

/-- The arguments from the next one on; `count` of them have been read. -/
def arguments (inner : Reader Expr) : Nat → Nat → Reader (List Expr)
  | 0, _ => exhausted
  | bound + 1, count => do
      limit count .tooManyArguments
      let argument ← inner
      match ← accept? (·.isMark .comma) with
      | none => return [argument]
      | some _ => return argument :: (← arguments inner bound (count + 1))

/-- `expression ( "," expression )*`, or nothing before a closing parenthesis. -/
def argumentList (bound : Nat) (inner : Reader Expr) : Reader (List Expr) := do
  if ← looksAt (·.isMark .rightParen) then return []
  arguments inner bound 0

/-- Argument lists behind what is called. -/
def calls (bound : Nat) (inner : Reader Expr) : Nat → Expr → Reader Expr
  | 0, _ => exhausted
  | rounds + 1, callee => do
      match ← accept? (·.isMark .leftParen) with
      | none => return callee
      | some _ =>
          let arguments ← argumentList bound inner
          let paren ← expect (·.isMark .rightParen) .parenAfterArguments
          calls bound inner rounds (.call callee paren arguments)

/-- The constant that a token denotes. -/
def constant? : Kind → Option Constant
  | .keyword .false_ => some (.bool false)
  | .keyword .true_ => some (.bool true)
  | .keyword .nil_ => some .nil
  | .number value => some (.number value)
  | .string text => some (.string text)
  | _ => none

/-- A constant, a variable, or an expression in parentheses. -/
def primary (inner : Reader Expr) : Reader Expr := do
  match ← accept? fun kind => (constant? kind).isSome with
  | some token =>
      match constant? token.kind with
      | some value => return .constant value
      | none => halt .expression
  | none =>
      match ← accept? Kind.isIdentifier with
      | some name => return .variable (← freshId) name
      | none =>
          match ← accept? (·.isMark .leftParen) with
          | some _ =>
              let value ← inner
              let _ ← expect (·.isMark .rightParen) .parenAfterExpression
              return .group value
          | none => halt .expression

/-- `primary ( "(" arguments ")" )*` -/
def call (bound : Nat) (inner : Reader Expr) : Reader Expr := do
  calls bound inner bound (← primary inner)

def isUnaryOperator (kind : Kind) : Bool :=
  kind.isMark .bang || kind.isMark .minus

/-- `( "!" | "-" )* operand` -/
def unary (operand : Reader Expr) : Nat → Reader Expr
  | 0 => exhausted
  | bound + 1 => do
      match ← accept? isUnaryOperator with
      | none => operand
      | some operator => return .unary operator (← unary operand bound)

def isFactorOperator (kind : Kind) : Bool :=
  kind.isMark .slash || kind.isMark .star

def isTermOperator (kind : Kind) : Bool :=
  kind.isMark .minus || kind.isMark .plus

def isComparisonOperator (kind : Kind) : Bool :=
  kind.isMark .greater || kind.isMark .greaterEqual ||
    kind.isMark .less || kind.isMark .lessEqual

def isEqualityOperator (kind : Kind) : Bool :=
  kind.isMark .bangEqual || kind.isMark .equalEqual

def factor (bound : Nat) (inner : Reader Expr) : Reader Expr :=
  level bound isFactorOperator .binary (unary (call bound inner) bound)

def term (bound : Nat) (inner : Reader Expr) : Reader Expr :=
  level bound isTermOperator .binary (factor bound inner)

def comparison (bound : Nat) (inner : Reader Expr) : Reader Expr :=
  level bound isComparisonOperator .binary (term bound inner)

def equality (bound : Nat) (inner : Reader Expr) : Reader Expr :=
  level bound isEqualityOperator .binary (comparison bound inner)

def conjunction (bound : Nat) (inner : Reader Expr) : Reader Expr :=
  level bound (·.isKeyword .and_) .logical (equality bound inner)

def disjunction (bound : Nat) (inner : Reader Expr) : Reader Expr :=
  level bound (·.isKeyword .or_) .logical (conjunction bound inner)

/-- The assignment of a value to what stands left of the equals sign.  Only a
variable can be assigned to; anything else is reported and stays as it is. -/
def assignTo (target : Expr) (equals : Token) (value : Expr) : Reader Expr := do
  match target with
  | .variable _ name => return .assign (← freshId) name value
  | other =>
      report (.grammar equals.line equals.location .assignmentTarget)
      return other

/-- `disjunction ( "=" assignment )?` -/
def assignment (bound : Nat) (inner : Reader Expr) : Reader Expr := do
  let target ← disjunction bound inner
  match ← accept? (·.isMark .equal) with
  | none => return target
  | some equals => assignTo target equals (← inner)

/-- An expression, nested less than `bound` deep. -/
def expression : Nat → Reader Expr
  | 0 => exhausted
  | bound + 1 => assignment (bound + 1) (expression bound)

end Scriptlet.Reader
