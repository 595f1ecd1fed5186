/-
The operators on values.
-/
import Scriptlet.Diagnostic
import Scriptlet.Value

namespace Scriptlet

namespace Operator

variable {Place : Type}

/-- `-` on a number and `!` on any value. -/
def unary (operator : Token) (operand : ValueIn Place) :
    Except RuntimeFault (ValueIn Place) :=
  match operator.kind, operand with
  | .mark .minus, .number x => .ok (.number (-x))
  | .mark .minus, _ => .error (.operandNotNumber operator.lexeme)
  | .mark .bang, _ => .ok (.bool (!operand.isTruthy))
  | _, _ => .error .notUnary

/-- Two numbers are added, two strings are joined. -/
def add : ValueIn Place → ValueIn Place → Except RuntimeFault (ValueIn Place)
  | .number a, .number b => .ok (.number (a + b))
  | .string a, .string b => .ok (.string (a ++ b))
  | _, _ => .error .operandsNotAddable

/-- An operation on two numbers; a division by zero has an infinite result, or
none. -/
def onNumbers (operator : Token) (operation : Float → Float → ValueIn Place) :
    ValueIn Place → ValueIn Place → Except RuntimeFault (ValueIn Place)
  | .number a, .number b => .ok (operation a b)
  | _, _ => .error (.operandsNotNumbers operator.lexeme)

def binary (operator : Token) (left right : ValueIn Place) :
    Except RuntimeFault (ValueIn Place) :=
  match operator.kind with
  | .mark .plus => add left right
  | .mark .minus => onNumbers operator (fun a b => .number (a - b)) left right
  | .mark .star => onNumbers operator (fun a b => .number (a * b)) left right
  | .mark .slash => onNumbers operator (fun a b => .number (a / b)) left right
  | .mark .greater => onNumbers operator (fun a b => .bool (decide (a > b))) left right
  | .mark .greaterEqual => onNumbers operator (fun a b => .bool (decide (a ≥ b))) left right
  | .mark .less => onNumbers operator (fun a b => .bool (decide (a < b))) left right
  | .mark .lessEqual => onNumbers operator (fun a b => .bool (decide (a ≤ b))) left right
  | .mark .equalEqual => .ok (.bool (left.equals right))
  | .mark .bangEqual => .ok (.bool (!left.equals right))
  | _ => .error .notBinary

/-- Whether the left operand of a logical operator is the result already. -/
def decides (operator : Token) (left : ValueIn Place) : Bool :=
  if operator.kind.isKeyword .or_ then left.isTruthy else !left.isTruthy

end Operator

end Scriptlet
