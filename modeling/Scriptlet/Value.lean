/-
Values, how they are printed, when they count as true, and when they are equal.
-/
import Scriptlet.ScopeTree
import Scriptlet.Tree.Basic

namespace Scriptlet

/-- What a host function does. -/
inductive HostAction where
  /-- The time in milliseconds since 1970. -/
  | clock
  /-- The first argument. -/
  | echo
  /-- The number of arguments. -/
  | count
  | fail
deriving DecidableEq, Repr

def HostAction.name : HostAction → String
  | clock => "clock"
  | echo => "echo"
  | count => "count"
  | fail => "fail"

/-- A function declared in a program, with the scope of its declaration in the
form that whoever runs the program gives to scopes.  Functions are told apart by
an identity that each gets when it is made. -/
structure ClosureIn (Place : Type) where
  name : Token
  params : List Token
  body : List Stmt
  scope : Place
  identity : Nat

/-- A function of the host. -/
structure HostFunction where
  action : HostAction
  arity : Nat
  identity : Nat

inductive ValueIn (Place : Type) where
  | nil
  | bool (value : Bool)
  | number (value : Float)
  | string (text : String)
  | closure (function : ClosureIn Place)
  | host (function : HostFunction)

/-- A function whose scope is a place in a tree of scopes. -/
abbrev Closure := ClosureIn Nat

abbrev Value := ValueIn Nat

variable {Place : Type}

instance : Inhabited (ValueIn Place) := ⟨.nil⟩

/-- Printed numbers never show a power of ten, and a whole number shows all its
digits and no point. -/
def printFormat : Decimal.NumberFormat where
  exact _ := true
  exactTail := ""
  signedZero := true
  plain _ := true
  plainTail := ""
  tie := .up
  infinity := "inf"
  negativeInfinity := "-inf"
  notANumber := "NaN"

namespace ValueIn

/-- What `print` writes. -/
def text : ValueIn Place → String
  | nil => "nil"
  | bool true => "true"
  | bool false => "false"
  | number value => printFormat.write value
  | string text => text
  | closure function => "<fn " ++ function.name.lexeme ++ ">"
  | host function => "<native fn " ++ function.action.name ++ ">"

/-- Only `nil` and `false` count as false. -/
def isTruthy : ValueIn Place → Bool
  | nil => false
  | bool value => value
  | _ => true

/-- Values of different types are never equal; numbers are compared as numbers,
so that the one that is no number differs from itself. -/
def equals : ValueIn Place → ValueIn Place → Bool
  | nil, nil => true
  | bool a, bool b => a == b
  | number a, number b => a == b
  | string a, string b => a == b
  | closure a, closure b => a.identity == b.identity
  | host a, host b => a.identity == b.identity
  | _, _ => false

def ofConstant : Constant → ValueIn Place
  | .nil => nil
  | .bool value => bool value
  | .number value => number value
  | .string text => string text

end ValueIn

/-- What can be called. -/
inductive CallableIn (Place : Type) where
  | closure (function : ClosureIn Place)
  | host (function : HostFunction)

abbrev Callable := CallableIn Nat

namespace CallableIn

def name : CallableIn Place → String
  | closure function => function.name.lexeme
  | host function => function.action.name

/-- The number of arguments that a call must give. -/
def arity : CallableIn Place → Nat
  | closure function => function.params.length
  | host function => function.arity

end CallableIn

def ValueIn.callable? : ValueIn Place → Option (CallableIn Place)
  | .closure function => some (.closure function)
  | .host function => some (.host function)
  | _ => none

/-- The result of a host function called at the given time in milliseconds, or its complaint. -/
def HostAction.run (action : HostAction) (now : Int) (arguments : List (ValueIn Place)) :
    Except String (ValueIn Place) :=
  match action with
  | clock => .ok (.number (Float.ofInt now))
  | echo => .ok (arguments.headD .nil)
  | count => .ok (.number (Float.ofNat arguments.length))
  | fail => .error ("host failure (" ++ toString arguments.length ++ " args)")

end Scriptlet
