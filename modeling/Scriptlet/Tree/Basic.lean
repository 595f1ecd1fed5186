/-
Syntax trees.  A variable that is read or assigned carries an identity, so that
facts about one occurrence can be kept outside the tree.
-/
import Scriptlet.Token.Basic

namespace Scriptlet

/-- Identities are handed out in order and are words of 32 bits. -/
abbrev NodeId := UInt32

/-- The identity that is handed out after so many others. -/
def NodeId.ofCount (issued : Nat) : NodeId :=
  UInt32.ofNat issued

/-- A value that stands in the text. -/
inductive Constant where
  | nil
  | bool (value : Bool)
  | number (value : Float)
  | string (text : String)

inductive Expr where
  | constant (value : Constant)
  | group (inner : Expr)
  | unary (operator : Token) (operand : Expr)
  | binary (left : Expr) (operator : Token) (right : Expr)
  /-- `and` or `or`: the right operand is evaluated only if the left one does
  not decide. -/
  | logical (left : Expr) (operator : Token) (right : Expr)
  | variable (id : NodeId) (name : Token)
  | assign (id : NodeId) (name : Token) (value : Expr)
  /-- `paren` closes the argument list. -/
  | call (callee : Expr) (paren : Token) (arguments : List Expr)

inductive Stmt where
  | expression (value : Expr)
  | print (value : Expr)
  | declare (name : Token) (initial : Option Expr)
  | block (body : List Stmt)
  | branch (condition : Expr) (whenTrue : Stmt) (whenFalse : Option Stmt)
  | loop (condition : Expr) (body : Stmt)
  | function (name : Token) (params : List Token) (body : List Stmt)
  | leave (keyword : Token) (value : Option Expr)

instance : Inhabited Expr := ⟨.constant .nil⟩

instance : Inhabited Stmt := ⟨.block []⟩

end Scriptlet
