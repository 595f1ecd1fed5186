/-
The parenthesised text of a tree: every node is a list that begins with its
operator.  Identities and lines do not show.
-/
import Scriptlet.Tree.Basic

namespace Scriptlet

def Constant.text : Constant → String
  | nil => "nil"
  | bool true => "true"
  | bool false => "false"
  | number value => literalFormat.write value
  | string text => text

mutual

def Expr.text : Expr → String
  | .constant value => value.text
  | .group inner => "(group " ++ inner.text ++ ")"
  | .unary operator operand => "(" ++ operator.lexeme ++ " " ++ operand.text ++ ")"
  | .binary left operator right =>
      "(" ++ operator.lexeme ++ " " ++ left.text ++ " " ++ right.text ++ ")"
  | .logical left operator right =>
      "(" ++ operator.lexeme ++ " " ++ left.text ++ " " ++ right.text ++ ")"
  | .variable _ name => name.lexeme
  | .assign _ name value => "(= " ++ name.lexeme ++ " " ++ value.text ++ ")"
  | .call callee _ arguments => "(call " ++ callee.text ++ Expr.listText arguments ++ ")"

/-- Each expression with a blank before it. -/
def Expr.listText : List Expr → String
  | [] => ""
  | item :: rest => " " ++ item.text ++ Expr.listText rest

end

mutual

def Stmt.text : Stmt → String
  | .expression value => "(; " ++ value.text ++ ")"
  | .print value => "(print " ++ value.text ++ ")"
  | .declare name none => "(var " ++ name.lexeme ++ ")"
  | .declare name (some initial) => "(var " ++ name.lexeme ++ " " ++ initial.text ++ ")"
  | .block body => "(block" ++ Stmt.listText body ++ ")"
  | .branch condition whenTrue none =>
      "(if " ++ condition.text ++ " " ++ whenTrue.text ++ ")"
  | .branch condition whenTrue (some whenFalse) =>
      "(if " ++ condition.text ++ " " ++ whenTrue.text ++ " " ++ whenFalse.text ++ ")"
  | .loop condition body => "(while " ++ condition.text ++ " " ++ body.text ++ ")"
  | .function name params body =>
      "(fun " ++ name.lexeme ++ " (" ++ " ".intercalate (params.map Token.lexeme) ++ ")" ++
        Stmt.listText body ++ ")"
  | .leave _ none => "(return)"
  | .leave _ (some value) => "(return " ++ value.text ++ ")"

/-- Each statement with a blank before it. -/
def Stmt.listText : List Stmt → String
  | [] => ""
  | item :: rest => " " ++ item.text ++ Stmt.listText rest

end

end Scriptlet
