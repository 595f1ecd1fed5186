/-
The printed text of a tree as a list of words and lists.

Every node but a leaf is a list whose first word tells, with the number of items, which node it is.
-/
import Scriptlet.Proofs.Printing.Sexp
import Scriptlet.Tree.Printer

namespace Scriptlet

open Printing

mutual

def Expr.sexp : Expr → Sexp
  | .constant value => .word value.text
  | .group inner => .list [.word "group", inner.sexp]
  | .unary operator operand => .list [.word operator.lexeme, operand.sexp]
  | .binary left operator right => .list [.word operator.lexeme, left.sexp, right.sexp]
  | .logical left operator right => .list [.word operator.lexeme, left.sexp, right.sexp]
  | .variable _ name => .word name.lexeme
  | .assign _ name value => .list [.word "=", .word name.lexeme, value.sexp]
  | .call callee _ arguments => .list (.word "call" :: callee.sexp :: Expr.sexps arguments)

def Expr.sexps : List Expr → List Sexp
  | [] => []
  | first :: rest => first.sexp :: Expr.sexps rest

end

/-- A name among the parameters of a function. -/
def Token.sexp (token : Token) : Sexp :=
  .word token.lexeme

mutual

def Stmt.sexp : Stmt → Sexp
  | .expression value => .list [.word ";", value.sexp]
  | .print value => .list [.word "print", value.sexp]
  | .declare name none => .list [.word "var", name.sexp]
  | .declare name (some initial) => .list [.word "var", name.sexp, initial.sexp]
  | .block body => .list (.word "block" :: Stmt.sexps body)
  | .branch condition whenTrue none => .list [.word "if", condition.sexp, whenTrue.sexp]
  | .branch condition whenTrue (some whenFalse) =>
      .list [.word "if", condition.sexp, whenTrue.sexp, whenFalse.sexp]
  | .loop condition body => .list [.word "while", condition.sexp, body.sexp]
  | .function name params body =>
      .list (.word "fun" :: name.sexp :: .list (params.map Token.sexp) :: Stmt.sexps body)
  | .leave _ none => .list [.word "return"]
  | .leave _ (some value) => .list [.word "return", value.sexp]

def Stmt.sexps : List Stmt → List Sexp
  | [] => []
  | first :: rest => first.sexp :: Stmt.sexps rest

end

/-! ### The text -/

namespace Printing

open Sexp

theorem toList_names (names : List Token) :
    (" ".intercalate (names.map Token.lexeme)).toList ++ [')'] =
      charsAll (names.map Token.sexp) := by
  cases names with
  | nil => rfl
  | cons name rest =>
      induction rest generalizing name with
      | nil => simp [Token.sexp, chars, charsAll, charsBehind]
      | cons next rest ih =>
          have hrest := ih next
          rw [List.map_cons] at hrest
          rw [List.map_cons, List.map_cons, String.intercalate_cons_cons, String.toList_append,
            String.toList_append, List.append_assoc, hrest]
          simp [Token.sexp, chars, charsAll, charsBehind]

mutual

theorem toList_text (expr : Expr) : expr.text.toList = expr.sexp.chars := by
  cases expr with
  | constant value => rfl
  | group inner =>
      simp [Expr.text, Expr.sexp, chars, charsAll, charsBehind, toList_text inner]
  | unary operator operand =>
      simp [Expr.text, Expr.sexp, chars, charsAll, charsBehind, toList_text operand]
  | binary left operator right =>
      simp [Expr.text, Expr.sexp, chars, charsAll, charsBehind, toList_text left,
        toList_text right]
  | logical left operator right =>
      simp [Expr.text, Expr.sexp, chars, charsAll, charsBehind, toList_text left,
        toList_text right]
  | «variable» id name => rfl
  | assign id name value =>
      simp [Expr.text, Expr.sexp, chars, charsAll, charsBehind, toList_text value]
  | call callee paren arguments =>
      simp [Expr.text, Expr.sexp, chars, charsAll, charsBehind, toList_text callee,
        ← toList_listText arguments]

theorem toList_listText (exprs : List Expr) :
    (Expr.listText exprs).toList ++ [')'] = charsBehind (Expr.sexps exprs) := by
  cases exprs with
  | nil => rfl
  | cons first rest =>
      simp [Expr.listText, Expr.sexps, charsBehind, toList_text first, ← toList_listText rest]

end

mutual

theorem toList_stmtText (stmt : Stmt) : stmt.text.toList = stmt.sexp.chars := by
  cases stmt with
  | expression value =>
      simp [Stmt.text, Stmt.sexp, chars, charsAll, charsBehind, toList_text value]
  | print value =>
      simp [Stmt.text, Stmt.sexp, chars, charsAll, charsBehind, toList_text value]
  | declare name initial =>
      cases initial with
      | none => simp [Stmt.text, Stmt.sexp, Token.sexp, chars, charsAll, charsBehind]
      | some initial =>
          simp [Stmt.text, Stmt.sexp, Token.sexp, chars, charsAll, charsBehind,
            toList_text initial]
  | block body =>
      simp [Stmt.text, Stmt.sexp, chars, charsAll, ← toList_stmtListText body]
  | branch condition whenTrue whenFalse =>
      cases whenFalse with
      | none =>
          simp [Stmt.text, Stmt.sexp, chars, charsAll, charsBehind, toList_text condition,
            toList_stmtText whenTrue]
      | some whenFalse =>
          simp [Stmt.text, Stmt.sexp, chars, charsAll, charsBehind, toList_text condition,
            toList_stmtText whenTrue, toList_stmtText whenFalse]
  | loop condition body =>
      simp [Stmt.text, Stmt.sexp, chars, charsAll, charsBehind, toList_text condition,
        toList_stmtText body]
  | function name params body =>
      simp [Stmt.text, Stmt.sexp, Token.sexp, chars, charsAll, charsBehind,
        ← toList_stmtListText body, ← toList_names params]
  | leave keyword value =>
      cases value with
      | none => simp [Stmt.text, Stmt.sexp, chars, charsAll, charsBehind]
      | some value =>
          simp [Stmt.text, Stmt.sexp, chars, charsAll, charsBehind, toList_text value]

theorem toList_stmtListText (stmts : List Stmt) :
    (Stmt.listText stmts).toList ++ [')'] = charsBehind (Stmt.sexps stmts) := by
  cases stmts with
  | nil => rfl
  | cons first rest =>
      simp [Stmt.listText, Stmt.sexps, charsBehind, toList_stmtText first,
        ← toList_stmtListText rest]

end

end Printing

end Scriptlet
