/-
Renaming a local variable: its declaration gets another name, and so do the occurrences that
resolve to it, which are those behind the declaration where no inner one of the same name is
in the way.
-/
import Scriptlet.Proofs.Grammar.Formed

namespace Scriptlet

/-- The token with another spelling. -/
def Token.respell (token : Token) (lexeme : String) : Token :=
  { token with lexeme := lexeme }

@[simp] theorem Token.respell_self (token : Token) : token.respell token.lexeme = token := rfl

namespace Renaming

/-! ### Names in a tree -/

mutual

/-- The names that are read or assigned. -/
def exprNames : Expr → List String
  | .constant _ => []
  | .group inner => exprNames inner
  | .unary _ operand => exprNames operand
  | .binary left _ right => exprNames left ++ exprNames right
  | .logical left _ right => exprNames left ++ exprNames right
  | .variable _ name => [name.lexeme]
  | .assign _ name value => name.lexeme :: exprNames value
  | .call callee _ arguments => exprNames callee ++ exprsNames arguments

def exprsNames : List Expr → List String
  | [] => []
  | first :: rest => exprNames first ++ exprsNames rest

end

mutual

/-- The names that are declared, read or assigned. -/
def stmtNames : Stmt → List String
  | .expression value => exprNames value
  | .print value => exprNames value
  | .declare name none => [name.lexeme]
  | .declare name (some initial) => name.lexeme :: exprNames initial
  | .block body => stmtsNames body
  | .branch condition whenTrue none => exprNames condition ++ stmtNames whenTrue
  | .branch condition whenTrue (some whenFalse) =>
      exprNames condition ++ stmtNames whenTrue ++ stmtNames whenFalse
  | .loop condition body => exprNames condition ++ stmtNames body
  | .function name params body => name.lexeme :: (params.map Token.lexeme ++ stmtsNames body)
  | .leave _ none => []
  | .leave _ (some value) => exprNames value

def stmtsNames : List Stmt → List String
  | [] => []
  | first :: rest => stmtNames first ++ stmtsNames rest

end

/-! ### Other names for occurrences -/

/-- What the names in sight are called now. -/
abbrev Naming := String → String

namespace Naming

/-- One name is called otherwise. -/
def single (old new : String) : Naming := fun name =>
  if name = old then new else name

/-- In the scope of an inner declaration a name is its own. -/
def hide (naming : Naming) (inner : String) : Naming := fun name =>
  if name = inner then inner else naming name

/-- What the names are called behind a statement. -/
def behind (naming : Naming) (stmt : Stmt) : Naming :=
  match stmt.declared? with
  | some name => naming.hide name
  | none => naming

@[simp] theorem hide_id (inner : String) : hide id inner = id := by
  funext name
  unfold hide
  split
  · next heq => exact heq.symm
  · rfl

@[simp] theorem behind_id (stmt : Stmt) : behind id stmt = id := by
  unfold behind
  split
  · exact hide_id _
  · rfl

/-- A declaration of another name is not in the way. -/
theorem hide_single {old new inner : String} (hne : inner ≠ old) :
    (single old new).hide inner = single old new := by
  funext name
  unfold hide single
  by_cases hname : name = inner
  · rw [if_pos hname, if_neg (hname ▸ hne), hname]
  · rw [if_neg hname]

end Naming

mutual

def renameExpr (naming : Naming) : Expr → Expr
  | .constant value => .constant value
  | .group inner => .group (renameExpr naming inner)
  | .unary operator operand => .unary operator (renameExpr naming operand)
  | .binary left operator right =>
      .binary (renameExpr naming left) operator (renameExpr naming right)
  | .logical left operator right =>
      .logical (renameExpr naming left) operator (renameExpr naming right)
  | .variable id name => .variable id (name.respell (naming name.lexeme))
  | .assign id name value =>
      .assign id (name.respell (naming name.lexeme)) (renameExpr naming value)
  | .call callee paren arguments =>
      .call (renameExpr naming callee) paren (renameExprs naming arguments)

def renameExprs (naming : Naming) : List Expr → List Expr
  | [] => []
  | first :: rest => renameExpr naming first :: renameExprs naming rest

end

mutual

/-- Declarations keep their names; the variable of an initializer is declared before it. -/
def renameStmt (naming : Naming) : Stmt → Stmt
  | .expression value => .expression (renameExpr naming value)
  | .print value => .print (renameExpr naming value)
  | .declare name none => .declare name none
  | .declare name (some initial) =>
      .declare name (some (renameExpr (naming.hide name.lexeme) initial))
  | .block body => .block (renameStmts naming body)
  | .branch condition whenTrue none =>
      .branch (renameExpr naming condition) (renameStmt naming whenTrue) none
  | .branch condition whenTrue (some whenFalse) =>
      .branch (renameExpr naming condition) (renameStmt naming whenTrue)
        (some (renameStmt naming whenFalse))
  | .loop condition body => .loop (renameExpr naming condition) (renameStmt naming body)
  | .function name params body =>
      .function name params
        (renameStmts ((params.map Token.lexeme).foldl Naming.hide (naming.hide name.lexeme)) body)
  | .leave keyword none => .leave keyword none
  | .leave keyword (some value) => .leave keyword (some (renameExpr naming value))

def renameStmts (naming : Naming) : List Stmt → List Stmt
  | [] => []
  | first :: rest => renameStmt naming first :: renameStmts (naming.behind first) rest

end

/-! ### One local variable -/

mutual

/-- A variable that a scope in the statement declares is called otherwise: a variable of a
block or of the body of a function, or a parameter. -/
inductive RenamesIn (new : String) : Stmt → Stmt → Prop
  | block {body body' : List Stmt} (body_ : RenamesScope new body body') :
      RenamesIn new (.block body) (.block body')
  | whenTrue {condition : Expr} {whenTrue whenTrue' : Stmt} {whenFalse : Option Stmt}
      (whenTrue_ : RenamesIn new whenTrue whenTrue') :
      RenamesIn new (.branch condition whenTrue whenFalse)
        (.branch condition whenTrue' whenFalse)
  | whenFalse {condition : Expr} {whenTrue whenFalse whenFalse' : Stmt}
      (whenFalse_ : RenamesIn new whenFalse whenFalse') :
      RenamesIn new (.branch condition whenTrue (some whenFalse))
        (.branch condition whenTrue (some whenFalse'))
  | loop {condition : Expr} {body body' : Stmt} (body_ : RenamesIn new body body') :
      RenamesIn new (.loop condition body) (.loop condition body')
  | function {name : Token} {params : List Token} {body body' : List Stmt}
      (body_ : RenamesScope new body body') :
      RenamesIn new (.function name params body) (.function name params body')
  | param {name param : Token} {before after : List Token} {body : List Stmt} :
      RenamesIn new (.function name (before ++ param :: after) body)
        (.function name (before ++ param.respell new :: after)
          (renameStmts (.single param.lexeme new) body))

/-- A variable that the scope of these statements declares is called otherwise, or one that a
scope inside declares. -/
inductive RenamesScope (new : String) : List Stmt → List Stmt → Prop
  | declare {name : Token} {initial : Option Expr} {rest : List Stmt} :
      RenamesScope new (.declare name initial :: rest)
        (.declare (name.respell new) (initial.map (renameExpr (.single name.lexeme new))) ::
          renameStmts (.single name.lexeme new) rest)
  | first {first first' : Stmt} {rest : List Stmt} (first_ : RenamesIn new first first') :
      RenamesScope new (first :: rest) (first' :: rest)
  | later {first : Stmt} {rest rest' : List Stmt} (rest_ : RenamesScope new rest rest') :
      RenamesScope new (first :: rest) (first :: rest')

end

/-- A local variable of the program is called otherwise.  What the program declares outside
all scopes is global. -/
inductive RenamesLocal (new : String) : List Stmt → List Stmt → Prop
  | first {first first' : Stmt} {rest : List Stmt} (first_ : RenamesIn new first first') :
      RenamesLocal new (first :: rest) (first' :: rest)
  | later {first : Stmt} {rest rest' : List Stmt} (rest_ : RenamesLocal new rest rest') :
      RenamesLocal new (first :: rest) (first :: rest')

/-! ### Names that stay -/

mutual

theorem renameExpr_id (expr : Expr) : renameExpr id expr = expr := by
  cases expr with
  | constant _ => rfl
  | group inner => rw [renameExpr, renameExpr_id inner]
  | unary _ operand => rw [renameExpr, renameExpr_id operand]
  | binary left _ right => rw [renameExpr, renameExpr_id left, renameExpr_id right]
  | logical left _ right => rw [renameExpr, renameExpr_id left, renameExpr_id right]
  | «variable» _ name => rfl
  | assign _ name value => rw [renameExpr, renameExpr_id value]; rfl
  | call callee _ arguments => rw [renameExpr, renameExpr_id callee, renameExprs_id arguments]

theorem renameExprs_id (exprs : List Expr) : renameExprs id exprs = exprs := by
  cases exprs with
  | nil => rfl
  | cons first rest => rw [renameExprs, renameExpr_id first, renameExprs_id rest]

end

theorem foldl_hide_id (names : List String) : names.foldl Naming.hide id = id := by
  induction names with
  | nil => rfl
  | cons name rest ih => rw [List.foldl_cons, Naming.hide_id, ih]

mutual

theorem renameStmt_id (stmt : Stmt) : renameStmt id stmt = stmt := by
  match stmt with
  | .expression value => rw [renameStmt, renameExpr_id]
  | .print value => rw [renameStmt, renameExpr_id]
  | .declare _ none => rfl
  | .declare _ (some initial) => rw [renameStmt, Naming.hide_id, renameExpr_id]
  | .block body => rw [renameStmt, renameStmts_id body]
  | .branch condition whenTrue none =>
      rw [renameStmt, renameExpr_id, renameStmt_id whenTrue]
  | .branch condition whenTrue (some whenFalse) =>
      rw [renameStmt, renameExpr_id, renameStmt_id whenTrue, renameStmt_id whenFalse]
  | .loop condition body => rw [renameStmt, renameExpr_id, renameStmt_id body]
  | .function _ params body =>
      rw [renameStmt, Naming.hide_id, foldl_hide_id, renameStmts_id body]
  | .leave _ none => rfl
  | .leave _ (some value) => rw [renameStmt, renameExpr_id]

theorem renameStmts_id (stmts : List Stmt) : renameStmts id stmts = stmts := by
  match stmts with
  | [] => rfl
  | first :: rest =>
      rw [renameStmts, renameStmt_id first, Naming.behind_id, renameStmts_id rest]

end

end Renaming

end Scriptlet
