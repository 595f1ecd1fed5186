/-
Where names stand in a program: which of them a scope uses from outside, which it declares
and when.

A name that is looked for from the inside outward passes all scopes that do not bind it.  It
passes those that do not declare it before the occurrence, provided that they do not declare
it later on, either.
-/
import Scriptlet.Proofs.Lexical.Fits

namespace Scriptlet.Walk

open Binding Grammar Lexical

/-! ### Names in a tree -/

mutual

/-- The names that an expression reads. -/
def exprReads : Expr → List String
  | .constant _ => []
  | .group inner => exprReads inner
  | .unary _ operand => exprReads operand
  | .binary left _ right => exprReads left ++ exprReads right
  | .logical left _ right => exprReads left ++ exprReads right
  | .variable _ name => [name.lexeme]
  | .assign _ _ value => exprReads value
  | .call callee _ arguments => exprReads callee ++ exprsReads arguments

def exprsReads : List Expr → List String
  | [] => []
  | first :: rest => exprReads first ++ exprsReads rest

end

mutual

/-- The names that an expression assigns. -/
def exprAssigns : Expr → List String
  | .constant _ => []
  | .group inner => exprAssigns inner
  | .unary _ operand => exprAssigns operand
  | .binary left _ right => exprAssigns left ++ exprAssigns right
  | .logical left _ right => exprAssigns left ++ exprAssigns right
  | .variable _ _ => []
  | .assign _ name value => name.lexeme :: exprAssigns value
  | .call callee _ arguments => exprAssigns callee ++ exprsAssigns arguments

def exprsAssigns : List Expr → List String
  | [] => []
  | first :: rest => exprAssigns first ++ exprsAssigns rest

end

/-- All names that occur in an expression. -/
def exprNames (expr : Expr) : List String :=
  exprReads expr ++ exprAssigns expr

/-- The names declared once the statement is reached, where those given were declared before. -/
def declaredBy (declared : List String) (stmt : Stmt) : List String :=
  stmt.declared?.toList ++ declared

theorem mem_declaredBy {declared : List String} {stmt : Stmt} {name : String} :
    name ∈ declaredBy declared stmt ↔ name ∈ stmt.declared? ∨ name ∈ declared := by
  rw [declaredBy, List.mem_append, Option.mem_toList, Option.mem_def]

/-- The names that statements declare, apart from scopes inside them. -/
def declarations (stmts : List Stmt) : List String :=
  stmts.filterMap Stmt.declared?

theorem mem_declarations_cons (first : Stmt) (rest : List Stmt) (name : String) :
    name ∈ declarations (first :: rest) ↔
      name ∈ first.declared? ∨ name ∈ declarations rest := by
  simp only [declarations, List.mem_filterMap, List.exists_mem_cons_iff, Option.mem_def]

mutual

/-- The names of the occurrences in a statement, at any depth of nesting, that no scope inside
the statement declares before them. -/
def stmtOutward : Stmt → List String
  | .expression value => exprNames value
  | .print value => exprNames value
  | .declare _ none => []
  | .declare _ (some initial) => exprNames initial
  | .block body => scopeOutward [] body
  | .branch condition whenTrue none => exprNames condition ++ stmtOutward whenTrue
  | .branch condition whenTrue (some whenFalse) =>
      exprNames condition ++ stmtOutward whenTrue ++ stmtOutward whenFalse
  | .loop condition body => exprNames condition ++ stmtOutward body
  | .function _ params body => scopeOutward (params.map Token.lexeme).reverse body
  | .leave _ none => []
  | .leave _ (some value) => exprNames value

/-- The names of the occurrences in a scope that resolve to bindings outside it. -/
def scopeOutward (declared : List String) : List Stmt → List String
  | [] => []
  | first :: rest =>
      (stmtOutward first).filter (· ∉ declaredBy declared first) ++
        scopeOutward (declaredBy declared first) rest

end

/-- A local scope: its statements, and the names that are declared before them, which are the
parameters of the function that it belongs to, the last one first. -/
structure LocalScope where
  declared : List String
  body : List Stmt

mutual

/-- The local scopes in a statement, at any depth of nesting. -/
def stmtScopes : Stmt → List LocalScope
  | .expression _ => []
  | .print _ => []
  | .declare _ _ => []
  | .block body => ⟨[], body⟩ :: localScopes body
  | .branch _ whenTrue none => stmtScopes whenTrue
  | .branch _ whenTrue (some whenFalse) => stmtScopes whenTrue ++ stmtScopes whenFalse
  | .loop _ body => stmtScopes body
  | .function _ params body => ⟨(params.map Token.lexeme).reverse, body⟩ :: localScopes body
  | .leave _ _ => []

def localScopes : List Stmt → List LocalScope
  | [] => []
  | first :: rest => stmtScopes first ++ localScopes rest

end

/-- No name is declared behind an occurrence of it that resolves to a binding outside. -/
def NeverLate (declared : List String) : List Stmt → Prop
  | [] => True
  | first :: rest =>
      (∀ name ∈ stmtOutward first, name ∉ declaredBy declared first →
        name ∉ declarations rest) ∧ NeverLate (declaredBy declared first) rest

instance decidableNeverLate : (declared : List String) → (stmts : List Stmt) →
    Decidable (NeverLate declared stmts)
  | _, [] => .isTrue trivial
  | declared, first :: rest =>
      @instDecidableAnd _ _ inferInstance (decidableNeverLate (declaredBy declared first) rest)

/-- The initializer of the variable that is declared assigns that variable. -/
def AssignsOwn : Stmt → Prop
  | .declare name (some initial) => name.lexeme ∈ exprAssigns initial
  | _ => False

instance : DecidablePred AssignsOwn
  | .declare name (some initial) => inferInstanceAs (Decidable (name.lexeme ∈ exprAssigns initial))
  | .declare _ none => .isFalse id
  | .expression _ | .print _ | .block _ | .branch _ _ _ | .loop _ _ | .function _ _ _
  | .leave _ _ => .isFalse id

/-- In this scope a name means the same wherever it is looked for from. -/
structure LocalScope.Orderly (scope : LocalScope) : Prop where
  neverLate : NeverLate scope.declared scope.body
  assigns : ∀ stmt ∈ scope.body, ¬ AssignsOwn stmt

instance (scope : LocalScope) : Decidable scope.Orderly :=
  decidable_of_iff (NeverLate scope.declared scope.body ∧ ∀ stmt ∈ scope.body, ¬ AssignsOwn stmt)
    ⟨fun h => ⟨h.1, h.2⟩, fun h => ⟨h.1, h.2⟩⟩

/-- All local scopes of a program are orderly. -/
def Orderly (stmts : List Stmt) : Prop :=
  ∀ scope ∈ localScopes stmts, scope.Orderly

instance : DecidablePred Orderly := fun stmts =>
  inferInstanceAs (Decidable (∀ scope ∈ localScopes stmts, scope.Orderly))

end Scriptlet.Walk
