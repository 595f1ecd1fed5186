/-
Code that a side table fits: every occurrence of a name is listed with the number
of scopes to go out to its declaration, or is not listed and has none.

What a program says about itself once it is resolved is all that running it needs
to know, so the rules of binding and those of the grammar are gathered here in one
predicate on trees.
-/
import Scriptlet.Binding.Resolve
import Scriptlet.Proofs.Grammar.Formed

namespace Scriptlet.Lexical

open Binding Grammar

/-- A side table, and how many identities have been handed out. -/
structure Known where
  table : Table
  issued : Nat

/-- The table leads from the occurrence to the scope that declares the name. -/
def Known.Places (known : Known) (scopes : Scopes) (id : NodeId) (name : Token) : Prop :=
  (∃ k < known.issued, id = .ofCount k) ∧
    known.table.distance? id = distance? scopes name.lexeme

/-- The scopes behind a statement. -/
def after (scopes : Scopes) (stmt : Stmt) : Scopes :=
  match stmt.declared? with
  | some name => declare scopes name
  | none => scopes

theorem after_of_none {scopes : Scopes} {stmt : Stmt} (h : stmt.declared? = none) :
    after scopes stmt = scopes := by
  rw [after, h]

/-- Outside all scopes nothing is kept. -/
theorem after_nil (stmt : Stmt) : after [] stmt = [] := by
  rw [after]
  split
  · rfl
  · rfl

mutual

/-- `pending` is the name that must not be read yet. -/
def FitsExpr (known : Known) (scopes : Scopes) (pending : Option String) : Expr → Prop
  | .constant _ => True
  | .group inner => FitsExpr known scopes pending inner
  | .unary operator operand =>
      (operator.IsMark .bang ∨ operator.IsMark .minus) ∧ FitsExpr known scopes pending operand
  | .binary left operator right =>
      operator.kind ∈ binaryKinds ∧ FitsExpr known scopes pending left ∧
        FitsExpr known scopes pending right
  | .logical left _ right =>
      FitsExpr known scopes pending left ∧ FitsExpr known scopes pending right
  | .variable id name => pending ≠ some name.lexeme ∧ known.Places scopes id name
  | .assign id name value => FitsExpr known scopes pending value ∧ known.Places scopes id name
  | .call callee _ arguments =>
      FitsExpr known scopes pending callee ∧ FitsExprs known scopes pending arguments

def FitsExprs (known : Known) (scopes : Scopes) (pending : Option String) : List Expr → Prop
  | [] => True
  | first :: rest => FitsExpr known scopes pending first ∧ FitsExprs known scopes pending rest

end

mutual

def FitsStmt (known : Known) (scopes : Scopes) : Stmt → Prop
  | .expression value => FitsExpr known scopes none value
  | .print value => FitsExpr known scopes none value
  | .declare name none => declaredHere scopes name.lexeme = false
  | .declare name (some initial) =>
      declaredHere scopes name.lexeme = false ∧
        FitsExpr known (declare scopes name.lexeme) (pendingOf scopes name.lexeme) initial
  | .block body => FitsStmts known ([] :: scopes) body
  | .branch condition whenTrue none =>
      FitsExpr known scopes none condition ∧ whenTrue.declared? = none ∧
        FitsStmt known scopes whenTrue
  | .branch condition whenTrue (some whenFalse) =>
      FitsExpr known scopes none condition ∧
        (whenTrue.declared? = none ∧ FitsStmt known scopes whenTrue) ∧
          whenFalse.declared? = none ∧ FitsStmt known scopes whenFalse
  | .loop condition body =>
      FitsExpr known scopes none condition ∧ body.declared? = none ∧ FitsStmt known scopes body
  | .function name params body =>
      declaredHere scopes name.lexeme = false ∧ (params.map Token.lexeme).Nodup ∧
        FitsStmts known ((params.map Token.lexeme).reverse :: declare scopes name.lexeme) body
  | .leave _ none => True
  | .leave _ (some value) => FitsExpr known scopes none value

def FitsStmts (known : Known) (scopes : Scopes) : List Stmt → Prop
  | [] => True
  | first :: rest => FitsStmt known scopes first ∧ FitsStmts known (after scopes first) rest

end

/-- Identities that were handed out before keep their entries. -/
structure Known.Extends (known later : Known) : Prop where
  issued : known.issued ≤ later.issued
  table : ∀ k < known.issued,
    later.table.distance? (.ofCount k) = known.table.distance? (.ofCount k)

section Extends

variable {known later : Known} {scopes : Scopes} {pending : Option String}

theorem Known.Places.extend {id : NodeId} {name : Token} (h : known.Places scopes id name)
    (hextends : known.Extends later) : later.Places scopes id name := by
  obtain ⟨⟨k, hk, rfl⟩, hdistance⟩ := h
  exact ⟨⟨k, Nat.lt_of_lt_of_le hk hextends.issued, rfl⟩, (hextends.table k hk).trans hdistance⟩

mutual

theorem FitsExpr.extend {expr : Expr} (h : FitsExpr known scopes pending expr)
    (hextends : known.Extends later) : FitsExpr later scopes pending expr := by
  cases expr with
  | constant _ => trivial
  | group inner =>
      have hinner : FitsExpr later scopes pending inner := FitsExpr.extend h hextends
      exact hinner
  | unary _ operand => exact ⟨h.1, FitsExpr.extend h.2 hextends⟩
  | binary left _ right =>
      exact ⟨h.1, FitsExpr.extend h.2.1 hextends, FitsExpr.extend h.2.2 hextends⟩
  | logical left _ right => exact ⟨FitsExpr.extend h.1 hextends, FitsExpr.extend h.2 hextends⟩
  | «variable» _ _ => exact ⟨h.1, h.2.extend hextends⟩
  | assign _ _ value => exact ⟨FitsExpr.extend h.1 hextends, h.2.extend hextends⟩
  | call callee _ arguments =>
      exact ⟨FitsExpr.extend h.1 hextends, FitsExprs.extend h.2 hextends⟩

theorem FitsExprs.extend {exprs : List Expr} (h : FitsExprs known scopes pending exprs)
    (hextends : known.Extends later) : FitsExprs later scopes pending exprs := by
  cases exprs with
  | nil => trivial
  | cons first rest => exact ⟨FitsExpr.extend h.1 hextends, FitsExprs.extend h.2 hextends⟩

end

mutual

theorem FitsStmt.extend {scopes : Scopes} {stmt : Stmt} (h : FitsStmt known scopes stmt)
    (hextends : known.Extends later) : FitsStmt later scopes stmt := by
  match stmt, h with
  | .expression _, h => exact FitsExpr.extend h hextends
  | .print _, h => exact FitsExpr.extend h hextends
  | .declare _ none, h => exact h
  | .declare _ (some _), h => exact ⟨h.1, FitsExpr.extend h.2 hextends⟩
  | .block _, h => exact FitsStmts.extend h hextends
  | .branch _ _ none, h =>
      exact ⟨FitsExpr.extend h.1 hextends, h.2.1, FitsStmt.extend h.2.2 hextends⟩
  | .branch _ _ (some _), h =>
      exact ⟨FitsExpr.extend h.1 hextends, ⟨h.2.1.1, FitsStmt.extend h.2.1.2 hextends⟩,
        h.2.2.1, FitsStmt.extend h.2.2.2 hextends⟩
  | .loop _ _, h =>
      exact ⟨FitsExpr.extend h.1 hextends, h.2.1, FitsStmt.extend h.2.2 hextends⟩
  | .function _ _ _, h => exact ⟨h.1, h.2.1, FitsStmts.extend h.2.2 hextends⟩
  | .leave _ none, _ => trivial
  | .leave _ (some _), h => exact FitsExpr.extend h hextends

theorem FitsStmts.extend {scopes : Scopes} {stmts : List Stmt} (h : FitsStmts known scopes stmts)
    (hextends : known.Extends later) : FitsStmts later scopes stmts := by
  match stmts, h with
  | [], _ => trivial
  | _ :: _, h => exact ⟨FitsStmt.extend h.1 hextends, FitsStmts.extend h.2 hextends⟩

end

end Extends

end Scriptlet.Lexical
