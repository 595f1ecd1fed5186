/-
What the side tables of the two forms of a program say.

The block that holds the body and the increment of a loop is there in one form only.  It is empty
at all times, so a name that is declared further out than such blocks is declared by the same
scope in both forms, and its distance counts these blocks in one of them and not in the other.
-/
import Scriptlet.Proofs.Lexical.Resolved
import Scriptlet.Proofs.Loops.Direct

namespace Scriptlet.Loops

open Binding Grammar Lexical

/-- The distance if the additional scopes count, too.  The flags tell which of the scopes around
a place are additional ones, from the innermost scope outward. -/
def lift : List Bool → Nat → Nat
  | [], distance => distance
  | true :: flags, distance => lift flags distance + 1
  | false :: _, 0 => 0
  | false :: flags, distance + 1 => lift flags distance + 1

/-- The first scopes are the second ones, and empty ones where the flags say so. -/
inductive Inserted : List Bool → Scopes → Scopes → Prop
  | nil : Inserted [] [] []
  | own {flags : List Bool} {scopes scopes' : Scopes} (names : List String)
      (outer : Inserted flags scopes scopes') :
      Inserted (false :: flags) (names :: scopes) (names :: scopes')
  | added {flags : List Bool} {scopes scopes' : Scopes} (outer : Inserted flags scopes scopes') :
      Inserted (true :: flags) ([] :: scopes) scopes'

/-- The innermost scope is none of the additional ones. -/
def Own (flags : List Bool) : Prop :=
  flags.head? ≠ some true

/-- The same findings, at other distances. -/
def relocate (change : Nat → Nat) (found : Findings) : Findings :=
  ⟨found.entries.map fun entry => (entry.1, change entry.2), found.faults⟩

section Findings

variable {flags : List Bool} {scopes scopes' : Scopes}

theorem append_empty (found : Findings) : found ++ .empty = found := by
  show Findings.mk _ _ = found
  rw [show Findings.empty = ⟨[], []⟩ from rfl]
  simp

theorem relocate_append (change : Nat → Nat) (a b : Findings) :
    relocate change (a ++ b) = relocate change a ++ relocate change b := by
  show Findings.mk ((a.entries ++ b.entries).map _) _ = Findings.mk _ _
  rw [List.map_append]
  rfl

theorem Inserted.distance? (h : Inserted flags scopes scopes') (name : String) :
    Binding.distance? scopes name = (Binding.distance? scopes' name).map (lift flags) := by
  unfold Binding.distance?
  induction h with
  | nil => rfl
  | own names _ ih =>
      rw [List.findIdx?_cons, List.findIdx?_cons]
      split
      · rfl
      · rw [ih, Option.map_map, Option.map_map]
        rfl
  | added _ ih =>
      rw [List.findIdx?_cons, if_neg (by simp), ih, Option.map_map]
      rfl

theorem Inserted.occurrence (h : Inserted flags scopes scopes') (id : NodeId) (name : Token) :
    Binding.occurrence scopes id name =
      relocate (lift flags) (Binding.occurrence scopes' id name) := by
  unfold Binding.occurrence
  rw [h.distance?]
  cases Binding.distance? scopes' name.lexeme with
  | none => rfl
  | some distance => rfl

mutual

theorem Inserted.inExpr (h : Inserted flags scopes scopes') (pending : Option String)
    (expr : Expr) :
    Binding.inExpr scopes pending expr =
      relocate (lift flags) (Binding.inExpr scopes' pending expr) := by
  cases expr with
  | constant _ => rfl
  | group inner => exact Inserted.inExpr h pending inner
  | unary _ operand => exact Inserted.inExpr h pending operand
  | binary left _ right | logical left _ right =>
      rw [Binding.inExpr, Binding.inExpr, relocate_append, Inserted.inExpr h pending left,
        Inserted.inExpr h pending right]
  | «variable» id name =>
      rw [Binding.inExpr, Binding.inExpr, relocate_append, h.occurrence]
      split
      · rfl
      · rfl
  | assign id name value =>
      rw [Binding.inExpr, Binding.inExpr, relocate_append, Inserted.inExpr h pending value,
        h.occurrence]
  | call callee _ arguments =>
      rw [Binding.inExpr, Binding.inExpr, relocate_append, Inserted.inExpr h pending callee,
        Inserted.inExprs h pending arguments]

theorem Inserted.inExprs (h : Inserted flags scopes scopes') (pending : Option String)
    (exprs : List Expr) :
    Binding.inExprs scopes pending exprs =
      relocate (lift flags) (Binding.inExprs scopes' pending exprs) := by
  cases exprs with
  | nil => rfl
  | cons first rest =>
      rw [Binding.inExprs, Binding.inExprs, relocate_append, Inserted.inExpr h pending first,
        Inserted.inExprs h pending rest]

end

/-! ### Declarations -/

theorem Inserted.declare (h : Inserted flags scopes scopes') (hown : Own flags) (name : String) :
    Inserted flags (Binding.declare scopes name) (Binding.declare scopes' name) := by
  cases h with
  | nil => exact .nil
  | own names outer => exact .own _ outer
  | added _ => exact absurd rfl hown

theorem Inserted.redeclaration (h : Inserted flags scopes scopes') (hown : Own flags)
    (name : Token) : Binding.redeclaration scopes name = Binding.redeclaration scopes' name := by
  cases h with
  | nil => rfl
  | own names outer => rfl
  | added _ => exact absurd rfl hown

theorem Inserted.pendingOf (h : Inserted flags scopes scopes') (hown : Own flags)
    (name : String) : Binding.pendingOf scopes name = Binding.pendingOf scopes' name := by
  cases h with
  | nil => rfl
  | own names outer => rfl
  | added _ => exact absurd rfl hown

theorem Inserted.inParams (h : Inserted flags scopes scopes') (hown : Own flags)
    (params : List Token) :
    (Binding.inParams scopes params).1 = (Binding.inParams scopes' params).1 ∧
      Inserted flags (Binding.inParams scopes params).2 (Binding.inParams scopes' params).2 := by
  induction params generalizing scopes scopes' with
  | nil => exact ⟨rfl, h⟩
  | cons param rest ih =>
      obtain ⟨hfound, hafter⟩ := ih (h.declare hown param.lexeme)
      exact ⟨congrArg₂ (fun a b : Findings => a ++ b) (h.redeclaration hown param) hfound, hafter⟩

end Findings

/-! ### Code that both tables fit -/

/-- The side tables of both forms, and how many identities have been handed out. -/
structure Tables where
  rewritten : Table
  written : Table
  issued : Nat

/-- Both tables lead from these occurrences to the same scopes, in a place with such scopes around
it. -/
def Tables.Lead (tables : Tables) (flags : List Bool) (ids : List NodeId) : Prop :=
  ∀ id ∈ ids, (∃ k < tables.issued, id = .ofCount k) ∧
    tables.rewritten.distance? id = (tables.written.distance? id).map (lift flags)

/-- With an increment the body of a loop stands in a block. -/
def behind (increment : Option Expr) (flags : List Bool) : List Bool :=
  if increment.isSome then true :: flags else flags

def FitsClause (tables : Tables) (flags : List Bool) : Option Clause → Prop
  | none => True
  | some (.declare _ initial) => tables.Lead flags (exprsIds initial.toList)
  | some (.expression value) => tables.Lead flags (exprIds value)

mutual

def FitsStatement (tables : Tables) (flags : List Bool) : Statement → Prop
  | .expression value => tables.Lead flags (exprIds value)
  | .print value => tables.Lead flags (exprIds value)
  | .block body => FitsDeclarations tables (false :: flags) body
  | .branch condition whenTrue none =>
      tables.Lead flags (exprIds condition) ∧ FitsStatement tables flags whenTrue
  | .branch condition whenTrue (some whenFalse) =>
      (tables.Lead flags (exprIds condition) ∧ FitsStatement tables flags whenTrue) ∧
        FitsStatement tables flags whenFalse
  | .loop condition body =>
      tables.Lead flags (exprIds condition) ∧ FitsStatement tables flags body
  | .for_ initial condition increment body =>
      FitsClause tables (false :: flags) initial ∧
        tables.Lead (false :: flags) (exprsIds condition.toList) ∧
          FitsStatement tables (behind increment (false :: flags)) body ∧
            tables.Lead (behind increment (false :: flags)) (exprsIds increment.toList)
  | .leave _ value => tables.Lead flags (exprsIds value.toList)

def FitsDeclaration (tables : Tables) (flags : List Bool) : Declaration → Prop
  | .declare _ initial => tables.Lead flags (exprsIds initial.toList)
  | .function _ _ body => FitsDeclarations tables (false :: flags) body
  | .statement statement => FitsStatement tables flags statement

def FitsDeclarations (tables : Tables) (flags : List Bool) : List Declaration → Prop
  | [] => True
  | first :: rest => FitsDeclaration tables flags first ∧ FitsDeclarations tables flags rest

end

/-- Identities that were handed out before keep their entries. -/
structure Tables.Extends (tables later : Tables) : Prop where
  issued : tables.issued ≤ later.issued
  rewritten : ∀ k < tables.issued,
    later.rewritten.distance? (.ofCount k) = tables.rewritten.distance? (.ofCount k)
  written : ∀ k < tables.issued,
    later.written.distance? (.ofCount k) = tables.written.distance? (.ofCount k)

section Extends

variable {tables later : Tables} {flags : List Bool} {ids : List NodeId}

theorem Tables.Lead.extend (h : tables.Lead flags ids) (hextends : tables.Extends later) :
    later.Lead flags ids := by
  intro id hid
  obtain ⟨⟨k, hk, rfl⟩, hdistance⟩ := h id hid
  refine ⟨⟨k, Nat.lt_of_lt_of_le hk hextends.issued, rfl⟩, ?_⟩
  rw [hextends.rewritten k hk, hextends.written k hk, hdistance]

theorem FitsClause.extend {clause : Option Clause} (h : FitsClause tables flags clause)
    (hextends : tables.Extends later) : FitsClause later flags clause := by
  match clause, h with
  | none, _ => trivial
  | some (.declare _ _), h => exact Tables.Lead.extend h hextends
  | some (.expression _), h => exact Tables.Lead.extend h hextends

mutual

theorem FitsStatement.extend {flags : List Bool} {statement : Statement}
    (h : FitsStatement tables flags statement) (hextends : tables.Extends later) :
    FitsStatement later flags statement := by
  match statement, h with
  | .expression _, h => exact Tables.Lead.extend h hextends
  | .print _, h => exact Tables.Lead.extend h hextends
  | .block _, h => exact FitsDeclarations.extend h hextends
  | .branch _ _ none, h => exact ⟨h.1.extend hextends, FitsStatement.extend h.2 hextends⟩
  | .branch _ _ (some _), h =>
      exact ⟨⟨h.1.1.extend hextends, FitsStatement.extend h.1.2 hextends⟩,
        FitsStatement.extend h.2 hextends⟩
  | .loop _ _, h => exact ⟨h.1.extend hextends, FitsStatement.extend h.2 hextends⟩
  | .for_ _ _ _ _, h =>
      exact ⟨h.1.extend hextends, h.2.1.extend hextends, FitsStatement.extend h.2.2.1 hextends,
        h.2.2.2.extend hextends⟩
  | .leave _ _, h => exact Tables.Lead.extend h hextends

theorem FitsDeclaration.extend {flags : List Bool} {declaration : Declaration}
    (h : FitsDeclaration tables flags declaration) (hextends : tables.Extends later) :
    FitsDeclaration later flags declaration := by
  match declaration, h with
  | .declare _ _, h => exact Tables.Lead.extend h hextends
  | .function _ _ _, h => exact FitsDeclarations.extend h hextends
  | .statement _, h => exact FitsStatement.extend h hextends

theorem FitsDeclarations.extend {flags : List Bool} {declarations : List Declaration}
    (h : FitsDeclarations tables flags declarations) (hextends : tables.Extends later) :
    FitsDeclarations later flags declarations := by
  match declarations, h with
  | [], _ => trivial
  | _ :: _, h =>
      exact ⟨FitsDeclaration.extend h.1 hextends, FitsDeclarations.extend h.2 hextends⟩

end

end Extends

end Scriptlet.Loops
