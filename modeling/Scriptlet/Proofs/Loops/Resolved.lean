/-
Both forms of a program have the same binding faults, and fit the two side tables.

The walks over the two forms find the same occurrences in the same order.  The identities of a
part are those of no other part, so what both tables say about them is what was found there.
-/
import Scriptlet.Proofs.Incremental.Resolved
import Scriptlet.Proofs.Loops.Distances

namespace Scriptlet.Loops

open Binding Grammar Lexical

/-- What the walks over the two forms of a part find, in which these identities occur: the same
faults, and entries that make the part fit once they settle what both tables say about it. -/
structure Alike (tables : Tables) (ids : List NodeId) (found found' : Findings) (fits : Prop) :
    Prop where
  faults : found.faults = found'.faults
  sublist : List.Sublist (Findings.ids found) ids
  sublist' : List.Sublist (Findings.ids found') ids
  fits : Settles ⟨tables.rewritten, tables.issued⟩ ids found →
    Settles ⟨tables.written, tables.issued⟩ ids found' → fits

section Alike

variable {tables : Tables} {ids others : List NodeId} {a a' b b' : Findings} {P Q : Prop}
  {flags : List Bool} {scopes scopes' : Scopes}

theorem Alike.append (h : Alike tables ids a a' P) (hothers : Alike tables others b b' Q) :
    Alike tables (ids ++ others) (a ++ b) (a' ++ b') (P ∧ Q) where
  faults := congrArg₂ (fun x y : List Diagnostic => x ++ y) h.faults hothers.faults
  sublist := ids_append_sublist h.sublist hothers.sublist
  sublist' := ids_append_sublist h.sublist' hothers.sublist'
  fits hsettles hsettles' := by
    obtain ⟨hfirst, hsecond⟩ := hsettles.split h.sublist hothers.sublist
    obtain ⟨hfirst', hsecond'⟩ := hsettles'.split h.sublist' hothers.sublist'
    exact ⟨h.fits hfirst hfirst', hothers.fits hsecond hsecond'⟩

theorem alike_empty (h : P) : Alike tables [] .empty .empty P where
  faults := rfl
  sublist := List.Sublist.refl _
  sublist' := List.Sublist.refl _
  fits _ _ := h

/-- What contributes no entries is only about faults. -/
theorem Alike.behindFaults (h : Alike tables ids b b' P) (hfaults : a.faults = a'.faults)
    (ha : Findings.ids a = []) (ha' : Findings.ids a' = []) :
    Alike tables ids (a ++ b) (a' ++ b') P where
  faults := congrArg₂ (fun x y : List Diagnostic => x ++ y) hfaults h.faults
  sublist := by
    rw [ids_append, ha]
    exact h.sublist
  sublist' := by
    rw [ids_append, ha']
    exact h.sublist'
  fits hsettles hsettles' := h.fits (hsettles.drop ha) (hsettles'.drop ha')

theorem lookup_relocate (change : Nat → Nat) (found : Findings) (id : NodeId) :
    (relocate change found).entries.lookup id = (found.entries.lookup id).map change := by
  show List.lookup id (found.entries.map _) = _
  induction found.entries with
  | nil => rfl
  | cons entry rest ih =>
      obtain ⟨key, distance⟩ := entry
      rw [List.map_cons, List.lookup_cons, List.lookup_cons, ih]
      cases id == key with
      | true => rfl
      | false => rfl

theorem lead_of_settles {found : Findings}
    (h : Settles ⟨tables.rewritten, tables.issued⟩ ids (relocate (lift flags) found))
    (h' : Settles ⟨tables.written, tables.issued⟩ ids found) : tables.Lead flags ids := by
  intro id hid
  have hrewritten : tables.rewritten.distance? id = _ := h.lookup id hid
  have hwritten : tables.written.distance? id = _ := h'.lookup id hid
  refine ⟨h'.issued id hid, ?_⟩
  rw [hrewritten, hwritten, lookup_relocate]

/-! ### Expressions and clauses -/

theorem alike_expr (h : Inserted flags scopes scopes') (pending : Option String) (expr : Expr) :
    Alike tables (exprIds expr) (inExpr scopes pending expr) (inExpr scopes' pending expr)
      (tables.Lead flags (exprIds expr)) where
  faults := by
    rw [h.inExpr]
    rfl
  sublist := ids_inExpr scopes pending expr
  sublist' := ids_inExpr scopes' pending expr
  fits hsettles hsettles' := lead_of_settles (h.inExpr pending expr ▸ hsettles) hsettles'

theorem exprsIds_some (value : Expr) : exprsIds (some value).toList = exprIds value :=
  List.append_nil _

variable (tables) in
theorem alike_optional (h : Inserted flags scopes scopes') (value : Option Expr) :
    Alike tables (exprsIds value.toList) (inOptional scopes value) (inOptional scopes' value)
      (tables.Lead flags (exprsIds value.toList)) := by
  cases value with
  | none => exact alike_empty nofun
  | some value =>
      rw [exprsIds_some]
      exact alike_expr h none value

variable (tables) in
theorem alike_variable (h : Inserted flags scopes scopes') (hown : Own flags) (name : Token)
    (initial : Option Expr) :
    Alike tables (exprsIds initial.toList) (inVariable scopes name initial).1
        (inVariable scopes' name initial).1 (tables.Lead flags (exprsIds initial.toList)) ∧
      Inserted flags (inVariable scopes name initial).2 (inVariable scopes' name initial).2 := by
  have hinside := h.declare hown name.lexeme
  have hsame := congrArg Findings.faults (h.redeclaration hown name)
  cases initial with
  | none =>
      refine ⟨?_, hinside⟩
      have hnothing : Alike tables [] .empty .empty (tables.Lead flags []) := alike_empty nofun
      have halike := hnothing.behindFaults hsame (ids_redeclaration scopes name)
        (ids_redeclaration scopes' name)
      rw [append_empty, append_empty] at halike
      exact halike
  | some value =>
      refine ⟨?_, hinside⟩
      rw [exprsIds_some]
      rw [inVariable, inVariable, ← h.pendingOf hown]
      exact (alike_expr hinside (pendingOf scopes name.lexeme) value).behindFaults hsame
        (ids_redeclaration scopes name) (ids_redeclaration scopes' name)

variable (tables) in
theorem alike_clause (h : Inserted flags scopes scopes') (hown : Own flags)
    (initial : Option Clause) :
    Alike tables (stmtsIds (initial.map Clause.rewrite).toList) (inClause scopes initial).1
        (inClause scopes' initial).1 (FitsClause tables flags initial) ∧
      Inserted flags (inClause scopes initial).2 (inClause scopes' initial).2 := by
  match initial with
  | none => exact ⟨alike_empty trivial, h⟩
  | some (.declare name none) => exact alike_variable tables h hown name none
  | some (.declare name (some value)) => exact alike_variable tables h hown name (some value)
  | some (.expression value) =>
      refine ⟨?_, h⟩
      have hids : stmtsIds (Option.map Clause.rewrite (some (.expression value))).toList =
          exprIds value := List.append_nil _
      rw [hids]
      exact alike_expr h none value

/-! ### Statements and declarations -/

/-- Statements declare nothing. -/
theorem scopes_rewrite (inFunction : Bool) (scopes : Scopes) (statement : Statement) :
    (inStmt inFunction scopes statement.rewrite).2 = scopes := by
  match statement with
  | .expression _ | .print _ | .block _ | .for_ _ _ _ _ | .leave _ none | .leave _ (some _) => rfl
  | .branch _ whenTrue none => exact scopes_rewrite inFunction scopes whenTrue
  | .branch _ whenTrue (some whenFalse) =>
      show (inStmt inFunction (inStmt inFunction scopes whenTrue.rewrite).2 whenFalse.rewrite).2 = _
      rw [scopes_rewrite inFunction scopes whenTrue]
      exact scopes_rewrite inFunction scopes whenFalse
  | .loop _ body => exact scopes_rewrite inFunction scopes body

/-- The scopes of the body of a loop. -/
def inRound (increment : Option Expr) (scopes : Scopes) : Scopes :=
  if increment.isSome then [] :: scopes else scopes

theorem Inserted.inRound (h : Inserted flags scopes scopes') (increment : Option Expr) :
    Inserted (behind increment flags) (inRound increment scopes) scopes' := by
  cases increment with
  | none => exact h
  | some _ => exact .added h

theorem inStmt_loop (inFunction : Bool) (scopes : Scopes) (condition increment : Option Expr)
    (body : Statement) :
    (inStmt inFunction scopes (.loop (condition.getD (.constant (.bool true)))
        (Grammar.loopRound body.rewrite increment))).1 =
      inOptional scopes condition ++
        ((inStmt inFunction (inRound increment scopes) body.rewrite).1 ++
          inOptional (inRound increment scopes) increment) := by
  have hcondition : inExpr scopes none (condition.getD (.constant (.bool true))) =
      inOptional scopes condition := by
    cases condition with
    | none => rfl
    | some value => rfl
  have hround : (inStmt inFunction scopes (Grammar.loopRound body.rewrite increment)).1 =
      (inStmt inFunction (inRound increment scopes) body.rewrite).1 ++
        inOptional (inRound increment scopes) increment := by
    cases increment with
    | none => exact (append_empty _).symm
    | some value =>
        show (inStmt inFunction ([] :: scopes) body.rewrite).1 ++
          (inExpr (inStmt inFunction ([] :: scopes) body.rewrite).2 none value ++ .empty) = _
        rw [scopes_rewrite, append_empty]
        rfl
  rw [← hcondition, ← hround]
  rfl

/-- The walk over the block and the loop that stand for a `for`. -/
theorem inStmt_for (inFunction : Bool) (scopes : Scopes) (initial : Option Clause)
    (condition increment : Option Expr) (body : Statement) :
    (inStmt inFunction scopes (Statement.for_ initial condition increment body).rewrite).1 =
      (inClause ([] :: scopes) initial).1 ++
        (inStmt inFunction (inClause ([] :: scopes) initial).2
          (.loop (condition.getD (.constant (.bool true)))
            (Grammar.loopRound body.rewrite increment))).1 := by
  rw [Statement.rewrite, Incremental.forLoop_eq]
  cases initial with
  | none => exact append_empty _
  | some clause =>
      cases clause with
      | declare name initial =>
          cases initial with
          | none | some _ => exact congrArg (_ ++ ·) (append_empty _)
      | expression value => exact congrArg (_ ++ ·) (append_empty _)

theorem alike_return (inFunction : Bool) (keyword : Token) (h : Inserted flags scopes scopes')
    (value : Option Expr) :
    Alike tables (stmtIds (.leave keyword value))
      (inStmt inFunction scopes (.leave keyword value)).1
      (inStatement inFunction scopes' (.leave keyword value))
      (FitsStatement tables flags (.leave keyword value)) := by
  have hvalue := (alike_optional tables h value).behindFaults rfl
    (ids_returnFault inFunction keyword) (ids_returnFault inFunction keyword)
  cases value with
  | none =>
      have hnone : ∀ found : Findings, found ++ inOptional scopes none = found := append_empty
      rw [hnone] at hvalue
      exact hvalue
  | some value =>
      rw [FitsStatement, exprsIds_some]
      rw [exprsIds_some] at hvalue
      exact hvalue

mutual

theorem alike_statement {flags : List Bool} {scopes scopes' : Scopes} (inFunction : Bool)
    (h : Inserted flags scopes scopes') (statement : Statement) :
    Alike tables (stmtIds statement.rewrite) (inStmt inFunction scopes statement.rewrite).1
      (inStatement inFunction scopes' statement) (FitsStatement tables flags statement) := by
  match statement with
  | .expression value => exact alike_expr h none value
  | .print value => exact alike_expr h none value
  | .block body =>
      have hbody := alike_declarations inFunction (.own [] h) nofun body
      exact hbody
  | .branch condition whenTrue none =>
      exact (alike_expr h none condition).append (alike_statement inFunction h whenTrue)
  | .branch condition whenTrue (some whenFalse) =>
      have hfalse := alike_statement inFunction h whenFalse
      rw [← scopes_rewrite inFunction scopes whenTrue] at hfalse
      exact ((alike_expr h none condition).append (alike_statement inFunction h whenTrue)).append
        hfalse
  | .loop condition body =>
      exact (alike_expr h none condition).append (alike_statement inFunction h body)
  | .for_ initial condition increment body =>
      obtain ⟨hinitial, hinside⟩ := alike_clause tables (h.own []) nofun initial
      have hround := hinside.inRound increment
      have hloop := (alike_optional tables hinside condition).append
        ((alike_statement inFunction hround body).append (alike_optional tables hround increment))
      rw [← inStmt_loop] at hloop
      have hids : stmtIds (Statement.for_ initial condition increment body).rewrite = _ :=
        Incremental.ids_forLoop ..
      rw [inStmt_for, hids]
      exact hinitial.append hloop
  | .leave keyword value => exact alike_return inFunction keyword h value

theorem alike_declaration {flags : List Bool} {scopes scopes' : Scopes} (inFunction : Bool)
    (h : Inserted flags scopes scopes') (hown : Own flags) (declaration : Declaration) :
    Alike tables (stmtIds declaration.rewrite) (inStmt inFunction scopes declaration.rewrite).1
        (inDeclaration inFunction scopes' declaration).1
        (FitsDeclaration tables flags declaration) ∧
      Inserted flags (inStmt inFunction scopes declaration.rewrite).2
        (inDeclaration inFunction scopes' declaration).2 := by
  match declaration with
  | .declare name none => exact alike_variable tables h hown name none
  | .declare name (some initial) =>
      have halike := alike_variable tables h hown name (some initial)
      rw [FitsDeclaration, exprsIds_some]
      rw [exprsIds_some] at halike
      exact halike
  | .function name params body =>
      have hinside := h.declare hown name.lexeme
      obtain ⟨hparams, hbody⟩ := (hinside.own []).inParams nofun params
      refine ⟨?_, hinside⟩
      have hfaults := congrArg₂ (fun x y : Findings => (x ++ y).faults) (h.redeclaration hown name)
        hparams
      have hids : ∀ scopes inner : Scopes,
          Findings.ids (redeclaration scopes name ++ (inParams inner params).1) = [] := by
        intro scopes inner
        rw [ids_append, ids_redeclaration, ids_inParams]
        rfl
      exact (alike_declarations true hbody nofun body).behindFaults hfaults (hids ..) (hids ..)
  | .statement statement =>
      refine ⟨alike_statement inFunction h statement, ?_⟩
      rw [Declaration.rewrite, scopes_rewrite]
      exact h

theorem alike_declarations {flags : List Bool} {scopes scopes' : Scopes} (inFunction : Bool)
    (h : Inserted flags scopes scopes') (hown : Own flags) (declarations : List Declaration) :
    Alike tables (stmtsIds (rewriteAll declarations))
      (inStmts inFunction scopes (rewriteAll declarations)).1
      (inDeclarations inFunction scopes' declarations)
      (FitsDeclarations tables flags declarations) := by
  match declarations with
  | [] => exact alike_empty trivial
  | first :: rest =>
      obtain ⟨hfirst, hafter⟩ := alike_declaration inFunction h hown first
      exact hfirst.append (alike_declarations inFunction hafter hown rest)

end

end Alike

/-! ### Programs -/

/-- Nothing is said yet about identities that are still to be handed out. -/
def Tables.Fresh (tables : Tables) : Prop :=
  ∀ k, tables.issued ≤ k → k < UInt32.size →
    tables.rewritten.distance? (.ofCount k) = none ∧ tables.written.distance? (.ofCount k) = none

/-- The tables behind one more program. -/
def Tables.merge (tables : Tables) (added added' : Table) (issued : Nat) : Tables :=
  ⟨tables.rewritten.merge added, tables.written.merge added', issued⟩

/-- Both forms of a program are resolved, and fit the tables from then on, or both have the same
faults. -/
inductive BothResolve (tables : Tables) (m : Nat) (program : List Declaration) :
    Except (List Diagnostic) Table → Except (List Diagnostic) Table → Prop
  | ok {added added' : Table}
      (fits : FitsDeclarations (tables.merge added added' m) [] program)
      (grows : tables.Extends (tables.merge added added' m))
      (fresh : (tables.merge added added' m).Fresh) :
      BothResolve tables m program (.ok added) (.ok added')
  | error (faults : List Diagnostic) :
      BothResolve tables m program (.error faults) (.error faults)

section Programs

variable {tables : Tables} {m : Nat}

theorem bothResolve {program : List Declaration} (hfresh : tables.Fresh)
    (hnumbered : Numbered tables.issued m (stmtsIds (rewriteAll program)))
    (hm : m ≤ UInt32.size) :
    BothResolve tables m program (Scriptlet.resolve (rewriteAll program)) (resolve program) := by
  have halike : ∀ later : Tables, Alike later (stmtsIds (rewriteAll program))
      (findings (rewriteAll program)) (inDeclarations false [] program)
      (FitsDeclarations later [] program) :=
    fun later => alike_declarations false .nil nofun program
  have hfaults := (halike tables).faults
  unfold Scriptlet.resolve resolve
  dsimp only
  rw [← hfaults]
  split
  · obtain ⟨hsettles, hextends, hrewritten⟩ := settles_of_entries (halike tables).sublist hnumbered
      hm fun k hk hlt => (hfresh k hk hlt).1
    obtain ⟨hsettles', hextends', hwritten⟩ := settles_of_entries (halike tables).sublist' hnumbered
      hm fun k hk hlt => (hfresh k hk hlt).2
    exact .ok ((halike _).fits hsettles hsettles')
      ⟨hextends.issued, hextends.table, hextends'.table⟩
      fun k hk hlt => ⟨hrewritten k hk hlt, hwritten k hk hlt⟩
  · exact .error _

/-- Outside all scopes nothing needs to be resolved. -/
theorem lead_of_fresh {ids : List NodeId} (hfresh : tables.Fresh)
    (hnumbered : Numbered tables.issued m ids) (hm : m ≤ UInt32.size) :
    Tables.Lead { tables with issued := m } [] ids := by
  intro id hid
  obtain ⟨k, hk, hkm, rfl⟩ := hnumbered.exists_count hid
  obtain ⟨hrewritten, hwritten⟩ := hfresh k hk (Nat.lt_of_lt_of_le hkm hm)
  exact ⟨⟨k, hkm, rfl⟩, by rw [hrewritten, hwritten, Option.map_none]⟩

end Programs

end Scriptlet.Loops
