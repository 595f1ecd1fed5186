/-
The resolver finds the same in trees that are alike, and finds in two programs in a
row what it finds in each.
-/
import Scriptlet.Proofs.Incremental.Alike
import Scriptlet.Proofs.Lexical.Resolved

namespace Scriptlet.Incremental

open Binding

/-- The same fault at tokens that may stand for each other. -/
inductive AlikeFault (link : Link) : Diagnostic → Diagnostic → Prop
  | binding {token token' : Token} (cause : BindingFault) (tokens : link.tokens token token') :
      AlikeFault link (.binding token.line token.location cause)
        (.binding token'.line token'.location cause)

/-- The same distances for identities that may stand for each other, and the same faults at
such tokens. -/
structure AlikeFindings (link : Link) (found found' : Findings) : Prop where
  entries : List.Forall₂ (fun entry entry' => link.ids entry.1 entry'.1 ∧ entry.2 = entry'.2)
    found.entries found'.entries
  faults : List.Forall₂ (AlikeFault link) found.faults found'.faults

section Findings

variable {link : Link} {found found' more more' : Findings}

theorem alikeFindings_empty : AlikeFindings link .empty .empty :=
  ⟨.nil, .nil⟩

theorem alikeFindings_fault {token token' : Token} (htoken : link.tokens token token')
    (fault : BindingFault) : AlikeFindings link (.fault token fault) (.fault token' fault) :=
  ⟨.nil, .cons (.binding fault htoken) .nil⟩

theorem AlikeFindings.append (h : AlikeFindings link found found')
    (hmore : AlikeFindings link more more') :
    AlikeFindings link (found ++ more) (found' ++ more') :=
  ⟨List.rel_append h.entries hmore.entries, List.rel_append h.faults hmore.faults⟩

/-- There are faults in both or in neither. -/
theorem AlikeFindings.faults_iff (h : AlikeFindings link found found') :
    found.faults = [] ↔ found'.faults = [] := by
  rw [← List.length_eq_zero_iff, ← List.length_eq_zero_iff, h.faults.length_eq]

theorem alike_occurrence {id id' : NodeId} (hid : link.ids id id') {name name' : Token}
    (hname : link.tokens name name') (scopes : Scopes) :
    AlikeFindings link (occurrence scopes id name) (occurrence scopes id' name') := by
  unfold occurrence
  rw [link.lexeme_eq hname]
  split
  · exact ⟨.cons ⟨hid, rfl⟩ .nil, .nil⟩
  · exact alikeFindings_empty

theorem alike_redeclaration {name name' : Token} (hname : link.tokens name name')
    (scopes : Scopes) :
    AlikeFindings link (redeclaration scopes name) (redeclaration scopes name') := by
  unfold redeclaration
  rw [link.lexeme_eq hname]
  split
  · exact alikeFindings_fault hname _
  · exact alikeFindings_empty

theorem alike_returnFault (inFunction : Bool) {keyword keyword' : Token}
    (hkeyword : link.tokens keyword keyword') :
    AlikeFindings link (if inFunction then .empty else .fault keyword .returnOutsideFunction)
      (if inFunction then .empty else .fault keyword' .returnOutsideFunction) := by
  split
  · exact alikeFindings_empty
  · exact alikeFindings_fault hkeyword _

end Findings

section Trees

variable {link : Link}

mutual

theorem alike_inExpr {expr expr' : Expr} (h : AlikeExpr link expr expr') (scopes : Scopes)
    (pending : Option String) :
    AlikeFindings link (inExpr scopes pending expr) (inExpr scopes pending expr') := by
  match expr, h with
  | .constant _, .constant _ => exact alikeFindings_empty
  | .group _, .group hinner => exact alike_inExpr hinner scopes pending
  | .unary _ _, .unary _ hoperand => exact alike_inExpr hoperand scopes pending
  | .binary _ _ _, .binary hleft _ hright =>
      exact (alike_inExpr hleft scopes pending).append (alike_inExpr hright scopes pending)
  | .logical _ _ _, .logical hleft _ hright =>
      exact (alike_inExpr hleft scopes pending).append (alike_inExpr hright scopes pending)
  | .variable _ _, .variable hid hname =>
      refine AlikeFindings.append ?_ (alike_occurrence hid hname scopes)
      rw [link.lexeme_eq hname]
      split
      · exact alikeFindings_fault hname _
      · exact alikeFindings_empty
  | .assign _ _ _, .assign hid hname hvalue =>
      exact (alike_inExpr hvalue scopes pending).append (alike_occurrence hid hname scopes)
  | .call _ _ _, .call hcallee _ harguments =>
      exact (alike_inExpr hcallee scopes pending).append (alike_inExprs harguments scopes pending)

theorem alike_inExprs {exprs exprs' : List Expr} (h : AlikeExprs link exprs exprs')
    (scopes : Scopes) (pending : Option String) :
    AlikeFindings link (inExprs scopes pending exprs) (inExprs scopes pending exprs') := by
  match exprs, h with
  | [], .nil => exact alikeFindings_empty
  | _ :: _, .cons hfirst hrest =>
      exact (alike_inExpr hfirst scopes pending).append (alike_inExprs hrest scopes pending)

end

theorem alike_inParams {params params' : List Token} (h : List.Forall₂ link.tokens params params')
    (scopes : Scopes) :
    AlikeFindings link (inParams scopes params).1 (inParams scopes params').1 ∧
      (inParams scopes params').2 = (inParams scopes params).2 := by
  induction h generalizing scopes with
  | nil => exact ⟨alikeFindings_empty, rfl⟩
  | @cons param param' _ _ hparam _ ih =>
      obtain ⟨hfound, hscopes⟩ := ih (declare scopes param.lexeme)
      simp only [inParams, link.lexeme_eq hparam]
      exact ⟨(alike_redeclaration hparam scopes).append hfound, hscopes⟩

mutual

theorem alike_inStmt {stmt stmt' : Stmt} (h : AlikeStmt link stmt stmt') (inFunction : Bool)
    (scopes : Scopes) :
    AlikeFindings link (inStmt inFunction scopes stmt).1 (inStmt inFunction scopes stmt').1 ∧
      (inStmt inFunction scopes stmt').2 = (inStmt inFunction scopes stmt).2 := by
  match stmt, h with
  | .expression _, .expression hvalue => exact ⟨alike_inExpr hvalue scopes none, rfl⟩
  | .print _, .print hvalue => exact ⟨alike_inExpr hvalue scopes none, rfl⟩
  | .declare _ none, .declare hname =>
      simp only [inStmt, link.lexeme_eq hname]
      exact ⟨alike_redeclaration hname scopes, trivial⟩
  | .declare _ (some _), .declareWith hname hinitial =>
      simp only [inStmt, link.lexeme_eq hname]
      exact ⟨(alike_redeclaration hname scopes).append (alike_inExpr hinitial _ _), trivial⟩
  | .block _, .block hbody => exact ⟨(alike_inStmts hbody inFunction _).1, rfl⟩
  | .branch _ _ none, .branch hcondition hwhenTrue =>
      obtain ⟨hfound, hscopes⟩ := alike_inStmt hwhenTrue inFunction scopes
      exact ⟨(alike_inExpr hcondition scopes none).append hfound, hscopes⟩
  | .branch _ _ (some _), .branchElse hcondition hwhenTrue hwhenFalse =>
      obtain ⟨hfoundTrue, hbetween⟩ := alike_inStmt hwhenTrue inFunction scopes
      obtain ⟨hfoundFalse, hscopes⟩ := alike_inStmt hwhenFalse inFunction
        (inStmt inFunction scopes _).2
      simp only [inStmt, hbetween]
      exact ⟨((alike_inExpr hcondition scopes none).append hfoundTrue).append hfoundFalse, hscopes⟩
  | .loop _ _, .loop hcondition hbody =>
      obtain ⟨hfound, hscopes⟩ := alike_inStmt hbody inFunction scopes
      exact ⟨(alike_inExpr hcondition scopes none).append hfound, hscopes⟩
  | .function name _ _, .function hname hparams hbody =>
      obtain ⟨hfound, hscopes⟩ := alike_inParams hparams ([] :: declare scopes name.lexeme)
      simp only [inStmt, link.lexeme_eq hname, hscopes]
      exact ⟨((alike_redeclaration hname scopes).append hfound).append
        (alike_inStmts hbody true _).1, trivial⟩
  | .leave _ none, .leave hkeyword => exact ⟨alike_returnFault inFunction hkeyword, rfl⟩
  | .leave _ (some _), .leaveWith hkeyword hvalue =>
      exact ⟨(alike_returnFault inFunction hkeyword).append (alike_inExpr hvalue scopes none), rfl⟩

theorem alike_inStmts {stmts stmts' : List Stmt} (h : AlikeStmts link stmts stmts')
    (inFunction : Bool) (scopes : Scopes) :
    AlikeFindings link (inStmts inFunction scopes stmts).1 (inStmts inFunction scopes stmts').1 ∧
      (inStmts inFunction scopes stmts').2 = (inStmts inFunction scopes stmts).2 := by
  match stmts, h with
  | [], .nil => exact ⟨alikeFindings_empty, rfl⟩
  | _ :: _, .cons hfirst hrest =>
      obtain ⟨hfoundFirst, hbetween⟩ := alike_inStmt hfirst inFunction scopes
      obtain ⟨hfoundRest, hscopes⟩ := alike_inStmts hrest inFunction (inStmt inFunction scopes _).2
      simp only [inStmts, hbetween]
      exact ⟨hfoundFirst.append hfoundRest, hscopes⟩

end

end Trees

/-! ### Two programs in a row -/

theorem Findings.append_assoc (a b c : Findings) : a ++ b ++ c = a ++ (b ++ c) :=
  congrArg₂ Findings.mk (List.append_assoc ..) (List.append_assoc ..)

theorem inStmts_append (inFunction : Bool) (scopes : Scopes) (first second : List Stmt) :
    (inStmts inFunction scopes (first ++ second)).1 =
      (inStmts inFunction scopes first).1 ++
        (inStmts inFunction (inStmts inFunction scopes first).2 second).1 := by
  induction first generalizing scopes with
  | nil => rfl
  | cons stmt rest ih =>
      simp only [List.cons_append, inStmts, ih]
      exact (Findings.append_assoc _ _ _).symm

/-- No scope is open between two programs. -/
theorem findings_append {first : List Stmt} (hformed : Grammar.FormedStmts first)
    (second : List Stmt) : findings (first ++ second) = findings first ++ findings second := by
  have houtside : (inStmts false [] first).2 = [] := by
    induction first with
    | nil => rfl
    | cons stmt rest ih =>
        show (inStmts false (inStmt false [] stmt).2 rest).2 = []
        rw [Lexical.inStmt_scopes hformed.1, Lexical.after_nil]
        exact ih hformed.2
  unfold findings
  rw [inStmts_append, houtside]

end Scriptlet.Incremental
