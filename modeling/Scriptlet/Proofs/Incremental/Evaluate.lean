/-
Running code that is alike, on machines that are alike.

As in the proofs about lexical scoping, the induction is on the bound for the number
of steps, over all five functions of the evaluator at once.
-/
import Scriptlet.Proofs.Incremental.Machines

namespace Scriptlet.Incremental

inductive AlikeFlow (link : Link) : Flow Value → Flow Value → Prop
  | normal : AlikeFlow link .normal .normal
  | leave {value value' : Value} (value_ : AlikeValue link value value') :
      AlikeFlow link (.leave value) (.leave value')

/-- Runs with this bound are alike. -/
structure AlikeAt (link : Link) (bound : Nat) : Prop where
  evaluate : ∀ {expr expr'}, AlikeExpr link expr expr' →
    AlikeRun link (AlikeValue link) (Eval.evaluate bound expr) (Eval.evaluate bound expr')
  evaluateAll : ∀ {exprs exprs'}, AlikeExprs link exprs exprs' →
    AlikeRun link (List.Forall₂ (AlikeValue link)) (Eval.evaluateAll bound exprs)
      (Eval.evaluateAll bound exprs')
  call : ∀ {callee callee' arguments arguments' paren paren'}, AlikeCallable link callee callee' →
    List.Forall₂ (AlikeValue link) arguments arguments' → link.tokens paren paren' →
    AlikeRun link (AlikeValue link) (Eval.call bound callee arguments paren)
      (Eval.call bound callee' arguments' paren')
  execute : ∀ {stmt stmt'}, AlikeStmt link stmt stmt' →
    AlikeRun link (AlikeFlow link) (Eval.execute bound stmt) (Eval.execute bound stmt')
  executeAll : ∀ {stmts stmts'}, AlikeStmts link stmts stmts' →
    AlikeRun link (AlikeFlow link) (Eval.executeAll bound stmts) (Eval.executeAll bound stmts')

section Step

variable {link : Link} {bound : Nat}

theorem AlikeAt.evaluate_succ (ih : AlikeAt link bound) {expr expr' : Expr}
    (h : AlikeExpr link expr expr') :
    AlikeRun link (AlikeValue link) (Eval.evaluate (bound + 1) expr)
      (Eval.evaluate (bound + 1) expr') := by
  cases h with
  | constant value => exact alikeRun_pure (.ofConstant value)
  | group hinner => exact ih.evaluate hinner
  | unary hoperator hoperand =>
      simp only [Eval.evaluate]
      refine (ih.evaluate hoperand).bind fun value value' hvalue => ?_
      exact alikeRun_lift hoperator
        (hvalue.unary (link.kind_eq hoperator) (link.lexeme_eq hoperator))
  | binary hleft hoperator hright =>
      simp only [Eval.evaluate]
      refine (ih.evaluate hleft).bind fun a a' ha => ?_
      refine (ih.evaluate hright).bind fun b b' hb => ?_
      exact alikeRun_lift hoperator
        (ha.binary (link.kind_eq hoperator) (link.lexeme_eq hoperator)
          (fun _ _ => AlikeClosure.sameFace) hb)
  | logical hleft hoperator hright =>
      simp only [Eval.evaluate]
      refine (ih.evaluate hleft).bind fun a a' ha => ?_
      rw [ha.decides_eq (link.kind_eq hoperator)]
      split
      · exact alikeRun_pure ha
      · exact ih.evaluate hright
  | «variable» hid hname => exact alikeRun_readVariable hid hname
  | assign hid hname hvalue =>
      simp only [Eval.evaluate]
      refine (ih.evaluate hvalue).bind fun result result' hresult => ?_
      exact (alikeRun_writeVariable hid hname hresult).bind fun _ _ _ => alikeRun_pure hresult
  | call hcallee hparen harguments =>
      simp only [Eval.evaluate]
      refine (ih.evaluate hcallee).bind fun target target' htarget => ?_
      refine (ih.evaluateAll harguments).bind fun values values' hvalues => ?_
      refine (alikeRun_checkCall htarget hvalues hparen).bind fun function function' hfunction => ?_
      exact (ih.call hfunction hvalues hparen).deeper

theorem AlikeAt.evaluateAll_succ (ih : AlikeAt link bound) {exprs exprs' : List Expr}
    (h : AlikeExprs link exprs exprs') :
    AlikeRun link (List.Forall₂ (AlikeValue link)) (Eval.evaluateAll (bound + 1) exprs)
      (Eval.evaluateAll (bound + 1) exprs') := by
  cases h with
  | nil => exact alikeRun_pure .nil
  | cons hfirst hrest =>
      simp only [Eval.evaluateAll]
      refine (ih.evaluate hfirst).bind fun value value' hvalue => ?_
      refine (ih.evaluateAll hrest).bind fun values values' hvalues => ?_
      exact alikeRun_pure (.cons hvalue hvalues)

theorem AlikeAt.call_succ (ih : AlikeAt link bound) {callee callee' : Callable}
    (h : AlikeCallable link callee callee') {arguments arguments' : List Value}
    (harguments : List.Forall₂ (AlikeValue link) arguments arguments') {paren paren' : Token}
    (hparen : link.tokens paren paren') :
    AlikeRun link (AlikeValue link) (Eval.call (bound + 1) callee arguments paren)
      (Eval.call (bound + 1) callee' arguments' paren') := by
  obtain ⟨value, value', hvalue, hcallee, hcallee'⟩ := h
  cases hvalue with
  | nil | bool _ | number _ | string _ => cases hcallee
  | host function =>
      cases hcallee
      cases hcallee'
      exact alikeRun_callHost function harguments hparen
  | closure hclosure =>
      cases hcallee
      cases hcallee'
      simp only [Eval.call]
      refine (alikeRun_openFrame hclosure harguments).bind fun frame frame' hframe => ?_
      subst hframe
      cases hclosure with
      | same _ _ hbody =>
          refine ((ih.executeAll hbody).within frame).bind fun flow flow' hflow => ?_
          cases hflow with
          | normal => exact alikeRun_pure .nil
          | leave hresult => exact alikeRun_pure hresult

theorem AlikeAt.execute_succ (ih : AlikeAt link bound) {stmt stmt' : Stmt}
    (h : AlikeStmt link stmt stmt') :
    AlikeRun link (AlikeFlow link) (Eval.execute (bound + 1) stmt)
      (Eval.execute (bound + 1) stmt') := by
  cases h with
  | expression hvalue =>
      simp only [Eval.execute]
      exact (ih.evaluate hvalue).bind fun _ _ _ => alikeRun_pure .normal
  | print hvalue =>
      simp only [Eval.execute]
      refine (ih.evaluate hvalue).bind fun value value' hresult => ?_
      rw [hresult.text_eq fun _ _ => AlikeClosure.sameFace]
      exact (alikeRun_printLine _).bind fun _ _ _ => alikeRun_pure .normal
  | declare hname =>
      simp only [Eval.execute]
      exact (alikeRun_define hname .nil).bind fun _ _ _ => alikeRun_pure .normal
  | declareWith hname hinitial =>
      simp only [Eval.execute]
      refine (ih.evaluate hinitial).bind fun value value' hvalue => ?_
      exact (alikeRun_define hname hvalue).bind fun _ _ _ => alikeRun_pure .normal
  | block hbody =>
      simp only [Eval.execute]
      refine alikeRun_current.bind fun machine machine' hcurrent => ?_
      rw [hcurrent]
      refine (alikeRun_openScope _).bind fun scope scope' hscope => ?_
      subst hscope
      exact (ih.executeAll hbody).within scope
  | branch hcondition hwhenTrue =>
      simp only [Eval.execute]
      refine (ih.evaluate hcondition).bind fun value value' hvalue => ?_
      rw [hvalue.isTruthy_eq]
      split
      · exact ih.execute hwhenTrue
      · exact alikeRun_pure .normal
  | branchElse hcondition hwhenTrue hwhenFalse =>
      simp only [Eval.execute]
      refine (ih.evaluate hcondition).bind fun value value' hvalue => ?_
      rw [hvalue.isTruthy_eq]
      split
      · exact ih.execute hwhenTrue
      · exact ih.execute hwhenFalse
  | loop hcondition hbody =>
      simp only [Eval.execute]
      refine (ih.evaluate hcondition).bind fun value value' hvalue => ?_
      rw [hvalue.isTruthy_eq]
      split
      · refine (ih.execute hbody).bind fun flow flow' hflow => ?_
        cases hflow with
        | leave hresult => exact alikeRun_pure (.leave hresult)
        | normal => exact ih.execute (.loop hcondition hbody)
      · exact alikeRun_pure .normal
  | function hname hparams hbody =>
      simp only [Eval.execute]
      refine alikeRun_freshIdentity.bind fun identity identity' hidentity => ?_
      refine alikeRun_current.bind fun machine machine' hcurrent => ?_
      subst hidentity
      rw [hcurrent]
      exact (alikeRun_define hname (.closure (.same hname hparams hbody))).bind
        fun _ _ _ => alikeRun_pure .normal
  | leave hkeyword => exact alikeRun_pure (.leave .nil)
  | leaveWith hkeyword hvalue =>
      simp only [Eval.execute]
      exact (ih.evaluate hvalue).bind fun value value' hresult => alikeRun_pure (.leave hresult)

theorem AlikeAt.executeAll_succ (ih : AlikeAt link bound) {stmts stmts' : List Stmt}
    (h : AlikeStmts link stmts stmts') :
    AlikeRun link (AlikeFlow link) (Eval.executeAll (bound + 1) stmts)
      (Eval.executeAll (bound + 1) stmts') := by
  cases h with
  | nil => exact alikeRun_pure .normal
  | cons hfirst hrest =>
      simp only [Eval.executeAll]
      refine (ih.execute hfirst).bind fun flow flow' hflow => ?_
      cases hflow with
      | leave hresult => exact alikeRun_pure (.leave hresult)
      | normal => exact ih.executeAll hrest

end Step

variable {link : Link}

theorem alikeAt_zero : AlikeAt link 0 where
  evaluate _ := alikeRun_throw .exhausted
  evaluateAll _ := alikeRun_throw .exhausted
  call _ _ _ := alikeRun_throw .exhausted
  execute _ := alikeRun_throw .exhausted
  executeAll _ := alikeRun_throw .exhausted

theorem AlikeAt.succ {bound : Nat} (ih : AlikeAt link bound) : AlikeAt link (bound + 1) where
  evaluate := ih.evaluate_succ
  evaluateAll := ih.evaluateAll_succ
  call hcallee harguments hparen := ih.call_succ hcallee harguments hparen
  execute := ih.execute_succ
  executeAll := ih.executeAll_succ

theorem alikeAt (bound : Nat) : AlikeAt link bound := by
  induction bound with
  | zero => exact alikeAt_zero
  | succ bound ih => exact ih.succ

/-! ### Programs -/

variable {program program' : List Stmt}

theorem alikeRun_runAll (bound : Nat) (h : AlikeStmts link program program') :
    AlikeRun link (fun _ _ => True) (Eval.runAll bound program) (Eval.runAll bound program') := by
  induction program generalizing program' with
  | nil =>
      cases h
      exact alikeRun_pure trivial
  | cons first rest ih =>
      cases h with
      | cons hfirst hrest =>
          simp only [Eval.runAll]
          exact ((alikeAt bound).execute hfirst).bind fun _ _ _ => ih hrest

theorem alikeRun_runProgram (bound : Nat) (h : AlikeStmts link program program') :
    AlikeRun link (fun _ _ => True) (Eval.runProgram bound program)
      (Eval.runProgram bound program') := by
  intro machine machine' hmachines
  have hall := alikeRun_runAll bound h hmachines
  unfold Eval.runProgram
  generalize Eval.runAll bound program machine = result at hall ⊢
  generalize Eval.runAll bound program' machine' = result' at hall ⊢
  cases hall with
  | ok hmachines' _ => exact alikeRun_flush hmachines'
  | error hmachines' hstops => exact .error { hmachines' with current := rfl } hstops

/-- Running one program after the other is running both as one. -/
theorem runAll_append (bound : Nat) (first second : List Stmt) :
    Eval.runAll bound (first ++ second) =
      Eval.runAll bound first >>= fun _ => Eval.runAll bound second := by
  induction first with
  | nil => rfl
  | cons stmt rest ih =>
      funext machine
      simp only [List.cons_append, Eval.runAll, Eval.bind_apply, ih]
      cases Eval.execute bound stmt machine with
      | ok _ _ => rfl
      | error _ _ => rfl

end Scriptlet.Incremental
