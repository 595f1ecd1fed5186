/-
Programs that differ in names run alike: they print the same, and end with the same result.

The induction is on the bound for the number of steps, over all five functions of the reference
evaluator at once.
-/
import Scriptlet.Proofs.Renaming.Twins

namespace Scriptlet.Renaming

open Reference (Env Store Run)

inductive TwinFlow (new : String) : Flow (ValueIn Env) → Flow (ValueIn Env) → Prop
  | normal : TwinFlow new .normal .normal
  | leave {value value' : ValueIn Env} (value_ : TwinValue new value value') :
      TwinFlow new (.leave value) (.leave value')

/-- Runs with this bound go alike. -/
structure TwinsAt (new : String) (bound : Nat) : Prop where
  evaluate : ∀ {pairs env env' expr expr'}, TwinEnv pairs env env' →
    AlphaExpr new pairs expr expr' →
      TwinRun new (TwinValue new) (Run.evaluate bound env expr) (Run.evaluate bound env' expr')
  evaluateAll : ∀ {pairs env env' exprs exprs'}, TwinEnv pairs env env' →
    AlphaExprs new pairs exprs exprs' →
      TwinRun new (List.Forall₂ (TwinValue new)) (Run.evaluateAll bound env exprs)
        (Run.evaluateAll bound env' exprs')
  call : ∀ {callee callee' arguments arguments'}, TwinCallable new callee callee' →
    arguments.length = callee.arity → List.Forall₂ (TwinValue new) arguments arguments' →
    ∀ paren, TwinRun new (TwinValue new) (Run.call bound callee arguments paren)
      (Run.call bound callee' arguments' paren)
  execute : ∀ {strict pairs env env' stmt stmt'}, TwinEnv pairs env env' →
    AlphaStmt new strict pairs stmt stmt' →
      TwinRun new (fun result result' => TwinFlow new result.1 result'.1 ∧
          TwinEnv (pairs.after stmt stmt') result.2 result'.2)
        (Run.execute bound env stmt) (Run.execute bound env' stmt')
  executeAll : ∀ {strict pairs env env' stmts stmts'}, TwinEnv pairs env env' →
    AlphaStmts new strict pairs stmts stmts' →
      TwinRun new (TwinFlow new) (Run.executeAll bound env stmts) (Run.executeAll bound env' stmts')

section Step

variable {new : String} {strict : Bool} {bound : Nat} {pairs : Pairs} {env env' : Env}

theorem TwinsAt.evaluate_succ (ih : TwinsAt new bound) {expr expr' : Expr}
    (henv : TwinEnv pairs env env') (h : AlphaExpr new pairs expr expr') :
    TwinRun new (TwinValue new) (Run.evaluate (bound + 1) env expr)
      (Run.evaluate (bound + 1) env' expr') := by
  cases h with
  | constant value => exact twinRun_pure (.ofConstant value)
  | group hinner =>
      simp only [Run.evaluate]
      exact ih.evaluate henv hinner
  | unary hoperand =>
      simp only [Run.evaluate]
      refine (ih.evaluate henv hoperand).bind fun value value' hvalue => ?_
      exact twinRun_lift _ (hvalue.unary rfl rfl)
  | binary hleft hright =>
      simp only [Run.evaluate]
      refine (ih.evaluate henv hleft).bind fun a a' ha => ?_
      refine (ih.evaluate henv hright).bind fun b b' hb => ?_
      exact twinRun_lift _ (ha.binary rfl rfl (fun _ _ => TwinClosure.sameFace) hb)
  | @logical operator _ _ _ _ hleft hright =>
      simp only [Run.evaluate]
      refine (ih.evaluate henv hleft).bind fun a a' ha => ?_
      rw [ha.decides_eq (rfl : operator.kind = operator.kind)]
      split
      · exact twinRun_pure ha
      · exact ih.evaluate henv hright
  | «variable» hspelled hsame =>
      simp only [Run.evaluate]
      exact twinRun_read henv hsame hspelled.line_eq
  | assign hspelled hsame hvalue =>
      simp only [Run.evaluate]
      refine (ih.evaluate henv hvalue).bind fun result result' hresult => ?_
      refine (twinRun_assign henv hsame hspelled.line_eq hresult).bind fun _ _ _ => ?_
      exact twinRun_pure hresult
  | call hcallee harguments =>
      simp only [Run.evaluate]
      refine (ih.evaluate henv hcallee).bind fun target target' htarget => ?_
      refine (ih.evaluateAll henv harguments).bind fun values values' hvalues => ?_
      refine (twinRun_checkCall htarget hvalues _).bind
        fun function function' ⟨hfunction, harity⟩ => ?_
      exact (ih.call hfunction harity hvalues _).deeper

theorem TwinsAt.evaluateAll_succ (ih : TwinsAt new bound) {exprs exprs' : List Expr}
    (henv : TwinEnv pairs env env') (h : AlphaExprs new pairs exprs exprs') :
    TwinRun new (List.Forall₂ (TwinValue new)) (Run.evaluateAll (bound + 1) env exprs)
      (Run.evaluateAll (bound + 1) env' exprs') := by
  cases h with
  | nil => exact twinRun_pure .nil
  | cons hfirst hrest =>
      simp only [Run.evaluateAll]
      refine (ih.evaluate henv hfirst).bind fun value value' hvalue => ?_
      refine (ih.evaluateAll henv hrest).bind fun values values' hvalues => ?_
      exact twinRun_pure (.cons hvalue hvalues)

theorem TwinsAt.call_succ (ih : TwinsAt new bound) {callee callee' : CallableIn Env}
    (h : TwinCallable new callee callee') {arguments arguments' : List (ValueIn Env)}
    (harity : arguments.length = callee.arity)
    (harguments : List.Forall₂ (TwinValue new) arguments arguments') (paren : Token) :
    TwinRun new (TwinValue new) (Run.call (bound + 1) callee arguments paren)
      (Run.call (bound + 1) callee' arguments' paren) := by
  obtain ⟨value, value', hvalue, hcallee, hcallee'⟩ := h
  cases hvalue with
  | nil | bool _ | number _ | string _ => cases hcallee
  | host function =>
      cases hcallee
      cases hcallee'
      exact twinRun_callHost function harguments paren
  | closure hclosure =>
      cases hcallee
      cases hcallee'
      cases hclosure with
      | same hscope hparams hbody =>
          simp only [Run.call]
          refine (twinRun_openFrame hparams (.open hscope) harity harguments).bind
            fun inside inside' hinside => ?_
          refine (ih.executeAll hinside hbody).bind fun flow flow' hflow => ?_
          cases hflow with
          | normal => exact twinRun_pure .nil
          | leave hresult => exact twinRun_pure hresult

theorem TwinsAt.execute_succ (ih : TwinsAt new bound) {stmt stmt' : Stmt}
    (henv : TwinEnv pairs env env') (h : AlphaStmt new strict pairs stmt stmt') :
    TwinRun new (fun result result' => TwinFlow new result.1 result'.1 ∧
        TwinEnv (pairs.after stmt stmt') result.2 result'.2)
      (Run.execute (bound + 1) env stmt) (Run.execute (bound + 1) env' stmt') := by
  cases h with
  | expression hvalue =>
      simp only [Run.execute]
      exact (ih.evaluate henv hvalue).bind fun _ _ _ => twinRun_pure ⟨.normal, henv⟩
  | print hvalue =>
      simp only [Run.execute]
      refine (ih.evaluate henv hvalue).bind fun value value' hresult => ?_
      rw [hresult.text_eq fun _ _ => TwinClosure.sameFace]
      exact (twinRun_printLine _).bind fun _ _ _ => twinRun_pure ⟨.normal, henv⟩
  | declare _ _ hsame =>
      simp only [Run.execute]
      refine (twinRun_declare henv _ _).bind fun inside inside' hinside => ?_
      exact (twinRun_define hinside hsame .nil).bind fun _ _ _ => twinRun_pure ⟨.normal, hinside⟩
  | declareWith _ _ hsame hinitial =>
      simp only [Run.execute]
      refine (twinRun_declare henv _ _).bind fun inside inside' hinside => ?_
      refine (ih.evaluate hinside hinitial).bind fun value value' hvalue => ?_
      exact (twinRun_define hinside hsame hvalue).bind
        fun _ _ _ => twinRun_pure ⟨.normal, hinside⟩
  | block hbody =>
      simp only [Run.execute]
      exact (ih.executeAll (.open henv) hbody).bind
        fun flow flow' hflow => twinRun_pure ⟨hflow, henv⟩
  | branch hcondition _ hwhenTrue =>
      simp only [Run.execute]
      refine (ih.evaluate henv hcondition).bind fun value value' hvalue => ?_
      rw [hvalue.isTruthy_eq]
      split
      · exact (ih.execute henv hwhenTrue).bind fun _ _ hresult => twinRun_pure ⟨hresult.1, henv⟩
      · exact twinRun_pure ⟨.normal, henv⟩
  | branchElse hcondition _ hwhenTrue _ hwhenFalse =>
      simp only [Run.execute]
      refine (ih.evaluate henv hcondition).bind fun value value' hvalue => ?_
      rw [hvalue.isTruthy_eq]
      split
      · exact (ih.execute henv hwhenTrue).bind fun _ _ hresult => twinRun_pure ⟨hresult.1, henv⟩
      · exact (ih.execute henv hwhenFalse).bind fun _ _ hresult => twinRun_pure ⟨hresult.1, henv⟩
  | loop hcondition hbare hbody =>
      simp only [Run.execute]
      refine (ih.evaluate henv hcondition).bind fun value value' hvalue => ?_
      rw [hvalue.isTruthy_eq]
      split
      · refine (ih.execute henv hbody).bind fun result result' ⟨hflow, _⟩ => ?_
        obtain ⟨flow, inside⟩ := result
        obtain ⟨flow', inside'⟩ := result'
        cases hflow with
        | leave hresult => exact twinRun_pure ⟨.leave hresult, henv⟩
        | normal => exact ih.execute henv (.loop hcondition hbare hbody)
      · exact twinRun_pure ⟨.normal, henv⟩
  | function _ hparams hbody =>
      simp only [Run.execute]
      refine twinRun_freshIdentity.bind fun identity identity' hidentity => ?_
      subst hidentity
      refine (twinRun_declare henv _ _).bind fun inside inside' hinside => ?_
      refine (twinRun_define hinside (pairs.same_declare_self _)
        (.closure (.same hinside hparams hbody))).bind fun _ _ _ => ?_
      exact twinRun_pure ⟨.normal, hinside⟩
  | leave => exact twinRun_pure ⟨.leave .nil, henv⟩
  | leaveWith hvalue =>
      simp only [Run.execute]
      exact (ih.evaluate henv hvalue).bind
        fun value value' hresult => twinRun_pure ⟨.leave hresult, henv⟩

theorem TwinsAt.executeAll_succ (ih : TwinsAt new bound) {stmts stmts' : List Stmt}
    (henv : TwinEnv pairs env env') (h : AlphaStmts new strict pairs stmts stmts') :
    TwinRun new (TwinFlow new) (Run.executeAll (bound + 1) env stmts)
      (Run.executeAll (bound + 1) env' stmts') := by
  cases h with
  | nil => exact twinRun_pure .normal
  | cons hfirst hrest =>
      simp only [Run.executeAll]
      refine (ih.execute henv hfirst).bind fun result result' ⟨hflow, hinside⟩ => ?_
      obtain ⟨flow, inside⟩ := result
      obtain ⟨flow', inside'⟩ := result'
      cases hflow with
      | leave hresult => exact twinRun_pure (.leave hresult)
      | normal => exact ih.executeAll hinside hrest

end Step

variable {new : String}

theorem twinsAt_zero : TwinsAt new 0 where
  evaluate _ _ := twinRun_throw _
  evaluateAll _ _ := twinRun_throw _
  call _ _ _ _ := twinRun_throw _
  execute _ _ := twinRun_throw _
  executeAll _ _ := twinRun_throw _

theorem TwinsAt.succ {bound : Nat} (ih : TwinsAt new bound) : TwinsAt new (bound + 1) where
  evaluate := ih.evaluate_succ
  evaluateAll := ih.evaluateAll_succ
  call hcallee harity harguments paren := ih.call_succ hcallee harity harguments paren
  execute := ih.execute_succ
  executeAll := ih.executeAll_succ

theorem twinsAt (bound : Nat) : TwinsAt new bound := by
  induction bound with
  | zero => exact twinsAt_zero
  | succ bound ih => exact ih.succ

/-! ### Programs -/

variable {strict : Bool} {program program' : List Stmt}

theorem twinRun_runAll (bound : Nat) (h : AlphaStmts new strict [] program program') :
    TwinRun new (fun _ _ => True) (Run.runAll bound program) (Run.runAll bound program') := by
  induction program generalizing program' with
  | nil =>
      cases h
      exact twinRun_pure trivial
  | cons first rest ih =>
      cases h with
      | cons hfirst hrest =>
          simp only [Run.runAll]
          rw [Pairs.after_nil] at hrest
          exact ((twinsAt bound).execute .nil hfirst).bind fun _ _ _ => ih hrest

theorem twinRun_runProgram (bound : Nat) (h : AlphaStmts new strict [] program program') :
    TwinRun new (fun _ _ => True) (Run.runProgram bound program)
      (Run.runProgram bound program') :=
  (twinRun_runAll bound h).bind fun _ _ _ => twinRun_flush

end Scriptlet.Renaming
