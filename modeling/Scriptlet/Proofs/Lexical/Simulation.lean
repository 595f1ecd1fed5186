/-
A program that fits its side table has the same outcome on both sides.

The induction is on the bound for the number of steps, over all five functions of
the evaluator at once.
-/
import Scriptlet.Proofs.Lexical.Actions

namespace Scriptlet.Lexical

open Reference (Env Store Run)

inductive FlowMatches (known : Known) (homes : Homes) (tree : ScopeTree Value) :
    Flow Value → Flow (ValueIn Env) → Prop
  | normal : FlowMatches known homes tree .normal .normal
  | leave {value : Value} {value' : ValueIn Env}
      (matches_ : Matches known homes tree value value') :
      FlowMatches known homes tree (.leave value) (.leave value')

/-- Statements that fit have the same outcome with this bound, and so have the
parts of a run. -/
structure SimulatesAt (bound : Nat) : Prop where
  evaluate : ∀ {known homes machine store env pending expr}, Relates known homes machine store →
    Mirrors homes machine.scopes pending machine.current env →
    FitsExpr known env.names pending expr →
      Simulates known none homes machine store (Eval.evaluate bound expr)
        (Run.evaluate bound env expr) fun homes' machine' => Matches known homes' machine'.scopes
  evaluateAll : ∀ {known homes machine store env pending exprs},
    Relates known homes machine store →
    Mirrors homes machine.scopes pending machine.current env →
    FitsExprs known env.names pending exprs →
      Simulates known none homes machine store (Eval.evaluateAll bound exprs)
        (Run.evaluateAll bound env exprs)
        fun homes' machine' => AllMatch known homes' machine'.scopes
  call : ∀ {known homes machine store callee callee' arguments arguments'},
    Relates known homes machine store → CallMatches known homes machine.scopes callee callee' →
    arguments.length = callee.arity → AllMatch known homes machine.scopes arguments arguments' →
    ∀ paren, Simulates known none homes machine store (Eval.call bound callee arguments paren)
      (Run.call bound callee' arguments' paren)
      fun homes' machine' => Matches known homes' machine'.scopes
  execute : ∀ {known homes machine store env stmt}, Relates known homes machine store →
    Stands homes machine env → FitsStmt known env.names stmt →
      Simulates known (some machine.current) homes machine store (Eval.execute bound stmt)
        (Run.execute bound env stmt) fun homes' machine' flow result =>
          FlowMatches known homes' machine'.scopes flow result.1 ∧
            Stands homes' machine' result.2 ∧ result.2.names = after env.names stmt
  executeAll : ∀ {known homes machine store env stmts}, Relates known homes machine store →
    Stands homes machine env → FitsStmts known env.names stmts →
      Simulates known (some machine.current) homes machine store (Eval.executeAll bound stmts)
        (Run.executeAll bound env stmts)
        fun homes' machine' => FlowMatches known homes' machine'.scopes

section Step

variable {known : Known} {homes : Homes} {machine : Machine} {store : Store} {env : Env}
  {pending : Option String} {touched : Option Nat} {bound : Nat}

theorem SimulatesAt.evaluate_succ (ih : SimulatesAt bound) {expr : Expr}
    (hrelates : Relates known homes machine store)
    (hmirrors : Mirrors homes machine.scopes pending machine.current env)
    (hfits : FitsExpr known env.names pending expr) :
    Simulates known none homes machine store (Eval.evaluate (bound + 1) expr)
      (Run.evaluate (bound + 1) env expr)
      fun homes' machine' => Matches known homes' machine'.scopes := by
  -- What was mirrored before a part of the expression is mirrored behind it.
  have hstill : ∀ {homes' machine'}, Grows none homes machine homes' machine' →
      Mirrors homes' machine'.scopes pending machine'.current env := by
    intro homes' machine' hgrows
    rw [hgrows.current]
    exact hmirrors.grow hgrows
  cases expr with
  | constant value => exact simulates_pure hrelates (.ofConstant value)
  | group inner =>
      simp only [Eval.evaluate, Run.evaluate]
      exact ih.evaluate hrelates hmirrors hfits
  | unary operator operand =>
      simp only [Eval.evaluate, Run.evaluate]
      refine (ih.evaluate hrelates hmirrors hfits.2).bind
        fun homes' machine' store' value value' _ hrelates' hmatch => ?_
      exact simulates_lift hrelates' operator (hmatch.unary rfl rfl)
        fun fault => Operator.sound_unary hfits.1
  | binary left operator right =>
      simp only [Eval.evaluate, Run.evaluate]
      refine (ih.evaluate hrelates hmirrors hfits.2.1).bind
        fun homes' machine' store' a a' hgrows hrelates' ha => ?_
      refine (ih.evaluate hrelates' (hstill hgrows) hfits.2.2).bind
        fun homes'' machine'' store'' b b' hgrows' hrelates'' hb => ?_
      exact simulates_lift hrelates'' operator
        ((ha.grow hgrows').binary rfl rfl (fun _ _ => ClosureMatches.sameFace) hb)
        fun fault => Operator.sound_binary hfits.1
  | logical left operator right =>
      simp only [Eval.evaluate, Run.evaluate]
      refine (ih.evaluate hrelates hmirrors hfits.1).bind
        fun homes' machine' store' a a' hgrows hrelates' ha => ?_
      rw [ha.decides_eq (rfl : operator.kind = operator.kind)]
      split
      · exact simulates_pure hrelates' ha
      · exact ih.evaluate hrelates' (hstill hgrows) hfits.2
  | «variable» id name =>
      simp only [Eval.evaluate, Run.evaluate]
      exact simulates_read hrelates hmirrors hfits.1 hfits.2
  | assign id name value =>
      simp only [Eval.evaluate, Run.evaluate]
      refine (ih.evaluate hrelates hmirrors hfits.1).bind
        fun homes' machine' store' result result' hgrows hrelates' hmatch => ?_
      refine (simulates_assign hrelates' (hstill hgrows) hfits.2 hmatch).bind
        fun homes'' machine'' store'' _ _ hgrows' hrelates'' _ => ?_
      exact simulates_pure hrelates'' (hmatch.grow hgrows')
  | call callee paren arguments =>
      simp only [Eval.evaluate, Run.evaluate]
      refine (ih.evaluate hrelates hmirrors hfits.1).bind
        fun homes' machine' store' target target' hgrows hrelates' htarget => ?_
      refine (ih.evaluateAll hrelates' (hstill hgrows) hfits.2).bind
        fun homes'' machine'' store'' values values' hgrows' hrelates'' hvalues => ?_
      refine (simulates_checkCall hrelates'' (htarget.grow hgrows') hvalues paren).growing.bind
        fun homes3 machine3 store3 function function' _ hrelates3
          ⟨⟨hfunction, harity⟩, hgrows3⟩ => ?_
      have hvalues3 : AllMatch known homes3 machine3.scopes values values' :=
        AllMatch.grow hvalues hgrows3
      refine Simulates.deeper (fun change => ?_) fun _ _ _ _ _ hmatch heq => heq ▸ hmatch
      exact ih.call (hrelates3.modifyOutside change) hfunction harity hvalues3 paren

theorem SimulatesAt.evaluateAll_succ (ih : SimulatesAt bound) {exprs : List Expr}
    (hrelates : Relates known homes machine store)
    (hmirrors : Mirrors homes machine.scopes pending machine.current env)
    (hfits : FitsExprs known env.names pending exprs) :
    Simulates known none homes machine store (Eval.evaluateAll (bound + 1) exprs)
      (Run.evaluateAll (bound + 1) env exprs)
      fun homes' machine' => AllMatch known homes' machine'.scopes := by
  cases exprs with
  | nil => exact simulates_pure hrelates .nil
  | cons first rest =>
      simp only [Eval.evaluateAll, Run.evaluateAll]
      refine (ih.evaluate hrelates hmirrors hfits.1).bind
        fun homes' machine' store' value value' hgrows hrelates' hvalue => ?_
      have hmirrors' : Mirrors homes' machine'.scopes pending machine'.current env := by
        rw [hgrows.current]
        exact hmirrors.grow hgrows
      refine (ih.evaluateAll hrelates' hmirrors' hfits.2).bind
        fun homes'' machine'' store'' values values' hgrows' hrelates'' hvalues => ?_
      exact simulates_pure hrelates'' (.cons (hvalue.grow hgrows') hvalues)

theorem SimulatesAt.call_succ (ih : SimulatesAt bound) {callee : Callable}
    {callee' : CallableIn Env} {arguments : List Value} {arguments' : List (ValueIn Env)}
    (hrelates : Relates known homes machine store)
    (hcallee : CallMatches known homes machine.scopes callee callee')
    (harity : arguments.length = callee.arity)
    (harguments : AllMatch known homes machine.scopes arguments arguments') (paren : Token) :
    Simulates known none homes machine store (Eval.call (bound + 1) callee arguments paren)
      (Run.call (bound + 1) callee' arguments' paren)
      fun homes' machine' => Matches known homes' machine'.scopes := by
  obtain ⟨value, value', hmatch, hvalue, hvalue'⟩ := hcallee
  cases hmatch with
  | nil | bool _ | number _ | string _ => cases hvalue
  | host function =>
      cases hvalue
      cases hvalue'
      exact simulates_callHost hrelates function harguments paren
  | closure hclosure =>
      cases hvalue
      cases hvalue'
      obtain @⟨name, params, body, identity, scope, env, hmirrors, hdistinct, hfits⟩ := hclosure
      have hbody : Simulates known none homes machine store
          (Eval.openScope scope >>= fun frame => Eval.within frame
            (fill ((params.map Token.lexeme).zip arguments) >>= fun _ =>
              Eval.executeAll bound body))
          (Run.openFrame ([] :: env) ((params.map Token.lexeme).zip arguments') >>= fun inside =>
            Run.executeAll bound inside body)
          fun homes' machine' => FlowMatches known homes' machine'.scopes := by
        refine Simulates.inChild hrelates hmirrors (fun inner hkept hrelates' hstands' => ?_)
          fun _ _ _ _ _ hflow heq => heq ▸ hflow
        have harguments' : AllMatch known homes inner.scopes arguments arguments' :=
          harguments.imp hkept
        refine (simulates_fill hrelates' hstands' rfl hdistinct nofun
          (by rw [List.length_map]; exact harity) harguments').growing.bind
          fun homes' machine' store' _ inside _ hrelates'' ⟨⟨hstands'', hnames⟩, hgrows⟩ => ?_
        rw [← hgrows.current]
        rw [← List.append_nil (List.reverse _)] at hfits
        exact ih.executeAll hrelates'' hstands'' (hnames ▸ hfits)
      unfold Simulates at hbody
      rw [← openFrame_within ⟨name, params, body, scope, identity⟩] at hbody
      simp only [Eval.call, Run.call]
      rw [← bind_assoc, ← bind_assoc]
      refine Simulates.bind hbody fun homes' machine' store' flow flow' _ hrelates' hflow => ?_
      cases hflow with
      | normal => exact simulates_pure hrelates' .nil
      | leave hmatch => exact simulates_pure hrelates' hmatch

theorem Stands.of_names {homes' : Homes} {machine' : Machine} {inside : Env}
    (h : Stands homes machine env) (hgrows : Grows touched homes machine homes' machine')
    (hstands : Stands homes' machine' inside) (hnames : inside.names = env.names) :
    Stands homes' machine' env := by
  refine ⟨?_, fun name hmem => hnames ▸ hstands.complete name hmem⟩
  rw [hgrows.current]
  exact h.mirrors.grow hgrows

/-- What touches no scope leaves the place with the names it has. -/
theorem Simulates.standing {α β : Type} {action : Eval α} {ref : Run β}
    {P : Homes → Machine → α → β → Prop} (hrelates : Relates known homes machine store)
    (hstands : Stands homes machine env)
    (h : Simulates known none homes machine store action ref P) :
    Simulates known touched homes machine store action ref fun homes' machine' a b =>
      P homes' machine' a b ∧ Stands homes' machine' env := by
  have hlt := hstands.mirrors.lt_size hrelates.nonempty
  refine (h.weaken fun homes' machine' a b hgrows hpost => ?_).untouched nofun _
  exact ⟨hpost, hstands.grow hgrows hlt nofun⟩

/-- A statement that declares nothing leaves the environment as it was. -/
theorem SimulatesAt.execute_inert (ih : SimulatesAt bound) {stmt : Stmt}
    (hrelates : Relates known homes machine store) (hstands : Stands homes machine env)
    (hinert : stmt.declared? = none) (hfits : FitsStmt known env.names stmt) :
    Simulates known (some machine.current) homes machine store (Eval.execute bound stmt)
      (Run.execute bound env stmt >>= fun result => pure (result.1, env))
      fun homes' machine' flow result => FlowMatches known homes' machine'.scopes flow result.1 ∧
        Stands homes' machine' result.2 ∧ result.2.names = env.names := by
  refine (ih.execute hrelates hstands hfits).growing.mapRef
    fun homes' machine' flow result ⟨⟨hflow, hinside, hnames⟩, hgrows⟩ => ?_
  rw [after_of_none hinert] at hnames
  exact ⟨hflow, hstands.of_names hgrows hinside hnames, rfl⟩

theorem SimulatesAt.execute_succ (ih : SimulatesAt bound) {stmt : Stmt}
    (hrelates : Relates known homes machine store) (hstands : Stands homes machine env)
    (hfits : FitsStmt known env.names stmt) :
    Simulates known (some machine.current) homes machine store (Eval.execute (bound + 1) stmt)
      (Run.execute (bound + 1) env stmt) fun homes' machine' flow result =>
        FlowMatches known homes' machine'.scopes flow result.1 ∧
          Stands homes' machine' result.2 ∧ result.2.names = after env.names stmt := by
  have hexpr : ∀ {value : Expr}, FitsExpr known env.names none value →
      Simulates known (some machine.current) homes machine store (Eval.evaluate bound value)
        (Run.evaluate bound env value) fun homes' machine' value value' =>
          Matches known homes' machine'.scopes value value' ∧ Stands homes' machine' env :=
    fun hvalue => Simulates.standing hrelates hstands (ih.evaluate hrelates hstands.mirrors hvalue)
  match stmt, hfits with
  | .expression value, hfits =>
      simp only [Eval.execute, Run.execute]
      refine (hexpr hfits).bind
        fun homes' machine' store' result result' _ hrelates' ⟨_, hstands'⟩ => ?_
      exact simulates_pure hrelates' ⟨.normal, hstands', rfl⟩
  | .print value, hfits =>
      simp only [Eval.execute, Run.execute]
      refine (hexpr hfits).bind
        fun homes' machine' store' result result' _ hrelates' ⟨hmatch, hstands'⟩ => ?_
      rw [hmatch.text_eq fun _ _ => ClosureMatches.sameFace]
      refine (Simulates.standing hrelates' hstands' (simulates_printLine hrelates' _)).bind
        fun homes'' machine'' store'' _ _ _ hrelates'' ⟨_, hstands''⟩ => ?_
      exact simulates_pure hrelates'' ⟨.normal, hstands'', rfl⟩
  | .declare name none, hfits =>
      simp only [Eval.execute, Run.execute]
      exact Simulates.declaration hrelates hstands hfits
        (fun homes' store' inside _ hrelates' _ _ => simulates_pure hrelates' .nil)
        fun homes' machine' store' inside _ hrelates' hstands' hinside =>
          simulates_pure hrelates' ⟨.normal, hstands', hinside⟩
  | .declare name (some initial), hfits =>
      simp only [Eval.execute, Run.execute]
      refine Simulates.declaration hrelates hstands hfits.1
        (fun homes' store' inside _ hrelates' hmirrors hinside => ?_)
        fun homes' machine' store' inside _ hrelates' hstands' hinside =>
          simulates_pure hrelates' ⟨.normal, hstands', hinside⟩
      refine (ih.evaluate hrelates' hmirrors (hinside ▸ hfits.2)).weaken
        fun homes'' machine'' value value' _ hmatch => ?_
      have hdefined := Grows.define none homes'' machine'' machine.current name.lexeme value
      exact hmatch.grow hdefined
  | .block body, hfits =>
      have hinside : Simulates known none homes machine store
          (Eval.openScope machine.current >>= fun scope =>
            Eval.within scope (Eval.executeAll bound body))
          (Run.executeAll bound ([] :: env) body)
          fun homes' machine' => FlowMatches known homes' machine'.scopes :=
        Simulates.inChild hrelates hstands.mirrors
          (fun inner _ hrelates' hstands' => ih.executeAll hrelates' hstands' hfits)
          fun _ _ _ _ _ hflow heq => heq ▸ hflow
      simp only [Eval.execute, Run.execute]
      exact (Simulates.standing hrelates hstands hinside).mapRef
        fun homes' machine' flow flow' ⟨hflow, hstands'⟩ => ⟨hflow, hstands', rfl⟩
  | .branch condition whenTrue whenFalse, hfits =>
      simp only [Eval.execute, Run.execute]
      have hcondition : FitsExpr known env.names none condition := by
        cases whenFalse with
        | none => exact hfits.1
        | some _ => exact hfits.1
      refine (hexpr hcondition).bind
        fun homes' machine' store' result result' hgrows hrelates' ⟨hmatch, hstands'⟩ => ?_
      rw [hmatch.isTruthy_eq, ← hgrows.current]
      split
      · cases whenFalse with
        | none => exact ih.execute_inert hrelates' hstands' hfits.2.1 hfits.2.2
        | some _ => exact ih.execute_inert hrelates' hstands' hfits.2.1.1 hfits.2.1.2
      · cases whenFalse with
        | none => exact simulates_pure hrelates' ⟨.normal, hstands', rfl⟩
        | some _ => exact ih.execute_inert hrelates' hstands' hfits.2.2.1 hfits.2.2.2
  | .loop condition body, hfits =>
      simp only [Eval.execute, Run.execute]
      refine (hexpr hfits.1).bind
        fun homes' machine' store' result result' hgrows hrelates' ⟨hmatch, hstands'⟩ => ?_
      rw [hmatch.isTruthy_eq, ← hgrows.current]
      split
      · refine (ih.execute hrelates' hstands' hfits.2.2).growing.bind
          fun homes'' machine'' store'' flow result _ hrelates'' hpost => ?_
        obtain ⟨⟨hflow, hinside, hnames⟩, hgrows'⟩ := hpost
        rw [after_of_none hfits.2.1] at hnames
        have hstands'' := hstands'.of_names hgrows' hinside hnames
        obtain ⟨flow', inside⟩ := result
        cases hflow with
        | leave hmatch => exact simulates_pure hrelates'' ⟨.leave hmatch, hstands'', rfl⟩
        | normal =>
            rw [← hgrows'.current]
            exact ih.execute hrelates'' hstands'' hfits
      · exact simulates_pure hrelates' ⟨.normal, hstands', rfl⟩
  | .function name params body, hfits =>
      simp only [Eval.execute, Run.execute]
      refine (Simulates.standing hrelates hstands (simulates_freshIdentity hrelates)).bind
        fun homes' machine' store' identity identity' hgrows hrelates' ⟨hidentity, hstands'⟩ => ?_
      subst hidentity
      rw [← hgrows.current]
      have hlt := hstands'.mirrors.lt_size hrelates'.nonempty
      have hdeclaration : Simulates known (some machine'.current) homes' machine' store'
          (pure (.closure ⟨name, params, body, machine'.current, identity⟩) >>= fun value =>
            Eval.define name.lexeme value >>= fun _ => pure .normal)
          (Run.declare env name.lexeme >>= fun inside =>
            pure (.closure ⟨name, params, body, inside, identity⟩) >>= fun value =>
              Run.define inside name.lexeme value >>= fun _ => pure (.normal, inside))
          fun homes'' machine'' flow result =>
            FlowMatches known homes'' machine''.scopes flow result.1 ∧
            Stands homes'' machine'' result.2 ∧
              result.2.names = after env.names (.function name params body) := by
        refine Simulates.declaration hrelates' hstands' hfits.1
          (fun homes'' store'' inside _ hrelates'' hmirrors hinside => ?_)
          fun homes'' machine'' store'' inside _ hrelates'' hstands'' hinside =>
            simulates_pure hrelates'' ⟨.normal, hstands'', hinside⟩
        have hclosed := hmirrors.define (fun key => pendingOf_eq_some) hlt
          (.closure ⟨name, params, body, machine'.current, identity⟩)
        exact simulates_pure hrelates'' (.closure (.same hclosed hfits.2.1 (hinside ▸ hfits.2.2)))
      exact hdeclaration
  | .leave keyword none, _ =>
      exact simulates_pure hrelates ⟨.leave .nil, hstands, rfl⟩
  | .leave keyword (some value), hfits =>
      simp only [Eval.execute, Run.execute]
      refine (hexpr hfits).bind
        fun homes' machine' store' result result' _ hrelates' ⟨hmatch, hstands'⟩ => ?_
      exact simulates_pure hrelates' ⟨.leave hmatch, hstands', rfl⟩

theorem SimulatesAt.executeAll_succ (ih : SimulatesAt bound) {stmts : List Stmt}
    (hrelates : Relates known homes machine store) (hstands : Stands homes machine env)
    (hfits : FitsStmts known env.names stmts) :
    Simulates known (some machine.current) homes machine store
      (Eval.executeAll (bound + 1) stmts) (Run.executeAll (bound + 1) env stmts)
      fun homes' machine' => FlowMatches known homes' machine'.scopes := by
  cases stmts with
  | nil => exact simulates_pure hrelates .normal
  | cons first rest =>
      simp only [Eval.executeAll, Run.executeAll]
      refine (ih.execute hrelates hstands hfits.1).bind
        fun homes' machine' store' flow result hgrows hrelates' ⟨hflow, hstands', hnames⟩ => ?_
      obtain ⟨flow', inside⟩ := result
      cases hflow with
      | leave hmatch => exact simulates_pure hrelates' (.leave hmatch)
      | normal =>
          rw [← hgrows.current]
          exact ih.executeAll hrelates' hstands' (hnames ▸ hfits.2)

end Step

theorem simulatesAt_zero : SimulatesAt 0 where
  evaluate hrelates _ _ := simulates_throw hrelates trivial
  evaluateAll hrelates _ _ := simulates_throw hrelates trivial
  call hrelates _ _ _ _ := simulates_throw hrelates trivial
  execute hrelates _ _ := simulates_throw hrelates trivial
  executeAll hrelates _ _ := simulates_throw hrelates trivial

theorem SimulatesAt.succ {bound : Nat} (ih : SimulatesAt bound) : SimulatesAt (bound + 1) where
  evaluate := ih.evaluate_succ
  evaluateAll := ih.evaluateAll_succ
  call := ih.call_succ
  execute := ih.execute_succ
  executeAll := ih.executeAll_succ

theorem simulatesAt (bound : Nat) : SimulatesAt bound := by
  induction bound with
  | zero => exact simulatesAt_zero
  | succ bound ih => exact ih.succ

/-! ### Programs -/

section Programs

variable {known : Known} {homes : Homes} {machine : Machine} {store : Store}

/-- Outside all local scopes the environment is empty, and stays so. -/
theorem simulates_runAll (bound : Nat) {program : List Stmt}
    (hrelates : Relates known homes machine store) (hstands : Stands homes machine [])
    (hfits : FitsStmts known [] program) :
    Simulates known (some machine.current) homes machine store (Eval.runAll bound program)
      (Run.runAll bound program) fun _ _ _ _ => True := by
  induction program generalizing homes machine store with
  | nil => exact simulates_pure hrelates trivial
  | cons first rest ih =>
      simp only [Eval.runAll, Run.runAll]
      refine ((simulatesAt bound).execute hrelates hstands hfits.1).bind
        fun homes' machine' store' flow result hgrows hrelates' ⟨_, hstands', hnames⟩ => ?_
      have hempty : result.2 = [] := List.map_eq_nil_iff.mp (hnames.trans (after_nil first))
      rw [← hgrows.current]
      exact ih hrelates' (hempty ▸ hstands') (after_nil first ▸ hfits.2)

/-- In the global scope no cell is at home. -/
theorem Relates.stands (hrelates : Relates known homes machine store)
    (hglobal : machine.current = Machine.globals) : Stands homes machine [] :=
  ⟨hglobal, fun _ hmem => absurd hglobal (hrelates.inside _ hmem).1⟩

/-- Nothing has moved the machine when a program stops, so it need not be moved back. -/
theorem simulates_runProgram (bound : Nat) {program : List Stmt}
    (hrelates : Relates known homes machine store) (hglobal : machine.current = Machine.globals)
    (hfits : FitsStmts known [] program) :
    Simulates known (some machine.current) homes machine store (Eval.runProgram bound program)
      (Run.runProgram bound program) fun _ _ _ _ => True := by
  have hstands := hrelates.stands hglobal
  have hrun := (simulates_runAll bound hrelates hstands hfits).bind
    fun homes' machine' store' _ _ _ hrelates' _ => simulates_flush hrelates'
  have hback : Eval.runProgram bound program machine =
      (Eval.runAll bound program >>= fun _ => Eval.flush) machine := by
    have houtcome := simulates_runAll bound hrelates hstands hfits
    unfold Simulates at houtcome
    rw [Eval.runProgram, Eval.bind_apply]
    generalize Eval.runAll bound program machine = result at houtcome ⊢
    generalize Run.runAll bound program store = result' at houtcome
    cases houtcome with
    | ok _ _ _ => rfl
    | @error _ machine' _ _ hgrows _ _ =>
        have hcurrent : machine'.current = Machine.globals := hgrows.current.trans hglobal
        exact congrArg (EStateM.Result.error _) (hcurrent ▸ rfl)
  unfold Simulates at hrun ⊢
  rw [hback]
  exact hrun

end Programs

end Scriptlet.Lexical
