/-
More steps than a run needs change nothing: a run that does not exhaust its bound is the
same with every larger one.
-/
import Scriptlet.Proofs.Runs.Depth

namespace Scriptlet

namespace Eval

variable {α β : Type} {machine : Machine}

/-- From this machine, the second action does what the first does, unless the first comes to
its bound. -/
def Prolonged (action longer : Eval α) (machine : Machine) : Prop :=
  StopsFrom action machine .exhausted ∨ longer machine = action machine

theorem Prolonged.same (action : Eval α) (machine : Machine) : Prolonged action action machine :=
  Or.inr rfl

theorem Prolonged.exhausted (longer : Eval α) (machine : Machine) :
    Prolonged (throw .exhausted) longer machine :=
  Or.inl ⟨machine, rfl⟩

theorem Prolonged.bind {action longer : Eval α} {next next' : α → Eval β}
    (h : Prolonged action longer machine)
    (hnext : ∀ value after, action machine = .ok value after →
      Prolonged (next value) (next' value) after) :
    Prolonged (action >>= next) (longer >>= next') machine := by
  rcases h with hstops | hsame
  · exact Or.inl (hstops.bind next)
  · cases haction : action machine with
    | error stop after =>
        right
        rw [bind_apply, bind_apply, hsame, haction]
    | ok value after =>
        rcases hnext value after haction with hstops | hrest
        · exact Or.inl (.after haction hstops)
        · right
          rw [bind_apply, bind_apply, hsame, haction]
          exact hrest

/-- An action that both sides begin with. -/
theorem Prolonged.after (action : Eval α) {next next' : α → Eval β}
    (hnext : ∀ value after, Prolonged (next value) (next' value) after) :
    Prolonged (action >>= next) (action >>= next') machine :=
  (same action machine).bind fun value after _ => hnext value after

/-- An action that both sides end with. -/
theorem Prolonged.before {action longer : Eval α} (h : Prolonged action longer machine)
    (next : α → Eval β) : Prolonged (action >>= next) (longer >>= next) machine :=
  h.bind fun value after _ => same (next value) after

theorem Prolonged.within {action longer : Eval α} {scope : Nat}
    (h : Prolonged action longer { machine with current := scope }) :
    Prolonged (Eval.within scope action) (Eval.within scope longer) machine := by
  rcases h with hstops | hsame
  · exact Or.inl (stopsFrom_within_iff.mpr hstops)
  · right
    unfold Eval.within
    rw [hsame]

theorem Prolonged.deeper {action longer : Eval α}
    (h : Prolonged action longer { machine with depth := machine.depth + 1 }) :
    Prolonged (Eval.deeper action) (Eval.deeper longer) machine := by
  rcases h with hstops | hsame
  · exact Or.inl (stopsFrom_deeper_iff.mpr hstops)
  · right
    unfold Eval.deeper
    dsimp only [HasOutside.modifyOutside]
    rw [hsame]

/-- With one step more, everything does what it did. -/
structure ProlongedAt (bound : Nat) : Prop where
  evaluate : ∀ expr machine,
    Prolonged (Eval.evaluate bound expr) (Eval.evaluate (bound + 1) expr) machine
  evaluateAll : ∀ exprs machine,
    Prolonged (Eval.evaluateAll bound exprs) (Eval.evaluateAll (bound + 1) exprs) machine
  call : ∀ callee arguments paren machine,
    Prolonged (Eval.call bound callee arguments paren)
      (Eval.call (bound + 1) callee arguments paren) machine
  execute : ∀ stmt machine,
    Prolonged (Eval.execute bound stmt) (Eval.execute (bound + 1) stmt) machine
  executeAll : ∀ stmts machine,
    Prolonged (Eval.executeAll bound stmts) (Eval.executeAll (bound + 1) stmts) machine

section Step

variable {bound : Nat} (ih : ProlongedAt bound)
include ih

theorem ProlongedAt.evaluate_succ (expr : Expr) (machine : Machine) :
    Prolonged (Eval.evaluate (bound + 1) expr) (Eval.evaluate (bound + 2) expr) machine := by
  cases expr with
  | constant value => exact .same _ machine
  | group inner => exact ih.evaluate inner machine
  | unary operator operand => exact (ih.evaluate operand machine).before _
  | binary left operator right =>
      refine (ih.evaluate left machine).bind fun a between _ => ?_
      exact (ih.evaluate right between).before _
  | logical left operator right =>
      refine (ih.evaluate left machine).bind fun a after _ => ?_
      split
      · exact .same _ after
      · exact ih.evaluate right after
  | «variable» id name => exact .same _ machine
  | assign id name value => exact (ih.evaluate value machine).before _
  | call callee paren arguments =>
      refine (ih.evaluate callee machine).bind fun target between _ => ?_
      refine (ih.evaluateAll arguments between).bind fun values after _ => ?_
      refine .after _ fun function checked => ?_
      exact (ih.call function values paren _).deeper

theorem ProlongedAt.evaluateAll_succ (exprs : List Expr) (machine : Machine) :
    Prolonged (Eval.evaluateAll (bound + 1) exprs) (Eval.evaluateAll (bound + 2) exprs)
      machine := by
  cases exprs with
  | nil => exact .same _ machine
  | cons first rest =>
      refine (ih.evaluate first machine).bind fun value between _ => ?_
      exact (ih.evaluateAll rest between).before _

theorem ProlongedAt.call_succ (callee : Callable) (arguments : List Value) (paren : Token)
    (machine : Machine) :
    Prolonged (Eval.call (bound + 1) callee arguments paren)
      (Eval.call (bound + 2) callee arguments paren) machine := by
  cases callee with
  | host function => exact .same _ machine
  | closure function =>
      refine .after _ fun frame between => ?_
      exact (ih.executeAll function.body _).within.before _

theorem ProlongedAt.execute_succ (stmt : Stmt) (machine : Machine) :
    Prolonged (Eval.execute (bound + 1) stmt) (Eval.execute (bound + 2) stmt) machine := by
  cases stmt with
  | expression value => exact (ih.evaluate value machine).before _
  | print value => exact (ih.evaluate value machine).before _
  | declare name initial =>
      cases initial with
      | none => exact .same _ machine
      | some initial => exact (ih.evaluate initial machine).before _
  | block body =>
      refine .after _ fun here _ => ?_
      refine .after _ fun scope _ => ?_
      exact (ih.executeAll body _).within
  | branch condition whenTrue whenFalse =>
      refine (ih.evaluate condition machine).bind fun value after _ => ?_
      split
      · exact ih.execute whenTrue after
      · cases whenFalse with
        | none => exact .same _ after
        | some other => exact ih.execute other after
  | loop condition body =>
      refine (ih.evaluate condition machine).bind fun value between _ => ?_
      split
      · refine (ih.execute body between).bind fun flow after _ => ?_
        cases flow with
        | leave result => exact .same _ after
        | normal => exact ih.execute (.loop condition body) after
      · exact .same _ between
  | function name params body => exact .same _ machine
  | leave keyword value =>
      cases value with
      | none => exact .same _ machine
      | some value => exact (ih.evaluate value machine).before _

theorem ProlongedAt.executeAll_succ (stmts : List Stmt) (machine : Machine) :
    Prolonged (Eval.executeAll (bound + 1) stmts) (Eval.executeAll (bound + 2) stmts)
      machine := by
  cases stmts with
  | nil => exact .same _ machine
  | cons first rest =>
      refine (ih.execute first machine).bind fun flow after _ => ?_
      cases flow with
      | leave value => exact .same _ after
      | normal => exact ih.executeAll rest after

theorem ProlongedAt.succ : ProlongedAt (bound + 1) where
  evaluate := ih.evaluate_succ
  evaluateAll := ih.evaluateAll_succ
  call := ih.call_succ
  execute := ih.execute_succ
  executeAll := ih.executeAll_succ

end Step

theorem prolongedAt (bound : Nat) : ProlongedAt bound := by
  induction bound with
  | zero =>
      exact ⟨fun _ => .exhausted _, fun _ => .exhausted _, fun _ _ _ => .exhausted _,
        fun _ => .exhausted _, fun _ => .exhausted _⟩
  | succ bound ih => exact ih.succ

theorem prolonged_runAll (bound : Nat) (program : List Stmt) (machine : Machine) :
    Prolonged (runAll bound program) (runAll (bound + 1) program) machine := by
  induction program generalizing machine with
  | nil => exact .same _ machine
  | cons first rest ih =>
      exact ((prolongedAt bound).execute first machine).bind fun _ after _ => ih after

end Eval

namespace Task

open Eval

theorem prolonged_run (bound : Nat) (task : Task) (machine : Machine) :
    Prolonged (task.run bound) (task.run (bound + 1)) machine := by
  cases task with
  | evaluate expr => exact (prolongedAt bound).evaluate expr machine
  | evaluateAll exprs => exact (prolongedAt bound).evaluateAll exprs machine
  | call callee arguments paren => exact (prolongedAt bound).call callee arguments paren machine
  | execute stmt => exact (prolongedAt bound).execute stmt machine
  | executeAll stmts => exact (prolongedAt bound).executeAll stmts machine
  | inScope scope stmts => exact ((prolongedAt bound).executeAll stmts _).within
  | program stmts => exact prolonged_runAll bound stmts machine

/-- A run that does not come to its bound does not depend on it. -/
theorem run_of_le {bound more : Nat} (hle : bound ≤ more) {task : Task} {machine : Machine}
    (h : ¬ (Moment.mk bound task machine).Stops .exhausted) :
    task.run more machine = task.run bound machine := by
  induction hle with
  | refl => rfl
  | @step more hle ih =>
      rcases prolonged_run more task machine with ⟨after, hstops⟩ | hsame
      · exact absurd ⟨after, ih ▸ hstops⟩ h
      · exact hsame.trans ih

end Task

end Scriptlet
