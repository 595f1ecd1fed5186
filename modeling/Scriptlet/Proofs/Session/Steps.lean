/-
A session step by step: what each step gives, and what all of them leave behind.
-/
import Scriptlet.Proofs.Incremental.Reading
import Scriptlet.Proofs.Reading.Script
import Scriptlet.Session

namespace Scriptlet

/-- What a session can be asked for.  A source that is run or evaluated comes with
a bound for the number of steps. -/
inductive Step where
  | run (bound : Nat) (source : String)
  | evaluate (bound : Nat) (source : String)
  | readProgram (source : String)
  | readExpression (source : String)

/-- What a step gives that does not fail. -/
inductive Yield (Place : Type) where
  | done
  | value (value : ValueIn Place)
  | program (body : List Stmt)
  | expression (expr : Expr)

abbrev Answer (Place : Type) := Except Failure (Yield Place)

def Step.source : Step → String
  | run _ source => source
  | evaluate _ source => source
  | readProgram source => source
  | readExpression source => source

/-- The clock is the only global of the first machine. -/
theorem Machine.own?_initial (sink : Sink) (clock : Clock) (scope : Nat) (name : String) :
    (Machine.initial sink clock).scopes.own? scope name =
      if globals = scope ∧ name = HostAction.clock.name then some (.host ⟨.clock, 0, 0⟩)
      else none := by
  have hempty : (ScopeTree.empty.root : ScopeTree Value).own? scope name = none := by
    rw [ScopeTree.root, ScopeTree.own?_openScope]
    simp [ScopeTree.own?, ScopeTree.empty]
  have hnonempty : globals < (ScopeTree.empty.root : ScopeTree Value).size := Nat.zero_lt_one
  rw [initial, ScopeTree.own?_define, hempty]
  by_cases h : globals = scope ∧ name = HostAction.clock.name
  · rw [if_pos h, if_pos ⟨h.1, h.2, hnonempty⟩]
  · rw [if_neg h, if_neg fun hall => h ⟨hall.1, hall.2.1⟩]

namespace Session

def perform (session : Session) : Step → Answer Nat × Session
  | .run bound source =>
      let (result, after) := session.run bound source
      (result.map fun _ => .done, after)
  | .evaluate bound source =>
      let (result, after) := session.evaluate bound source
      (result.map .value, after)
  | .readProgram source =>
      let (result, after) := session.readProgram source
      (result.map .program, after)
  | .readExpression source =>
      let (result, after) := session.readExpression source
      (result.map .expression, after)

/-- The session behind some steps, whether they failed or not. -/
def afterSteps (session : Session) : List Step → Session
  | [] => session
  | step :: rest => (session.perform step).2.afterSteps rest

/-- The answers to some steps, each with the outside as the step left it. -/
def transcript (session : Session) : List Step → List (Answer Nat × Outside)
  | [] => []
  | step :: rest =>
      let (answer, after) := session.perform step
      (answer, after.machine.toOutside) :: after.transcript rest

theorem afterSteps_append (session : Session) (before after : List Step) :
    session.afterSteps (before ++ after) = (session.afterSteps before).afterSteps after := by
  induction before generalizing session with
  | nil => rfl
  | cons step rest ih => exact ih _

/-! ### Reading -/

theorem readSource_eq_ok_iff {α : Type} {rule : Nat → Reader α} {n m : Nat} {source : String}
    {tree : α} :
    readSource rule n source = (.ok tree, m) ↔
      (Source.scan source).faults = [] ∧
        Reader.parse rule (Source.scan source).tokens n = ⟨.ok tree, m⟩ := by
  unfold readSource
  cases hparse : Reader.parse rule (Source.scan source).tokens n with
  | mk result issued =>
      cases result with
      | error faults => simp [hparse]
      | ok found =>
          cases hfaults : (Source.scan source).faults with
          | nil => simp [hparse, hfaults]
          | cons first rest => simp [hparse, hfaults]

/-- A source that is read and resolved is run. -/
theorem run_of_read {session : Session} {source : String} {program : List Stmt} {m : Nat}
    {table : Table} (hread : readSource Reader.program session.issued source = (.ok program, m))
    (hresolve : resolve program = .ok table) (bound : Nat) :
    session.run bound source =
      act ⟨session.machine.addTable table, m⟩ (Eval.runProgram bound program) := by
  unfold run readProgram read
  rw [hread]
  dsimp only
  rw [hresolve]

/-- What may come of a source that is to be run: it cannot be read, or not be resolved, or it
runs with its entries in the side table. -/
inductive RunCases (session : Session) (bound : Nat) (source : String) :
    Except Failure Unit × Session → Prop
  | unread {failure : Failure} {m : Nat}
      (reads : readSource Reader.program session.issued source = (.error failure, m)) :
      RunCases session bound source (.error failure, { session with issued := m })
  | unresolved {program : List Stmt} {faults : List Diagnostic} {m : Nat}
      (reads : readSource Reader.program session.issued source = (.ok program, m))
      (resolves : resolve program = .error faults) :
      RunCases session bound source (.error (.static faults), { session with issued := m })
  | runs {program : List Stmt} {table : Table} {m : Nat}
      (reads : readSource Reader.program session.issued source = (.ok program, m))
      (resolves : resolve program = .ok table) :
      RunCases session bound source
        (act ⟨session.machine.addTable table, m⟩ (Eval.runProgram bound program))

/-- What may come of a source that is to be evaluated. -/
inductive EvaluateCases (session : Session) (bound : Nat) (source : String) :
    Except Failure Value × Session → Prop
  | unread {failure : Failure} {m : Nat}
      (reads : readSource Reader.wholeExpression session.issued source = (.error failure, m)) :
      EvaluateCases session bound source (.error failure, { session with issued := m })
  | runs {expr : Expr} {m : Nat}
      (reads : readSource Reader.wholeExpression session.issued source = (.ok expr, m)) :
      EvaluateCases session bound source
        (act ⟨session.machine, m⟩ (Eval.evaluate bound expr))

variable (session : Session)

theorem run_cases (bound : Nat) (source : String) :
    RunCases session bound source (session.run bound source) := by
  unfold run readProgram read
  cases hread : readSource Reader.program session.issued source with
  | mk result m =>
      cases result with
      | error failure => exact .unread hread
      | ok program =>
          dsimp only
          cases hresolve : resolve program with
          | error faults => exact .unresolved hread hresolve
          | ok table => exact .runs hread hresolve

theorem evaluate_cases (bound : Nat) (source : String) :
    EvaluateCases session bound source (session.evaluate bound source) := by
  unfold evaluate readExpression read
  cases hread : readSource Reader.wholeExpression session.issued source with
  | mk result m =>
      cases result with
      | error failure => exact .unread hread
      | ok expr => exact .runs hread

/-! ### The count of identities -/

theorem issued_act {α : Type} (action : Eval α) :
    (session.act action).2.issued = session.issued := by
  unfold act
  dsimp only
  split
  · rfl
  · rfl

theorem issued_le_readSource {α : Type} {rule : Nat → Reader α}
    (h : ∀ bound, Reader.Counts (rule bound)) (issued : Nat) (source : String) :
    issued ≤ (readSource rule issued source).2 :=
  Reader.issued_le_parse h _ issued

theorem issued_run (bound : Nat) (source : String) :
    (session.run bound source).2.issued =
      (readSource Reader.program session.issued source).2 := by
  have hcases := session.run_cases bound source
  generalize session.run bound source = ended at hcases ⊢
  cases hcases with
  | unread hread | unresolved hread _ => rw [hread]
  | runs hread _ => rw [issued_act, hread]

theorem issued_evaluate (bound : Nat) (source : String) :
    (session.evaluate bound source).2.issued =
      (readSource Reader.wholeExpression session.issued source).2 := by
  have hcases := session.evaluate_cases bound source
  generalize session.evaluate bound source = ended at hcases ⊢
  cases hcases with
  | unread hread => rw [hread]
  | runs hread => rw [issued_act, hread]

theorem issued_le_perform (step : Step) : session.issued ≤ (session.perform step).2.issued := by
  cases step with
  | run bound source =>
      exact (issued_run session bound source).symm ▸
        issued_le_readSource Reader.counts_program _ source
  | evaluate bound source =>
      exact (issued_evaluate session bound source).symm ▸
        issued_le_readSource Reader.counts_wholeExpression _ source
  | readProgram source => exact issued_le_readSource Reader.counts_program _ source
  | readExpression source => exact issued_le_readSource Reader.counts_wholeExpression _ source

theorem issued_le_afterSteps (steps : List Step) :
    session.issued ≤ (session.afterSteps steps).issued := by
  induction steps generalizing session with
  | nil => exact Nat.le_refl _
  | cons step rest ih => exact Nat.le_trans (issued_le_perform session step) (ih _)

end Session

end Scriptlet
