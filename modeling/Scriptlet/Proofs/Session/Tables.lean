/-
What the steps of a session do to its side table.

A step adds the table of the program that it runs, if it comes to run one, and nothing
else changes the table.  The identities of that program are handed out by the step, so what
the table said about older ones stays true.
-/
import Scriptlet.Proofs.Lexical.Resolved
import Scriptlet.Proofs.Session.Starts
import Scriptlet.Proofs.Source.Lexemes

namespace Scriptlet

open Grammar

/-- The action leaves the side table as it was, however it ends. -/
def KeepsTable {α : Type} (action : Eval α) : Prop :=
  ∀ machine, (Eval.final (action machine)).table = machine.table

theorem table_evaluate (bound : Nat) (expr : Expr) :
    KeepsTable (Eval.evaluate bound expr) :=
  fun machine => (Restored.run bound (.evaluate expr) machine).table

/-- The side table after running a program is the one before. -/
theorem table_runProgram (bound : Nat) (program : List Stmt) :
    KeepsTable (Eval.runProgram bound program) := by
  intro machine
  obtain ⟨current, hfinal⟩ := Eval.final_runProgram bound program machine
  rw [hfinal]
  exact (Restored.run bound (.program program) machine).table

namespace Session

/-- The table that a step adds. -/
def added (session : Session) : Step → Table
  | .run _ source =>
      match readSource Reader.program session.issued source with
      | (.ok program, _) => (resolve program).toOption.getD .empty
      | (.error _, _) => .empty
  | _ => .empty

variable {session : Session}

theorem distance?_perform (session : Session) (step : Step) (id : NodeId) :
    (session.perform step).2.machine.table.distance? id =
      ((session.added step).distance? id).or (session.machine.table.distance? id) := by
  have hnothing : ((Table.empty.distance? id).or (session.machine.table.distance? id)) =
      session.machine.table.distance? id := by rw [Table.distance?_empty, Option.none_or]
  cases step with
  | readProgram source => exact hnothing.symm
  | readExpression source => exact hnothing.symm
  | evaluate bound source =>
      show (session.evaluate bound source).2.machine.table.distance? id = _
      have hcases := session.evaluate_cases bound source
      generalize session.evaluate bound source = ended at hcases ⊢
      refine Eq.trans ?_ hnothing.symm
      cases hcases with
      | unread _ => rfl
      | @runs expr m _ =>
          rw [machine_act]
          exact congrArg (Table.distance? · id) (table_evaluate bound expr session.machine)
  | run bound source =>
      show (session.run bound source).2.machine.table.distance? id = _
      have hcases := session.run_cases bound source
      generalize session.run bound source = ended at hcases ⊢
      dsimp only [added]
      cases hcases with
      | unread hread =>
          rw [hread]
          exact hnothing.symm
      | unresolved hread hresolve =>
          simp only [hread, hresolve]
          exact hnothing.symm
      | runs hread hresolve =>
          simp only [hread, hresolve]
          rw [machine_act, table_runProgram]
          exact Table.distance?_merge _ _ id

/-- The side table has no entry yet for identities that are still to be handed out. -/
def Fresh (session : Session) : Prop :=
  ∀ k, session.issued ≤ k → k < UInt32.size → session.machine.table.distance? (.ofCount k) = none

theorem fresh_initial (sink : Sink) (clock : Clock) : (Session.initial sink clock).Fresh :=
  fun _ _ _ => Table.distance?_empty _

/-- A step says nothing about identities that it does not hand out. -/
theorem distance?_added {step : Step} (hids : (session.perform step).2.issued ≤ UInt32.size)
    {k : Nat} (hk : k < UInt32.size)
    (hout : k < session.issued ∨ (session.perform step).2.issued ≤ k) :
    (session.added step).distance? (.ofCount k) = none := by
  cases step with
  | readProgram source => exact Table.distance?_empty _
  | readExpression source => exact Table.distance?_empty _
  | evaluate bound source => exact Table.distance?_empty _
  | run bound source =>
      rw [show (session.perform (.run bound source)).2.issued = _ from
        issued_run session bound source] at hids hout
      dsimp only [added]
      cases hread : readSource Reader.program session.issued source with
      | mk result issued =>
          rw [hread] at hids hout
          cases result with
          | error failure => exact Table.distance?_empty _
          | ok program =>
              cases hresolve : resolve program with
              | error faults =>
                  dsimp only
                  rw [hresolve]
                  exact Table.distance?_empty _
              | ok table =>
                  dsimp only
                  rw [hresolve]
                  have hderives := parse_program_sound (Source.scan_endsOnce source)
                    (readSource_eq_ok_iff.mp hread).2
                  have hnumbered := (derives_wellMade hderives).2
                  exact Lexical.distance?_of_unused hresolve hnumbered hids hk hout

theorem Fresh.perform (h : session.Fresh) {step : Step}
    (hids : (session.perform step).2.issued ≤ UInt32.size) : (session.perform step).2.Fresh := by
  intro k hk hlt
  rw [distance?_perform, distance?_added hids hlt (Or.inr hk),
    h k (Nat.le_trans (issued_le_perform session step) hk) hlt]
  rfl

theorem Fresh.afterSteps (h : session.Fresh) {steps : List Step}
    (hids : (session.afterSteps steps).issued ≤ UInt32.size) :
    (session.afterSteps steps).Fresh := by
  induction steps generalizing session with
  | nil => exact h
  | cons step rest ih =>
      have hstep := Nat.le_trans (issued_le_afterSteps (session.perform step).2 rest) hids
      exact ih (h.perform hstep) hids

/-- What the side table says about an identity that was handed out stays true. -/
theorem distance?_perform_of_lt {step : Step}
    (hids : (session.perform step).2.issued ≤ UInt32.size) {k : Nat} (hk : k < session.issued) :
    (session.perform step).2.machine.table.distance? (.ofCount k) =
      session.machine.table.distance? (.ofCount k) := by
  have hlt : k < UInt32.size :=
    Nat.lt_of_lt_of_le hk (Nat.le_trans (issued_le_perform session step) hids)
  rw [distance?_perform, distance?_added hids hlt (Or.inl hk), Option.none_or]

theorem distance?_afterSteps_of_lt {steps : List Step}
    (hids : (session.afterSteps steps).issued ≤ UInt32.size) {k : Nat} (hk : k < session.issued) :
    (session.afterSteps steps).machine.table.distance? (.ofCount k) =
      session.machine.table.distance? (.ofCount k) := by
  induction steps generalizing session with
  | nil => rfl
  | cons step rest ih =>
      have hstep := Nat.le_trans (issued_le_afterSteps (session.perform step).2 rest) hids
      have hlater : k < (session.perform step).2.issued :=
        Nat.lt_of_lt_of_le hk (issued_le_perform session step)
      exact (ih hids hlater).trans (distance?_perform_of_lt hstep hk)

end Session

end Scriptlet
