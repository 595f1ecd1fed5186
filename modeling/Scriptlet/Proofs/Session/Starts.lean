/-
Where the run of a step begins, and what the step leaves: a step that reads and resolves its
source runs it from there, and changes nothing but the side table before.
-/
import Scriptlet.Proofs.Runs.Restored
import Scriptlet.Proofs.Session.Steps

namespace Scriptlet.Session

/-- Where the run of a step begins, if the step comes to run anything. -/
def start? (session : Session) : Step → Option Moment
  | .run bound source =>
      match session.readProgram source with
      | (.ok program, after) =>
          match resolve program with
          | .ok table => some ⟨bound, .program program, after.machine.addTable table⟩
          | .error _ => none
      | (.error _, _) => none
  | .evaluate bound source =>
      match session.readExpression source with
      | (.ok expr, after) => some ⟨bound, .evaluate expr, after.machine⟩
      | (.error _, _) => none
  | _ => none

variable {session : Session} {step : Step}

theorem machine_act {α : Type} (session : Session) (action : Eval α) :
    (session.act action).2.machine = Eval.final (action session.machine) := by
  unfold act Eval.final
  dsimp only
  cases action session.machine with
  | ok value after => rfl
  | error failure after => rfl

/-- A run begins with an expression that was read, or with a program that was read and
resolved. -/
inductive StartCases (session : Session) : Step → Moment → Prop
  | evaluate {bound : Nat} {source : String} {expr : Expr} {m : Nat}
      (reads : readSource Reader.wholeExpression session.issued source = (.ok expr, m)) :
      StartCases session (.evaluate bound source) ⟨bound, .evaluate expr, session.machine⟩
  | run {bound : Nat} {source : String} {program : List Stmt} {table : Table} {m : Nat}
      (reads : readSource Reader.program session.issued source = (.ok program, m))
      (resolves : resolve program = .ok table) :
      StartCases session (.run bound source)
        ⟨bound, .program program, session.machine.addTable table⟩

theorem start_cases {start : Moment} (h : session.start? step = some start) :
    StartCases session step start := by
  cases step with
  | readProgram source => cases h
  | readExpression source => cases h
  | evaluate bound source =>
      unfold start? readExpression read at h
      cases hread : readSource Reader.wholeExpression session.issued source with
      | mk result issued =>
          simp only [hread] at h
          cases result with
          | error failure => cases h
          | ok expr =>
              cases h
              exact .evaluate hread
  | run bound source =>
      unfold start? readProgram read at h
      cases hread : readSource Reader.program session.issued source with
      | mk result issued =>
          simp only [hread] at h
          cases result with
          | error failure => cases h
          | ok program =>
              dsimp only at h
              cases hresolve : resolve program with
              | error faults =>
                  rw [hresolve] at h
                  cases h
              | ok table =>
                  rw [hresolve] at h
                  cases h
                  exact .run hread hresolve

/-- Until a run begins, only the side table has changed. -/
theorem machine_of_start {start : Moment} (h : session.start? step = some start) :
    ∃ table, start.machine = { session.machine with table := table } := by
  cases start_cases h with
  | evaluate _ => exact ⟨session.machine.table, rfl⟩
  | run _ _ => exact ⟨_, rfl⟩

/-- A step does what is done from where its run begins. -/
theorem machine_perform (session : Session) (step : Step) :
    match session.start? step with
    | some start => ∃ current, (session.perform step).2.machine =
        { Eval.final (start.task.run start.bound start.machine) with current := current }
    | none => (session.perform step).2.machine = session.machine := by
  cases step with
  | readProgram source => rfl
  | readExpression source => rfl
  | evaluate bound source =>
      unfold perform evaluate start? readExpression read
      dsimp only
      cases readSource Reader.wholeExpression session.issued source with
      | mk result issued =>
          cases result with
          | error failure => rfl
          | ok expr => exact ⟨_, machine_act _ _⟩
  | run bound source =>
      unfold perform run start? readProgram read
      dsimp only
      cases readSource Reader.program session.issued source with
      | mk result issued =>
          cases result with
          | error failure => rfl
          | ok program =>
              dsimp only
              cases resolve program with
              | error faults => rfl
              | ok table =>
                  obtain ⟨current, hfinal⟩ :=
                    Eval.final_runProgram bound program (session.machine.addTable table)
                  exact ⟨current, (machine_act _ _).trans hfinal⟩

theorem scopes_perform (session : Session) (step : Step) :
    (session.perform step).2.machine.scopes =
      match session.start? step with
      | some start => (Eval.final (start.task.run start.bound start.machine)).scopes
      | none => session.machine.scopes := by
  have hmachine := machine_perform session step
  cases hstart : session.start? step with
  | none =>
      rw [hstart] at hmachine
      exact congrArg Machine.scopes hmachine
  | some start =>
      rw [hstart] at hmachine
      obtain ⟨current, hmachine⟩ := hmachine
      rw [hmachine]

/-- Steps leave the kind of sink. -/
theorem flushFails_perform (session : Session) (step : Step) :
    (session.perform step).2.machine.sink.flushFails = session.machine.sink.flushFails := by
  have hmachine := machine_perform session step
  cases hstart : session.start? step with
  | none =>
      rw [hstart] at hmachine
      exact congrArg (·.sink.flushFails) hmachine
  | some start =>
      rw [hstart] at hmachine
      obtain ⟨current, hmachine⟩ := hmachine
      obtain ⟨table, hstart⟩ := machine_of_start hstart
      have hrun := (Restored.run start.bound start.task start.machine).flushFails
      rw [hmachine]
      exact hrun.trans (congrArg (·.sink.flushFails) hstart)

theorem flushFails_afterSteps (session : Session) (steps : List Step) :
    (session.afterSteps steps).machine.sink.flushFails = session.machine.sink.flushFails := by
  induction steps generalizing session with
  | nil => rfl
  | cons step rest ih => exact (ih _).trans (flushFails_perform session step)

end Scriptlet.Session
