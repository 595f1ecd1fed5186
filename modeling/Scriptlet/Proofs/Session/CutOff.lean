/-
Sessions whose print sink takes so many bytes more and no others.

A source that prints no more than that runs as with an unlimited sink.  One that prints more stops
at the print that leads over the limit, with what fits of its line written, and the session is
ready for the next source as after every other fault.
-/
import Scriptlet.Proofs.Runs.Bounds
import Scriptlet.Proofs.Runs.CutOff
import Scriptlet.Proofs.Session.Starts

namespace Scriptlet

namespace Eval

variable {bound : Nat} {program : List Stmt} {machine : Machine}

theorem restored_runAll (bound : Nat) (program : List Stmt) (machine : Machine) :
    Keeps Restored (runAll bound program) machine :=
  Restored.run bound (.program program) machine

theorem current_runProgram (hglobal : machine.current = Machine.globals) :
    (final (runProgram bound program machine)).current = Machine.globals := by
  have hrestored := restored_runAll bound program machine
  unfold Keeps at hrestored
  unfold runProgram
  cases hrun : runAll bound program machine with
  | error stop after => rfl
  | ok value after =>
      rw [hrun] at hrestored
      have hafter : after.current = Machine.globals := hrestored.current.trans hglobal
      dsimp only [flush]
      split
      · exact hafter
      · exact hafter

/-- From the globals and with a sink that can be flushed, a program is its statements. -/
theorem runProgram_eq (hglobal : machine.current = Machine.globals)
    (hflush : machine.sink.flushFails = false) :
    runProgram bound program machine = runAll bound program machine := by
  have hrestored := restored_runAll bound program machine
  unfold Keeps at hrestored
  unfold runProgram
  cases hrun : runAll bound program machine with
  | ok value after =>
      rw [hrun] at hrestored
      exact if_neg (Bool.eq_false_iff.mp (hrestored.flushFails.trans hflush))
  | error stop after =>
      rw [hrun] at hrestored
      have hafter : after.current = Machine.globals := hrestored.current.trans hglobal
      dsimp only
      rw [← hafter]

/-- A program that ends with a fault ends so whatever the bound for its steps. -/
theorem runProgram_of_le {diagnostic : Diagnostic} {after : Machine} {more : Nat}
    (hle : bound ≤ more) (hglobal : machine.current = Machine.globals)
    (hflush : machine.sink.flushFails = false)
    (hfault : runProgram bound program machine = .error (.fault diagnostic) after) :
    runProgram more program machine = .error (.fault diagnostic) after := by
  rw [runProgram_eq hglobal hflush] at hfault ⊢
  have hnever : ¬ (Moment.mk bound (.program program) machine).Stops .exhausted := by
    rintro ⟨later, hexhausted⟩
    exact nomatch hfault.symm.trans hexhausted
  exact (Task.run_of_le hle hnever).trans hfault

/-- The whole run of a program is cut off where its statements are. -/
theorem runProgram_cut (bound : Nat) (program : List Stmt)
    (hglobal : machine.current = Machine.globals) (hflush : machine.sink.flushFails = false)
    (hroom : machine.sink.room = none) (n : Nat) :
    let limit := machine.sink.written.size + n
    Cut limit ((Moment.mk bound (.program program) machine).PrintsOver limit) machine
      (runProgram bound program machine) (runProgram bound program (machine.capped limit)) := by
  intro limit
  have hcapped : runProgram bound program (machine.capped limit) =
      runAll bound program (machine.capped limit) := runProgram_eq hglobal hflush
  rw [runProgram_eq hglobal hflush, hcapped]
  exact (Moment.cuts limit ⟨bound, .program program, machine⟩).cut hroom (Nat.le_add_right _ _)

end Eval

namespace Session

/-! ### Between sources -/

/-- Nothing is going on: no block has been entered and no call has begun. -/
structure Idle (session : Session) : Prop where
  current : session.machine.current = Machine.globals
  depth : session.machine.depth = 0

namespace Idle

variable {session : Session}

theorem initial (sink : Sink) (clock : Clock) : (Session.initial sink clock).Idle :=
  ⟨rfl, rfl⟩

theorem run (h : session.Idle) (bound : Nat) (source : String) :
    (session.run bound source).2.Idle := by
  have hcases := session.run_cases bound source
  generalize session.run bound source = ended at hcases ⊢
  cases hcases with
  | unread _ => exact ⟨h.current, h.depth⟩
  | unresolved _ _ => exact ⟨h.current, h.depth⟩
  | @runs program table m _ _ =>
      have hrestored := Eval.restored_runAll bound program (session.machine.addTable table)
      obtain ⟨current, hfinal⟩ :=
        Eval.final_runProgram bound program (session.machine.addTable table)
      refine ⟨?_, ?_⟩
      · rw [machine_act]
        exact Eval.current_runProgram h.current
      · rw [machine_act, hfinal]
        exact hrestored.depth.trans h.depth

theorem evaluate (h : session.Idle) (bound : Nat) (source : String) :
    (session.evaluate bound source).2.Idle := by
  have hcases := session.evaluate_cases bound source
  generalize session.evaluate bound source = ended at hcases ⊢
  cases hcases with
  | unread _ => exact ⟨h.current, h.depth⟩
  | @runs expr m _ =>
      have hrestored := Restored.run bound (.evaluate expr) session.machine
      refine ⟨?_, ?_⟩
      · rw [machine_act]
        exact hrestored.current.trans h.current
      · rw [machine_act]
        exact hrestored.depth.trans h.depth

theorem perform (h : session.Idle) (step : Step) : (session.perform step).2.Idle := by
  cases step with
  | run bound source => exact h.run bound source
  | evaluate bound source => exact h.evaluate bound source
  | readProgram source => exact ⟨h.current, h.depth⟩
  | readExpression source => exact ⟨h.current, h.depth⟩

theorem afterSteps (h : session.Idle) (steps : List Step) : (session.afterSteps steps).Idle := by
  induction steps generalizing session with
  | nil => exact h
  | cons step rest ih => exact ih (h.perform step)

end Idle

/-! ### Runs that are cut off -/

/-- The session with a sink that takes this many bytes more, or all, and can be flushed. -/
def withRoom (room : Option Nat) (session : Session) : Session :=
  { session with
    machine := { session.machine with
      sink := { session.machine.sink with room := room, flushFails := false } } }

theorem withRoom_eq_capped {session : Session} (hflush : session.machine.sink.flushFails = false)
    (limit : Nat) :
    session.withRoom (some (limit - session.machine.sink.written.size)) =
      ⟨session.machine.capped limit, session.issued⟩ := by
  unfold withRoom Machine.capped Sink.capped
  rw [hflush]

/-- The sink plays no part in what a source is read as: with every room it is turned down in the
same way, or the same program is run. -/
theorem run_withRoom (session : Session) (source : String) :
    (∃ failure m, ∀ room bound, (session.withRoom room).run bound source =
      (.error failure, withRoom room ⟨session.machine, m⟩)) ∨
    ∃ program table m, ∀ room bound,
      let machine := (session.withRoom room).machine.addTable table
      (session.withRoom room).start? (.run bound source) =
          some ⟨bound, .program program, machine⟩ ∧
        (session.withRoom room).run bound source =
          act ⟨machine, m⟩ (Eval.runProgram bound program) := by
  have hissued : ∀ room, (session.withRoom room).issued = session.issued := fun _ => rfl
  unfold run start? readProgram read
  simp only [hissued]
  cases readSource Reader.program session.issued source with
  | mk result m =>
      cases result with
      | error failure => exact Or.inl ⟨failure, m, fun _ _ => rfl⟩
      | ok program =>
          dsimp only
          cases resolve program with
          | error faults => exact Or.inl ⟨.static faults, m, fun _ _ => rfl⟩
          | ok table => exact Or.inr ⟨program, table, m, fun _ _ => ⟨rfl, rfl⟩⟩

/-- A session whose machine ends otherwise gives the same answer. -/
theorem act_changed {α : Type} {action action' : Eval α} {machine machine' : Machine}
    {change : Machine → Machine} (h : action' machine' = Eval.changed change (action machine))
    (issued : Nat) :
    act ⟨machine', issued⟩ action' = ((act ⟨machine, issued⟩ action).1,
      ⟨change (act ⟨machine, issued⟩ action).2.machine, issued⟩) := by
  unfold act
  dsimp only
  rw [h]
  cases action machine with
  | ok value after => rfl
  | error stop after => rfl

theorem act_of_error {α : Type} {action : Eval α} {machine after : Machine} {stop : Stop}
    (h : action machine = .error stop after) (issued : Nat) :
    act ⟨machine, issued⟩ action = (.error (.stopped stop), ⟨after, issued⟩) := by
  unfold act
  dsimp only
  rw [h]

/-- A machine that is about to run a program, with a sink that takes whatever is printed. -/
structure Ready (machine : Machine) : Prop where
  current : machine.current = Machine.globals
  depth : machine.depth = 0
  room : machine.sink.room = none
  flushFails : machine.sink.flushFails = false

/-- What a program prints tells how it ends with a sink that takes `n` bytes more. -/
theorem act_cutOff {machine : Machine} (hready : Ready machine) (bound : Nat)
    (program : List Stmt) (issued n : Nat) :
    let limit := machine.sink.written.size + n
    let whole := act ⟨machine, issued⟩ (Eval.runProgram bound program)
    ∃ printed, whole.2.machine.sink.written = machine.sink.written ++ printed ∧
      (printed.size ≤ n → act ⟨machine.capped limit, issued⟩ (Eval.runProgram bound program) =
        (whole.1, whole.2.withRoom (some (n - printed.size)))) ∧
      (n < printed.size → ∃ full,
        (Moment.mk bound (.program program) machine).PrintsOver limit full ∧
        (full.cutOff limit).sink.written = machine.sink.written ++ printed.extract 0 n ∧
        ∀ more, bound ≤ more →
          act ⟨machine.capped limit, issued⟩ (Eval.runProgram more program) =
            (.error (.stopped (.fault (.sink .full))),
              ⟨{ full.cutOff limit with current := Machine.globals, depth := 0 }, issued⟩)) := by
  intro limit whole
  have hrun : Eval.runProgram bound program machine = Eval.runAll bound program machine :=
    Eval.runProgram_eq hready.current hready.flushFails
  have hends : whole.2.machine = Eval.final (Eval.runAll bound program machine) := by
    rw [← hrun]
    exact machine_act ⟨machine, issued⟩ _
  have hissued : whole.2.issued = issued := issued_act ⟨machine, issued⟩ _
  have hcut := Eval.runProgram_cut bound program hready.current hready.flushFails hready.room n
  rw [hrun] at hcut
  have hflows : machine.sink.Flows (Eval.final (Eval.runAll bound program machine)).sink :=
    (Moment.cuts limit ⟨bound, .program program, machine⟩).flowing.flows hready.room
  obtain ⟨printed, hprinted, hfits, hover⟩ := hcut.printed hflows
  rw [← hends] at hprinted
  rw [← hrun] at hfits
  refine ⟨printed, hprinted, fun hle => ?_, fun hlt => ?_⟩
  · have hroom : n - printed.size = limit - whole.2.machine.sink.written.size := by
      rw [hprinted, ByteArray.size_append]
      exact (Nat.add_sub_add_left _ _ _).symm
    have hflush : whole.2.machine.sink.flushFails = false := by
      rw [hends]
      exact (Eval.restored_runAll bound program machine).flushFails.trans hready.flushFails
    rw [act_changed (hfits hle), hroom, withRoom_eq_capped hflush, hissued]
  · obtain ⟨full, hfull, hbytes, hstop⟩ := hover hlt
    rw [hready.current, hready.depth] at hstop
    have hglobal : (machine.capped limit).current = Machine.globals := hready.current
    refine ⟨full, hfull, hbytes, fun more hmore => ?_⟩
    exact act_of_error (Eval.runProgram_of_le hmore hglobal hready.flushFails hstop) issued

/-- Of all that is printed, the sink takes the first `n` bytes: if that is all of it, nothing
else is different, and else the run ends at the print that leads over the limit, whatever the
bound for its steps.  What the session is left with then is what it had directly behind that
print, outside all blocks and calls. -/
theorem run_cutOff (sink : Sink) (clock : Clock) (steps : List Step) (bound : Nat) (source : String)
    (n : Nat) :
    let session := (Session.initial sink clock).afterSteps steps
    let before := session.machine.sink.written
    let whole := (session.withRoom none).run bound source
    let limited := (session.withRoom (some n)).run bound source
    ∃ printed : ByteArray, whole.2.machine.sink.written = before ++ printed ∧
      (printed.size ≤ n → limited = (whole.1, whole.2.withRoom (some (n - printed.size)))) ∧
      (n < printed.size →
        limited.1 = .error (.stopped (.fault (.sink .full))) ∧
        limited.2.machine.sink.written = before ++ printed.extract 0 n ∧
        limited.2.machine.current = Machine.globals ∧ limited.2.machine.depth = 0 ∧
        (∃ start full, (session.withRoom none).start? (.run bound source) = some start ∧
          start.PrintsOver (before.size + n) full ∧
          limited.2 = ⟨{ full.cutOff (before.size + n) with
            current := Machine.globals, depth := 0 }, whole.2.issued⟩) ∧
        ∀ more, bound ≤ more → (session.withRoom (some n)).run more source = limited) := by
  intro session before whole limited
  have hidle : session.Idle := (Idle.initial sink clock).afterSteps steps
  rcases run_withRoom session source with ⟨failure, m, hunread⟩ | ⟨program, table, m, hruns⟩
  · have hwhole : whole = _ := hunread none bound
    have hlimited : limited = _ := hunread (some n) bound
    rw [hwhole, hlimited]
    exact ⟨.empty, ByteArray.append_empty.symm, fun _ => rfl, fun h => absurd h (Nat.not_lt_zero _)⟩
  · obtain ⟨hstart, hwhole⟩ := hruns none bound
    have hwhole : whole = _ := hwhole
    have hready : Ready ((session.withRoom none).machine.addTable table) :=
      ⟨hidle.current, hidle.depth, rfl, rfl⟩
    have hcapped : (session.withRoom (some n)).machine.addTable table =
        ((session.withRoom none).machine.addTable table).capped (before.size + n) := by
      have hsame : (session.withRoom none).withRoom (some (before.size + n - before.size)) = _ :=
        withRoom_eq_capped rfl (before.size + n)
      rw [Nat.add_sub_cancel_left] at hsame
      exact congrArg (·.machine.addTable table) hsame
    have hlimited : ∀ more, (session.withRoom (some n)).run more source =
        act ⟨((session.withRoom none).machine.addTable table).capped (before.size + n), m⟩
          (Eval.runProgram more program) := fun more => hcapped ▸ (hruns (some n) more).2
    obtain ⟨printed, hprinted, hfits, hover⟩ := act_cutOff hready bound program m n
    rw [← hwhole] at hprinted hfits
    refine ⟨printed, hprinted, fun hle => (hlimited bound).trans (hfits hle), fun hlt => ?_⟩
    obtain ⟨full, hfull, hbytes, hstop⟩ := hover hlt
    have hends : limited = _ := (hlimited bound).trans (hstop bound (Nat.le_refl _))
    have hissued : whole.2.issued = m := by
      rw [hwhole]
      exact issued_act _ _
    rw [hends, hissued]
    exact ⟨rfl, hbytes, rfl, rfl, ⟨_, full, hstart, hfull, rfl⟩,
      fun more hmore => (hlimited more).trans (hstop more hmore)⟩

/-- In the middle of a line, in the middle of a block. -/
example : ((initial ⟨.empty, some 7, false⟩ 0).run 20
    "\x7b print true; print nil; \x7d print true;").2.machine.sink.textFrom 0 = "true\nni" := by
  decide +kernel

end Session

end Scriptlet
