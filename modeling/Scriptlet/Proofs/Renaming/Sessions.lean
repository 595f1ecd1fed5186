/-
Nobody can see what a local variable is called: a program in which one has another name is
accepted as well, with the same side table, and gives the same output and the same result in
whatever session it is run.
-/
import Scriptlet.Proofs.Incremental.Joined
import Scriptlet.Proofs.Lexical.Sessions
import Scriptlet.Proofs.Renaming.Evaluate
import Scriptlet.Proofs.Renaming.Renamed
import Scriptlet.Proofs.Renaming.Resolved
import Scriptlet.Proofs.Renaming.Source

namespace Scriptlet

namespace Renaming

open Lexical

open Reference (Run)

variable {homes : Homes} {session : Session} {ref : Reference.Session} {new : String}
  {strict : Bool} {program program' : List Stmt} {added : Table}

/-- Programs that differ in names end with the same result, and leave the same outside. -/
theorem act_of_alpha (h : Parallel homes session ref)
    (hfits : FitsStmts ⟨session.machine.table, session.issued⟩ [] program)
    (hfits' : FitsStmts ⟨session.machine.table, session.issued⟩ [] program')
    (halpha : AlphaStmts new strict [] program program') (bound : Nat) :
    (session.act (Eval.runProgram bound program')).1 =
        (session.act (Eval.runProgram bound program)).1 ∧
      (session.act (Eval.runProgram bound program')).2.machine.toOutside =
        (session.act (Eval.runProgram bound program)).2.machine.toOutside := by
  obtain ⟨machine, issued⟩ := session
  have hfirst := simulates_runProgram bound h.relates h.current hfits
  have hsecond := simulates_runProgram bound h.relates h.current hfits'
  have htwins := twinRun_runProgram bound halpha (twinStore_refl ref.store)
  unfold Simulates at hfirst hsecond
  unfold Session.act
  dsimp only at hfirst hsecond ⊢
  generalize Eval.runProgram bound program machine = result at hfirst ⊢
  generalize Eval.runProgram bound program' machine = result' at hsecond ⊢
  generalize Run.runProgram bound program ref.store = stored at hfirst htwins
  generalize Run.runProgram bound program' ref.store = stored' at hsecond htwins
  cases htwins with
  | ok hstores _ =>
      cases hfirst with
      | ok _ hrelates _ =>
          cases hsecond with
          | ok _ hrelates' _ =>
              exact ⟨rfl, hrelates'.outside.trans (hstores.outside.trans hrelates.outside.symm)⟩
  | error hstores =>
      cases hfirst with
      | error _ hrelates _ =>
          cases hsecond with
          | error _ hrelates' _ =>
              exact ⟨rfl, hrelates'.outside.trans (hstores.outside.trans hrelates.outside.symm)⟩

end Renaming

namespace Session

open Renaming

/-- A program is accepted by a session.  Let one of its local variables be called otherwise,
where it is declared and where it is meant, by an identifier that the program does not have.
Then the program is accepted with the same side table, also as a source, which differs from
the first one in identifiers only, and running it gives the same result and the same output. -/
theorem run_renamesLocal (sink : Sink) (clock : Clock) (steps : List Step) {source new : String}
    {program program' : List Stmt} {m : Nat} {table : Table}
    (hread : readSource Reader.program ((initial sink clock).afterSteps steps).issued source =
      (.ok program, m))
    (hresolve : resolve program = .ok table) (hids : m ≤ UInt32.size)
    (hnew : Source.Spells .identifier new.toList) (hfree : new ∉ stmtsNames program)
    (hrenames : RenamesLocal new program program') :
    resolve program' = .ok table ∧
      (∃ source', RespelledSource new source source' ∧
        readSource Reader.program ((initial sink clock).afterSteps steps).issued source' =
          (.ok program', m)) ∧
      ∀ source', readSource Reader.program ((initial sink clock).afterSteps steps).issued source' =
          (.ok program', m) → ∀ bound,
        (((initial sink clock).afterSteps steps).run bound source').1 =
            (((initial sink clock).afterSteps steps).run bound source).1 ∧
          (((initial sink clock).afterSteps steps).run bound source').2.machine.toOutside =
            (((initial sink clock).afterSteps steps).run bound source).2.machine.toOutside := by
  have hissued := issued_le_readSource Reader.counts_program
    ((initial sink clock).afterSteps steps).issued source
  rw [hread] at hissued
  obtain ⟨homes, ref, hparallel⟩ := (Lexical.parallel_initial sink clock).afterSteps steps
    (Nat.le_trans hissued hids)
  obtain ⟨hready, hfits⟩ := hparallel.resolved hread hresolve hids
  have halpha := alphaStmts_of_renamesLocal hfits hfree hrenames
  have hresolve' := resolve_of_alpha halpha hresolve
  refine ⟨hresolve', readSource_respelled hnew halpha hread, fun source' hread' bound => ?_⟩
  obtain ⟨-, hfits'⟩ := hparallel.resolved hread' hresolve' hids
  rw [run_of_read hread hresolve, run_of_read hread' hresolve']
  exact act_of_alpha hready hfits hfits' halpha bound

/-- The program begins with a function that has a parameter, and does not have the name. -/
def BeginsWithParam (new : String) (program : List Stmt) : Prop :=
  new ∉ stmtsNames program ∧
    match program with
    | .function _ (_ :: _) _ :: _ => True
    | _ => False

instance (new : String) : DecidablePred (BeginsWithParam new) := fun program =>
  match program with
  | .function _ (_ :: _) _ :: _ => inferInstanceAs (Decidable (_ ∧ True))
  | .function _ [] _ :: _ | .expression _ :: _ | .print _ :: _ | .declare _ _ :: _ | .block _ :: _
  | .branch _ _ _ :: _ | .loop _ _ :: _ | .leave _ _ :: _ | [] =>
      inferInstanceAs (Decidable (_ ∧ False))

/-- The parameter is changed by a closure, and another variable of its name hides it. -/
def hidingSource : String :=
  "fun make(n) \x7b fun next() \x7b n = n + 1; \x7b var n = 0; print n; \x7d return n; \x7d " ++
    "return next; \x7d var next = make(2); print next() - nil;"

/-- The other name is the name of a global that was declared before. -/
def globalSteps : List Step :=
  [.run 100 "var k = 7;"]

theorem run_renamesLocal_hiding :
    ∃ program program' m table, readSource Reader.program
        ((initial .unlimited 0).afterSteps globalSteps).issued hidingSource = (.ok program, m) ∧
      resolve program = .ok table ∧ RenamesLocal "k" program program' ∧
      resolve program' = .ok table ∧
      ∃ source', RespelledSource "k" hidingSource source' ∧
        (((initial .unlimited 0).afterSteps globalSteps).run 100 source').1 =
          (((initial .unlimited 0).afterSteps globalSteps).run 100 hidingSource).1 := by
  have haccepted : Incremental.Accepted hidingSource := by decide +kernel
  have hids : (readSource Reader.program ((initial .unlimited 0).afterSteps globalSteps).issued
      hidingSource).2 ≤ UInt32.size := by decide +kernel
  have hshape : ∀ program ∈ (readSource Reader.program
      ((initial .unlimited 0).afterSteps globalSteps).issued hidingSource).1.toOption,
        BeginsWithParam "k" program := by decide +kernel
  have hnew : Source.Spells .identifier "k".toList :=
    .identifier rfl nofun fun keyword => by cases keyword <;> decide
  obtain ⟨program, m, table, hread, hresolve⟩ := (Incremental.accepted_iff _).mp haccepted
  rw [hread] at hids hshape
  obtain ⟨hfree, hbegins⟩ := hshape program rfl
  match program, hbegins with
  | .function name (param :: after) body :: rest, _ =>
      have hrenames := @RenamesLocal.first "k" _ _ rest
        (@RenamesIn.param "k" name param [] after body)
      obtain ⟨hresolve', ⟨source', hrespelled, hread'⟩, hrun⟩ := run_renamesLocal .unlimited 0
        globalSteps hread hresolve hids hnew hfree hrenames
      exact ⟨_, _, m, table, hread, hresolve, hrenames, hresolve', source', hrespelled,
        (hrun source' hread' 100).1⟩

end Session

end Scriptlet
