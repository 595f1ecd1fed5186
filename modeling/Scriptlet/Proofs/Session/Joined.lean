/-
Two sources run as one, and one after the other.

Run as one, the second source stands on later lines and the side table has its entries from
the beginning.  The first makes no difference but to the lines of its faults, the second none
at all, because no identity of before is in those entries.
-/
import Scriptlet.Proofs.Incremental.Below
import Scriptlet.Proofs.Session.Starts

namespace Scriptlet

open Incremental Source

/-- The same scopes, with the same values for the same names. -/
structure SameScopes (tree tree' : ScopeTree Value) : Prop where
  size : tree'.size = tree.size
  parent : ∀ scope, tree'.parent? scope = tree.parent? scope
  own : ∀ scope name, tree'.own? scope name = tree.own? scope name

/-- The machines have the same state, whatever their side tables. -/
structure SameState (machine machine' : Machine) : Prop where
  outside : machine'.toOutside = machine.toOutside
  current : machine'.current = machine.current
  scopes : SameScopes machine.scopes machine'.scopes

/-- The runs end in the same way, and leave sessions that nothing tells apart. -/
structure SameRun (ended ended' : Except Failure Unit × Session) : Prop where
  answer : ended'.1 = ended.1
  issued : ended'.2.issued = ended.2.issued
  state : SameState ended.2.machine ended'.2.machine
  table : ∀ id, ended'.2.machine.table.distance? id = ended.2.machine.table.distance? id

namespace Incremental

/-- Nothing is moved. -/
abbrev sameLink : Link :=
  lineLink (fun _ => True) [] 0

theorem sameLink_tokens (a b : Token) (h : sameLink.tokens a b) : a = b := by
  rcases h with ⟨-, rfl⟩ | ⟨hmem, -⟩
  · rfl
  · cases hmem

section Same

variable {machine machine' : Machine}

theorem AlikeMachine.sameState {link : Link} (h : AlikeMachine link machine machine')
    (htokens : ∀ a b, link.tokens a b → a = b) (hids : ∀ a b, link.ids a b → a = b)
    (hsinks : ∀ a b, link.sinks a b → b = a) : SameState machine machine' where
  outside := h.outside_eq hsinks
  current := h.current
  scopes := ⟨h.scopes.size, h.scopes.parent, h.scopes.own?_eq htokens hids⟩

theorem AlikeEnd.same {ended ended' : Except Failure Unit × Session}
    (h : AlikeEnd sameLink ended ended') : SameRun ended ended' where
  answer := h.answer.eq sameLink_tokens
  issued := h.issued
  state := h.machines.sameState sameLink_tokens (fun _ _ => Eq.symm) fun _ _ => id
  table := h.machines.table

end Same

section Runs

variable {seen : Token → Prop} {session : Session} {first ending second : String}

/-- The entries of the second source are about none of the identities handed out before. -/
theorem Prepared.unlisted {n : Nat} (both : Prepared n first ending second)
    (hids : both.last ≤ UInt32.size) :
    ∀ k < both.between, both.tableRest.distance? (.ofCount k) = none := by
  intro k hk
  have hderives := (readSource_iff_derives.mp both.readSecond).2
  have hnumbered := (Grammar.derives_wellMade hderives).2
  have hlt : k < UInt32.size := Nat.lt_of_lt_of_le hk (Nat.le_trans hnumbered.1 hids)
  exact Lexical.distance?_of_unused both.resolveSecond hnumbered hids hlt (Or.inl hk)

/-- The first source runs as it does without the entries of the second one. -/
theorem Prepared.alike_first (both : Prepared session.issued first ending second)
    (h : Settled seen session)
    (hextra : ∀ k < both.between, both.tableRest.distance? (.ofCount k) = none) (bound : Nat) :
    AlikeResult (ownLink (fun _ => True) both.between both.tableRest hextra) (fun _ _ => True)
      (Eval.runAll bound both.program (session.machine.addTable both.table))
      (Eval.runAll bound both.program (session.machine.addTable both.joined)) := by
  have hle : session.issued ≤ both.between := by
    have hread := Session.issued_le_readSource Reader.counts_program session.issued first
    rw [both.readFirst] at hread
    exact hread
  have hprogram : AlikeStmts (ownLink (fun _ => True) both.between both.tableRest hextra)
      both.program both.program := alike_program both.readFirst fun _ _ => trivial
  apply alikeRun_runAll bound hprogram
  apply AlikeMachine.imp h
  · exact fun _ _ htokens => ⟨trivial, htokens.2⟩
  · rintro _ _ ⟨⟨k, hk, hid⟩, hsame⟩
    exact ⟨⟨k, Nat.lt_of_lt_of_le hk hle, hid⟩, hsame⟩
  · rfl
  · intro id
    rw [Table.distance?_merge, Table.distance?_merge, both.adds, Option.or_assoc]

/-- Where the second source begins, its entries are in both side tables. -/
theorem alike_second {k : Nat} {extra : Table} {machine machine' : Machine}
    {hextra : ∀ j < k, extra.distance? (.ofCount j) = none}
    (h : AlikeMachine (ownLink (fun _ => True) k extra hextra) machine machine') :
    AlikeMachine sameLink (machine.addTable extra) machine' := by
  apply AlikeMachine.imp h
  · exact fun _ _ htokens => Or.inl htokens
  · exact fun _ _ hids => hids.2
  · exact h.sink
  · intro id
    rw [h.table, Table.distance?_merge]

theorem Prepared.alike_rest {n : Nat} (both : Prepared n first ending second) :
    AlikeStmts sameLink both.rest both.rest :=
  alike_program_self (fun _ => Or.inl ⟨trivial, rfl⟩) (fun _ => rfl) both.readSecond

end Runs

section Programs

variable {bound : Nat} {program : List Stmt} {machine after : Machine} {stop : Stop}

theorem runProgram_of_ok (h : Eval.runAll bound program machine = .ok () after)
    (hflush : after.sink.flushFails = false) :
    Eval.runProgram bound program machine = .ok () after := by
  unfold Eval.runProgram
  rw [h]
  exact if_neg (Bool.eq_false_iff.mp hflush)

theorem runProgram_of_error (h : Eval.runAll bound program machine = .error stop after) :
    Eval.runProgram bound program machine =
      .error stop { after with current := Machine.globals } := by
  unfold Eval.runProgram
  rw [h]

/-- Behind a program that ends well, the next one is run. -/
theorem runProgram_append (rest : List Stmt)
    (h : Eval.runAll bound program machine = .ok () after) :
    Eval.runProgram bound (program ++ rest) machine = Eval.runProgram bound rest after := by
  unfold Eval.runProgram
  rw [runAll_append, Eval.bind_apply, h]

/-- Behind a program that stops, nothing is. -/
theorem runProgram_append_of_error (rest : List Stmt)
    (h : Eval.runAll bound program machine = .error stop after) :
    Eval.runProgram bound (program ++ rest) machine =
      .error stop { after with current := Machine.globals } := by
  apply runProgram_of_error
  rw [runAll_append, Eval.bind_apply, h]

end Programs

end Incremental

namespace Session

/-- Run as one, two sources do what they do one after the other, the second on its lines.  If
the first one stops, that is all they do. -/
structure RunsAsOne (session : Session) (bound : Nat) (first ending second : String) : Prop where
  both : (session.run bound first).1 = .ok () →
    SameRun ((session.run bound first).2.run bound (below (newlines first + 1) second))
      (session.run bound (first ++ ending ++ second))
  stopped : ∀ failure, (session.run bound first).1 = .error failure →
    (session.run bound (first ++ ending ++ second)).1 = .error failure ∧
      SameState (session.run bound first).2.machine
        (session.run bound (first ++ ending ++ second)).2.machine

theorem runsAsOne {seen : Token → Prop} {session : Session} {first ending second : String}
    (h : Settled seen session) (hflush : session.machine.sink.flushFails = false)
    (both : Prepared session.issued first ending second) (hids : both.last ≤ UInt32.size)
    (bound : Nat) : session.RunsAsOne bound first ending second := by
  have hextra := both.unlisted hids
  have hfirst := both.alike_first h hextra bound
  have hrun := run_of_read both.readFirst both.resolveFirst bound
  have hjoined := run_of_read both.readBoth both.resolveBoth bound
  cases hresult : Eval.runAll bound both.program (session.machine.addTable both.table) with
  | ok _ after =>
      obtain ⟨_, after', hresult', hmachines, -⟩ := hfirst.of_ok hresult
      have hflushed : after.sink.flushFails = false :=
        (Restored.runAll hresult).flushFails.trans hflush
      rw [act, runProgram_of_ok hresult hflushed] at hrun
      rw [act, runProgram_append both.rest hresult'] at hjoined
      have hrest : Session.run ⟨after, both.between⟩ bound (below (newlines first + 1) second) =
          act ⟨after.addTable both.tableRest, both.last⟩ (Eval.runProgram bound both.rest) :=
        run_of_read both.readSecond both.resolveSecond bound
      constructor
      · intro _
        rw [hrun, hrest, hjoined]
        have hready := alike_second hmachines
        exact (alikeEnd_act (alikeRun_runProgram bound both.alike_rest hready)).same
      · intro failure hfailure
        rw [hrun] at hfailure
        cases hfailure
  | error stop after =>
      obtain ⟨stop', after', hresult', hmachines, hstops⟩ := hfirst.of_error hresult
      obtain rfl := hstops.eq fun _ _ htokens => htokens.2.symm
      rw [act, runProgram_of_error hresult] at hrun
      rw [act, runProgram_append_of_error both.rest hresult'] at hjoined
      constructor
      · intro hok
        rw [hrun] at hok
        cases hok
      · intro failure hfailure
        rw [hrun] at hfailure
        rw [hrun, hjoined, ← hfailure]
        have hstate := hmachines.sameState (fun _ _ htokens => htokens.2.symm)
          (fun _ _ hids => hids.2.symm) fun _ _ => id
        exact ⟨rfl, { hstate with current := rfl }⟩

/-- Two sources after any others, run one after the other and as one. -/
structure Joins (session : Session) (bound : Nat) (first ending second : String) : Prop where
  accepted : Accepted (first ++ ending ++ second)
  asOne : session.RunsAsOne bound first ending second
  anyLines : (session.run bound first).2.OnAnyLines bound second

theorem joins (sink : Sink) (clock : Clock) (before : List Step) (bound : Nat)
    {first ending second : String} (hending : IsEnding ending.toList)
    (hflush : sink.flushFails = false) (hfirst : Accepted first) (hsecond : Accepted second)
    (hids : ((Session.initial sink clock).afterSteps
      (before ++ [.run bound first, .run bound second])).issued ≤ UInt32.size) :
    ((Session.initial sink clock).afterSteps before).Joins bound first ending second := by
  have hsettled := settled_afterSteps sink clock before
  have hnow := settled_afterSteps sink clock (before ++ [.run bound first])
  obtain ⟨last, hlast⟩ := exists_last_line (before ++ [.run bound first])
  have hsame := flushFails_afterSteps (Session.initial sink clock) before
  rw [afterSteps_append] at hids hnow
  generalize (Session.initial sink clock).afterSteps before = session at hids hsettled hnow hsame ⊢
  obtain ⟨both⟩ := prepared hending hfirst hsecond session.issued
  have hlines : (session.run bound first).2.OnAnyLines bound second :=
    onAnyLines hnow hlast hsecond bound
  have hbetween : (session.run bound first).2.issued = both.between := by
    rw [issued_run, both.readFirst]
  have hend : ((session.run bound first).2.run bound
      (below (newlines first + 1) second)).2.issued = both.last := by
    rw [issued_run, hbetween, both.readSecond]
  have hidsBoth : both.last ≤ UInt32.size := by
    rw [← hend, hlines.issued]
    exact hids
  exact ⟨accepted_joined hending hfirst hsecond,
    runsAsOne hsettled (hsame.trans hflush) both hidsBoth bound, hlines⟩

end Session

end Scriptlet
