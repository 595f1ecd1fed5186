/-
Locals stay out of the globals.

A scope at a distance is never the global one, because the side table counts scopes that a
block or a call has opened.  So a step adds to the globals what its program declares outside
all blocks, and nothing else: no assignment makes a global, and no block, function or loop
leaves a name behind, whether the step ends well or stops in the middle.
-/
import Scriptlet.Proofs.Lexical.Lawful
import Scriptlet.Proofs.Lexical.Sessions
import Scriptlet.Proofs.Session.Starts

namespace Scriptlet

def Machine.BindsGlobal (machine : Machine) (name : String) : Prop :=
  (machine.scopes.own? Machine.globals name).isSome = true

/-- The later machine binds no globals but those of the earlier one and the given names. -/
def AddsGlobals (allowed : List String) (machine later : Machine) : Prop :=
  ∀ name, later.BindsGlobal name → machine.BindsGlobal name ∨ name ∈ allowed

namespace AddsGlobals

variable {allowed : List String} {first second third : Machine}

theorem refl (machine : Machine) : AddsGlobals allowed machine machine :=
  fun _ h => Or.inl h

theorem trans (h : AddsGlobals allowed first second) (h' : AddsGlobals allowed second third) :
    AddsGlobals allowed first third := by
  intro name hname
  rcases h' name hname with hname | hname
  · exact h name hname
  · exact Or.inr hname

theorem bind {machine : Machine} {scope : Nat} {name : String} {value : Value}
    (h : scope = Machine.globals → machine.BindsGlobal name ∨ name ∈ allowed) :
    AddsGlobals allowed machine (machine.bind scope name value) := by
  intro key hkey
  unfold Machine.BindsGlobal at hkey
  dsimp only [Machine.bind] at hkey
  rw [ScopeTree.own?_define] at hkey
  split at hkey
  · next hsame =>
      obtain ⟨hscope, rfl, -⟩ := hsame
      exact h hscope
  · exact Or.inl hkey

theorem child (machine : Machine) (parent : Nat) :
    AddsGlobals allowed machine { machine with scopes := machine.scopes.child parent } := by
  intro name hname
  unfold Machine.BindsGlobal ScopeTree.child at hname
  rw [ScopeTree.own?_openScope] at hname
  exact Or.inl hname

theorem defineAll (machine : Machine) {scope : Nat} (hscope : scope ≠ Machine.globals)
    (names : List String) (values : List Value) :
    AddsGlobals allowed machine
      { machine with scopes := machine.scopes.defineAll scope names values } := by
  unfold ScopeTree.defineAll
  generalize names.zip values = pairs
  induction pairs generalizing machine with
  | nil => exact refl machine
  | cons pair rest ih =>
      have hfirst : AddsGlobals allowed machine (machine.bind scope pair.1 pair.2) :=
        bind fun hglobal => absurd hglobal hscope
      exact hfirst.trans (ih _)

end AddsGlobals

namespace Lexical

variable {known : Known} {allowed : List String}

/-- An assignment changes a local where the side table has a distance, and elsewhere a global
that is there already. -/
theorem Lawful.assignmentScope {bound target : Nat} {id : NodeId} {name : Token} {expr : Expr}
    {value : Value} {machine between after : Machine}
    (h : Lawful known allowed ⟨bound + 1, .evaluate (.assign id name expr), machine⟩)
    (hvalue : Eval.evaluate bound expr machine = .ok value between)
    (htarget : Eval.assignmentScope id name between = .ok target after) :
    ((between.table.distance? id).isSome = true ∧ target ≠ Machine.globals) ∨
      (between.table.distance? id = none ∧ target = Machine.globals ∧
        between.BindsGlobal name.lexeme) := by
  cases h with
  | evaluate hrelates hmirrors hfits =>
      obtain ⟨homes', _, _, _, hrelates', hmirrors', _⟩ :=
        after_evaluate hrelates hmirrors hfits.1 hvalue
      unfold Eval.assignmentScope at htarget
      rw [hrelates'.table, hfits.2.2] at htarget ⊢
      split at htarget
      · next distance hdistance =>
          obtain ⟨cell, holder, _, hancestor, hhome, _⟩ := hmirrors'.find hdistance
          simp only [ScopeTree.scopeAt, hancestor] at htarget
          cases htarget
          rw [hdistance]
          exact Or.inl ⟨rfl, (hrelates'.inside _ (List.mem_of_getElem? hhome)).1⟩
      · next hnone =>
        rw [holder?_of_root hrelates'.root] at htarget
        by_cases hbound : (between.scopes.own? Machine.globals name.lexeme).isSome = true
        · rw [if_pos hbound] at htarget
          cases htarget
          exact Or.inr ⟨hnone, rfl, hbound⟩
        · rw [if_neg hbound] at htarget
          cases htarget

theorem addsGlobals_carried : Carried (Lawful known allowed) (AddsGlobals allowed) where
  enters := Lawful.enters
  refl := AddsGlobals.refl
  trans := AddsGlobals.trans
  write machine _ := AddsGlobals.refl machine
  tick := AddsGlobals.refl
  within _ h := h
  deeper h := h
  block _ hscope := by
    cases hscope
    exact AddsGlobals.child _ _
  frame hmoment hframe := by
    cases hmoment with
    | call hrelates _ _ _ =>
        cases hframe
        exact (AddsGlobals.child _ _).trans
          (AddsGlobals.defineAll _ (Nat.ne_of_gt hrelates.nonempty) _ _)
  declare hmoment := by
    cases hmoment with
    | execute _ _ _ hdeclared => exact AddsGlobals.bind fun h => Or.inr (hdeclared h _ rfl)
  declareWith hmoment hvalue := by
    cases hmoment with
    | execute _ _ _ hdeclared =>
        rw [(Restored.evaluate hvalue).current]
        exact AddsGlobals.bind fun h => Or.inr (hdeclared h _ rfl)
  function _ hmoment := by
    cases hmoment with
    | execute _ _ _ hdeclared =>
        exact AddsGlobals.bind fun h => Or.inr (hdeclared h _ rfl)
  assign {bound id name expr value target machine between after} hmoment hvalue htarget := by
    have hafter : after = between := by
      rw [← Eval.final_assignmentScope id name between, htarget]
      rfl
    rcases hmoment.assignmentScope hvalue htarget with ⟨_, hlocal⟩ | ⟨_, _, hbound⟩
    · exact AddsGlobals.bind fun h => absurd h hlocal
    · exact AddsGlobals.bind fun _ => Or.inl (hafter ▸ hbound)

end Lexical

/-! ### Assignments -/

/-- In the run from this moment, a value was found for an assignment and is stored next. -/
inductive Stores (start : Moment) (id : NodeId) (name : Token) (value : Value)
    (machine : Machine) : Prop
  | found {bound : Nat} {expr : Expr} {before : Machine}
      (reaches : Reaches start ⟨bound + 1, .evaluate (.assign id name expr), before⟩)
      (evaluated : Eval.evaluate bound expr before = .ok value machine)

namespace Lexical

variable {known : Known} {allowed : List String} {start : Moment} {id : NodeId} {name : Token}
  {value : Value} {machine : Machine}

theorem Lawful.scopeAt_ne (h : Lawful known allowed start)
    (hstores : Stores start id name value machine) {distance target : Nat}
    (hdistance : machine.table.distance? id = some distance)
    (htarget : machine.scopes.scopeAt machine.current distance = .ok target) :
    target ≠ Machine.globals := by
  cases hstores with
  | found hreaches hvalue =>
      have hscope : Eval.assignmentScope id name machine = .ok target machine := by
        unfold Eval.assignmentScope
        simp only [hdistance, htarget]
      rcases (h.reaches hreaches).assignmentScope hvalue hscope with ⟨_, hlocal⟩ | ⟨hnone, _⟩
      · exact hlocal
      · rw [hdistance] at hnone
        cases hnone

theorem Lawful.addsGlobals_writeVariable (h : Lawful known allowed start)
    (hstores : Stores start id name value machine) :
    AddsGlobals [] machine (Eval.final (Eval.writeVariable id name value machine)) := by
  cases hstores with
  | found hreaches hvalue =>
      have hsame := Eval.final_assignmentScope id name machine
      unfold Eval.writeVariable
      rw [Eval.bind_apply]
      cases hscope : Eval.assignmentScope id name machine with
      | error stop after =>
          rw [hscope] at hsame
          obtain rfl : machine = after := hsame.symm
          exact AddsGlobals.refl machine
      | ok target after =>
          rw [hscope] at hsame
          obtain rfl : machine = after := hsame.symm
          have hbind : AddsGlobals [] machine (machine.bind target name.lexeme value) := by
            rcases (h.reaches hreaches).assignmentScope hvalue hscope with
              ⟨_, hlocal⟩ | ⟨_, _, hbound⟩
            · exact AddsGlobals.bind fun hglobal => absurd hglobal hlocal
            · exact AddsGlobals.bind fun _ => Or.inl hbound
          exact hbind

end Lexical

/-! ### Steps -/

namespace Session

/-- The names that the program of a step declares outside all blocks. -/
def topLevelNames (session : Session) : Step → List String
  | .run _ source =>
      match session.readProgram source with
      | (.ok program, _) => program.filterMap Stmt.declared?
      | (.error _, _) => []
  | _ => []

open Lexical in
/-- The run of a step begins at a lawful moment. -/
theorem lawful_of_start {homes : Homes} {session : Session} {ref : Reference.Session}
    (h : Parallel homes session ref) {step : Step} {start : Moment}
    (hids : (session.perform step).2.issued ≤ UInt32.size)
    (hstart : session.start? step = some start) :
    ∃ known, Lawful known (session.topLevelNames step) start := by
  cases start_cases hstart with
  | @evaluate bound source expr m hread =>
      have hle := issued_le_readSource Reader.counts_wholeExpression session.issued source
      have hissued : (session.perform (.evaluate bound source)).2.issued = m := by
        rw [show (session.perform (.evaluate bound source)).2.issued = _ from
          issued_evaluate session bound source, hread]
      rw [hread] at hle
      rw [hissued] at hids
      have hglobal : Mirrors homes session.machine.scopes none session.machine.current [] :=
        h.current
      exact ⟨_, .evaluate (h.read hle).relates hglobal (h.unlisted hread hids)⟩
  | @run bound source program table m hread hresolve =>
      have hissued : (session.perform (.run bound source)).2.issued = m := by
        rw [show (session.perform (.run bound source)).2.issued = _ from
          issued_run session bound source, hread]
      rw [hissued] at hids
      obtain ⟨hready, hfits⟩ := h.resolved hread hresolve hids
      have hstands := hready.relates.stands hready.current
      refine ⟨_, .program hready.relates hstands hfits ?_⟩
      intro stmt hstmt name hname
      simp only [topLevelNames, readProgram, read, hread]
      exact List.mem_filterMap.mpr ⟨stmt, hstmt, hname⟩

/-- What the run of a step does to locals stays out of the globals. -/
structure KeepsLocals (session : Session) (step : Step) : Prop where
  /-- The globals get no names but those that the program declares outside all blocks. -/
  declared : ∀ name, (session.perform step).2.machine.BindsGlobal name →
    session.machine.BindsGlobal name ∨ name ∈ session.topLevelNames step
  /-- A scope at a distance is not the global one. -/
  locals : ∀ start, session.start? step = some start →
    ∀ id name value machine, Stores start id name value machine →
      ∀ distance target, machine.table.distance? id = some distance →
        machine.scopes.scopeAt machine.current distance = .ok target → target ≠ Machine.globals
  /-- An assignment finds the global that it changes. -/
  assignments : ∀ start, session.start? step = some start →
    ∀ id name value machine, Stores start id name value machine →
      ∀ key, (Eval.final (Eval.writeVariable id name value machine)).BindsGlobal key →
        machine.BindsGlobal key

/-- Whatever sources a session was given, and whether the next step ends well or stops in the
middle: the step keeps locals out of the globals. -/
theorem step_keepsLocals (sink : Sink) (clock : Clock) (before : List Step) (step : Step)
    (hids : ((Session.initial sink clock).afterSteps (before ++ [step])).issued ≤ UInt32.size) :
    ((Session.initial sink clock).afterSteps before).KeepsLocals step := by
  rw [afterSteps_append] at hids
  generalize hsession : (Session.initial sink clock).afterSteps before = session at hids ⊢
  have hstep : (session.perform step).2.issued ≤ UInt32.size := hids
  have hbefore : ((Session.initial sink clock).afterSteps before).issued ≤ UInt32.size :=
    hsession ▸ Nat.le_trans (issued_le_perform session step) hstep
  obtain ⟨homes, ref, hparallel⟩ :=
    (Lexical.parallel_initial sink clock).afterSteps before hbefore
  rw [hsession] at hparallel
  refine ⟨?_, ?_, ?_⟩
  · intro name hname
    unfold Machine.BindsGlobal at hname ⊢
    rw [scopes_perform] at hname
    cases hstart : session.start? step with
    | none =>
        rw [hstart] at hname
        exact Or.inl hname
    | some start =>
        rw [hstart] at hname
        obtain ⟨known, hlawful⟩ := lawful_of_start hparallel hstep hstart
        obtain ⟨table, hmachine⟩ := machine_of_start hstart
        have hadds := Lexical.addsGlobals_carried.run start hlawful name hname
        rw [hmachine] at hadds
        exact hadds
  · intro start hstart id name value machine hstores distance target
    obtain ⟨known, hlawful⟩ := lawful_of_start hparallel hstep hstart
    exact hlawful.scopeAt_ne hstores
  · intro start hstart id name value machine hstores key hkey
    obtain ⟨known, hlawful⟩ := lawful_of_start hparallel hstep hstart
    exact (hlawful.addsGlobals_writeVariable hstores key hkey).resolve_right List.not_mem_nil

/-- A function and a block have a local each, and the second source stops within the block. -/
def countingSteps : List Step :=
  [.run 100 "fun count() \x7b var n = 0; n = n + 1; return n; \x7d"]

def stoppingStep : Step :=
  .run 100 "var total = count(); \x7b var part = total; part = part + 1; nil(); \x7d"

theorem step_keepsLocals_stopping :
    ((Session.initial .unlimited 0).afterSteps (countingSteps ++ [stoppingStep])).issued ≤
        UInt32.size ∧
      ((Session.initial .unlimited 0).afterSteps countingSteps).topLevelNames stoppingStep =
        ["total"] ∧
      ((Session.initial .unlimited 0).afterSteps countingSteps).KeepsLocals stoppingStep := by
  have hids : ((Session.initial .unlimited 0).afterSteps
      (countingSteps ++ [stoppingStep])).issued ≤ UInt32.size := by
    decide +kernel
  exact ⟨hids, by decide +kernel, step_keepsLocals .unlimited 0 countingSteps stoppingStep hids⟩

end Session

end Scriptlet
