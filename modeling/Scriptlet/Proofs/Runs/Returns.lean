/-
A return ends the call it stands in, and that call alone.

Calls lie in expressions, so the way from a call to a return of its own leads through
statements.  Each statement on this way ends as the one before it does and has nothing to do
behind it, up to the call, which takes the value over; and nothing but a return starts this.
-/
import Scriptlet.Proofs.Lexical.Resolved
import Scriptlet.Proofs.Runs.Depth
import Scriptlet.Proofs.Runs.Traces

namespace Scriptlet

namespace Eval

variable {α β : Type} {action : Eval α} {next : α → Eval β} {machine after : Machine}

theorem bind_of_ok {value : α} (h : action machine = .ok value after) :
    (action >>= next) machine = next value after := by
  rw [bind_apply, h]

theorem bind_eq_ok_iff {result : β} :
    (action >>= next) machine = .ok result after ↔
      ∃ value between, action machine = .ok value between ∧
        next value between = .ok result after := by
  rw [bind_apply]
  cases action machine with
  | ok value between => simp
  | error stop between => simp

theorem deeper_of_ok {value : α}
    (h : action { machine with depth := machine.depth + 1 } = .ok value after) :
    deeper action machine = .ok value { after with depth := after.depth - 1 } := by
  dsimp only [deeper, HasOutside.modifyOutside]
  rw [h]

end Eval

/-- Work that a return ends: statements, and the call of the function that they belong to. -/
def Task.isReturned : Task → Bool
  | .call _ _ _ => true
  | .execute _ => true
  | .executeAll _ => true
  | .inScope _ _ => true
  | _ => false

def Task.isCall : Task → Bool
  | .call _ _ _ => true
  | _ => false

/-- The later moment is one of the same call. -/
abbrev Within : Moment → Moment → Prop :=
  Relation.ReflTransGen fun moment next =>
    Enters moment next ∧ moment.task.isReturned = true ∧ next.task.isReturned = true

namespace Moment

/-- The work ends with the value of a return; for a call this is its result. -/
def Returns (moment : Moment) (value : Value) (after : Machine) : Prop :=
  match moment.task with
  | .call callee arguments paren =>
      Eval.call moment.bound callee arguments paren moment.machine = .ok value after
  | .execute stmt => Eval.execute moment.bound stmt moment.machine = .ok (.leave value) after
  | .executeAll stmts =>
      Eval.executeAll moment.bound stmts moment.machine = .ok (.leave value) after
  | .inScope scope stmts =>
      Eval.within scope (Eval.executeAll moment.bound stmts) moment.machine =
        .ok (.leave value) after
  | _ => False

/-- A return that stands at this moment gives the value, which is `nil` if it has no
expression. -/
inductive Gives : Moment → Value → Machine → Prop
  | nothing {bound : Nat} {machine : Machine} (keyword : Token) :
      Gives ⟨bound + 1, .execute (.leave keyword none), machine⟩ .nil machine
  | expression {bound : Nat} {machine after : Machine} (keyword : Token) {expr : Expr}
      {value : Value} (evaluated : Eval.evaluate bound expr machine = .ok value after) :
      Gives ⟨bound + 1, .execute (.leave keyword (some expr)), machine⟩ value after

variable {moment : Moment} {value : Value} {after : Machine}

theorem Returns.isReturned (h : moment.Returns value after) : moment.task.isReturned = true := by
  obtain ⟨bound, task, machine⟩ := moment
  cases task with
  | call | execute | executeAll | inScope => rfl
  | evaluate | evaluateAll | program => cases h

theorem Returns.restored (h : moment.Returns value after) : Restored moment.machine after := by
  have hrun := Restored.run moment.bound moment.task moment.machine
  obtain ⟨bound, task, machine⟩ := moment
  cases task with
  | call | execute | executeAll | inScope => exact Keeps.ok hrun h
  | evaluate | evaluateAll | program => cases h

/-- The machine stands where it did before. -/
theorem Returns.withCurrent_eq (h : moment.Returns value after) :
    { after with current := moment.machine.current } = after := by
  rw [← h.restored.current]

theorem Gives.returns (h : moment.Gives value after) : moment.Returns value after := by
  cases h with
  | nothing keyword => rfl
  | expression keyword hevaluated => exact Eval.bind_of_ok hevaluated

/-- A return that ends well gives a value. -/
theorem gives_of_ok {bound : Nat} {keyword : Token} {expr? : Option Expr} {machine : Machine}
    {flow : Flow Value} (h : Eval.execute bound (.leave keyword expr?) machine = .ok flow after) :
    ∃ value, Gives ⟨bound, .execute (.leave keyword expr?), machine⟩ value after := by
  cases bound with
  | zero => cases h
  | succ bound =>
      cases expr? with
      | none =>
          cases h
          exact ⟨.nil, .nothing keyword⟩
      | some expr =>
          obtain ⟨value, between, hexpr, hrest⟩ := Eval.bind_eq_ok_iff.mp h
          cases hrest
          exact ⟨value, .expression keyword hexpr⟩

end Moment

open Moment

section Steps

variable {moment next later : Moment} {value : Value} {after : Machine}

/-- What a part returns the whole returns, but for the place where the part stood. -/
theorem Enters.returns (h : Enters moment next) (hmoment : moment.task.isReturned = true)
    (hreturns : next.Returns value after) :
    moment.Returns value { after with current := moment.machine.current } := by
  -- Only statements that open a scope stand elsewhere than their parts.
  have hsame : moment.Returns value after →
      moment.Returns value { after with current := moment.machine.current } :=
    fun hwhole => hwhole.withCurrent_eq ▸ hwhole
  cases h with
  | group | operand | left | right | deciding | undecided | assigned | callee | arguments
  | firstValue | moreValues | called | firstOfProgram | moreOfProgram => cases hmoment
  | expression | printed | initial | branching | looping | leaving => cases hreturns
  | inside stmts =>
      dsimp only [Returns] at hreturns ⊢
      unfold Eval.within
      rw [hreturns]
  | functionBody paren hframe =>
      exact hsame ((Eval.bind_of_ok hframe).trans (Eval.bind_of_ok hreturns))
  | blockBody body hscope =>
      apply hsame
      cases hscope
      exact hreturns
  | whenTrue whenTrue whenFalse hcondition htruthy =>
      apply hsame
      apply (Eval.bind_of_ok hcondition).trans
      rw [if_pos htruthy]
      exact hreturns
  | whenFalse whenTrue other hcondition htruthy =>
      apply hsame
      apply (Eval.bind_of_ok hcondition).trans
      rw [htruthy, if_neg Bool.false_ne_true]
      exact hreturns
  | loopBody body hcondition htruthy =>
      apply hsame
      apply (Eval.bind_of_ok hcondition).trans
      rw [if_pos htruthy]
      exact Eval.bind_of_ok hreturns
  | loopAgain hcondition htruthy hbody =>
      apply hsame
      apply (Eval.bind_of_ok hcondition).trans
      rw [if_pos htruthy]
      exact (Eval.bind_of_ok hbody).trans hreturns
  | firstStmt first rest => exact hsame (Eval.bind_of_ok hreturns)
  | moreStmts rest hfirst => exact hsame ((Eval.bind_of_ok hfirst).trans hreturns)

/-- Behind a part that returns there is no other. -/
theorem Enters.parts_eq (h : Enters moment next) (hmoment : moment.task.isReturned = true)
    (hreturns : next.Returns value after) : ∃ before, moment.parts = before ++ [next] := by
  cases h with
  | group | operand | left | right | deciding | undecided | assigned | callee | arguments
  | firstValue | moreValues | called | firstOfProgram | moreOfProgram => cases hmoment
  | expression | printed | initial | branching | looping | leaving => cases hreturns
  | inside stmts => exact ⟨[], rfl⟩
  | functionBody paren hframe =>
      rw [parts, behind_of_ok hframe]
      exact ⟨[], rfl⟩
  | blockBody body hscope =>
      rw [parts, stmtParts, behind_of_ok hscope]
      exact ⟨[], rfl⟩
  | whenTrue whenTrue whenFalse hcondition htruthy =>
      rw [parts, stmtParts, behind_of_ok hcondition, if_pos htruthy]
      exact ⟨[_], rfl⟩
  | whenFalse whenTrue other hcondition htruthy =>
      rw [parts, stmtParts, behind_of_ok hcondition, htruthy, if_neg Bool.false_ne_true]
      exact ⟨[_], rfl⟩
  | loopBody body hcondition htruthy =>
      rw [parts, stmtParts, behind_of_ok hcondition, if_pos htruthy, behind_of_ok hreturns]
      exact ⟨[_], rfl⟩
  | loopAgain hcondition htruthy hbody =>
      rw [parts, stmtParts, behind_of_ok hcondition, if_pos htruthy, behind_of_ok hbody]
      exact ⟨[_, _], rfl⟩
  | firstStmt first rest =>
      rw [parts, behind_of_ok hreturns]
      exact ⟨[], rfl⟩
  | moreStmts rest hfirst =>
      rw [parts, behind_of_ok hfirst]
      exact ⟨[_], rfl⟩

/-- What is returned in a call it gives back, and with that its run is over. -/
theorem Within.returns (h : Within moment later) (hreturns : later.Returns value after) :
    moment.Returns value { after with current := moment.machine.current } ∧
      ∃ before, moment.trace = before ++ later.trace := by
  induction h using Relation.ReflTransGen.head_induction_on with
  | refl => exact ⟨hreturns.withCurrent_eq.symm ▸ hreturns, [], rfl⟩
  | @head first _ hstep _ ih =>
      obtain ⟨henters, hreturned, -⟩ := hstep
      obtain ⟨hpart, inPart, htrace⟩ := ih
      obtain ⟨others, hparts⟩ := henters.parts_eq hreturned hpart
      have hwhole := henters.returns hreturned hpart
      refine ⟨hwhole, first :: others.flatMap trace ++ inPart, ?_⟩
      rw [trace_eq, hparts, List.flatMap_append, List.flatMap_singleton, htrace,
        ← List.append_assoc]
      rfl

/-- The work returns the value because it is a return or because one of its statements does. -/
def Moment.PartReturns (moment : Moment) (value : Value) (after : Machine) : Prop :=
  moment.Gives value after ∨
    ∃ next part, Enters moment next ∧ next.Returns value part ∧ next.task.isCall = false

theorem Eval.execute_returns {bound : Nat} {stmt : Stmt} {machine : Machine}
    (h : Eval.execute (bound + 1) stmt machine = .ok (.leave value) after) :
    Moment.PartReturns ⟨bound + 1, .execute stmt, machine⟩ value after := by
  cases stmt with
  | leave keyword expr? =>
      obtain ⟨result, hgives⟩ := gives_of_ok h
      have hsame : Eval.execute (bound + 1) (.leave keyword expr?) machine =
          .ok (.leave result) after := hgives.returns
      rw [h] at hsame
      cases hsame
      exact Or.inl hgives
  | block body => exact Or.inr ⟨_, after, .blockBody body rfl, h, rfl⟩
  | branch condition whenTrue whenFalse =>
      obtain ⟨result, between, hcondition, hrest⟩ := Eval.bind_eq_ok_iff.mp h
      split at hrest
      · next htruthy =>
          exact Or.inr ⟨_, after, .whenTrue whenTrue whenFalse hcondition htruthy, hrest, rfl⟩
      · next hfalsy =>
          cases whenFalse with
          | none => cases hrest
          | some other =>
              have hfalse := Bool.of_not_eq_true hfalsy
              exact Or.inr ⟨_, after, .whenFalse whenTrue other hcondition hfalse, hrest, rfl⟩
  | loop condition body =>
      obtain ⟨result, between, hcondition, hrest⟩ := Eval.bind_eq_ok_iff.mp h
      split at hrest
      · next htruthy =>
          obtain ⟨flow, later, hbody, hrest⟩ := Eval.bind_eq_ok_iff.mp hrest
          cases flow with
          | leave other =>
              cases hrest
              exact Or.inr ⟨_, _, .loopBody body hcondition htruthy, hbody, rfl⟩
          | normal => exact Or.inr ⟨_, _, .loopAgain hcondition htruthy hbody, hrest, rfl⟩
      · cases hrest
  | expression value =>
      obtain ⟨_, _, _, hrest⟩ := Eval.bind_eq_ok_iff.mp h
      cases hrest
  | print value =>
      obtain ⟨_, _, _, hrest⟩ := Eval.bind_eq_ok_iff.mp h
      obtain ⟨_, _, _, hrest⟩ := Eval.bind_eq_ok_iff.mp hrest
      cases hrest
  | declare name initial =>
      cases initial with
      | none => cases h
      | some initial =>
          obtain ⟨_, _, _, hrest⟩ := Eval.bind_eq_ok_iff.mp h
          cases hrest
  | function name params body => cases h

theorem Eval.executeAll_returns {bound : Nat} {stmts : List Stmt} {machine : Machine}
    (h : Eval.executeAll (bound + 1) stmts machine = .ok (.leave value) after) :
    Moment.PartReturns ⟨bound + 1, .executeAll stmts, machine⟩ value after := by
  cases stmts with
  | nil => cases h
  | cons first rest =>
      obtain ⟨flow, between, hfirst, hrest⟩ := Eval.bind_eq_ok_iff.mp h
      cases flow with
      | leave result =>
          cases hrest
          exact Or.inr ⟨_, _, .firstStmt first rest, hfirst, rfl⟩
      | normal => exact Or.inr ⟨_, _, .moreStmts rest hfirst, hrest, rfl⟩

theorem Moment.Returns.part (h : moment.Returns value after)
    (hmoment : moment.task.isCall = false) : moment.PartReturns value after := by
  obtain ⟨bound, task, machine⟩ := moment
  cases task with
  | evaluate | evaluateAll | program => cases h
  | call => cases hmoment
  | inScope scope stmts =>
      dsimp only [Returns, Eval.within] at h
      split at h
      · next inner hinner =>
          cases h
          exact Or.inr ⟨_, inner, .inside stmts, hinner, rfl⟩
      · cases h
  | executeAll stmts =>
      cases bound with
      | zero => cases h
      | succ bound => exact Eval.executeAll_returns h
  | execute stmt =>
      cases bound with
      | zero => cases h
      | succ bound => exact Eval.execute_returns h

/-- Every return of statements comes from a return statement among them. -/
theorem Moment.Returns.exists_gives (h : moment.Returns value after)
    (hmoment : moment.task.isCall = false) :
    ∃ later left, Within moment later ∧ later.Gives value left := by
  induction moment using Moment.entersInduction generalizing after with
  | h moment ih =>
      rcases h.part hmoment with hgives | ⟨next, part, henters, hpart, hnext⟩
      · exact ⟨moment, after, .refl, hgives⟩
      · obtain ⟨later, left, hwithin, hgives⟩ := ih next henters hpart hnext
        exact ⟨later, left, .head ⟨henters, h.isReturned, hpart.isReturned⟩ hwithin, hgives⟩

end Steps

/-! ### Top-level code -/

section TopLevel

open Binding Lexical

/-- Outside of functions no fault of binding is found in these statements. -/
def Task.Resolves : Task → Prop
  | .execute stmt => ∃ scopes, (inStmt false scopes stmt).1.faults = []
  | .executeAll stmts => ∃ scopes, (inStmts false scopes stmts).1.faults = []
  | .inScope _ stmts => ∃ scopes, (inStmts false scopes stmts).1.faults = []
  | _ => False

/-- What resolves consists of statements that do. -/
theorem Enters.resolves {moment next : Moment} (h : Enters moment next)
    (hmoment : moment.task.Resolves) (hnext : next.task.isReturned = true) :
    next.task.Resolves := by
  cases h with
  | group | operand | left | right | deciding | undecided | assigned | callee | arguments
  | firstValue | moreValues | called | firstOfProgram | moreOfProgram | functionBody =>
      cases hmoment
  | expression | printed | initial | branching | looping | leaving => cases hnext
  | inside stmts => exact hmoment
  | blockBody body hscope =>
      obtain ⟨scopes, hfaults⟩ := hmoment
      exact ⟨[] :: scopes, hfaults⟩
  | whenTrue whenTrue whenFalse hcondition htruthy =>
      obtain ⟨scopes, hfaults⟩ := hmoment
      refine ⟨scopes, ?_⟩
      cases whenFalse with
      | none => exact (List.append_eq_nil_iff.mp hfaults).2
      | some other =>
          rw [inStmt, faults_append, faults_append, List.append_assoc] at hfaults
          exact (List.append_eq_nil_iff.mp (List.append_eq_nil_iff.mp hfaults).2).1
  | whenFalse whenTrue other hcondition htruthy =>
      obtain ⟨scopes, hfaults⟩ := hmoment
      exact ⟨(inStmt false scopes whenTrue).2, (List.append_eq_nil_iff.mp hfaults).2⟩
  | loopBody body hcondition htruthy =>
      obtain ⟨scopes, hfaults⟩ := hmoment
      exact ⟨scopes, (List.append_eq_nil_iff.mp hfaults).2⟩
  | loopAgain hcondition htruthy hbody => exact hmoment
  | firstStmt first rest =>
      obtain ⟨scopes, hfaults⟩ := hmoment
      exact ⟨scopes, (List.append_eq_nil_iff.mp hfaults).1⟩
  | moreStmts rest hfirst =>
      obtain ⟨scopes, hfaults⟩ := hmoment
      exact ⟨(inStmt false scopes _).2, (List.append_eq_nil_iff.mp hfaults).2⟩

theorem Within.resolves {moment later : Moment} (h : Within moment later)
    (hmoment : moment.task.Resolves) : later.task.Resolves := by
  induction h with
  | refl => exact hmoment
  | tail _ hstep ih => exact hstep.1.resolves ih hstep.2.2

/-- A return outside of functions is a fault. -/
theorem Moment.Gives.not_resolves {moment : Moment} {value : Value} {after : Machine}
    (h : moment.Gives value after) : ¬ moment.task.Resolves := by
  intro hresolves
  cases h with
  | nothing keyword =>
      obtain ⟨scopes, hfaults⟩ := hresolves
      cases hfaults
  | expression keyword hevaluated =>
      obtain ⟨scopes, hfaults⟩ := hresolves
      cases hfaults

theorem inStmts_of_mem {scopes : Scopes} {stmt : Stmt} {stmts : List Stmt} (hmem : stmt ∈ stmts)
    (h : (inStmts false scopes stmts).1.faults = []) :
    ∃ scopes, (inStmt false scopes stmt).1.faults = [] := by
  induction stmts generalizing scopes with
  | nil => cases hmem
  | cons first rest ih =>
      obtain ⟨hfirst, hrest⟩ := List.append_eq_nil_iff.mp h
      rcases List.mem_cons.mp hmem with rfl | hmem
      · exact ⟨scopes, hfirst⟩
      · exact ih hmem hrest

theorem execute_ne_leave {program : List Stmt} {table : Table}
    (h : resolve program = .ok table) {stmt : Stmt} (hmem : stmt ∈ program) (bound : Nat)
    (machine : Machine) (value : Value) (after : Machine) :
    Eval.execute bound stmt machine ≠ .ok (.leave value) after := by
  intro hleave
  have hresolves : ∃ scopes, (inStmt false scopes stmt).1.faults = [] :=
    inStmts_of_mem hmem (resolve_eq_ok_iff.mp h).1
  have hreturns : Moment.Returns ⟨bound, .execute stmt, machine⟩ value after := hleave
  obtain ⟨later, left, hwithin, hgives⟩ := hreturns.exists_gives rfl
  exact hgives.not_resolves (hwithin.resolves hresolves)

end TopLevel

/-! ### The caller -/

/-- However a call ended, its caller stands where it did and goes on with the value. -/
theorem Enters.evaluate_of_call {bound inner : Nat} {expr : Expr} {callee : Callable}
    {arguments : List Value} {paren : Token} {machine start after : Machine} {value : Value}
    (h : Enters ⟨bound, .evaluate expr, machine⟩ ⟨inner, .call callee arguments paren, start⟩)
    (hcall : Eval.call inner callee arguments paren start = .ok value after) :
    Eval.evaluate bound expr machine =
      .ok value { after with current := machine.current, depth := machine.depth } := by
  cases h with
  | called hcallee harguments hfunction =>
      obtain ⟨rfl, -⟩ := Eval.depth_lt_of_checkCall hfunction
      have hbefore := (Restored.evaluate hcallee).trans (Restored.evaluateAll harguments)
      have hcalled := Keeps.ok (Restored.run inner (.call callee arguments paren) _) hcall
      have hcurrent : after.current = machine.current := hcalled.current.trans hbefore.current
      have hdepth : after.depth - 1 = machine.depth := by
        rw [hcalled.depth]
        exact hbefore.depth
      rw [← hcurrent, ← hdepth]
      apply (Eval.bind_of_ok hcallee).trans
      apply (Eval.bind_of_ok harguments).trans
      apply (Eval.bind_of_ok hfunction).trans
      exact Eval.deeper_of_ok hcall

theorem Within.reaches {moment later : Moment} (h : Within moment later) : Reaches moment later :=
  Relation.ReflTransGen.mono (fun _ _ hstep => hstep.1) _ _ h

/-- In a call that ends well every return has given its value. -/
theorem Within.gives_of_ok {bound inner : Nat} {callee : Callable} {arguments : List Value}
    {paren keyword : Token} {machine start after : Machine} {expr? : Option Expr} {value : Value}
    (h : Within ⟨bound, .call callee arguments paren, machine⟩
      ⟨inner, .execute (.leave keyword expr?), start⟩)
    (hcall : Eval.call bound callee arguments paren machine = .ok value after) :
    ∃ result left, Moment.Gives ⟨inner, .execute (.leave keyword expr?), start⟩ result left := by
  cases hreturn : Eval.execute inner (.leave keyword expr?) start with
  | ok flow left =>
      obtain ⟨result, hgives⟩ := Moment.gives_of_ok hreturn
      exact ⟨result, left, hgives⟩
  | error stop left =>
      obtain ⟨stopped, hstopped⟩ := h.reaches.stops ⟨left, hreturn⟩
      dsimp only [Task.run] at hstopped
      rw [hcall] at hstopped
      cases hstopped

/-- Statements of a program that resolves never end by leaving.  A return that is come to in a
call gives its value if the call ends well; then the call ends with this value in the machine
that the return left, the run of the return is the last part of the run of the call, and the
caller goes on as behind every call. -/
theorem return_ends_its_call :
    (∀ (program : List Stmt) (table : Table), resolve program = .ok table → ∀ stmt ∈ program,
      ∀ bound machine value after,
        Eval.execute bound stmt machine ≠ .ok (.leave value) after) ∧
    ∀ (bound : Nat) (callee : Callable) (arguments : List Value) (paren : Token)
      (machine : Machine),
      (∀ inner keyword expr? start,
        Within ⟨bound, .call callee arguments paren, machine⟩
          ⟨inner, .execute (.leave keyword expr?), start⟩ →
        (∃ value after, Eval.call bound callee arguments paren machine = .ok value after) →
        ∃ value left,
          Moment.Gives ⟨inner, .execute (.leave keyword expr?), start⟩ value left) ∧
      (∀ later value left, Within ⟨bound, .call callee arguments paren, machine⟩ later →
        later.Gives value left →
        Eval.call bound callee arguments paren machine =
            .ok value { left with current := machine.current } ∧
          ∃ before, Moment.trace ⟨bound, .call callee arguments paren, machine⟩ =
            before ++ later.trace) ∧
      ∀ value after, Eval.call bound callee arguments paren machine = .ok value after →
        ∀ outer expr start,
          Enters ⟨outer, .evaluate expr, start⟩ ⟨bound, .call callee arguments paren, machine⟩ →
          Eval.evaluate outer expr start =
            .ok value { after with current := start.current, depth := start.depth } := by
  refine ⟨?_, fun bound callee arguments paren machine => ⟨?_, ?_, ?_⟩⟩
  · intro program table hresolve stmt hmem bound machine value after
    exact execute_ne_leave hresolve hmem bound machine value after
  · rintro inner keyword expr? start hwithin ⟨value, after, hcall⟩
    exact hwithin.gives_of_ok hcall
  · intro later value left hwithin hgives
    exact hwithin.returns hgives.returns
  · intro value after hcall outer expr start henters
    exact henters.evaluate_of_call hcall

/-- `while (true) { if (true) return "here"; } print "never";` -/
def searching : List Stmt :=
  [.loop (.constant (.bool true))
      (.block [.branch (.constant (.bool true))
        (.leave ⟨.keyword .return_, "return", 1⟩ (some (.constant (.string "here")))) none]),
    .print (.constant (.string "never"))]

/-- A function that returns from within a block in a loop, and has statements behind it. -/
def searchingClosure : Closure :=
  ⟨⟨.identifier, "search", 1⟩, [], searching, 0, 1⟩

/-- A machine with this function as a global. -/
def Machine.searching : Machine :=
  (Machine.initial .unlimited 0).bind Machine.globals "search" (.closure searchingClosure)

/-- `search()` -/
def Expr.searchingCall : Expr :=
  .call (.variable 0 ⟨.identifier, "search", 1⟩) ⟨.mark .rightParen, ")", 1⟩ []

def Moment.searchingCall : Moment :=
  ⟨9, .call (.closure searchingClosure) [] ⟨.mark .rightParen, ")", 1⟩,
    { Machine.searching with depth := 1 }⟩

theorem enters_searchingCall :
    Enters ⟨10, .evaluate .searchingCall, .searching⟩ .searchingCall := by
  have hdistance : Machine.searching.table.distance? 0 = none := Table.distance?_empty 0
  have hlookup : Machine.searching.scopes.lookup? Machine.globals "search" =
      some (.closure searchingClosure) := by
    rw [ScopeTree.lookup?, ScopeTree.holder?_eq]
    rfl
  have hcallee : Eval.evaluate 9 (.variable 0 ⟨.identifier, "search", 1⟩) .searching =
      .ok (.closure searchingClosure) .searching := by
    show Eval.readVariable 0 _ .searching = _
    simp only [Eval.readVariable, hdistance, hlookup]
  exact .called hcallee rfl rfl

theorem return_ends_its_call_searching :
    (∃ table, resolve [.function ⟨.identifier, "search", 1⟩ [] searching] = .ok table) ∧
      (∀ bound machine value after,
        Eval.execute bound (.function ⟨.identifier, "search", 1⟩ [] searching) machine ≠
          .ok (.leave value) after) ∧
      ∃ later left, Within .searchingCall later ∧ later.Gives (.string "here") left ∧
        (∃ before, Moment.searchingCall.trace = before ++ later.trace) ∧
        Eval.evaluate 10 .searchingCall .searching =
          .ok (.string "here") { left with current := 0, depth := 0 } := by
  obtain ⟨table, htable⟩ : ∃ table,
      resolve [.function ⟨.identifier, "search", 1⟩ [] searching] = .ok table := ⟨_, rfl⟩
  have htop := return_ends_its_call.1 _ table htable _ List.mem_cons_self
  -- The machines on the way are kept closed.
  obtain ⟨frame, opened, hframe⟩ : ∃ frame opened,
      Eval.openFrame searchingClosure [] Moment.searchingCall.machine = .ok frame opened :=
    ⟨_, _, rfl⟩
  obtain ⟨scope, inner, hscope⟩ : ∃ scope inner,
      Eval.openScope frame { opened with current := frame } = .ok scope inner := ⟨_, _, rfl⟩
  have hwithin : Within .searchingCall ⟨3, .execute (.leave ⟨.keyword .return_, "return", 1⟩
      (some (.constant (.string "here")))), { inner with current := scope }⟩ :=
    .head ⟨.functionBody _ hframe, rfl, rfl⟩ <| .head ⟨.inside _, rfl, rfl⟩ <|
      .head ⟨.firstStmt _ _, rfl, rfl⟩ <| .head ⟨.loopBody _ rfl rfl, rfl, rfl⟩ <|
      .head ⟨.blockBody _ hscope, rfl, rfl⟩ <| .head ⟨.inside _, rfl, rfl⟩ <|
      .head ⟨.firstStmt _ _, rfl, rfl⟩ <| .head ⟨.whenTrue _ _ rfl rfl, rfl, rfl⟩ .refl
  obtain ⟨hfinishes, hends, hcaller⟩ := return_ends_its_call.2 9 (.closure searchingClosure) []
    ⟨.mark .rightParen, ")", 1⟩ Moment.searchingCall.machine
  have hcall : Eval.call 9 (.closure searchingClosure) [] ⟨.mark .rightParen, ")", 1⟩
      Moment.searchingCall.machine = .ok (.string "here") _ := (hends _ _ _ hwithin
    (.expression _ rfl)).1
  obtain ⟨value, left, hgives⟩ := hfinishes _ _ _ _ hwithin ⟨_, _, hcall⟩
  cases hgives with
  | expression keyword hevaluated =>
      cases hevaluated
      have hended := hends _ _ _ hwithin (.expression _ rfl)
      exact ⟨⟨table, htable⟩, htop, _, _, hwithin, .expression _ rfl, hended.2,
        hcaller _ _ hended.1 10 .searchingCall .searching enters_searchingCall⟩

end Scriptlet
