/-
Promises about the machine before and after a run that hold however the run ends.

Such a promise is kept by a run because single steps keep it and because coming back from
a scope or a call keeps it.  Some steps keep it only where they stand, so what is known of
the moments of the run may be used.
-/
import Scriptlet.Proofs.Runs.Moments

namespace Scriptlet

/-- The machine that an action leaves, however it ends. -/
def Eval.final {α : Type} : EStateM.Result Stop Machine α → Machine
  | .ok _ after => after
  | .error _ after => after

namespace Machine

/-- Bind a name in a scope. -/
def bind (machine : Machine) (scope : Nat) (name : String) (value : Value) : Machine :=
  { machine with scopes := machine.scopes.define scope name value }

end Machine

/-- Looking for the scope of an assignment changes nothing. -/
theorem Eval.final_assignmentScope (id : NodeId) (name : Token) (machine : Machine) :
    Eval.final (Eval.assignmentScope id name machine) = machine := by
  unfold Eval.assignmentScope
  split
  · split
    · rfl
    · rfl
  · split
    · rfl
    · rfl

/-- Behind a program that stopped, only the place may be another one. -/
theorem Eval.final_runProgram (bound : Nat) (program : List Stmt) (machine : Machine) :
    ∃ current, Eval.final (Eval.runProgram bound program machine) =
      { Eval.final (Eval.runAll bound program machine) with current := current } := by
  unfold Eval.runProgram
  cases hrun : Eval.runAll bound program machine with
  | error stop after => exact ⟨Machine.globals, rfl⟩
  | ok value after =>
      dsimp only [Eval.flush]
      split
      · exact ⟨after.current, rfl⟩
      · exact ⟨after.current, rfl⟩

/-- Begun at this machine, the action ends in a machine that is related to it. -/
def Keeps {α : Type} (R : Machine → Machine → Prop) (action : Eval α) (machine : Machine) : Prop :=
  R machine (Eval.final (action machine))

theorem Keeps.ok {α : Type} {R : Machine → Machine → Prop} {action : Eval α} {value : α}
    {machine after : Machine} (h : Keeps R action machine)
    (haction : action machine = .ok value after) : R machine after := by
  unfold Keeps at h
  rw [haction] at h
  exact h

/-- A relation of machines that the steps of a run keep.  Steps that bind names need to keep
it only at moments with a property that the run hands on. -/
structure Carried (P : Moment → Prop) (R : Machine → Machine → Prop) : Prop where
  enters : ∀ {moment next}, P moment → Enters moment next → P next
  refl : ∀ machine, R machine machine
  trans : ∀ {first second third}, R first second → R second third → R first third
  write : ∀ (machine : Machine) (text : String),
    R machine { machine with sink := machine.sink.write text }
  tick : ∀ machine : Machine, R machine { machine with clock := machine.clock.later }
  within : ∀ {machine later : Machine} (scope : Nat), R { machine with current := scope } later →
    R machine { later with current := machine.current }
  deeper : ∀ {machine later : Machine}, R { machine with depth := machine.depth + 1 } later →
    R machine { later with depth := later.depth - 1 }
  block : ∀ {bound scope body machine after}, P ⟨bound + 1, .execute (.block body), machine⟩ →
    Eval.openScope machine.current machine = .ok scope after → R machine after
  frame : ∀ {bound frame function arguments paren machine after},
    P ⟨bound + 1, .call (.closure function) arguments paren, machine⟩ →
    Eval.openFrame function arguments machine = .ok frame after → R machine after
  declare : ∀ {bound name machine}, P ⟨bound + 1, .execute (.declare name none), machine⟩ →
    R machine (machine.bind machine.current name.lexeme .nil)
  declareWith : ∀ {bound name initial value machine after},
    P ⟨bound + 1, .execute (.declare name (some initial)), machine⟩ →
    Eval.evaluate bound initial machine = .ok value after →
      R after (after.bind after.current name.lexeme value)
  function : ∀ {bound name params body machine} (value : Value),
    P ⟨bound + 1, .execute (.function name params body), machine⟩ →
      R machine (Machine.bind { machine with nextIdentity := machine.nextIdentity + 1 }
        machine.current name.lexeme value)
  assign : ∀ {bound id name expr value target machine between after},
    P ⟨bound + 1, .evaluate (.assign id name expr), machine⟩ →
    Eval.evaluate bound expr machine = .ok value between →
    Eval.assignmentScope id name between = .ok target after →
      R after (after.bind target name.lexeme value)

namespace Carried

variable {P : Moment → Prop} {R : Machine → Machine → Prop} (h : Carried P R) {α β : Type}
  {machine : Machine}
include h

theorem keeps_pure (value : α) (machine : Machine) : Keeps R (pure value : Eval α) machine :=
  h.refl machine

theorem keeps_throw (stop : Stop) (machine : Machine) : Keeps R (throw stop : Eval α) machine :=
  h.refl machine

theorem keeps_bind {action : Eval α} {next : α → Eval β} (hfirst : Keeps R action machine)
    (hnext : ∀ value after, action machine = .ok value after → Keeps R (next value) after) :
    Keeps R (action >>= next) machine := by
  unfold Keeps at hfirst ⊢
  rw [Eval.bind_apply]
  cases haction : action machine with
  | ok value after =>
      rw [haction] at hfirst
      exact h.trans hfirst (hnext value after haction)
  | error stop after =>
      rw [haction] at hfirst
      exact hfirst

theorem keeps_lift (token : Token) (result : Except RuntimeFault α) (machine : Machine) :
    Keeps R (Eval.lift token result) machine := by
  cases result with
  | ok value => exact h.keeps_pure value machine
  | error fault => exact h.keeps_throw _ machine

/-! ### Single steps -/

theorem keeps_printLine (text : String) (machine : Machine) :
    Keeps R (Eval.printLine text) machine := by
  unfold Keeps Eval.printLine
  dsimp only
  split
  · exact h.write machine _
  · exact h.write machine _

theorem keeps_callHost (function : HostFunction) (arguments : List Value) (paren : Token)
    (machine : Machine) : Keeps R (Eval.callHost function arguments paren) machine := by
  unfold Keeps Eval.callHost
  dsimp only
  split
  · exact h.tick machine
  · exact h.tick machine

theorem keeps_checkCall (callee : Value) (arguments : List Value) (paren : Token)
    (machine : Machine) : Keeps R (Eval.checkCall callee arguments paren) machine := by
  unfold Keeps Eval.checkCall
  split
  · exact h.refl machine
  · split
    · exact h.refl machine
    · split
      · exact h.refl machine
      · exact h.refl machine

theorem keeps_readVariable (id : NodeId) (name : Token) (machine : Machine) :
    Keeps R (Eval.readVariable id name) machine := by
  unfold Keeps Eval.readVariable
  split
  · split
    · exact h.refl machine
    · exact h.refl machine
  · split
    · exact h.refl machine
    · exact h.refl machine

theorem keeps_assignmentScope (id : NodeId) (name : Token) (machine : Machine) :
    Keeps R (Eval.assignmentScope id name) machine := by
  unfold Keeps
  rw [Eval.final_assignmentScope]
  exact h.refl machine

theorem keeps_within (scope : Nat) {action : Eval α}
    (haction : Keeps R action { machine with current := scope }) :
    Keeps R (Eval.within scope action) machine := by
  unfold Keeps at haction
  unfold Keeps Eval.within
  dsimp only
  cases hresult : action { machine with current := scope } with
  | ok value after =>
      rw [hresult] at haction
      exact h.within scope haction
  | error stop after =>
      rw [hresult] at haction
      exact h.within scope haction

theorem keeps_deeper {action : Eval α}
    (haction : Keeps R action { machine with depth := machine.depth + 1 }) :
    Keeps R (Eval.deeper action) machine := by
  unfold Keeps at haction
  unfold Keeps Eval.deeper
  dsimp only [HasOutside.modifyOutside]
  cases hresult : action { machine with depth := machine.depth + 1 } with
  | ok value after =>
      rw [hresult] at haction
      exact h.deeper haction
  | error stop after =>
      rw [hresult] at haction
      exact h.deeper haction

/-! ### Whole runs -/

section Parts

variable {bound : Nat}

theorem evaluate_of_parts {expr : Expr} (hmoment : P ⟨bound + 1, .evaluate expr, machine⟩)
    (ih : ∀ next, Enters ⟨bound + 1, .evaluate expr, machine⟩ next →
      Keeps R (next.task.run next.bound) next.machine) :
    Keeps R (Eval.evaluate (bound + 1) expr) machine := by
  cases expr with
  | constant value => exact h.keeps_pure _ machine
  | group inner => exact ih _ (.group inner)
  | unary operator operand =>
      simp only [Eval.evaluate]
      apply h.keeps_bind (ih _ (.operand operator operand))
      intro value after _
      exact h.keeps_lift operator _ after
  | binary left operator right =>
      simp only [Eval.evaluate]
      apply h.keeps_bind (ih _ (.left left operator right))
      intro a between ha
      apply h.keeps_bind (ih _ (.right operator right ha))
      intro b after _
      exact h.keeps_lift operator _ after
  | logical left operator right =>
      simp only [Eval.evaluate]
      apply h.keeps_bind (ih _ (.deciding left operator right))
      intro a after ha
      split
      · exact h.keeps_pure a after
      · next hopen => exact ih _ (.undecided right ha (Bool.of_not_eq_true hopen))
  | «variable» id name => exact h.keeps_readVariable id name machine
  | assign id name value =>
      simp only [Eval.evaluate]
      apply h.keeps_bind (ih _ (.assigned id name value))
      intro result between hresult
      have hwrite : Keeps R (Eval.writeVariable id name result) between := by
        apply h.keeps_bind (h.keeps_assignmentScope id name between)
        intro target after htarget
        exact h.assign hmoment hresult htarget
      apply h.keeps_bind hwrite
      intro _ after _
      exact h.keeps_pure result after
  | call callee paren arguments =>
      simp only [Eval.evaluate]
      apply h.keeps_bind (ih _ (.callee callee paren arguments))
      intro target between hcallee
      apply h.keeps_bind (ih _ (.arguments paren arguments hcallee))
      intro values after harguments
      apply h.keeps_bind (h.keeps_checkCall target values paren after)
      intro function checked hfunction
      exact h.keeps_deeper (ih _ (.called hcallee harguments hfunction))

theorem evaluateAll_of_parts {exprs : List Expr}
    (ih : ∀ next, Enters ⟨bound + 1, .evaluateAll exprs, machine⟩ next →
      Keeps R (next.task.run next.bound) next.machine) :
    Keeps R (Eval.evaluateAll (bound + 1) exprs) machine := by
  cases exprs with
  | nil => exact h.keeps_pure [] machine
  | cons first rest =>
      simp only [Eval.evaluateAll]
      apply h.keeps_bind (ih _ (.firstValue first rest))
      intro value between hfirst
      apply h.keeps_bind (ih _ (.moreValues rest hfirst))
      intro values after _
      exact h.keeps_pure _ after

theorem call_of_parts {callee : Callable} {arguments : List Value} {paren : Token}
    (hmoment : P ⟨bound + 1, .call callee arguments paren, machine⟩)
    (ih : ∀ next, Enters ⟨bound + 1, .call callee arguments paren, machine⟩ next →
      Keeps R (next.task.run next.bound) next.machine) :
    Keeps R (Eval.call (bound + 1) callee arguments paren) machine := by
  cases callee with
  | host function => exact h.keeps_callHost function arguments paren machine
  | closure function =>
      simp only [Eval.call]
      have hopen : Keeps R (Eval.openFrame function arguments) machine := h.frame hmoment rfl
      apply h.keeps_bind hopen
      intro frame between hframe
      apply h.keeps_bind (ih _ (.functionBody paren hframe))
      intro flow after _
      split
      · exact h.keeps_pure _ after
      · exact h.keeps_pure _ after

theorem execute_of_parts {stmt : Stmt} (hmoment : P ⟨bound + 1, .execute stmt, machine⟩)
    (ih : ∀ next, Enters ⟨bound + 1, .execute stmt, machine⟩ next →
      Keeps R (next.task.run next.bound) next.machine) :
    Keeps R (Eval.execute (bound + 1) stmt) machine := by
  cases stmt with
  | expression value =>
      simp only [Eval.execute]
      apply h.keeps_bind (ih _ (.expression value))
      intro _ after _
      exact h.keeps_pure _ after
  | print value =>
      simp only [Eval.execute]
      apply h.keeps_bind (ih _ (.printed value))
      intro result between _
      apply h.keeps_bind (h.keeps_printLine _ between)
      intro _ after _
      exact h.keeps_pure _ after
  | declare name initial =>
      cases initial with
      | none => exact h.declare hmoment
      | some initial =>
          simp only [Eval.execute]
          apply h.keeps_bind (ih _ (.initial name initial))
          intro value after hvalue
          exact h.declareWith hmoment hvalue
  | block body =>
      simp only [Eval.execute]
      have hget : Keeps R (get : Eval Machine) machine := h.refl machine
      apply h.keeps_bind hget
      intro _ _ hget
      cases hget
      have hopen : Keeps R (Eval.openScope machine.current) machine := h.block hmoment rfl
      apply h.keeps_bind hopen
      intro scope after hscope
      exact ih _ (.blockBody body hscope)
  | branch condition whenTrue whenFalse =>
      simp only [Eval.execute]
      apply h.keeps_bind (ih _ (.branching condition whenTrue whenFalse))
      intro value after hcondition
      split
      · next htruthy => exact ih _ (.whenTrue whenTrue whenFalse hcondition htruthy)
      · next hfalsy =>
          cases whenFalse with
          | none => exact h.keeps_pure _ after
          | some other =>
              exact ih _ (.whenFalse whenTrue other hcondition (Bool.of_not_eq_true hfalsy))
  | loop condition body =>
      simp only [Eval.execute]
      apply h.keeps_bind (ih _ (.looping condition body))
      intro value between hcondition
      split
      · next htruthy =>
          apply h.keeps_bind (ih _ (.loopBody body hcondition htruthy))
          intro flow after hbody
          cases flow with
          | leave result => exact h.keeps_pure _ after
          | normal => exact ih _ (.loopAgain hcondition htruthy hbody)
      · exact h.keeps_pure _ between
  | function name params body => exact h.function _ hmoment
  | leave keyword value =>
      cases value with
      | none => exact h.keeps_pure _ machine
      | some value =>
          simp only [Eval.execute]
          apply h.keeps_bind (ih _ (.leaving keyword value))
          intro result after _
          exact h.keeps_pure _ after

theorem executeAll_of_parts {stmts : List Stmt}
    (ih : ∀ next, Enters ⟨bound + 1, .executeAll stmts, machine⟩ next →
      Keeps R (next.task.run next.bound) next.machine) :
    Keeps R (Eval.executeAll (bound + 1) stmts) machine := by
  cases stmts with
  | nil => exact h.keeps_pure _ machine
  | cons first rest =>
      simp only [Eval.executeAll]
      apply h.keeps_bind (ih _ (.firstStmt first rest))
      intro flow after hfirst
      cases flow with
      | leave value => exact h.keeps_pure _ after
      | normal => exact ih _ (.moreStmts rest hfirst)

end Parts

/-- However a run ends that begins at a moment with the property, it keeps the relation. -/
theorem run (moment : Moment) (hmoment : P moment) :
    Keeps R (moment.task.run moment.bound) moment.machine := by
  induction moment using Moment.entersInduction with
  | h moment ih =>
      have hparts : ∀ next, Enters moment next →
          Keeps R (next.task.run next.bound) next.machine :=
        fun next hnext => ih next hnext (h.enters hmoment hnext)
      obtain ⟨bound, task, machine⟩ := moment
      cases task with
      | inScope scope stmts => exact h.keeps_within scope (hparts _ (.inside stmts))
      | program stmts =>
          cases stmts with
          | nil => exact h.keeps_pure () machine
          | cons first rest =>
              apply h.keeps_bind (hparts _ (.firstOfProgram first rest))
              intro flow after hfirst
              exact hparts _ (.moreOfProgram rest hfirst)
      | evaluate expr =>
          cases bound with
          | zero => exact h.keeps_throw .exhausted machine
          | succ bound => exact h.evaluate_of_parts hmoment hparts
      | evaluateAll exprs =>
          cases bound with
          | zero => exact h.keeps_throw .exhausted machine
          | succ bound => exact h.evaluateAll_of_parts hparts
      | call callee arguments paren =>
          cases bound with
          | zero => exact h.keeps_throw .exhausted machine
          | succ bound => exact h.call_of_parts hmoment hparts
      | execute stmt =>
          cases bound with
          | zero => exact h.keeps_throw .exhausted machine
          | succ bound => exact h.execute_of_parts hmoment hparts
      | executeAll stmts =>
          cases bound with
          | zero => exact h.keeps_throw .exhausted machine
          | succ bound => exact h.executeAll_of_parts hparts

end Carried

end Scriptlet
