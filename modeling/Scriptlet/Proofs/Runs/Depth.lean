/-
Where a stop comes from, and the depth of calls at every moment of a run.

A stop of a part is a stop of the whole, so the work that stops has a last part that raises
it.  Only a call raises a stack overflow, and it does so exactly at the full depth.
-/
import Scriptlet.Proofs.Runs.Restored

namespace Scriptlet

namespace Eval

variable {α β : Type} {machine : Machine} {stop : Stop}

/-- From this machine the action ends with this stop. -/
def StopsFrom (action : Eval α) (machine : Machine) (stop : Stop) : Prop :=
  ∃ after, action machine = .error stop after

theorem stopsFrom_bind_iff {action : Eval α} {next : α → Eval β} :
    StopsFrom (action >>= next) machine stop ↔
      StopsFrom action machine stop ∨
        ∃ value after, action machine = .ok value after ∧ StopsFrom (next value) after stop := by
  unfold StopsFrom
  rw [bind_apply]
  cases action machine with
  | error reason after => simp
  | ok value after =>
      constructor
      · intro h
        exact Or.inr ⟨value, after, rfl, h⟩
      · rintro (⟨later, hlater⟩ | ⟨_, _, hsame, h⟩)
        · cases hlater
        · cases hsame
          exact h

theorem StopsFrom.bind {action : Eval α} (h : StopsFrom action machine stop)
    (next : α → Eval β) : StopsFrom (action >>= next) machine stop :=
  stopsFrom_bind_iff.mpr (Or.inl h)

theorem StopsFrom.after {action : Eval α} {next : α → Eval β} {value : α} {after : Machine}
    (haction : action machine = .ok value after) (h : StopsFrom (next value) after stop) :
    StopsFrom (action >>= next) machine stop :=
  stopsFrom_bind_iff.mpr (Or.inr ⟨value, after, haction, h⟩)

@[simp] theorem not_stopsFrom_pure (value : α) : ¬ StopsFrom (pure value) machine stop := by
  rintro ⟨after, h⟩
  cases h

theorem stopsFrom_within_iff {scope : Nat} {action : Eval α} :
    StopsFrom (within scope action) machine stop ↔
      StopsFrom action { machine with current := scope } stop := by
  unfold StopsFrom within
  dsimp only
  cases action { machine with current := scope } with
  | ok value after => simp
  | error reason after => simp

theorem stopsFrom_deeper_iff {action : Eval α} :
    StopsFrom (deeper action) machine stop ↔
      StopsFrom action { machine with depth := machine.depth + 1 } stop := by
  unfold StopsFrom deeper
  dsimp only [HasOutside.modifyOutside]
  cases action { machine with depth := machine.depth + 1 } with
  | ok value after => simp
  | error reason after => simp

end Eval

/-! ### From the parts to the whole -/

/-- What a part stops with stops the whole. -/
theorem Enters.stops {moment next : Moment} {stop : Stop} (h : Enters moment next)
    (hstops : next.Stops stop) : moment.Stops stop := by
  have hpart : Eval.StopsFrom (next.task.run next.bound) next.machine stop := hstops
  show Eval.StopsFrom (moment.task.run moment.bound) moment.machine stop
  cases h with
  | group inner => exact hpart
  | inside stmts => exact Eval.stopsFrom_within_iff.mpr hpart
  | operand | left | deciding | assigned | callee | firstValue | expression | printed | initial
  | branching | looping | leaving | firstStmt | firstOfProgram =>
      exact hpart.bind _
  | right operator right hleft => exact .after hleft (hpart.bind _)
  | undecided right hleft hopen =>
      apply Eval.StopsFrom.after hleft
      rw [hopen]
      exact hpart
  | arguments paren arguments hcallee => exact .after hcallee (hpart.bind _)
  | called hcallee harguments hfunction =>
      exact .after hcallee (.after harguments (.after hfunction
        (Eval.stopsFrom_deeper_iff.mpr hpart)))
  | moreValues rest hfirst => exact .after hfirst (hpart.bind _)
  | functionBody paren hframe => exact .after hframe (hpart.bind _)
  | blockBody body hscope => exact .after rfl (.after hscope hpart)
  | whenTrue whenTrue whenFalse hcondition htruthy =>
      apply Eval.StopsFrom.after hcondition
      rw [htruthy]
      exact hpart
  | whenFalse whenTrue other hcondition htruthy =>
      apply Eval.StopsFrom.after hcondition
      rw [htruthy]
      exact hpart
  | loopBody body hcondition htruthy =>
      apply Eval.StopsFrom.after hcondition
      rw [htruthy]
      exact hpart.bind _
  | loopAgain hcondition htruthy hbody =>
      apply Eval.StopsFrom.after hcondition
      rw [htruthy]
      exact .after hbody hpart
  | moreStmts rest hfirst => exact .after hfirst hpart
  | moreOfProgram rest hfirst => exact .after hfirst hpart

theorem Reaches.stops {moment later : Moment} {stop : Stop} (h : Reaches moment later)
    (hstops : later.Stops stop) : moment.Stops stop := by
  induction h using Relation.ReflTransGen.head_induction_on with
  | refl => exact hstops
  | head hstep _ ih => exact hstep.stops ih

/-- Every stop is raised at some moment of the run, and every stop raised ends the run. -/
theorem Moment.stops_iff_raises {moment : Moment} {stop : Stop} :
    moment.Stops stop ↔ ∃ later, Reaches moment later ∧ later.Raises stop := by
  constructor
  · intro h
    induction moment using Moment.entersInduction with
    | h moment ih =>
        by_cases hpart : ∃ next, Enters moment next ∧ next.Stops stop
        · obtain ⟨next, hnext, hstops⟩ := hpart
          obtain ⟨later, hlater, hraises⟩ := ih next hnext hstops
          exact ⟨later, .head hnext hlater, hraises⟩
        · exact ⟨moment, .refl, h, fun next hnext hstops => hpart ⟨next, hnext, hstops⟩⟩
  · rintro ⟨later, hlater, hraises⟩
    exact hlater.stops hraises.1

/-! ### The depth at every moment -/

theorem Eval.depth_lt_of_checkCall {callee : Value} {arguments : List Value} {paren : Token}
    {function : Callable} {machine after : Machine}
    (h : Eval.checkCall callee arguments paren machine = .ok function after) :
    after = machine ∧ machine.depth < Eval.maxDepth := by
  unfold Eval.checkCall at h
  split at h
  · cases h
  · split at h
    · cases h
    · split at h
      · cases h
      · next hdepth =>
          cases h
          exact ⟨rfl, Nat.lt_of_not_le hdepth⟩

/-- The depth grows with calls alone, and a call is checked before. -/
theorem Enters.depth_le {moment next : Moment} (h : Enters moment next)
    (hdepth : moment.machine.depth ≤ Eval.maxDepth) : next.machine.depth ≤ Eval.maxDepth := by
  cases h with
  | group | operand | left | deciding | assigned | callee | firstValue | expression | printed
  | initial | branching | looping | leaving | firstStmt | inside | firstOfProgram => exact hdepth
  | right _ _ hpart | undecided _ hpart _ | arguments _ _ hpart | moreValues _ hpart
  | whenTrue _ _ hpart _ | whenFalse _ _ hpart _ | loopBody _ hpart _ =>
      exact (Restored.evaluate hpart).depth.symm ▸ hdepth
  | moreStmts _ hpart | moreOfProgram _ hpart =>
      exact (Restored.execute hpart).depth.symm ▸ hdepth
  | loopAgain hcondition _ hbody =>
      have hkept := (Restored.evaluate hcondition).trans (Restored.execute hbody)
      exact hkept.depth.symm ▸ hdepth
  | called hcallee harguments hfunction =>
      obtain ⟨rfl, hlt⟩ := Eval.depth_lt_of_checkCall hfunction
      exact hlt
  | functionBody _ hframe => exact (Restored.openFrame hframe).depth.symm ▸ hdepth
  | blockBody body hscope =>
      cases hscope
      exact hdepth

theorem Reaches.depth_le {moment later : Moment} (h : Reaches moment later)
    (hdepth : moment.machine.depth ≤ Eval.maxDepth) : later.machine.depth ≤ Eval.maxDepth := by
  induction h with
  | refl => exact hdepth
  | tail _ hstep ih => exact hstep.depth_le ih

/-! ### Stack overflow -/

/-- A call at the full depth, of something that can be called and with the number of values
that it takes. -/
inductive Overflows : Moment → Nat → Prop
  | call {bound : Nat} {machine between after : Machine} {callee : Expr} {target : Value}
      {paren : Token} {arguments : List Expr} {values : List Value} {function : Callable}
      (hcallee : Eval.evaluate bound callee machine = .ok target between)
      (harguments : Eval.evaluateAll bound arguments between = .ok values after)
      (hfunction : target.callable? = some function)
      (harity : values.length = function.arity) (hdepth : after.depth = Eval.maxDepth) :
      Overflows ⟨bound + 1, .evaluate (.call callee paren arguments), machine⟩ paren.line

/-- The stop of a stack overflow on a line. -/
def Stop.overflow (line : Nat) : Stop :=
  .fault (.runtime line .stackOverflow)

/-- An action that by itself never ends with a stack overflow. -/
def Quiet {α : Type} (action : Eval α) : Prop :=
  ∀ machine line, ¬ Eval.StopsFrom action machine (.overflow line)

namespace Quiet

variable {α β : Type}

theorem pure (value : α) : Quiet (pure value : Eval α) :=
  fun _ _ => Eval.not_stopsFrom_pure value

theorem stopping {stop : Stop} (h : ∀ line, stop ≠ .overflow line) :
    Quiet (throw stop : Eval α) := by
  rintro machine line ⟨after, hafter⟩
  cases hafter
  exact h line rfl

theorem exhausted : Quiet (throw .exhausted : Eval α) := by
  apply stopping
  rintro line ⟨⟩

theorem fail (token : Token) {fault : RuntimeFault} (h : fault ≠ .stackOverflow) :
    Quiet (Eval.fail token fault : Eval α) := by
  apply stopping
  intro line hline
  cases hline
  exact h rfl

theorem bind {action : Eval α} {next : α → Eval β} (h : Quiet action)
    (hnext : ∀ value, Quiet (next value)) : Quiet (action >>= next) := by
  intro machine line hstops
  rcases Eval.stopsFrom_bind_iff.mp hstops with hfirst | ⟨value, after, _, hrest⟩
  · exact h machine line hfirst
  · exact hnext value after line hrest

/-- What only ever ends well. -/
theorem of_ok {action : Eval α} (h : ∀ machine, ∃ value after, action machine = .ok value after) :
    Quiet action := by
  rintro machine line ⟨later, hlater⟩
  obtain ⟨value, after, hafter⟩ := h machine
  rw [hafter] at hlater
  cases hlater

theorem lift (token : Token) {result : Except RuntimeFault α}
    (h : result ≠ .error .stackOverflow) : Quiet (Eval.lift token result) := by
  cases result with
  | ok value => exact pure value
  | error fault => exact fail token fun hfault => h (hfault ▸ rfl)

theorem readVariable (id : NodeId) (name : Token) : Quiet (Eval.readVariable id name) := by
  rintro machine line ⟨after, hafter⟩
  unfold Eval.readVariable at hafter
  split at hafter
  · split at hafter
    · cases hafter
    · cases hafter
  · split at hafter
    · cases hafter
    · cases hafter

theorem assignmentScope (id : NodeId) (name : Token) : Quiet (Eval.assignmentScope id name) := by
  rintro machine line ⟨after, hafter⟩
  unfold Eval.assignmentScope at hafter
  split at hafter
  · split at hafter
    · cases hafter
    · cases hafter
  · split at hafter
    · cases hafter
    · cases hafter

theorem writeVariable (id : NodeId) (name : Token) (value : Value) :
    Quiet (Eval.writeVariable id name value) :=
  (assignmentScope id name).bind fun _ => of_ok fun _ => ⟨_, _, rfl⟩

theorem printLine (text : String) : Quiet (Eval.printLine text) := by
  rintro machine line ⟨after, hafter⟩
  unfold Eval.printLine at hafter
  dsimp only at hafter
  split at hafter
  · cases hafter
  · cases hafter

theorem callHost (function : HostFunction) (arguments : List Value) (paren : Token) :
    Quiet (Eval.callHost function arguments paren) := by
  rintro machine line ⟨after, hafter⟩
  unfold Eval.callHost at hafter
  dsimp only at hafter
  split at hafter
  · cases hafter
  · cases hafter

theorem define (name : String) (value : Value) : Quiet (Eval.define name value) :=
  of_ok fun _ => ⟨_, _, rfl⟩

theorem current : Quiet (get : Eval Machine) :=
  of_ok fun _ => ⟨_, _, rfl⟩

theorem freshIdentity : Quiet (Eval.freshIdentity : Eval Nat) :=
  of_ok fun _ => ⟨_, _, rfl⟩

theorem openFrame (function : Closure) (arguments : List Value) :
    Quiet (Eval.openFrame function arguments) :=
  of_ok fun _ => ⟨_, _, rfl⟩

end Quiet

theorem Operator.unary_ne_stackOverflow (operator : Token) (operand : Value) :
    Operator.unary operator operand ≠ .error .stackOverflow := by
  unfold Operator.unary
  split <;> exact nofun

theorem Operator.binary_ne_stackOverflow (operator : Token) (left right : Value) :
    Operator.binary operator left right ≠ .error .stackOverflow := by
  have hnumbers : ∀ operation : Float → Float → Value,
      Operator.onNumbers operator operation left right ≠ .error .stackOverflow := by
    intro operation
    unfold Operator.onNumbers
    split <;> exact nofun
  unfold Operator.binary
  split
  · unfold Operator.add
    split <;> exact nofun
  all_goals first | exact hnumbers _ | exact nofun

theorem Eval.stopsFrom_checkCall_iff {callee : Value} {arguments : List Value} {paren : Token}
    {machine : Machine} {line : Nat} :
    Eval.StopsFrom (Eval.checkCall callee arguments paren) machine (.overflow line) ↔
      paren.line = line ∧ Eval.maxDepth ≤ machine.depth ∧
        ∃ function, callee.callable? = some function ∧ arguments.length = function.arity := by
  unfold Eval.StopsFrom Eval.checkCall
  constructor
  · rintro ⟨after, hafter⟩
    split at hafter
    · cases hafter
    next function hfunction =>
    split at hafter
    · cases hafter
    next harity =>
    split at hafter
    · next hdepth =>
        cases hafter
        exact ⟨rfl, hdepth, function, hfunction, Decidable.of_not_not harity⟩
    · cases hafter
  · rintro ⟨rfl, hdepth, function, hfunction, harity⟩
    apply Exists.intro machine
    rw [hfunction]
    dsimp only [HasOutside.outside]
    rw [if_neg (not_not_intro harity), if_pos hdepth]
    rfl

/-- Some part of the work ends with a stack overflow on this line. -/
def Moment.PartOverflows (moment : Moment) (line : Nat) : Prop :=
  ∃ next, Enters moment next ∧ next.Stops (.overflow line)

section Parts

variable {bound line : Nat} {machine : Machine}

open Eval in
theorem evaluate_overflow {expr : Expr} (hdepth : machine.depth ≤ maxDepth)
    (h : StopsFrom (evaluate (bound + 1) expr) machine (.overflow line)) :
    Moment.PartOverflows ⟨bound + 1, .evaluate expr, machine⟩ line ∨
      Overflows ⟨bound + 1, .evaluate expr, machine⟩ line := by
  cases expr with
  | constant value => exact absurd h (Quiet.pure _ _ _)
  | group inner => exact Or.inl ⟨_, .group inner, h⟩
  | unary operator operand =>
      rcases stopsFrom_bind_iff.mp h with hpart | ⟨value, after, _, hlift⟩
      · exact Or.inl ⟨_, .operand operator operand, hpart⟩
      · exact absurd hlift (Quiet.lift _ (Operator.unary_ne_stackOverflow _ _) _ _)
  | binary left operator right =>
      rcases stopsFrom_bind_iff.mp h with hpart | ⟨a, between, ha, hrest⟩
      · exact Or.inl ⟨_, .left left operator right, hpart⟩
      rcases stopsFrom_bind_iff.mp hrest with hpart | ⟨b, after, _, hlift⟩
      · exact Or.inl ⟨_, .right operator right ha, hpart⟩
      · exact absurd hlift (Quiet.lift _ (Operator.binary_ne_stackOverflow _ _ _) _ _)
  | logical left operator right =>
      rcases stopsFrom_bind_iff.mp h with hpart | ⟨a, after, ha, hrest⟩
      · exact Or.inl ⟨_, .deciding left operator right, hpart⟩
      split at hrest
      · exact absurd hrest (Quiet.pure _ _ _)
      · next hopen => exact Or.inl ⟨_, .undecided right ha (Bool.of_not_eq_true hopen), hrest⟩
  | «variable» id name => exact absurd h (Quiet.readVariable _ _ _ _)
  | assign id name value =>
      rcases stopsFrom_bind_iff.mp h with hpart | ⟨result, after, _, hrest⟩
      · exact Or.inl ⟨_, .assigned id name value, hpart⟩
      · have hquiet := (Quiet.writeVariable id name result).bind fun _ => Quiet.pure result
        exact absurd hrest (hquiet _ _)
  | call callee paren arguments =>
      rcases stopsFrom_bind_iff.mp h with hpart | ⟨target, between, hcallee, hrest⟩
      · exact Or.inl ⟨_, .callee callee paren arguments, hpart⟩
      rcases stopsFrom_bind_iff.mp hrest with hpart | ⟨values, after, harguments, hrest⟩
      · exact Or.inl ⟨_, .arguments paren arguments hcallee, hpart⟩
      rcases stopsFrom_bind_iff.mp hrest with hcheck | ⟨function, checked, hfunction, hpart⟩
      · obtain ⟨rfl, hfull, function, hfunction, harity⟩ := stopsFrom_checkCall_iff.mp hcheck
        have hkept := (Restored.evaluate hcallee).trans (Restored.evaluateAll harguments)
        have hle := hkept.depth.symm ▸ hdepth
        exact Or.inr (.call hcallee harguments hfunction harity (Nat.le_antisymm hle hfull))
      · exact Or.inl ⟨_, .called hcallee harguments hfunction, stopsFrom_deeper_iff.mp hpart⟩

open Eval in
theorem evaluateAll_overflow {exprs : List Expr}
    (h : StopsFrom (evaluateAll (bound + 1) exprs) machine (.overflow line)) :
    Moment.PartOverflows ⟨bound + 1, .evaluateAll exprs, machine⟩ line := by
  cases exprs with
  | nil => exact absurd h (Quiet.pure _ _ _)
  | cons first rest =>
      rcases stopsFrom_bind_iff.mp h with hpart | ⟨value, after, hfirst, hrest⟩
      · exact ⟨_, .firstValue first rest, hpart⟩
      rcases stopsFrom_bind_iff.mp hrest with hpart | ⟨values, later, _, hpure⟩
      · exact ⟨_, .moreValues rest hfirst, hpart⟩
      · exact absurd hpure (Quiet.pure _ _ _)

open Eval in
theorem call_overflow {callee : Callable} {arguments : List Value} {paren : Token}
    (h : StopsFrom (call (bound + 1) callee arguments paren) machine (.overflow line)) :
    Moment.PartOverflows ⟨bound + 1, .call callee arguments paren, machine⟩ line := by
  cases callee with
  | host function => exact absurd h (Quiet.callHost _ _ _ _ _)
  | closure function =>
      rcases stopsFrom_bind_iff.mp h with hframe | ⟨frame, after, hframe, hrest⟩
      · exact absurd hframe (Quiet.openFrame _ _ _ _)
      rcases stopsFrom_bind_iff.mp hrest with hpart | ⟨flow, later, _, hpure⟩
      · exact ⟨_, .functionBody paren hframe, hpart⟩
      · cases flow with
        | normal => exact absurd hpure (Quiet.pure _ _ _)
        | leave value => exact absurd hpure (Quiet.pure _ _ _)

open Eval in
theorem execute_overflow {stmt : Stmt}
    (h : StopsFrom (execute (bound + 1) stmt) machine (.overflow line)) :
    Moment.PartOverflows ⟨bound + 1, .execute stmt, machine⟩ line := by
  cases stmt with
  | expression value =>
      rcases stopsFrom_bind_iff.mp h with hpart | ⟨_, _, _, hpure⟩
      · exact ⟨_, .expression value, hpart⟩
      · exact absurd hpure (Quiet.pure _ _ _)
  | print value =>
      rcases stopsFrom_bind_iff.mp h with hpart | ⟨result, _, _, hrest⟩
      · exact ⟨_, .printed value, hpart⟩
      · have hquiet := (Quiet.printLine result.text).bind
            fun _ => Quiet.pure (Flow.normal : Flow Value)
        exact absurd hrest (hquiet _ _)
  | declare name initial =>
      cases initial with
      | none =>
          have hquiet := (Quiet.define name.lexeme .nil).bind
            fun _ => Quiet.pure (Flow.normal : Flow Value)
          exact absurd h (hquiet _ _)
      | some initial =>
          rcases stopsFrom_bind_iff.mp h with hpart | ⟨value, _, _, hrest⟩
          · exact ⟨_, .initial name initial, hpart⟩
          · have hquiet := (Quiet.define name.lexeme value).bind fun _ =>
              Quiet.pure (Flow.normal : Flow Value)
            exact absurd hrest (hquiet _ _)
  | block body => exact ⟨_, .blockBody body rfl, h⟩
  | branch condition whenTrue whenFalse =>
      rcases stopsFrom_bind_iff.mp h with hpart | ⟨value, after, hcondition, hrest⟩
      · exact ⟨_, .branching condition whenTrue whenFalse, hpart⟩
      split at hrest
      · next htruthy => exact ⟨_, .whenTrue whenTrue whenFalse hcondition htruthy, hrest⟩
      · next hfalsy =>
          cases whenFalse with
          | none => exact absurd hrest (Quiet.pure _ _ _)
          | some other =>
              exact ⟨_, .whenFalse whenTrue other hcondition (Bool.of_not_eq_true hfalsy), hrest⟩
  | loop condition body =>
      rcases stopsFrom_bind_iff.mp h with hpart | ⟨value, after, hcondition, hrest⟩
      · exact ⟨_, .looping condition body, hpart⟩
      split at hrest
      · next htruthy =>
          rcases stopsFrom_bind_iff.mp hrest with hpart | ⟨flow, later, hbody, hrest⟩
          · exact ⟨_, .loopBody body hcondition htruthy, hpart⟩
          cases flow with
          | leave result => exact absurd hrest (Quiet.pure _ _ _)
          | normal => exact ⟨_, .loopAgain hcondition htruthy hbody, hrest⟩
      · exact absurd hrest (Quiet.pure _ _ _)
  | function name params body =>
      have hquiet := Quiet.freshIdentity.bind fun identity => Quiet.current.bind fun machine =>
        (Quiet.define name.lexeme (.closure ⟨name, params, body, machine.current, identity⟩)).bind
          fun _ => Quiet.pure (Flow.normal : Flow Value)
      exact absurd h (hquiet _ _)
  | leave keyword value =>
      cases value with
      | none => exact absurd h (Quiet.pure _ _ _)
      | some value =>
          rcases stopsFrom_bind_iff.mp h with hpart | ⟨_, _, _, hpure⟩
          · exact ⟨_, .leaving keyword value, hpart⟩
          · exact absurd hpure (Quiet.pure _ _ _)

open Eval in
theorem executeAll_overflow {stmts : List Stmt}
    (h : StopsFrom (executeAll (bound + 1) stmts) machine (.overflow line)) :
    Moment.PartOverflows ⟨bound + 1, .executeAll stmts, machine⟩ line := by
  cases stmts with
  | nil => exact absurd h (Quiet.pure _ _ _)
  | cons first rest =>
      rcases stopsFrom_bind_iff.mp h with hpart | ⟨flow, after, hfirst, hrest⟩
      · exact ⟨_, .firstStmt first rest, hpart⟩
      cases flow with
      | leave value => exact absurd hrest (Quiet.pure _ _ _)
      | normal => exact ⟨_, .moreStmts rest hfirst, hrest⟩

end Parts

/-- What stops with a stack overflow has a part that does, or it is a call that overflows. -/
theorem Moment.stops_overflow {moment : Moment} {line : Nat}
    (hdepth : moment.machine.depth ≤ Eval.maxDepth) (h : moment.Stops (.overflow line)) :
    moment.PartOverflows line ∨ Overflows moment line := by
  obtain ⟨bound, task, machine⟩ := moment
  have hstops : Eval.StopsFrom (task.run bound) machine (.overflow line) := h
  cases task with
  | inScope scope stmts => exact Or.inl ⟨_, .inside stmts, Eval.stopsFrom_within_iff.mp hstops⟩
  | program stmts =>
      cases stmts with
      | nil => exact absurd hstops (Quiet.pure _ _ _)
      | cons first rest =>
          rcases Eval.stopsFrom_bind_iff.mp hstops with hpart | ⟨flow, after, hfirst, hrest⟩
          · exact Or.inl ⟨_, .firstOfProgram first rest, hpart⟩
          · exact Or.inl ⟨_, .moreOfProgram rest hfirst, hrest⟩
  | evaluate expr =>
      cases bound with
      | zero => exact absurd hstops (Quiet.exhausted _ _)
      | succ bound => exact evaluate_overflow hdepth hstops
  | evaluateAll exprs =>
      cases bound with
      | zero => exact absurd hstops (Quiet.exhausted _ _)
      | succ bound => exact Or.inl (evaluateAll_overflow hstops)
  | call callee arguments paren =>
      cases bound with
      | zero => exact absurd hstops (Quiet.exhausted _ _)
      | succ bound => exact Or.inl (call_overflow hstops)
  | execute stmt =>
      cases bound with
      | zero => exact absurd hstops (Quiet.exhausted _ _)
      | succ bound => exact Or.inl (execute_overflow hstops)
  | executeAll stmts =>
      cases bound with
      | zero => exact absurd hstops (Quiet.exhausted _ _)
      | succ bound => exact Or.inl (executeAll_overflow hstops)

/-- The parts of a call that overflows all end well, and its body is never entered. -/
theorem Overflows.raises {moment : Moment} {line : Nat} (h : Overflows moment line) :
    moment.Raises (.overflow line) := by
  cases h with
  | @call bound machine between after callee target paren arguments values function hcallee
      harguments hfunction harity hdepth =>
      have hcheck : Eval.StopsFrom (Eval.checkCall target values paren) after
          (.overflow paren.line) :=
        Eval.stopsFrom_checkCall_iff.mpr
          ⟨rfl, Nat.le_of_eq hdepth.symm, function, hfunction, harity⟩
      constructor
      · apply Eval.StopsFrom.after hcallee
        apply Eval.StopsFrom.after harguments
        exact hcheck.bind _
      · rintro next hnext ⟨later, hlater⟩
        cases hnext with
        | callee =>
            rw [Task.run, hcallee] at hlater
            cases hlater
        | arguments _ _ hcallee' =>
            cases hcallee.symm.trans hcallee'
            rw [Task.run, harguments] at hlater
            cases hlater
        | called hcallee' harguments' hfunction' =>
            cases hcallee.symm.trans hcallee'
            cases harguments.symm.trans harguments'
            obtain ⟨_, hoverflow⟩ := hcheck
            rw [hfunction'] at hoverflow
            cases hoverflow

theorem Moment.raises_overflow_iff {moment : Moment} {line : Nat}
    (hdepth : moment.machine.depth ≤ Eval.maxDepth) :
    moment.Raises (.overflow line) ↔ Overflows moment line := by
  constructor
  · rintro ⟨hstops, hparts⟩
    rcases stops_overflow hdepth hstops with ⟨next, hnext, hpart⟩ | hoverflows
    · exact absurd hpart (hparts next hnext)
    · exact hoverflows
  · exact Overflows.raises

/-! ### The discipline of a run -/

/-- However the run ends, it gives back what it took; at none of its moments is the depth
above the limit, and a stack overflow is raised by the calls at the full depth alone. -/
theorem run_restores (bound : Nat) (task : Task) (machine : Machine)
    (hdepth : machine.depth ≤ Eval.maxDepth) :
    Restored machine (Eval.final (task.run bound machine)) ∧
      (∀ later, Reaches ⟨bound, task, machine⟩ later →
        later.machine.depth ≤ Eval.maxDepth ∧
          ∀ line, later.Raises (.overflow line) ↔ Overflows later line) ∧
      ∀ line, (Moment.mk bound task machine).Stops (.overflow line) ↔
        ∃ later, Reaches ⟨bound, task, machine⟩ later ∧ Overflows later line := by
  refine ⟨Restored.run bound task machine, ?_, ?_⟩
  · intro later hlater
    have hle := hlater.depth_le hdepth
    exact ⟨hle, fun line => Moment.raises_overflow_iff hle⟩
  · intro line
    rw [Moment.stops_iff_raises]
    constructor
    · rintro ⟨later, hlater, hraises⟩
      exact ⟨later, hlater, (Moment.raises_overflow_iff (hlater.depth_le hdepth)).mp hraises⟩
    · rintro ⟨later, hlater, hoverflows⟩
      exact ⟨later, hlater, hoverflows.raises⟩

/-- The first machine, in as many calls as there may be. -/
def Machine.full : Machine :=
  { Machine.initial .unlimited 0 with depth := Eval.maxDepth }

/-- A call of the clock. -/
def Expr.clockCall : Expr :=
  .call (.variable 0 ⟨.identifier, "clock", 1⟩) ⟨.mark .rightParen, ")", 1⟩ []

/-- Reading the time takes a call, too. -/
theorem run_restores_clock :
    Machine.full.depth ≤ Eval.maxDepth ∧
      (Moment.mk 2 (.evaluate .clockCall) .full).Stops (.overflow 1) ∧
      (Eval.final (Eval.evaluate 2 .clockCall .full)).depth = Eval.maxDepth := by
  have hdepth : Machine.full.depth ≤ Eval.maxDepth := Nat.le_refl _
  obtain ⟨hrestored, -, hstops⟩ := run_restores 2 (.evaluate .clockCall) .full hdepth
  have hdistance : Machine.full.table.distance? 0 = none := Table.distance?_empty 0
  have hlookup : Machine.full.scopes.lookup? Machine.globals "clock" =
      some (.host ⟨.clock, 0, 0⟩) := by
    rw [ScopeTree.lookup?, ScopeTree.holder?_eq]
    rfl
  have hclock : Eval.evaluate 1 (.variable 0 ⟨.identifier, "clock", 1⟩) .full =
      .ok (.host ⟨.clock, 0, 0⟩) .full := by
    show Eval.readVariable 0 _ .full = _
    simp only [Eval.readVariable, hdistance, hlookup]
  have hoverflows : Overflows ⟨2, .evaluate .clockCall, .full⟩ 1 :=
    .call hclock rfl rfl rfl rfl
  exact ⟨hdepth, (hstops 1).mpr ⟨_, .refl, hoverflows⟩, hrestored.depth⟩

end Scriptlet
