/-
The moments of a run in the order in which they come.

Which parts a piece of work has depends on how the parts before them ended, and nothing else
is left open: the parts of a moment are a list, and so are all moments of its run.
-/
import Scriptlet.Proofs.Runs.Moments

namespace Scriptlet.Moment

/-- What comes behind an action that ends well. -/
def behind {α : Type} (action : Eval α) (machine : Machine) (next : α → Machine → List Moment) :
    List Moment :=
  match action machine with
  | .ok value after => next value after
  | .error _ _ => []

section Behind

variable {α : Type} {action : Eval α} {machine : Machine} {next : α → Machine → List Moment}

theorem behind_of_ok {value : α} {after : Machine} (h : action machine = .ok value after) :
    behind action machine next = next value after := by
  unfold behind
  rw [h]

theorem mem_behind_iff {moment : Moment} :
    moment ∈ behind action machine next ↔
      ∃ value after, action machine = .ok value after ∧ moment ∈ next value after := by
  unfold behind
  cases action machine with
  | ok value after =>
      constructor
      · intro h
        exact ⟨value, after, rfl, h⟩
      · rintro ⟨_, _, hsame, h⟩
        cases hsame
        exact h
  | error stop after => simp

end Behind

/-- The parts of an expression whose evaluation is about to begin. -/
def exprParts (bound : Nat) (machine : Machine) : Expr → List Moment
  | .constant _ => []
  | .variable _ _ => []
  | .group inner => [⟨bound, .evaluate inner, machine⟩]
  | .unary _ operand => [⟨bound, .evaluate operand, machine⟩]
  | .binary left _ right =>
      ⟨bound, .evaluate left, machine⟩ ::
        behind (Eval.evaluate bound left) machine fun _ after => [⟨bound, .evaluate right, after⟩]
  | .logical left operator right =>
      ⟨bound, .evaluate left, machine⟩ ::
        behind (Eval.evaluate bound left) machine fun value after =>
          if Operator.decides operator value then [] else [⟨bound, .evaluate right, after⟩]
  | .assign _ _ value => [⟨bound, .evaluate value, machine⟩]
  | .call callee paren arguments =>
      ⟨bound, .evaluate callee, machine⟩ ::
        behind (Eval.evaluate bound callee) machine fun target between =>
          ⟨bound, .evaluateAll arguments, between⟩ ::
            behind (Eval.evaluateAll bound arguments) between fun values after =>
              behind (Eval.checkCall target values paren) after fun function checked =>
                [⟨bound, .call function values paren, { checked with depth := checked.depth + 1 }⟩]

/-- The parts of a statement whose execution is about to begin. -/
def stmtParts (bound : Nat) (machine : Machine) : Stmt → List Moment
  | .expression value => [⟨bound, .evaluate value, machine⟩]
  | .print value => [⟨bound, .evaluate value, machine⟩]
  | .declare _ none => []
  | .declare _ (some initial) => [⟨bound, .evaluate initial, machine⟩]
  | .block body =>
      behind (Eval.openScope machine.current) machine fun scope after =>
        [⟨bound, .inScope scope body, after⟩]
  | .branch condition whenTrue whenFalse =>
      ⟨bound, .evaluate condition, machine⟩ ::
        behind (Eval.evaluate bound condition) machine fun value after =>
          if value.isTruthy then [⟨bound, .execute whenTrue, after⟩]
          else whenFalse.toList.map fun other => ⟨bound, .execute other, after⟩
  | .loop condition body =>
      ⟨bound, .evaluate condition, machine⟩ ::
        behind (Eval.evaluate bound condition) machine fun value between =>
          if value.isTruthy then
            ⟨bound, .execute body, between⟩ ::
              behind (Eval.execute bound body) between fun
                | .normal, after => [⟨bound, .execute (.loop condition body), after⟩]
                | .leave _, _ => []
          else []
  | .function _ _ _ => []
  | .leave _ none => []
  | .leave _ (some value) => [⟨bound, .evaluate value, machine⟩]

/-- The moments that the run enters from a moment, in the order in which it comes to them. -/
def parts : Moment → List Moment
  | ⟨bound, .inScope scope stmts, machine⟩ =>
      [⟨bound, .executeAll stmts, { machine with current := scope }⟩]
  | ⟨_, .program [], _⟩ => []
  | ⟨bound, .program (first :: rest), machine⟩ =>
      ⟨bound, .execute first, machine⟩ ::
        behind (Eval.execute bound first) machine fun _ after => [⟨bound, .program rest, after⟩]
  | ⟨0, _, _⟩ => []
  | ⟨bound + 1, .evaluate expr, machine⟩ => exprParts bound machine expr
  | ⟨_ + 1, .evaluateAll [], _⟩ => []
  | ⟨bound + 1, .evaluateAll (first :: rest), machine⟩ =>
      ⟨bound, .evaluate first, machine⟩ ::
        behind (Eval.evaluate bound first) machine fun _ after =>
          [⟨bound, .evaluateAll rest, after⟩]
  | ⟨_ + 1, .call (.host _) _ _, _⟩ => []
  | ⟨bound + 1, .call (.closure function) arguments _, machine⟩ =>
      behind (Eval.openFrame function arguments) machine fun frame after =>
        [⟨bound, .inScope frame function.body, after⟩]
  | ⟨bound + 1, .execute stmt, machine⟩ => stmtParts bound machine stmt
  | ⟨_ + 1, .executeAll [], _⟩ => []
  | ⟨bound + 1, .executeAll (first :: rest), machine⟩ =>
      ⟨bound, .execute first, machine⟩ ::
        behind (Eval.execute bound first) machine fun
          | .normal, after => [⟨bound, .executeAll rest, after⟩]
          | .leave _, _ => []

theorem enters_of_mem_exprParts {bound : Nat} {machine : Machine} {expr : Expr} {next : Moment}
    (h : next ∈ exprParts bound machine expr) :
    Enters ⟨bound + 1, .evaluate expr, machine⟩ next := by
  cases expr with
  | constant value => cases h
  | «variable» id name => cases h
  | group | unary | assign =>
      cases List.mem_singleton.mp h
      constructor
  | binary left operator right =>
      rcases List.mem_cons.mp h with rfl | h
      · exact .left left operator right
      · obtain ⟨value, after, hleft, h⟩ := mem_behind_iff.mp h
        cases List.mem_singleton.mp h
        exact .right operator right hleft
  | logical left operator right =>
      rcases List.mem_cons.mp h with rfl | h
      · exact .deciding left operator right
      · obtain ⟨value, after, hleft, h⟩ := mem_behind_iff.mp h
        cases hdecides : Operator.decides operator value with
        | true =>
            rw [hdecides] at h
            cases h
        | false =>
            rw [hdecides] at h
            cases List.mem_singleton.mp h
            exact .undecided right hleft hdecides
  | call callee paren arguments =>
      rcases List.mem_cons.mp h with rfl | h
      · exact .callee callee paren arguments
      · obtain ⟨target, between, hcallee, h⟩ := mem_behind_iff.mp h
        rcases List.mem_cons.mp h with rfl | h
        · exact .arguments paren arguments hcallee
        · obtain ⟨values, after, harguments, h⟩ := mem_behind_iff.mp h
          obtain ⟨function, checked, hfunction, h⟩ := mem_behind_iff.mp h
          cases List.mem_singleton.mp h
          exact .called hcallee harguments hfunction

theorem enters_of_mem_stmtParts {bound : Nat} {machine : Machine} {stmt : Stmt} {next : Moment}
    (h : next ∈ stmtParts bound machine stmt) :
    Enters ⟨bound + 1, .execute stmt, machine⟩ next := by
  cases stmt with
  | expression | print =>
      cases List.mem_singleton.mp h
      constructor
  | declare name initial | leave keyword initial =>
      cases initial with
      | none => cases h
      | some value =>
          cases List.mem_singleton.mp h
          constructor
  | function => cases h
  | block body =>
      rw [stmtParts, mem_behind_iff] at h
      obtain ⟨scope, after, hscope, h⟩ := h
      cases List.mem_singleton.mp h
      exact .blockBody body hscope
  | branch condition whenTrue whenFalse =>
      rcases List.mem_cons.mp h with rfl | h
      · exact .branching condition whenTrue whenFalse
      · obtain ⟨value, after, hcondition, h⟩ := mem_behind_iff.mp h
        cases htruthy : value.isTruthy with
        | true =>
            rw [htruthy] at h
            cases List.mem_singleton.mp h
            exact .whenTrue whenTrue whenFalse hcondition htruthy
        | false =>
            rw [htruthy] at h
            obtain ⟨other, hother, rfl⟩ := List.mem_map.mp h
            rw [Option.mem_toList.mp hother]
            exact .whenFalse whenTrue other hcondition htruthy
  | loop condition body =>
      rcases List.mem_cons.mp h with rfl | h
      · exact .looping condition body
      · obtain ⟨value, between, hcondition, h⟩ := mem_behind_iff.mp h
        cases htruthy : value.isTruthy with
        | false =>
            rw [htruthy] at h
            cases h
        | true =>
            rw [htruthy] at h
            rcases List.mem_cons.mp h with rfl | h
            · exact .loopBody body hcondition htruthy
            · obtain ⟨flow, after, hbody, h⟩ := mem_behind_iff.mp h
              cases flow with
              | leave value => cases h
              | normal =>
                  cases List.mem_singleton.mp h
                  exact .loopAgain hcondition htruthy hbody

/-- The parts are the moments that are entered. -/
theorem mem_parts_iff {moment next : Moment} : next ∈ moment.parts ↔ Enters moment next := by
  constructor
  · intro h
    unfold parts at h
    split at h
    · cases List.mem_singleton.mp h
      exact .inside _
    · cases h
    · rcases List.mem_cons.mp h with rfl | h
      · exact .firstOfProgram _ _
      · obtain ⟨flow, after, hfirst, h⟩ := mem_behind_iff.mp h
        cases List.mem_singleton.mp h
        exact .moreOfProgram _ hfirst
    · cases h
    · exact enters_of_mem_exprParts h
    · cases h
    · rcases List.mem_cons.mp h with rfl | h
      · exact .firstValue _ _
      · obtain ⟨value, after, hfirst, h⟩ := mem_behind_iff.mp h
        cases List.mem_singleton.mp h
        exact .moreValues _ hfirst
    · cases h
    · obtain ⟨frame, after, hframe, h⟩ := mem_behind_iff.mp h
      cases List.mem_singleton.mp h
      exact .functionBody _ hframe
    · exact enters_of_mem_stmtParts h
    · cases h
    · rcases List.mem_cons.mp h with rfl | h
      · exact .firstStmt _ _
      · obtain ⟨flow, after, hfirst, h⟩ := mem_behind_iff.mp h
        cases flow with
        | leave value => cases h
        | normal =>
            cases List.mem_singleton.mp h
            exact .moreStmts _ hfirst
  · intro h
    cases h <;> simp_all [parts, exprParts, stmtParts, behind]

/-- All moments of a run, in the order in which their work begins. -/
def trace (moment : Moment) : List Moment :=
  moment :: moment.parts.attach.flatMap fun next => trace next.val
termination_by moment.weight
decreasing_by exact (mem_parts_iff.mp next.property).weight_lt

theorem trace_eq (moment : Moment) : moment.trace = moment :: moment.parts.flatMap trace := by
  rw [trace, List.flatMap_subtype (g := trace) (by intros; rfl), List.unattach_attach]

/-- A run has the moments that it comes to. -/
theorem mem_trace_iff {moment later : Moment} : later ∈ moment.trace ↔ Reaches moment later := by
  induction moment using entersInduction with
  | h moment ih =>
      rw [trace_eq, List.mem_cons, List.mem_flatMap]
      constructor
      · rintro (rfl | ⟨next, hnext, hlater⟩)
        · exact .refl
        · have henters := mem_parts_iff.mp hnext
          exact .head henters ((ih next henters).mp hlater)
      · intro h
        rcases Relation.ReflTransGen.cases_head h with rfl | ⟨next, henters, hlater⟩
        · exact Or.inl rfl
        · exact Or.inr ⟨next, mem_parts_iff.mpr henters, (ih next henters).mpr hlater⟩

end Scriptlet.Moment
