/-
Both runs of a program that fits its side tables have the same outcome.

The induction is on the bound of the run that has a `for` of its own, for all bounds of the other
one at once: where the first run goes one step deeper, the second one may go several, but never
more than seven before both are at the same place again.
-/
import Scriptlet.Proofs.Loops.Simulates
import Scriptlet.Proofs.Incremental.Reading

namespace Scriptlet.Loops

open Grammar (exprIds exprsIds loopRound)

inductive FlowMatches (tables : Tables) (images : Images) :
    Flow Value → Flow (ValueIn Site) → Prop
  | normal : FlowMatches tables images .normal .normal
  | leave {value : Value} {value' : ValueIn Site} (matches_ : Matches tables images value value') :
      FlowMatches tables images (.leave value) (.leave value')

/-- Code that fits has the same outcome with these bounds. -/
structure SimulatesAt (short long : Prop) (bound bound' : Nat) : Prop where
  evaluate : ∀ {tables images machine state flags expr}, Relates tables images machine state →
    Stands images machine state flags → tables.Lead flags (exprIds expr) →
      Simulates short long tables images machine state (Eval.evaluate bound expr)
        (Run.evaluate bound' expr) (Matches tables)
  evaluateAll : ∀ {tables images machine state flags exprs}, Relates tables images machine state →
    Stands images machine state flags → tables.Lead flags (exprsIds exprs) →
      Simulates short long tables images machine state (Eval.evaluateAll bound exprs)
        (Run.evaluateAll bound' exprs) (AllMatch tables)
  call : ∀ {tables images machine state callee callee' arguments arguments'},
    Relates tables images machine state → CallMatches tables images callee callee' →
    AllMatch tables images arguments arguments' → ∀ paren,
      Simulates short long tables images machine state (Eval.call bound callee arguments paren)
        (Run.call bound' callee' arguments' paren) (Matches tables)
  execute : ∀ {tables images machine state flags statement},
    Relates tables images machine state → Stands images machine state flags →
    FitsStatement tables flags statement →
      Simulates short long tables images machine state (Eval.execute bound statement.rewrite)
        (Run.execute bound' statement) (FlowMatches tables)
  rounds : ∀ {tables images machine state flags condition increment body},
    Relates tables images machine state → Stands images machine state flags →
    tables.Lead flags (exprsIds condition.toList) →
    FitsStatement tables (behind increment flags) body →
    tables.Lead (behind increment flags) (exprsIds increment.toList) →
      Simulates short long tables images machine state
        (Eval.execute bound (.loop (condition.getD (.constant (.bool true)))
          (loopRound body.rewrite increment)))
        (Run.rounds bound' condition increment body) (FlowMatches tables)
  performAll : ∀ {tables images machine state flags declarations},
    Relates tables images machine state → Stands images machine state flags → Own flags →
    FitsDeclarations tables flags declarations →
      Simulates short long tables images machine state
        (Eval.executeAll bound (rewriteAll declarations)) (Run.performAll bound' declarations)
        (FlowMatches tables)

theorem SimulatesAt.loosen {short long short' long' : Prop} {bound bound' : Nat}
    (h : SimulatesAt short long bound bound') (hshort : short → short') (hlong : long → long') :
    SimulatesAt short' long' bound bound' where
  evaluate hrelates hstands hlead := (h.evaluate hrelates hstands hlead).loosen hshort hlong
  evaluateAll hrelates hstands hlead := (h.evaluateAll hrelates hstands hlead).loosen hshort hlong
  call hrelates hcallee harguments paren :=
    (h.call hrelates hcallee harguments paren).loosen hshort hlong
  execute hrelates hstands hfits := (h.execute hrelates hstands hfits).loosen hshort hlong
  rounds hrelates hstands hcondition hbody hincrement :=
    (h.rounds hrelates hstands hcondition hbody hincrement).loosen hshort hlong
  performAll hrelates hstands hown hfits :=
    (h.performAll hrelates hstands hown hfits).loosen hshort hlong

/-- The parts have the same outcome with the bounds that are left for them. -/
structure Below (short long : Prop) (bound bound' : Nat) : Prop where
  parts : ∀ lower, lower ≤ bound → bound ≤ lower + 7 → SimulatesAt short long lower bound'
  cut : bound ≤ 6 → short

section Step

variable {α β : Type} {short long : Prop} {tables : Tables} {images : Images} {machine : Machine}
  {state : State} {flags : List Bool} {bound bound' : Nat} {ids others : List NodeId}
  {action : Eval α} {action' : Run β} {P : Images → α → β → Prop}

theorem Tables.Lead.left (h : tables.Lead flags (ids ++ others)) : tables.Lead flags ids :=
  fun id hid => h id (List.mem_append_left _ hid)

theorem Tables.Lead.right (h : tables.Lead flags (ids ++ others)) : tables.Lead flags others :=
  fun id hid => h id (List.mem_append_right _ hid)

theorem simulates_short (h : short) :
    Simulates short long tables images machine state (throw .exhausted) action' P :=
  .short h

theorem Below.here (h : Below short long bound bound') : SimulatesAt short long bound bound' :=
  h.parts bound (Nat.le_refl _) (Nat.le_add_right _ _)

/-! ### Expressions and calls -/

theorem SimulatesAt.evaluate_succ (ih : SimulatesAt short long bound bound') {expr : Expr}
    (hrelates : Relates tables images machine state) (hstands : Stands images machine state flags)
    (hlead : tables.Lead flags (exprIds expr)) :
    Simulates short long tables images machine state (Eval.evaluate (bound + 1) expr)
      (Run.evaluate (bound' + 1) expr) (Matches tables) := by
  cases expr with
  | constant value => exact simulates_pure hrelates (.ofConstant value)
  | group inner =>
      simp only [Eval.evaluate, Run.evaluate]
      exact ih.evaluate hrelates hstands hlead
  | unary operator operand =>
      simp only [Eval.evaluate, Run.evaluate]
      have hoperand : tables.Lead flags (exprIds operand) := hlead
      refine (ih.evaluate hrelates hstands hoperand).bind
        fun images' machine' state' value value' _ hrelates' hmatch => ?_
      exact simulates_lift hrelates' operator (hmatch.unary rfl rfl)
  | binary left operator right =>
      simp only [Eval.evaluate, Run.evaluate]
      refine (ih.evaluate hrelates hstands hlead.left).bind
        fun images' machine' state' a a' hgrows hrelates' ha => ?_
      refine (ih.evaluate hrelates' (hstands.grow hgrows) hlead.right).bind
        fun images'' machine'' state'' b b' hgrows' hrelates'' hb => ?_
      exact simulates_lift hrelates'' operator
        ((ha.grow hgrows'.kept).binary rfl rfl (fun _ _ => ClosureMatches.sameFace) hb)
  | logical left operator right =>
      simp only [Eval.evaluate, Run.evaluate]
      refine (ih.evaluate hrelates hstands hlead.left).bind
        fun images' machine' state' a a' hgrows hrelates' ha => ?_
      rw [ha.decides_eq (rfl : operator.kind = operator.kind)]
      split
      · exact simulates_pure hrelates' ha
      · exact ih.evaluate hrelates' (hstands.grow hgrows) hlead.right
  | «variable» id name =>
      simp only [Eval.evaluate, Run.evaluate]
      exact simulates_read hrelates hstands hlead
  | assign id name value =>
      simp only [Eval.evaluate, Run.evaluate]
      refine (ih.evaluate hrelates hstands hlead.left).bind
        fun images' machine' state' result result' hgrows hrelates' hmatch => ?_
      refine (simulates_write hrelates' (hstands.grow hgrows) hlead.right hmatch).bind
        fun images'' machine'' state'' _ _ hgrows' hrelates'' _ => ?_
      exact simulates_pure hrelates'' (hmatch.grow hgrows'.kept)
  | call callee paren arguments =>
      simp only [Eval.evaluate, Run.evaluate]
      refine (ih.evaluate hrelates hstands hlead.left).bind
        fun images' machine' state' target target' hgrows hrelates' htarget => ?_
      refine (ih.evaluateAll hrelates' (hstands.grow hgrows) hlead.right).bind
        fun images'' machine'' state'' values values' hgrows' hrelates'' hvalues => ?_
      refine (simulates_checkCall hrelates'' (htarget.grow hgrows'.kept) hvalues paren).bind
        fun images3 machine3 state3 function function' hgrows3 hrelates3 hfunction => ?_
      exact Simulates.deeper fun change => ih.call (hrelates3.modifyOutside change) hfunction
        (hvalues.grow hgrows3.kept) paren

theorem SimulatesAt.evaluateAll_succ (ih : SimulatesAt short long bound bound')
    {exprs : List Expr} (hrelates : Relates tables images machine state)
    (hstands : Stands images machine state flags) (hlead : tables.Lead flags (exprsIds exprs)) :
    Simulates short long tables images machine state (Eval.evaluateAll (bound + 1) exprs)
      (Run.evaluateAll (bound' + 1) exprs) (AllMatch tables) := by
  cases exprs with
  | nil => exact simulates_pure hrelates .nil
  | cons first rest =>
      simp only [Eval.evaluateAll, Run.evaluateAll]
      refine (ih.evaluate hrelates hstands hlead.left).bind
        fun images' machine' state' value value' hgrows hrelates' hvalue => ?_
      refine (ih.evaluateAll hrelates' (hstands.grow hgrows) hlead.right).bind
        fun images'' machine'' state'' values values' hgrows' hrelates'' hvalues => ?_
      exact simulates_pure hrelates'' (.cons (hvalue.grow hgrows'.kept) hvalues)

theorem SimulatesAt.call_succ (ih : SimulatesAt short long bound bound') {callee : Callable}
    {callee' : CallableIn Site} {arguments : List Value} {arguments' : List (ValueIn Site)}
    (hrelates : Relates tables images machine state)
    (hcallee : CallMatches tables images callee callee')
    (harguments : AllMatch tables images arguments arguments') (paren : Token) :
    Simulates short long tables images machine state
      (Eval.call (bound + 1) callee arguments paren)
      (Run.call (bound' + 1) callee' arguments' paren) (Matches tables) := by
  obtain ⟨value, value', hmatch, hvalue, hvalue'⟩ := hcallee
  cases hmatch with
  | nil | bool _ | number _ | string _ => cases hvalue
  | host function =>
      cases hvalue
      cases hvalue'
      exact simulates_callHost hrelates function harguments paren
  | closure hclosure =>
      cases hvalue
      cases hvalue'
      obtain @⟨name, params, body, identity, scope, image, himage, hfits⟩ := hclosure
      simp only [Eval.call, Run.call]
      rw [← bind_assoc, ← bind_assoc]
      refine (Simulates.inFrame hrelates himage harguments
        fun images' inner inner' _ hrelates' hstands' =>
          ih.performAll hrelates' hstands' (own_false _) hfits).bind
        fun images' machine' state' flow flow' _ hrelates' hflow => ?_
      cases hflow with
      | normal => exact simulates_pure hrelates' .nil
      | leave hmatch => exact simulates_pure hrelates' hmatch

/-! ### Loops -/

/-- A statement that is an expression takes one step more than the expression. -/
theorem SimulatesAt.expression (ih : SimulatesAt short long bound bound') {value : Expr}
    (hrelates : Relates tables images machine state) (hstands : Stands images machine state flags)
    (hlead : tables.Lead flags (exprIds value)) :
    Simulates short long tables images machine state
      (Eval.execute (bound + 1) (.expression value)) (Run.evaluate bound' value)
      fun _ flow _ => flow = .normal := by
  simp only [Eval.execute]
  exact (ih.evaluate hrelates hstands hlead).mapFirst fun _ _ _ _ => rfl

theorem SimulatesAt.declare (ih : SimulatesAt short long bound bound') {name : Token}
    {initial : Option Expr} (hrelates : Relates tables images machine state)
    (hstands : Stands images machine state flags) (hown : Own flags)
    (hlead : tables.Lead flags (exprsIds initial.toList)) :
    Simulates short long tables images machine state
      (Eval.execute (bound + 1) (.declare name initial))
      (Run.declare (Run.evaluate bound') name initial) fun _ flow _ => flow = .normal := by
  cases initial with
  | none =>
      simp only [Eval.execute, Run.declare]
      exact (simulates_define hrelates hstands hown .nil _).mapFirst fun _ _ _ _ => rfl
  | some value =>
      simp only [Eval.execute, Run.declare]
      refine (ih.evaluate hrelates hstands hlead.left).bind
        fun images' machine' state' result result' hgrows hrelates' hmatch => ?_
      exact (simulates_define hrelates' (hstands.grow hgrows) hown hmatch _).mapFirst
        fun _ _ _ _ => rfl

/-- One statement takes one step less than a list of it. -/
theorem executeAll_singleton (bound : Nat) (stmt : Stmt) :
    Eval.executeAll (bound + 1) [stmt] = Eval.execute bound stmt := by
  funext machine
  simp only [Eval.executeAll, Eval.bind_apply]
  cases bound with
  | zero => rfl
  | succ bound =>
      cases Eval.execute (bound + 1) stmt machine with
      | error stop after => rfl
      | ok flow after => cases flow <;> rfl

/-- The body and the increment of a `for`. -/
def Run.round (bound : Nat) (increment : Option Expr) (body : Statement) :
    Run (Flow (ValueIn Site)) := do
  match ← execute bound body with
  | .leave value => return .leave value
  | .normal => do
      advance (evaluate bound) increment
      return .normal

theorem rounds_eq (bound : Nat) (condition increment : Option Expr) (body : Statement) :
    Run.rounds (bound + 1) condition increment body = (do
      if ← Run.goesOn (Run.evaluate bound) condition then
        match ← Run.round bound increment body with
        | .leave value => return .leave value
        | .normal => Run.rounds bound condition increment body
      else return .normal) := by
  rw [Run.rounds]
  apply bind_congr
  intro another
  cases another with
  | false => rfl
  | true =>
      simp only [Run.round, if_true, bind_assoc]
      apply bind_congr
      intro flow
      cases flow with
      | leave value => rfl
      | normal => simp only [bind_assoc, pure_bind]

theorem Run.round_none (bound : Nat) (body : Statement) :
    Run.round bound none body = Run.execute bound body := by
  rw [Run.round, ← bind_pure (Run.execute bound body)]
  simp only [bind_assoc, pure_bind]
  apply bind_congr
  intro flow
  cases flow with
  | leave value => rfl
  | normal => rfl

/-- The increment is the last statement of the block. -/
theorem simulates_advance (hcut : bound ≤ 1 → short)
    (hparts : ∀ lower, bound = lower + 2 → SimulatesAt short long lower bound') {increment : Expr}
    (hrelates : Relates tables images machine state) (hstands : Stands images machine state flags)
    (hlead : tables.Lead flags (exprIds increment)) :
    Simulates short long tables images machine state
      (Eval.executeAll bound [.expression increment])
      (Run.advance (Run.evaluate bound') (some increment)) fun _ flow _ => flow = .normal := by
  match bound, hcut, hparts with
  | 0, hcut, _ => exact simulates_short (hcut (by omega))
  | 1, hcut, _ =>
      rw [executeAll_singleton]
      exact simulates_short (hcut (by omega))
  | bound + 2, _, hparts =>
      rw [executeAll_singleton]
      exact ((hparts bound rfl).expression hrelates hstands hlead).mapSecond fun _ _ _ => id

/-- One round: a block around body and increment, which only one of the runs enters. -/
theorem Below.round (h : Below short long bound bound') {increment : Option Expr}
    {body : Statement} (hrelates : Relates tables images machine state)
    (hstands : Stands images machine state flags)
    (hbody : FitsStatement tables (behind increment flags) body)
    (hincrement : tables.Lead (behind increment flags) (exprsIds increment.toList)) :
    Simulates short long tables images machine state
      (Eval.execute bound (loopRound body.rewrite increment)) (Run.round bound' increment body)
      (FlowMatches tables) := by
  cases increment with
  | none =>
      rw [Run.round_none]
      exact h.here.execute hrelates hstands hbody
  | some increment =>
      match bound, h with
      | 0, h => exact simulates_short (h.cut (by omega))
      | 1, h =>
          exact Simulates.inAddedScope hrelates hstands fun _ _ _ _ _ _ =>
            simulates_short (h.cut (by omega))
      | bound + 2, h =>
          refine Simulates.inAddedScope hrelates hstands
            fun images' inner inner' _ hrelates' hstands' => ?_
          simp only [Eval.executeAll]
          refine ((h.parts bound (by omega) (by omega)).execute hrelates' hstands' hbody).bind
            fun images'' machine' state' flow flow' hgrows hrelates'' hflow => ?_
          cases hflow with
          | leave hmatch => exact simulates_pure hrelates'' (.leave hmatch)
          | normal =>
              have hadvance := simulates_advance
                (fun (_ : bound ≤ 1) => h.cut (by omega))
                (fun lower (_ : bound = lower + 2) =>
                  h.parts lower (by omega) (by omega)) hrelates''
                (hstands'.grow hgrows) hincrement.left
              exact hadvance.mapSecond fun _ flow _ (hnormal : flow = .normal) =>
                hnormal ▸ FlowMatches.normal

/-- Whether there is another round; without a condition one step finds that there is. -/
theorem Below.goesOn (h : Below short long bound bound') {condition : Option Expr}
    (hrelates : Relates tables images machine state) (hstands : Stands images machine state flags)
    (hcondition : tables.Lead flags (exprsIds condition.toList)) :
    Simulates short long tables images machine state
      (Eval.evaluate bound (condition.getD (.constant (.bool true))))
      (Run.goesOn (Run.evaluate bound') condition) fun _ value another =>
        value.isTruthy = another := by
  cases condition with
  | none =>
      cases bound with
      | zero => exact simulates_short (h.cut (by omega))
      | succ bound => exact simulates_pure hrelates rfl
  | some condition =>
      exact (h.here.evaluate hrelates hstands hcondition.left).mapSecond
        fun _ _ _ hmatch => hmatch.isTruthy_eq

theorem Below.rounds_succ (h : Below short long bound bound') {condition increment : Option Expr}
    {body : Statement} (hrelates : Relates tables images machine state)
    (hstands : Stands images machine state flags)
    (hcondition : tables.Lead flags (exprsIds condition.toList))
    (hbody : FitsStatement tables (behind increment flags) body)
    (hincrement : tables.Lead (behind increment flags) (exprsIds increment.toList)) :
    Simulates short long tables images machine state
      (Eval.execute (bound + 1) (.loop (condition.getD (.constant (.bool true)))
        (loopRound body.rewrite increment)))
      (Run.rounds (bound' + 1) condition increment body) (FlowMatches tables) := by
  rw [rounds_eq]
  simp only [Eval.execute]
  refine (h.goesOn hrelates hstands hcondition).bind
    fun images' machine' state' value another hgrows hrelates' hanother => ?_
  have hstands' := hstands.grow hgrows
  rw [hanother]
  split
  · refine (h.round hrelates' hstands' hbody hincrement).bind
      fun images'' machine'' state'' flow flow' hgrows' hrelates'' hflow => ?_
    cases hflow with
    | leave hmatch => exact simulates_pure hrelates'' (.leave hmatch)
    | normal =>
        exact h.here.rounds hrelates'' (hstands'.grow hgrows') hcondition hbody hincrement
  · exact simulates_pure hrelates' .normal

/-- The first clause is a statement of the block. -/
theorem SimulatesAt.enter (ih : SimulatesAt short long bound bound') {clause : Clause}
    (hrelates : Relates tables images machine state) (hstands : Stands images machine state flags)
    (hown : Own flags) (hfits : FitsClause tables flags (some clause)) :
    Simulates short long tables images machine state (Eval.execute (bound + 1) clause.rewrite)
      (Run.enter (Run.evaluate bound') (some clause)) fun _ flow _ => flow = .normal := by
  cases clause with
  | declare name initial => exact ih.declare hrelates hstands hown hfits
  | expression value =>
      exact (ih.expression hrelates hstands hfits).mapSecond fun _ _ _ => id

/-- What stands for a `for` inside its block. -/
theorem Below.forClauses (h : Below short long bound bound') {initial : Option Clause}
    {condition increment : Option Expr} {body : Statement}
    (hrelates : Relates tables images machine state) (hstands : Stands images machine state flags)
    (hown : Own flags) (hinitial : FitsClause tables flags initial)
    (hcondition : tables.Lead flags (exprsIds condition.toList))
    (hbody : FitsStatement tables (behind increment flags) body)
    (hincrement : tables.Lead (behind increment flags) (exprsIds increment.toList)) :
    Simulates short long tables images machine state
      (Eval.executeAll bound ((initial.map Clause.rewrite).toList ++
        [.loop (condition.getD (.constant (.bool true))) (loopRound body.rewrite increment)]))
      (Run.enter (Run.evaluate bound') initial >>= fun _ =>
        Run.rounds bound' condition increment body) (FlowMatches tables) := by
  match initial, bound, h with
  | _, 0, h => exact simulates_short (h.cut (by omega))
  | none, bound + 1, h =>
      have hrounds := (h.parts bound (by omega) (by omega)).rounds hrelates hstands hcondition
        hbody hincrement
      rw [← executeAll_singleton] at hrounds
      exact hrounds
  | some clause, 1, h => exact simulates_short (h.cut (by omega))
  | some clause, bound + 2, h =>
      show Simulates _ _ _ _ _ _ (Eval.execute (bound + 1) clause.rewrite >>= _) _ _
      refine ((h.parts bound (by omega) (by omega)).enter hrelates hstands hown hinitial).bind
        fun images' machine' state' flow _ hgrows hrelates' hnormal => ?_
      subst hnormal
      have hrounds := (h.parts bound (by omega) (by omega)).rounds hrelates'
        (hstands.grow hgrows) hcondition hbody hincrement
      rw [← executeAll_singleton] at hrounds
      exact hrounds

/-! ### Statements and declarations -/

theorem Below.execute_succ (h : Below short long bound bound') {statement : Statement}
    (hrelates : Relates tables images machine state) (hstands : Stands images machine state flags)
    (hfits : FitsStatement tables flags statement) :
    Simulates short long tables images machine state
      (Eval.execute (bound + 1) statement.rewrite) (Run.execute (bound' + 1) statement)
      (FlowMatches tables) := by
  have ih := h.here
  match statement, hfits with
  | .expression value, hfits =>
      simp only [Run.execute]
      exact (ih.expression hrelates hstands hfits).mapSecond fun _ _ _ hnormal => hnormal ▸ .normal
  | .print value, hfits =>
      simp only [Statement.rewrite, Eval.execute, Run.execute]
      have hvalue : tables.Lead flags (exprIds value) := hfits
      refine (ih.evaluate hrelates hstands hvalue).bind
        fun images' machine' state' result result' _ hrelates' hmatch => ?_
      rw [hmatch.text_eq fun _ _ => ClosureMatches.sameFace]
      exact (simulates_printLine hrelates' _).bind
        fun _ _ _ _ _ _ hrelates'' _ => simulates_pure hrelates'' .normal
  | .block body, hfits =>
      simp only [Statement.rewrite, Eval.execute, Run.execute]
      exact Simulates.inScope hrelates hstands fun images' inner inner' _ hrelates' hstands' =>
        ih.performAll hrelates' hstands' (own_false flags) hfits
  | .branch condition whenTrue none, hfits =>
      simp only [Statement.rewrite, Eval.execute, Run.execute]
      refine (ih.evaluate hrelates hstands hfits.1).bind
        fun images' machine' state' result result' hgrows hrelates' hmatch => ?_
      rw [hmatch.isTruthy_eq]
      split
      · exact ih.execute hrelates' (hstands.grow hgrows) hfits.2
      · exact simulates_pure hrelates' .normal
  | .branch condition whenTrue (some whenFalse), hfits =>
      simp only [Statement.rewrite, Eval.execute, Run.execute]
      refine (ih.evaluate hrelates hstands hfits.1.1).bind
        fun images' machine' state' result result' hgrows hrelates' hmatch => ?_
      rw [hmatch.isTruthy_eq]
      split
      · exact ih.execute hrelates' (hstands.grow hgrows) hfits.1.2
      · exact ih.execute hrelates' (hstands.grow hgrows) hfits.2
  | .loop condition body, hfits =>
      simp only [Statement.rewrite, Eval.execute, Run.execute]
      refine (ih.evaluate hrelates hstands hfits.1).bind
        fun images' machine' state' result result' hgrows hrelates' hmatch => ?_
      have hstands' := hstands.grow hgrows
      rw [hmatch.isTruthy_eq]
      split
      · refine (ih.execute hrelates' hstands' hfits.2).bind
          fun images'' machine'' state'' flow flow' hgrows' hrelates'' hflow => ?_
        cases hflow with
        | leave hmatch => exact simulates_pure hrelates'' (.leave hmatch)
        | normal =>
            have hwhole : FitsStatement tables flags (.loop condition body) := hfits
            exact ih.execute hrelates'' (hstands'.grow hgrows') hwhole
      · exact simulates_pure hrelates' .normal
  | .for_ initial condition increment body, ⟨hinitial, hcondition, hbody, hincrement⟩ =>
      simp only [Statement.rewrite, Incremental.forLoop_eq, Eval.execute, Run.execute]
      exact Simulates.inScope hrelates hstands fun images' inner inner' _ hrelates' hstands' =>
        h.forClauses hrelates' hstands' (own_false flags) hinitial hcondition hbody hincrement
  | .leave keyword none, _ => exact simulates_pure hrelates (.leave .nil)
  | .leave keyword (some value), hfits =>
      simp only [Statement.rewrite, Eval.execute, Run.execute]
      refine (ih.evaluate hrelates hstands (Tables.Lead.left hfits)).bind
        fun images' machine' state' result result' _ hrelates' hmatch => ?_
      exact simulates_pure hrelates' (.leave hmatch)

/-- A declaration takes no step apart from those of its parts in the second run. -/
theorem simulates_perform (hparts : SimulatesAt short long bound bound')
    (hstatement : SimulatesAt short long (bound + 1) bound') {declaration : Declaration}
    (hrelates : Relates tables images machine state) (hstands : Stands images machine state flags)
    (hown : Own flags) (hfits : FitsDeclaration tables flags declaration) :
    Simulates short long tables images machine state
      (Eval.execute (bound + 1) declaration.rewrite)
      (Run.perform (Run.evaluate bound') (Run.execute bound') declaration)
      (FlowMatches tables) := by
  cases declaration with
  | declare name initial =>
      exact (hparts.declare hrelates hstands hown hfits).mapSecond
        fun _ _ _ hnormal => hnormal ▸ .normal
  | function name params body =>
      simp only [Declaration.rewrite, Eval.execute, Run.perform]
      refine (simulates_freshIdentity hrelates).bind
        fun images' machine' state' identity identity' hgrows hrelates' hidentity => ?_
      subst hidentity
      have hstands' := hstands.grow hgrows
      exact (simulates_define hrelates' hstands' hown (.closure (.same hstands' hfits)) _).bind
        fun _ _ _ _ _ _ hrelates'' _ => simulates_pure hrelates'' .normal
  | statement statement => exact hstatement.execute hrelates hstands hfits

theorem Below.performAll_succ (h : Below short long bound bound')
    {declarations : List Declaration} (hrelates : Relates tables images machine state)
    (hstands : Stands images machine state flags) (hown : Own flags)
    (hfits : FitsDeclarations tables flags declarations) :
    Simulates short long tables images machine state
      (Eval.executeAll (bound + 1) (rewriteAll declarations))
      (Run.performAll (bound' + 1) declarations) (FlowMatches tables) := by
  cases declarations with
  | nil => exact simulates_pure hrelates .normal
  | cons first rest =>
      simp only [rewriteAll, Eval.executeAll, Run.performAll]
      cases bound with
      | zero => exact simulates_short (h.cut (by omega))
      | succ bound =>
          refine (simulates_perform (h.parts bound (by omega) (by omega)) h.here hrelates hstands
            hown hfits.1).bind
            fun images' machine' state' flow flow' hgrows hrelates' hflow => ?_
          cases hflow with
          | leave hmatch => exact simulates_pure hrelates' (.leave hmatch)
          | normal => exact h.here.performAll hrelates' (hstands.grow hgrows) hown hfits.2

end Step

/-! ### All bounds -/

theorem simulatesAt_zero_left {short long : Prop} (h : short) (bound' : Nat) :
    SimulatesAt short long 0 bound' where
  evaluate _ _ _ := .short h
  evaluateAll _ _ _ := .short h
  call _ _ _ _ := .short h
  execute _ _ _ := .short h
  rounds _ _ _ _ _ := .short h
  performAll _ _ _ _ := .short h

theorem simulatesAt_zero_right {short long : Prop} (h : long) (bound : Nat) :
    SimulatesAt short long bound 0 where
  evaluate _ _ _ := .long h
  evaluateAll _ _ _ := .long h
  call _ _ _ _ := .long h
  execute _ _ _ := .long h
  rounds _ _ _ _ _ := .long h
  performAll _ _ _ _ := .long h

theorem simulatesAt_zero (short long : Prop) : SimulatesAt short long 0 0 where
  evaluate _ _ _ := .both
  evaluateAll _ _ _ := .both
  call _ _ _ _ := .both
  execute _ _ _ := .both
  rounds _ _ _ _ _ := .both
  performAll _ _ _ _ := .both

theorem Below.succ {short long : Prop} {bound bound' : Nat}
    (h : Below short long bound bound') : SimulatesAt short long (bound + 1) (bound' + 1) where
  evaluate := h.here.evaluate_succ
  evaluateAll := h.here.evaluateAll_succ
  call := h.here.call_succ
  execute := h.execute_succ
  rounds := h.rounds_succ
  performAll := h.performAll_succ

/-- Eight times the bound of the second run is enough for the first one, and the bound of the
first run is enough for the second one. -/
theorem simulatesAt (bound bound' : Nat) :
    SimulatesAt (bound < 8 * bound') (bound' < bound) bound bound' := by
  induction bound' generalizing bound with
  | zero =>
      cases bound with
      | zero => exact simulatesAt_zero _ _
      | succ bound => exact simulatesAt_zero_right (Nat.succ_pos bound) _
  | succ bound' ih =>
      cases bound with
      | zero => exact simulatesAt_zero_left (by omega) _
      | succ bound =>
          have hbelow : Below (bound + 1 < 8 * (bound' + 1)) (bound' + 1 < bound + 1) bound
              bound' :=
            ⟨fun lower hle hge => (ih lower).loosen (by omega) (by omega), by omega⟩
          exact hbelow.succ

/-! ### Programs -/

section Programs

variable {tables : Tables} {images : Images} {machine : Machine} {state : State}
  {program : List Declaration}

theorem simulates_runAll (bound bound' : Nat) (hrelates : Relates tables images machine state)
    (hstands : Stands images machine state []) (hfits : FitsDeclarations tables [] program) :
    Simulates (bound < 8 * (bound' + 1)) (bound' < bound) tables images machine state
      (Eval.runAll bound (rewriteAll program)) (Run.runAll bound' program)
      fun _ _ _ => True := by
  induction program generalizing images machine state with
  | nil => exact simulates_pure hrelates trivial
  | cons first rest ih =>
      have hfirst : Simulates (bound < 8 * (bound' + 1)) (bound' < bound) tables images machine
          state (Eval.execute bound first.rewrite)
          (Run.perform (Run.evaluate bound') (Run.execute bound') first) (FlowMatches tables) := by
        cases bound with
        | zero => exact simulates_short (by omega)
        | succ bound =>
            exact simulates_perform ((simulatesAt bound bound').loosen (by omega) (by omega))
              ((simulatesAt (bound + 1) bound').loosen (by omega) id) hrelates hstands nofun
              hfits.1
      simp only [rewriteAll, Eval.runAll, Run.runAll]
      exact hfirst.bind fun images' machine' state' _ _ hgrows hrelates' _ =>
        ih hrelates' (hstands.grow hgrows) hfits.2

/-- Both runs are in the global scope when a program stops, as they were before. -/
theorem simulates_runProgram (bound bound' : Nat) (hrelates : Relates tables images machine state)
    (hcurrent : machine.current = Machine.globals) (hcurrent' : state.current = Machine.globals)
    (hfits : FitsDeclarations tables [] program) :
    Simulates (bound < 8 * (bound' + 1)) (bound' < bound) tables images machine state
      (Eval.runProgram bound (rewriteAll program)) (Run.runProgram bound' program)
      fun _ _ _ => True := by
  have hstands : Stands images machine state [] := by
    rw [Stands, hcurrent, hcurrent']
    exact hrelates.mirrors.root
  have hrun := simulates_runAll bound bound' hrelates hstands hfits
  unfold Simulates at hrun
  unfold Simulates Eval.runProgram Run.runProgram
  generalize Eval.runAll _ _ machine = result at hrun ⊢
  generalize Run.runAll _ _ state = result' at hrun ⊢
  cases hrun with
  | ok hgrows hrelates' _ => exact Outcome.since (simulates_flush hrelates') hgrows
  | error hgrows hrelates' hsame =>
      exact .error ⟨hgrows.kept, hcurrent.symm, hcurrent'.symm⟩ (hrelates'.move _ _) hsame
  | short hmay => exact .short hmay
  | long hmay => exact .long hmay
  | both => exact .both

end Programs

end Scriptlet.Loops
