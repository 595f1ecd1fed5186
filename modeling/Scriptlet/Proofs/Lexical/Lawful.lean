/-
Moments of a run whose code fits the side table.

The simulation speaks of whole runs.  Here it is followed to the moments of a run: each of
them finds a machine that belongs together with some store, and code that fits the place
where it stands.  What a local assignment changes is then known at every moment.
-/
import Scriptlet.Proofs.Lexical.Simulation
import Scriptlet.Proofs.Runs.Restored

namespace Scriptlet

namespace Lexical

open Reference (Env Store Run)

/-- The code at this moment fits the side table; in the global scope it declares no names but
those that are allowed. -/
inductive Lawful (known : Known) (allowed : List String) : Moment → Prop
  | evaluate {bound : Nat} {expr : Expr} {machine : Machine} {homes : Homes} {store : Store}
      {env : Env} {pending : Option String} (relates : Relates known homes machine store)
      (mirrors : Mirrors homes machine.scopes pending machine.current env)
      (fits : FitsExpr known env.names pending expr) :
      Lawful known allowed ⟨bound, .evaluate expr, machine⟩
  | evaluateAll {bound : Nat} {exprs : List Expr} {machine : Machine} {homes : Homes}
      {store : Store} {env : Env} {pending : Option String}
      (relates : Relates known homes machine store)
      (mirrors : Mirrors homes machine.scopes pending machine.current env)
      (fits : FitsExprs known env.names pending exprs) :
      Lawful known allowed ⟨bound, .evaluateAll exprs, machine⟩
  | call {bound : Nat} {callee : Callable} {callee' : CallableIn Env} {arguments : List Value}
      {arguments' : List (ValueIn Env)} {paren : Token} {machine : Machine} {homes : Homes}
      {store : Store} (relates : Relates known homes machine store)
      (calls : CallMatches known homes machine.scopes callee callee')
      (arity : arguments.length = callee.arity)
      (values : AllMatch known homes machine.scopes arguments arguments') :
      Lawful known allowed ⟨bound, .call callee arguments paren, machine⟩
  | execute {bound : Nat} {stmt : Stmt} {machine : Machine} {homes : Homes} {store : Store}
      {env : Env} (relates : Relates known homes machine store)
      (stands : Stands homes machine env) (fits : FitsStmt known env.names stmt)
      (declared : machine.current = Machine.globals → ∀ name ∈ stmt.declared?, name ∈ allowed) :
      Lawful known allowed ⟨bound, .execute stmt, machine⟩
  | executeAll {bound : Nat} {stmts : List Stmt} {machine : Machine} {homes : Homes}
      {store : Store} {env : Env} (relates : Relates known homes machine store)
      (stands : Stands homes machine env) (fits : FitsStmts known env.names stmts)
      (inner : machine.current ≠ Machine.globals) :
      Lawful known allowed ⟨bound, .executeAll stmts, machine⟩
  | inScope {bound scope : Nat} {stmts : List Stmt} {machine : Machine} {homes : Homes}
      {store : Store} {env : Env} (relates : Relates known homes machine store)
      (stands : Stands homes { machine with current := scope } env)
      (fits : FitsStmts known env.names stmts) (inner : scope ≠ Machine.globals) :
      Lawful known allowed ⟨bound, .inScope scope stmts, machine⟩
  | program {bound : Nat} {stmts : List Stmt} {machine : Machine} {homes : Homes} {store : Store}
      (relates : Relates known homes machine store) (stands : Stands homes machine [])
      (fits : FitsStmts known [] stmts)
      (declared : ∀ stmt ∈ stmts, ∀ name ∈ stmt.declared?, name ∈ allowed) :
      Lawful known allowed ⟨bound, .program stmts, machine⟩

section Parts

variable {known : Known} {allowed : List String} {homes : Homes} {store : Store} {env : Env}
  {pending : Option String} {bound : Nat} {machine after : Machine} {next : Moment}

/-! ### Behind a part that has ended well -/

theorem after_evaluate {expr : Expr} {value : Value}
    (hrelates : Relates known homes machine store)
    (hmirrors : Mirrors homes machine.scopes pending machine.current env)
    (hfits : FitsExpr known env.names pending expr)
    (hvalue : Eval.evaluate bound expr machine = .ok value after) :
    ∃ homes' store' value', Grows none homes machine homes' after ∧
      Relates known homes' after store' ∧
      Mirrors homes' after.scopes pending after.current env ∧
      Matches known homes' after.scopes value value' := by
  obtain ⟨homes', store', value', hgrows, hrelates', hmatch⟩ :=
    ((simulatesAt bound).evaluate hrelates hmirrors hfits).of_ok hvalue
  have hmirrors' := hmirrors.grow hgrows
  rw [← hgrows.current] at hmirrors'
  exact ⟨homes', store', value', hgrows, hrelates', hmirrors', hmatch⟩

theorem after_evaluateAll {exprs : List Expr} {values : List Value}
    (hrelates : Relates known homes machine store)
    (hmirrors : Mirrors homes machine.scopes pending machine.current env)
    (hfits : FitsExprs known env.names pending exprs)
    (hvalues : Eval.evaluateAll bound exprs machine = .ok values after) :
    ∃ homes' store' values', Grows none homes machine homes' after ∧
      Relates known homes' after store' ∧ AllMatch known homes' after.scopes values values' :=
  ((simulatesAt bound).evaluateAll hrelates hmirrors hfits).of_ok hvalues

theorem after_checkCall {target : Value} {target' : ValueIn Env} {values : List Value}
    {values' : List (ValueIn Env)} {paren : Token} {function : Callable}
    (hrelates : Relates known homes machine store)
    (htarget : Matches known homes machine.scopes target target')
    (hvalues : AllMatch known homes machine.scopes values values')
    (hfunction : Eval.checkCall target values paren machine = .ok function after) :
    ∃ homes' store' function', Relates known homes' after store' ∧
      CallMatches known homes' after.scopes function function' ∧
      values.length = function.arity ∧ AllMatch known homes' after.scopes values values' := by
  have hchecked : Simulates known none homes machine store (Eval.checkCall target values paren)
      (Eval.checkCall target' values' paren) _ :=
    simulates_checkCall hrelates htarget hvalues paren
  obtain ⟨homes', store', function', hgrows, hrelates', hcalls, harity⟩ := hchecked.of_ok hfunction
  exact ⟨homes', store', function', hrelates', hcalls, harity, AllMatch.grow hvalues hgrows⟩

/-- Statements go on where a value was found. -/
theorem Stands.after_evaluate {expr : Expr} {value : Value} (hstands : Stands homes machine env)
    (hrelates : Relates known homes machine store) (hfits : FitsExpr known env.names none expr)
    (hvalue : Eval.evaluate bound expr machine = .ok value after) :
    ∃ homes' store', Relates known homes' after store' ∧ Stands homes' after env ∧
      after.current = machine.current := by
  obtain ⟨homes', store', _, hgrows, hrelates', _, _⟩ :=
    Lexical.after_evaluate hrelates hstands.mirrors hfits hvalue
  have hlt := hstands.mirrors.lt_size hrelates.nonempty
  exact ⟨homes', store', hrelates', hstands.grow hgrows hlt nofun, hgrows.current⟩

/-- Behind a statement, the place has the name that the statement declares. -/
theorem Stands.after_execute {stmt : Stmt} {flow : Flow Value} (hstands : Stands homes machine env)
    (hrelates : Relates known homes machine store) (hfits : FitsStmt known env.names stmt)
    (hflow : Eval.execute bound stmt machine = .ok flow after) :
    ∃ homes' store' inside, Relates known homes' after store' ∧ Stands homes' after inside ∧
      inside.names = Lexical.after env.names stmt ∧ after.current = machine.current := by
  obtain ⟨homes', store', result, hgrows, hrelates', _, hstands', hnames⟩ :=
    ((simulatesAt bound).execute hrelates hstands hfits).of_ok hflow
  exact ⟨homes', store', result.2, hrelates', hstands', hnames, hgrows.current⟩

/-! ### The moments that are entered -/

theorem Lawful.of_evaluate {expr : Expr} (hrelates : Relates known homes machine store)
    (hmirrors : Mirrors homes machine.scopes pending machine.current env)
    (hfits : FitsExpr known env.names pending expr)
    (hnext : Enters ⟨bound, .evaluate expr, machine⟩ next) : Lawful known allowed next := by
  cases hnext with
  | group inner => exact .evaluate hrelates hmirrors hfits
  | operand operator operand => exact .evaluate hrelates hmirrors hfits.2
  | left left operator right => exact .evaluate hrelates hmirrors hfits.2.1
  | right operator right hleft =>
      obtain ⟨_, _, _, _, hrelates', hmirrors', _⟩ :=
        after_evaluate hrelates hmirrors hfits.2.1 hleft
      exact .evaluate hrelates' hmirrors' hfits.2.2
  | deciding left operator right => exact .evaluate hrelates hmirrors hfits.1
  | undecided right hleft hopen =>
      obtain ⟨_, _, _, _, hrelates', hmirrors', _⟩ :=
        after_evaluate hrelates hmirrors hfits.1 hleft
      exact .evaluate hrelates' hmirrors' hfits.2
  | assigned id name value => exact .evaluate hrelates hmirrors hfits.1
  | callee callee paren arguments => exact .evaluate hrelates hmirrors hfits.1
  | arguments paren arguments hcallee =>
      obtain ⟨_, _, _, _, hrelates', hmirrors', _⟩ :=
        after_evaluate hrelates hmirrors hfits.1 hcallee
      exact .evaluateAll hrelates' hmirrors' hfits.2
  | called hcallee harguments hfunction =>
      obtain ⟨_, _, _, _, hrelates', hmirrors', htarget⟩ :=
        after_evaluate hrelates hmirrors hfits.1 hcallee
      obtain ⟨_, _, _, hgrows, hrelates'', hvalues⟩ :=
        after_evaluateAll hrelates' hmirrors' hfits.2 harguments
      obtain ⟨_, _, _, hrelates3, hcalls, harity, hvalues'⟩ :=
        after_checkCall hrelates'' (htarget.grow hgrows) hvalues hfunction
      have hdeeper := hrelates3.modifyOutside fun o => { o with depth := o.depth + 1 }
      exact .call hdeeper hcalls harity hvalues'

theorem Lawful.of_evaluateAll {exprs : List Expr} (hrelates : Relates known homes machine store)
    (hmirrors : Mirrors homes machine.scopes pending machine.current env)
    (hfits : FitsExprs known env.names pending exprs)
    (hnext : Enters ⟨bound, .evaluateAll exprs, machine⟩ next) : Lawful known allowed next := by
  cases hnext with
  | firstValue first rest => exact .evaluate hrelates hmirrors hfits.1
  | moreValues rest hfirst =>
      obtain ⟨_, _, _, _, hrelates', hmirrors', _⟩ :=
        after_evaluate hrelates hmirrors hfits.1 hfirst
      exact .evaluateAll hrelates' hmirrors' hfits.2

/-- The body of a function runs where its parameters are declared. -/
theorem Lawful.of_call {callee : Callable} {callee' : CallableIn Env} {arguments : List Value}
    {arguments' : List (ValueIn Env)} {paren : Token}
    (hrelates : Relates known homes machine store)
    (hcalls : CallMatches known homes machine.scopes callee callee')
    (harity : arguments.length = callee.arity)
    (harguments : AllMatch known homes machine.scopes arguments arguments')
    (hnext : Enters ⟨bound, .call callee arguments paren, machine⟩ next) :
    Lawful known allowed next := by
  cases hnext with
  | @functionBody bound frame _ after function _ _ hframe =>
      obtain ⟨value, value', hmatch, hvalue, hvalue'⟩ := hcalls
      cases hmatch with
      | nil | bool _ | number _ | string _ | host _ => cases hvalue
      | closure hclosure =>
          cases hvalue
          obtain @⟨name, params, body, identity, scope, env, hmirrors, hdistinct, hfits⟩ := hclosure
          have hopened := (hrelates.openScope scope).move machine.scopes.size
          have harguments' :
              AllMatch known homes (machine.scopes.child scope) arguments arguments' :=
            AllMatch.grow harguments (Grows.openScope none homes machine scope)
          have hlength : arguments.length = (params.map Token.lexeme).length := by
            rw [List.length_map]
            exact harity
          have hfilled := (simulates_fill hopened (Stands.child hrelates hmirrors) rfl hdistinct
            nofun hlength harguments').of_ok (fill_apply _ _)
          obtain ⟨_, _, inside, _, hrelates', hstands', hnames⟩ := hfilled
          rw [← List.append_nil (List.reverse _)] at hfits
          cases hframe
          exact .inScope (hrelates'.move machine.current) hstands' (hnames ▸ hfits)
            (Nat.ne_of_gt hrelates.nonempty)

/-- The initial value of a variable is found where the variable is declared already. -/
theorem Lawful.of_declare {name : Token} {initial : Expr}
    (hrelates : Relates known homes machine store) (hstands : Stands homes machine env)
    (hfits : FitsStmt known env.names (.declare name (some initial))) :
    Lawful known allowed ⟨bound, .evaluate initial, machine⟩ := by
  have hdeclared : Simulates known (some machine.current) homes machine store
      (pure () : Eval Unit) (Run.declare env name.lexeme >>= fun inside => pure inside)
      fun homes' machine' _ inside =>
        Mirrors homes' machine'.scopes (Binding.pendingOf env.names name.lexeme)
            machine'.current inside ∧
          inside.names = Binding.declare env.names name.lexeme :=
    Simulates.declare hrelates hstands hfits.1 fun _ _ _ _ hrelates' hmirrors _ _ hnames =>
      simulates_pure hrelates' ⟨hmirrors, hnames⟩
  obtain ⟨_, _, _, _, hrelates', hmirrors, hnames⟩ := hdeclared.of_ok rfl
  exact .evaluate hrelates' hmirrors (hnames ▸ hfits.2)

theorem Lawful.of_execute {stmt : Stmt} (hrelates : Relates known homes machine store)
    (hstands : Stands homes machine env) (hfits : FitsStmt known env.names stmt)
    (hnext : Enters ⟨bound, .execute stmt, machine⟩ next) : Lawful known allowed next := by
  -- A branch or the body of a loop declares nothing where it stands.
  have hnothing : ∀ {stmt : Stmt} {machine : Machine}, stmt.declared? = none →
      machine.current = Machine.globals → ∀ name ∈ stmt.declared?, name ∈ allowed := by
    intro stmt machine hnone _ name hname
    rw [hnone] at hname
    cases hname
  cases hnext with
  | expression value => exact .evaluate hrelates hstands.mirrors hfits
  | printed value => exact .evaluate hrelates hstands.mirrors hfits
  | initial name initial => exact .of_declare hrelates hstands hfits
  | blockBody body hscope =>
      cases hscope
      exact .inScope (hrelates.openScope _) (Stands.child hrelates hstands.mirrors) hfits
        (Nat.ne_of_gt hrelates.nonempty)
  | branching condition whenTrue whenFalse =>
      cases whenFalse with
      | none => exact .evaluate hrelates hstands.mirrors hfits.1
      | some _ => exact .evaluate hrelates hstands.mirrors hfits.1
  | whenTrue whenTrue whenFalse hcondition htruthy =>
      cases whenFalse with
      | none =>
          obtain ⟨_, _, hrelates', hstands', _⟩ :=
            hstands.after_evaluate hrelates hfits.1 hcondition
          exact .execute hrelates' hstands' hfits.2.2 (hnothing hfits.2.1)
      | some _ =>
          obtain ⟨_, _, hrelates', hstands', _⟩ :=
            hstands.after_evaluate hrelates hfits.1 hcondition
          exact .execute hrelates' hstands' hfits.2.1.2 (hnothing hfits.2.1.1)
  | whenFalse whenTrue other hcondition htruthy =>
      obtain ⟨_, _, hrelates', hstands', _⟩ := hstands.after_evaluate hrelates hfits.1 hcondition
      exact .execute hrelates' hstands' hfits.2.2.2 (hnothing hfits.2.2.1)
  | looping condition body => exact .evaluate hrelates hstands.mirrors hfits.1
  | loopBody body hcondition htruthy =>
      obtain ⟨_, _, hrelates', hstands', _⟩ := hstands.after_evaluate hrelates hfits.1 hcondition
      exact .execute hrelates' hstands' hfits.2.2 (hnothing hfits.2.1)
  | loopAgain hcondition htruthy hbody =>
      obtain ⟨_, _, hrelates', hstands', _⟩ := hstands.after_evaluate hrelates hfits.1 hcondition
      obtain ⟨_, _, inside, hrelates'', hstands'', hnames, _⟩ :=
        hstands'.after_execute hrelates' hfits.2.2 hbody
      rw [after_of_none hfits.2.1] at hnames
      have hagain : FitsStmt known inside.names (.loop _ _) := hnames ▸ hfits
      exact .execute hrelates'' hstands'' hagain (hnothing rfl)
  | leaving keyword value => exact .evaluate hrelates hstands.mirrors hfits

theorem Lawful.of_executeAll {stmts : List Stmt} (hrelates : Relates known homes machine store)
    (hstands : Stands homes machine env) (hfits : FitsStmts known env.names stmts)
    (hinner : machine.current ≠ Machine.globals)
    (hnext : Enters ⟨bound, .executeAll stmts, machine⟩ next) : Lawful known allowed next := by
  cases hnext with
  | firstStmt first rest =>
      exact .execute hrelates hstands hfits.1 fun hglobal => absurd hglobal hinner
  | moreStmts rest hfirst =>
      obtain ⟨_, _, _, hrelates', hstands', hnames, hcurrent⟩ :=
        hstands.after_execute hrelates hfits.1 hfirst
      exact .executeAll hrelates' hstands' (hnames ▸ hfits.2) (hcurrent ▸ hinner)

theorem Lawful.of_program {stmts : List Stmt} (hrelates : Relates known homes machine store)
    (hstands : Stands homes machine []) (hfits : FitsStmts known [] stmts)
    (hdeclared : ∀ stmt ∈ stmts, ∀ name ∈ stmt.declared?, name ∈ allowed)
    (hnext : Enters ⟨bound, .program stmts, machine⟩ next) : Lawful known allowed next := by
  cases hnext with
  | firstOfProgram first rest =>
      exact .execute hrelates hstands hfits.1 fun _ => hdeclared first List.mem_cons_self
  | moreOfProgram rest hfirst =>
      obtain ⟨_, _, inside, hrelates', hstands', hnames, _⟩ :=
        hstands.after_execute hrelates hfits.1 hfirst
      have hempty : inside = [] := List.map_eq_nil_iff.mp (hnames.trans (after_nil _))
      exact .program hrelates' (hempty ▸ hstands') (after_nil _ ▸ hfits.2)
        fun stmt hstmt => hdeclared stmt (List.mem_cons_of_mem _ hstmt)

end Parts

section Moments

variable {known : Known} {allowed : List String} {moment next : Moment}

/-- The code of a lawful moment is made of lawful parts, and so is the code that it calls. -/
theorem Lawful.enters (h : Lawful known allowed moment) (hnext : Enters moment next) :
    Lawful known allowed next := by
  cases h with
  | evaluate hrelates hmirrors hfits => exact of_evaluate hrelates hmirrors hfits hnext
  | evaluateAll hrelates hmirrors hfits => exact of_evaluateAll hrelates hmirrors hfits hnext
  | call hrelates hcalls harity hvalues => exact of_call hrelates hcalls harity hvalues hnext
  | execute hrelates hstands hfits _ => exact of_execute hrelates hstands hfits hnext
  | executeAll hrelates hstands hfits hinner =>
      exact of_executeAll hrelates hstands hfits hinner hnext
  | inScope hrelates hstands hfits hinner =>
      cases hnext with
      | inside stmts => exact .executeAll (hrelates.move _) hstands hfits hinner
  | program hrelates hstands hfits hdeclared =>
      exact of_program hrelates hstands hfits hdeclared hnext

theorem Lawful.reaches (h : Lawful known allowed moment) (hnext : Reaches moment next) :
    Lawful known allowed next := by
  induction hnext with
  | refl => exact h
  | tail _ hstep ih => exact ih.enters hstep

end Moments

end Lexical

end Scriptlet
