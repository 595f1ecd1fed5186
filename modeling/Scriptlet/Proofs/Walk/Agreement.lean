/-
The two ways to a binding agree: in an orderly program every read and every assignment finds
by the names alone what the side table leads to, and so does the whole run.

The runs are compared at all moments, and so are the scopes that the moments leave.
-/
import Scriptlet.Proofs.Incremental.Joined
import Scriptlet.Proofs.Lexical.Sessions
import Scriptlet.Proofs.Walk.Agrees

namespace Scriptlet.Walk

open Lexical

theorem agreed_runAll {table : Table} {bound : Nat} {program : List Stmt} {plans : Plans}
    {machine : Machine} (h : Poised table plans machine [])
    (hprogram : WalksStmts table [] program) :
    Agreed table plans machine (fun _ _ _ => True) (runAll bound program machine)
      (Eval.runAll bound program machine) := by
  induction program generalizing plans machine with
  | nil => exact .pure h.laid trivial
  | cons first rest ih =>
      obtain ⟨hfirst, hrest⟩ := hprogram
      rw [Frames.after_nil] at hrest
      refine ((agreesAt table bound).execute h hfirst).bind fun hgrown hlaid _ => ?_
      exact ih (h.grow hgrown hlaid) hrest

theorem agreed_runProgram {table : Table} {program : List Stmt} {plans : Plans}
    {machine : Machine} (h : Poised table plans machine [])
    (hprogram : WalksStmts table [] program) (bound : Nat) :
    runProgram bound program machine = Eval.runProgram bound program machine := by
  have hsame : runAll bound program machine = Eval.runAll bound program machine :=
    (agreed_runAll h hprogram).eq
  cases hrun : Eval.runAll bound program machine with
  | ok _ after => simp only [runProgram, Eval.runProgram, hsame, hrun]
  | error stop after => simp only [runProgram, Eval.runProgram, hsame, hrun]

/-! ### Moments -/

/-- The code at this moment finds its names from where it runs. -/
inductive Walkable (table : Table) : Moment → Prop
  | evaluate {bound : Nat} {expr : Expr} {machine : Machine} {plans : Plans} {frames : Frames}
      (poised : Poised table plans machine frames) (walks : WalksExpr table frames expr) :
      Walkable table ⟨bound, .evaluate expr, machine⟩
  | evaluateAll {bound : Nat} {exprs : List Expr} {machine : Machine} {plans : Plans}
      {frames : Frames} (poised : Poised table plans machine frames)
      (walks : WalksExprs table frames exprs) :
      Walkable table ⟨bound, .evaluateAll exprs, machine⟩
  | call {bound : Nat} {callee : Callable} {arguments : List Value} {paren : Token}
      {machine : Machine} {plans : Plans} (laid : Laid table plans machine)
      (placed : PlacedCallable table plans machine.scopes callee)
      (arity : arguments.length = callee.arity)
      (values : ∀ value ∈ arguments, PlacedValue table plans machine.scopes value) :
      Walkable table ⟨bound, .call callee arguments paren, machine⟩
  | execute {bound : Nat} {stmt : Stmt} {machine : Machine} {plans : Plans} {frames : Frames}
      (poised : Poised table plans machine frames) (walks : WalksStmt table frames stmt) :
      Walkable table ⟨bound, .execute stmt, machine⟩
  | executeAll {bound : Nat} {stmts : List Stmt} {machine : Machine} {plans : Plans}
      {frames : Frames} (poised : Poised table plans machine frames)
      (walks : WalksStmts table frames stmts) :
      Walkable table ⟨bound, .executeAll stmts, machine⟩
  | inScope {bound scope : Nat} {stmts : List Stmt} {machine : Machine} {plans : Plans}
      {frames : Frames} (poised : Poised table plans { machine with current := scope } frames)
      (walks : WalksStmts table frames stmts) :
      Walkable table ⟨bound, .inScope scope stmts, machine⟩
  | program {bound : Nat} {stmts : List Stmt} {machine : Machine} {plans : Plans}
      (poised : Poised table plans machine []) (walks : WalksStmts table [] stmts) :
      Walkable table ⟨bound, .program stmts, machine⟩

namespace Walkable

variable {table : Table} {moment next : Moment}

theorem walk_eq_run (h : Walkable table moment) :
    moment.task.walk moment.bound moment.machine =
      moment.task.run moment.bound moment.machine := by
  cases h with
  | evaluate hpoised hwalks => exact ((agreesAt table _).evaluate hpoised hwalks).eq
  | evaluateAll hpoised hwalks => exact ((agreesAt table _).evaluateAll hpoised hwalks).eq
  | call hlaid hplaced harity hvalues =>
      exact ((agreesAt table _).call hlaid hplaced harity hvalues).eq
  | execute hpoised hwalks => exact ((agreesAt table _).execute hpoised hwalks).eq
  | executeAll hpoised hwalks => exact ((agreesAt table _).executeAll hpoised hwalks).eq
  | inScope hpoised hwalks => exact ((agreesAt table _).executeAll hpoised hwalks).within.eq
  | program hpoised hwalks => exact (agreed_runAll hpoised hwalks).eq

section Parts

variable {plans : Plans} {machine after : Machine} {frames : Frames} {bound : Nat}

/-! ### Behind a part that has ended well -/

theorem after_evaluate {expr : Expr} {value : Value} (h : Poised table plans machine frames)
    (hexpr : WalksExpr table frames expr)
    (hvalue : Eval.evaluate bound expr machine = .ok value after) :
    ∃ plans', Poised table plans' after frames ∧ PlacedValue table plans' after.scopes value := by
  have hagreed := (agreesAt table bound).evaluate h hexpr
  rw [hvalue] at hagreed
  obtain ⟨plans', hgrown, hlaid, hplaced⟩ := hagreed.of_ok
  exact ⟨plans', h.grow hgrown hlaid, hplaced⟩

theorem after_execute {stmt : Stmt} {flow : Flow Value} (h : Poised table plans machine frames)
    (hstmt : WalksStmt table frames stmt)
    (hflow : Eval.execute bound stmt machine = .ok flow after) :
    ∃ plans', Poised table plans' after (frames.after stmt) := by
  have hagreed := (agreesAt table bound).execute h hstmt
  rw [hflow] at hagreed
  obtain ⟨plans', hgrown, hlaid, -, hchain⟩ := hagreed.of_ok
  rw [← hgrown.restored.current] at hchain
  exact ⟨plans', hlaid, hchain⟩

/-! ### The moments that are entered -/

theorem of_evaluate {expr : Expr} (h : Poised table plans machine frames)
    (hexpr : WalksExpr table frames expr)
    (hnext : Enters ⟨bound, .evaluate expr, machine⟩ next) : Walkable table next := by
  cases hnext with
  | group inner => exact .evaluate h hexpr
  | operand operator operand => exact .evaluate h hexpr
  | left left operator right => exact .evaluate h hexpr.1
  | right operator right hleft =>
      obtain ⟨_, h', _⟩ := after_evaluate h hexpr.1 hleft
      exact .evaluate h' hexpr.2
  | deciding left operator right => exact .evaluate h hexpr.1
  | undecided right hleft hopen =>
      obtain ⟨_, h', _⟩ := after_evaluate h hexpr.1 hleft
      exact .evaluate h' hexpr.2
  | assigned id name value => exact .evaluate h hexpr.1
  | callee callee paren arguments => exact .evaluate h hexpr.1
  | arguments paren arguments hcallee =>
      obtain ⟨_, h', _⟩ := after_evaluate h hexpr.1 hcallee
      exact .evaluateAll h' hexpr.2
  | @called bound _ _ after checked _ target paren _ values _ hcallee harguments hfunction =>
      obtain ⟨plans', h', hplaced⟩ := after_evaluate h hexpr.1 hcallee
      have hagreed := (agreesAt table bound).evaluateAll h' hexpr.2
      rw [harguments] at hagreed
      obtain ⟨plans'', hgrown, hlaid, hvalues⟩ := hagreed.of_ok
      have hchecked := Agreed.checkCall hlaid (hplaced.grow h'.laid hgrown) values paren
      rw [hfunction] at hchecked
      obtain ⟨plans3, hgrown', hlaid', hcallable, harity⟩ := hchecked.of_ok
      have hvalues' : ∀ value ∈ values, PlacedValue table plans3 checked.scopes value :=
        fun value hvalue => (hvalues value hvalue).grow hlaid hgrown'
      exact .call { hlaid' with } hcallable harity hvalues'

theorem of_evaluateAll {exprs : List Expr} (h : Poised table plans machine frames)
    (hexprs : WalksExprs table frames exprs)
    (hnext : Enters ⟨bound, .evaluateAll exprs, machine⟩ next) : Walkable table next := by
  cases hnext with
  | firstValue first rest => exact .evaluate h hexprs.1
  | moreValues rest hfirst =>
      obtain ⟨_, h', _⟩ := after_evaluate h hexprs.1 hfirst
      exact .evaluateAll h' hexprs.2

theorem of_call {callee : Callable} {arguments : List Value} {paren : Token}
    (hlaid : Laid table plans machine)
    (hplaced : PlacedCallable table plans machine.scopes callee)
    (harity : arguments.length = callee.arity)
    (harguments : ∀ value ∈ arguments, PlacedValue table plans machine.scopes value)
    (hnext : Enters ⟨bound, .call callee arguments paren, machine⟩ next) :
    Walkable table next := by
  cases hnext with
  | @functionBody _ frame _ opened function _ _ hframe =>
      have hfunction : PlacedClosure table plans machine.scopes function := hplaced
      obtain ⟨_, _, _, hlaid', hchain, hbody⟩ :=
        hfunction.openFrame hlaid harity harguments hframe
      exact .inScope ⟨{ hlaid' with }, hchain⟩ hbody

theorem of_execute {stmt : Stmt} (h : Poised table plans machine frames)
    (hstmt : WalksStmt table frames stmt)
    (hnext : Enters ⟨bound, .execute stmt, machine⟩ next) : Walkable table next := by
  cases hnext with
  | expression value => exact .evaluate h hstmt
  | printed value => exact .evaluate h hstmt
  | initial name initial => exact .evaluate h hstmt.2
  | blockBody body hscope =>
      cases hscope
      have hlaid := h.laid.child (frameOf [] body).planned machine.current
      exact .inScope ⟨{ hlaid with }, h.chain.child h.laid _⟩ hstmt
  | branching condition whenTrue whenFalse =>
      cases whenFalse with
      | none => exact .evaluate h hstmt.1
      | some _ => exact .evaluate h hstmt.1
  | whenTrue whenTrue whenFalse hcondition htruthy =>
      cases whenFalse with
      | none =>
          obtain ⟨_, h', _⟩ := after_evaluate h hstmt.1 hcondition
          exact .execute h' hstmt.2.2
      | some _ =>
          obtain ⟨_, h', _⟩ := after_evaluate h hstmt.1 hcondition
          exact .execute h' hstmt.2.1.2
  | whenFalse whenTrue other hcondition htruthy =>
      obtain ⟨_, h', _⟩ := after_evaluate h hstmt.1 hcondition
      exact .execute h' hstmt.2.2.2
  | looping condition body => exact .evaluate h hstmt.1
  | loopBody body hcondition htruthy =>
      obtain ⟨_, h', _⟩ := after_evaluate h hstmt.1 hcondition
      exact .execute h' hstmt.2.2
  | loopAgain hcondition htruthy hbody =>
      obtain ⟨_, h', _⟩ := after_evaluate h hstmt.1 hcondition
      obtain ⟨_, h''⟩ := after_execute h' hstmt.2.2 hbody
      rw [Frames.after_of_none hstmt.2.1] at h''
      exact .execute h'' hstmt
  | leaving keyword value => exact .evaluate h hstmt

theorem of_executeAll {stmts : List Stmt} (h : Poised table plans machine frames)
    (hstmts : WalksStmts table frames stmts)
    (hnext : Enters ⟨bound, .executeAll stmts, machine⟩ next) : Walkable table next := by
  cases hnext with
  | firstStmt first rest => exact .execute h hstmts.1
  | moreStmts rest hfirst =>
      obtain ⟨_, h'⟩ := after_execute h hstmts.1 hfirst
      exact .executeAll h' hstmts.2

theorem of_program {stmts : List Stmt} (h : Poised table plans machine [])
    (hstmts : WalksStmts table [] stmts)
    (hnext : Enters ⟨bound, .program stmts, machine⟩ next) : Walkable table next := by
  cases hnext with
  | firstOfProgram first rest => exact .execute h hstmts.1
  | moreOfProgram rest hfirst =>
      obtain ⟨_, h'⟩ := after_execute h hstmts.1 hfirst
      rw [Frames.after_nil] at h'
      exact .program h' (Frames.after_nil _ ▸ hstmts.2)

end Parts

/-- The code of such a moment is made of such parts, and so is the code that it calls. -/
theorem enters (h : Walkable table moment) (hnext : Enters moment next) :
    Walkable table next := by
  cases h with
  | evaluate hpoised hwalks => exact of_evaluate hpoised hwalks hnext
  | evaluateAll hpoised hwalks => exact of_evaluateAll hpoised hwalks hnext
  | call hlaid hplaced harity hvalues => exact of_call hlaid hplaced harity hvalues hnext
  | execute hpoised hwalks => exact of_execute hpoised hwalks hnext
  | executeAll hpoised hwalks => exact of_executeAll hpoised hwalks hnext
  | inScope hpoised hwalks =>
      cases hnext with
      | inside stmts => exact .executeAll hpoised hwalks
  | program hpoised hwalks => exact of_program hpoised hwalks hnext

theorem reaches (h : Walkable table moment) (hnext : Reaches moment next) :
    Walkable table next := by
  induction hnext with
  | refl => exact h
  | tail _ hstep ih => exact ih.enters hstep

end Walkable

/-! ### Fresh sessions -/

theorem poised_initial (sink : Sink) (clock : Clock) (table : Table) :
    Poised (Table.empty.merge table) [[]] ((Machine.initial sink clock).addTable table) [] := by
  have hown := Machine.own?_initial sink clock
  refine ⟨⟨rfl, rfl, rfl, Nat.zero_lt_one, fun scope name hscope hbound => ?_,
    fun scope name value hvalue => ?_⟩, rfl⟩
  · change ((Machine.initial sink clock).scopes.own? scope name).isSome = true at hbound
    rw [hown, if_neg fun h => hscope h.1.symm] at hbound
    cases hbound
  · change (Machine.initial sink clock).scopes.own? scope name = some value at hvalue
    rw [hown] at hvalue
    split at hvalue
    · cases hvalue
      trivial
    · cases hvalue

end Scriptlet.Walk

namespace Scriptlet.Session

open Walk

/-- In a fresh session, an accepted program whose local scopes are orderly runs by the names
alone as it runs by the side table: it gives the same output and the same result, and at every
moment the part of the work that begins there ends in the same way, with the same contents of
every scope. -/
theorem run_eq_walk (sink : Sink) (clock : Clock) {source : String} {program : List Stmt} {m : Nat}
    {table : Table} (hread : readSource Reader.program 0 source = (.ok program, m))
    (hresolve : resolve program = .ok table) (hids : m ≤ UInt32.size)
    (horderly : Orderly program) (bound : Nat) :
    (initial sink clock).run bound source =
        act ⟨(Machine.initial sink clock).addTable table, m⟩ (Walk.runProgram bound program) ∧
      ∀ later,
        Reaches ⟨bound, .program program, (Machine.initial sink clock).addTable table⟩ later →
          later.task.walk later.bound later.machine = later.task.run later.bound later.machine := by
  obtain ⟨hformed, hnumbered⟩ := Grammar.derives_wellMade (Grammar.parse_program_sound
    (Source.scan_endsOnce source) (readSource_eq_ok_iff.mp hread).2)
  have hfresh : ∀ k, 0 ≤ k → k < UInt32.size → Table.empty.distance? (.ofCount k) = none :=
    fun k _ _ => Table.distance?_empty _
  obtain ⟨hfits, -, -⟩ := Lexical.fits_of_resolve hresolve hformed hnumbered hids hfresh
  have hwalks := walksStmts_of_program hfits horderly
  have hpoised := poised_initial sink clock table
  constructor
  · rw [run_of_read hread hresolve]
    have hsame := agreed_runProgram hpoised hwalks bound
    unfold act
    dsimp only [initial]
    rw [hsame]
  · intro later hlater
    have hwalkable : Walkable _ later := (Walkable.program hpoised hwalks).reaches hlater
    exact hwalkable.walk_eq_run

/-- A program that is read from the source is orderly. -/
def OrderlySource (source : String) : Prop :=
  ∀ program ∈ (readSource Reader.program 0 source).1.toOption, Orderly program

instance : DecidablePred OrderlySource := fun source =>
  inferInstanceAs
    (Decidable (∀ program ∈ (readSource Reader.program 0 source).1.toOption, Orderly program))

/-- A closure changes a parameter by a global, while a local of that name is in sight. -/
def steppingSource : String :=
  "var a = 1; fun make(n) \x7b fun next() \x7b n = n + a; return n; \x7d return next; \x7d " ++
    "\x7b var a = make(2); a(); print a(); \x7d"

theorem run_eq_walk_stepping :
    Incremental.Accepted steppingSource ∧ OrderlySource steppingSource ∧
      ∃ program m table, readSource Reader.program 0 steppingSource = (.ok program, m) ∧
        (initial .unlimited 0).run 100 steppingSource =
          act ⟨(Machine.initial .unlimited 0).addTable table, m⟩ (Walk.runProgram 100 program) := by
  have haccepted : Incremental.Accepted steppingSource := by decide +kernel
  have horderly : OrderlySource steppingSource := by decide +kernel
  have hids : (readSource Reader.program 0 steppingSource).2 ≤ UInt32.size := by decide +kernel
  obtain ⟨program, m, table, hread, hresolve⟩ := haccepted
  have hprogram : Orderly program := horderly program (by rw [hread]; rfl)
  rw [hread] at hids
  have hrun := run_eq_walk .unlimited 0 hread hresolve hids hprogram 100
  exact ⟨⟨program, m, table, hread, hresolve⟩, horderly, program, m, table, hread, hrun.1⟩

/-- Once the local is declared, its name no longer leads from the function to the global. -/
example :
    ¬ OrderlySource
      "var a = 1; \x7b fun show() \x7b print a; \x7d show(); var a = 2; show(); \x7d" := by
  decide +kernel

end Scriptlet.Session
