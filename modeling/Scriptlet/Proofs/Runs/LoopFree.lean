/-
Code without loops always ends.

Such code makes no more steps than it is long, but for its calls, and calls can be nested
only so deep.  So the steps that a run can still make are bounded by the length of the code
at hand and, for each call that may still be nested inside, the length of the longest body
of a function.  No body is longer than the code it was declared in, so that no run makes a
longer one.
-/
import Scriptlet.Proofs.Runs.Bounds
import Scriptlet.Proofs.Values

namespace Scriptlet

/-! ### Loop-free code and its length -/

mutual

def LoopFreeStmt : Stmt → Prop
  | .expression _ => True
  | .print _ => True
  | .declare _ _ => True
  | .block body => LoopFreeStmts body
  | .branch _ whenTrue none => LoopFreeStmt whenTrue
  | .branch _ whenTrue (some whenFalse) => LoopFreeStmt whenTrue ∧ LoopFreeStmt whenFalse
  | .loop _ _ => False
  | .function _ _ body => LoopFreeStmts body
  | .leave _ _ => True

def LoopFreeStmts : List Stmt → Prop
  | [] => True
  | first :: rest => LoopFreeStmt first ∧ LoopFreeStmts rest

end

mutual

/-- The steps that an evaluation makes, apart from those inside its calls. -/
def exprLength : Expr → Nat
  | .constant _ => 1
  | .group inner => exprLength inner + 1
  | .unary _ operand => exprLength operand + 1
  | .binary left _ right => exprLength left + exprLength right + 1
  | .logical left _ right => exprLength left + exprLength right + 1
  | .variable _ _ => 1
  | .assign _ _ value => exprLength value + 1
  | .call callee _ arguments => exprLength callee + exprsLength arguments + 1

def exprsLength : List Expr → Nat
  | [] => 1
  | first :: rest => exprLength first + exprsLength rest + 1

end

mutual

def stmtLength : Stmt → Nat
  | .expression value => exprLength value + 1
  | .print value => exprLength value + 1
  | .declare _ none => 1
  | .declare _ (some initial) => exprLength initial + 1
  | .block body => stmtsLength body + 1
  | .branch condition whenTrue none => exprLength condition + stmtLength whenTrue + 1
  | .branch condition whenTrue (some whenFalse) =>
      exprLength condition + stmtLength whenTrue + stmtLength whenFalse + 1
  | .loop condition body => exprLength condition + stmtLength body + 1
  | .function _ _ body => stmtsLength body + 1
  | .leave _ none => 1
  | .leave _ (some value) => exprLength value + 1

def stmtsLength : List Stmt → Nat
  | [] => 1
  | first :: rest => stmtLength first + stmtsLength rest + 1

end

/-- Loop-free code of no more than a certain length. -/
def ShortStmt (limit : Nat) (stmt : Stmt) : Prop :=
  LoopFreeStmt stmt ∧ stmtLength stmt ≤ limit

def ShortStmts (limit : Nat) (stmts : List Stmt) : Prop :=
  LoopFreeStmts stmts ∧ stmtsLength stmts ≤ limit

/-- If the value is a closure, its body is short. -/
def ShortValue (limit : Nat) : Value → Prop
  | .closure function => ShortStmts limit function.body
  | _ => True

def ShortCallable (limit : Nat) : Callable → Prop
  | .closure function => ShortStmts limit function.body
  | .host _ => True

def ShortFlow (limit : Nat) : Flow Value → Prop
  | .normal => True
  | .leave value => ShortValue limit value

/-- All closures in the scopes have short bodies. -/
def ShortScopes (limit : Nat) (tree : ScopeTree Value) : Prop :=
  ∀ scope name value, tree.own? scope name = some value → ShortValue limit value

section Short

variable {limit : Nat} {tree : ScopeTree Value}

theorem ShortStmts.head {first : Stmt} {rest : List Stmt} (h : ShortStmts limit (first :: rest)) :
    ShortStmt limit first := by
  obtain ⟨⟨hfree, -⟩, hlength⟩ := h
  simp only [stmtsLength] at hlength
  exact ⟨hfree, by omega⟩

theorem ShortStmts.tail {first : Stmt} {rest : List Stmt} (h : ShortStmts limit (first :: rest)) :
    ShortStmts limit rest := by
  obtain ⟨⟨-, hfree⟩, hlength⟩ := h
  simp only [stmtsLength] at hlength
  exact ⟨hfree, by omega⟩

theorem shortValue_of_ne_closure {value : Value} (h : ∀ function, value ≠ .closure function) :
    ShortValue limit value := by
  cases value with
  | closure function => exact absurd rfl (h function)
  | _ => trivial

theorem shortValue_of_constant (value : Constant) : ShortValue limit (.ofConstant value) := by
  cases value <;> trivial

theorem ShortScopes.lookup? (h : ShortScopes limit tree) {scope : Nat} {name : String}
    {value : Value} (hvalue : tree.lookup? scope name = some value) : ShortValue limit value := by
  obtain ⟨holder, -, hown⟩ := Option.bind_eq_some_iff.mp hvalue
  exact h holder name value hown

theorem ShortScopes.readAt (h : ShortScopes limit tree) {scope distance : Nat} {name : String}
    {value : Value} (hvalue : tree.readAt scope distance name = .ok value) :
    ShortValue limit value := by
  unfold ScopeTree.readAt at hvalue
  cases htarget : tree.scopeAt scope distance with
  | error defect =>
      rw [htarget] at hvalue
      cases hvalue
  | ok target =>
      rw [htarget] at hvalue
      simp only [bind, Except.bind] at hvalue
      split at hvalue
      · next hown =>
          cases hvalue
          exact h target name value hown
      · cases hvalue

theorem ShortScopes.define (h : ShortScopes limit tree) (scope : Nat) (name : String)
    {value : Value} (hvalue : ShortValue limit value) :
    ShortScopes limit (tree.define scope name value) := by
  intro other key found hfound
  rw [ScopeTree.own?_define] at hfound
  split at hfound
  · cases hfound
    exact hvalue
  · exact h other key found hfound

theorem ShortScopes.child (h : ShortScopes limit tree) (parent : Nat) :
    ShortScopes limit (tree.child parent) := by
  intro other key found hfound
  rw [ScopeTree.child, ScopeTree.own?_openScope] at hfound
  exact h other key found hfound

theorem ShortScopes.defineAll (h : ShortScopes limit tree) (scope : Nat) (names : List String)
    {values : List Value} (hvalues : ∀ value ∈ values, ShortValue limit value) :
    ShortScopes limit (tree.defineAll scope names values) := by
  have hpairs : ∀ pair ∈ names.zip values, ShortValue limit pair.2 :=
    fun pair hpair => hvalues pair.2 (List.of_mem_zip hpair).2
  unfold ScopeTree.defineAll
  generalize names.zip values = pairs at hpairs
  induction pairs generalizing tree with
  | nil => exact h
  | cons pair rest ih =>
      obtain ⟨hpair, hrest⟩ := List.forall_mem_cons.mp hpairs
      exact ih (h.define scope pair.1 hpair) hrest

end Short

/-! ### Runs that do not come to their bound -/

/-- The steps that the calls still to be nested may make. -/
def reserve (limit depth : Nat) : Nat :=
  (Eval.maxDepth - depth) * (limit + 1)

theorem reserve_of_lt (limit : Nat) {depth : Nat} (h : depth < Eval.maxDepth) :
    reserve limit depth = reserve limit (depth + 1) + (limit + 1) := by
  unfold reserve
  rw [← Nat.succ_mul]
  congr 1
  omega

/-- A machine at a depth of calls, all of whose closures are short. -/
structure Ready (limit depth : Nat) (machine : Machine) : Prop where
  depth : machine.depth = depth
  scopes : ShortScopes limit machine.scopes

/-- The end of a run that did not come to its bound: with a result as expected, at the same
depth, or with another stop; all closures are still short. -/
inductive Ended {α : Type} (limit depth : Nat) (Q : α → Prop) :
    EStateM.Result Stop Machine α → Prop
  | ok {value : α} {after : Machine} (result : Q value) (ready : Ready limit depth after) :
      Ended limit depth Q (.ok value after)
  | error {stop : Stop} {after : Machine} (bounded : stop ≠ .exhausted)
      (scopes : ShortScopes limit after.scopes) : Ended limit depth Q (.error stop after)

namespace Ended

open Eval

variable {α β : Type} {limit depth bound : Nat} {machine : Machine} {P : β → Prop} {Q : α → Prop}
  {action : Eval α} {next : α → Eval β}

theorem pure {value : α} (hready : Ready limit depth machine) (h : Q value) :
    Ended limit depth Q ((pure value : Eval α) machine) :=
  .ok h hready

theorem bind (h : Ended limit depth Q (action machine))
    (hnext : ∀ value after, Q value → Ready limit depth after →
      Ended limit depth P (next value after)) :
    Ended limit depth P ((action >>= next) machine) := by
  rw [bind_apply]
  generalize action machine = result at h
  cases h with
  | ok hresult hready => exact hnext _ _ hresult hready
  | error hbounded hscopes => exact .error hbounded hscopes

theorem fail (hready : Ready limit depth machine) (token : Token) (fault : RuntimeFault) :
    Ended limit depth Q (Eval.fail token fault machine) :=
  .error nofun hready.scopes

theorem lift (hready : Ready limit depth machine) (token : Token)
    {result : Except RuntimeFault α} (h : ∀ value, result = .ok value → Q value) :
    Ended limit depth Q (Eval.lift token result machine) := by
  cases result with
  | ok value => exact .ok (h value rfl) hready
  | error fault => exact fail hready token fault

theorem within {scope : Nat} (h : Ended limit depth Q (action { machine with current := scope })) :
    Ended limit depth Q (Eval.within scope action machine) := by
  unfold Eval.within
  dsimp only
  generalize action { machine with current := scope } = result at h
  cases h with
  | ok hresult hready => exact .ok hresult ⟨hready.depth, hready.scopes⟩
  | error hbounded hscopes => exact .error hbounded hscopes

theorem deeper
    (h : Ended limit (depth + 1) Q (action { machine with depth := machine.depth + 1 })) :
    Ended limit depth Q (Eval.deeper action machine) := by
  unfold Eval.deeper
  dsimp only [HasOutside.modifyOutside]
  generalize action { machine with depth := machine.depth + 1 } = result at h
  cases h with
  | ok hresult hready =>
      exact .ok hresult ⟨congrArg (· - 1) hready.depth, hready.scopes⟩
  | error hbounded hscopes => exact .error hbounded hscopes

theorem any {result : EStateM.Result Stop Machine α} (h : Ended limit depth Q result) :
    Ended limit depth (fun _ => True) result := by
  cases h with
  | ok _ hready => exact .ok trivial hready
  | error hbounded hscopes => exact .error hbounded hscopes

theorem scopes {result : EStateM.Result Stop Machine α} (h : Ended limit depth Q result) :
    ShortScopes limit (Eval.final result).scopes := by
  cases h with
  | ok _ hready => exact hready.scopes
  | error _ hscopes => exact hscopes

variable (hready : Ready limit depth machine)
include hready

theorem current : Ended limit depth (fun _ => True) ((get : Eval Machine) machine) :=
  .ok trivial hready

theorem freshIdentity :
    Ended limit depth (fun _ => True) ((Eval.freshIdentity : Eval Nat) machine) :=
  .ok trivial ⟨hready.depth, hready.scopes⟩

theorem printLine (text : String) :
    Ended limit depth (fun _ => True) (Eval.printLine text machine) := by
  unfold Eval.printLine
  dsimp only
  split
  · exact .ok trivial ⟨hready.depth, hready.scopes⟩
  · exact .error nofun hready.scopes

theorem callHost (function : HostFunction) {arguments : List Value}
    (harguments : ∀ value ∈ arguments, ShortValue limit value) (paren : Token) :
    Ended limit depth (ShortValue limit) (Eval.callHost function arguments paren machine) := by
  have hlater : Ready limit depth { machine with clock := machine.clock.later } :=
    ⟨hready.depth, hready.scopes⟩
  unfold Eval.callHost
  cases function.action with
  | clock => exact .ok trivial hlater
  | count => exact .ok trivial hlater
  | fail => exact .error nofun hready.scopes
  | echo =>
      refine .ok ?_ hlater
      cases arguments with
      | nil => trivial
      | cons first rest => exact harguments first List.mem_cons_self

theorem checkCall {callee : Value} (hcallee : ShortValue limit callee) (arguments : List Value)
    (paren : Token) :
    Ended limit depth (fun function => ShortCallable limit function ∧ depth < maxDepth)
      (Eval.checkCall callee arguments paren machine) := by
  unfold Eval.checkCall
  cases hfunction : callee.callable? with
  | none => exact fail hready paren _
  | some function =>
      have hshort : ShortCallable limit function := by
        cases callee with
        | closure closure =>
            cases hfunction
            exact hcallee
        | host host =>
            cases hfunction
            trivial
        | nil | bool _ | number _ | string _ => cases hfunction
      dsimp only
      split
      · exact fail hready paren _
      · split
        · exact fail hready paren _
        · next hdepth => exact .ok ⟨hshort, hready.depth ▸ Nat.lt_of_not_le hdepth⟩ hready

theorem readVariable (id : NodeId) (name : Token) :
    Ended limit depth (ShortValue limit) (Eval.readVariable id name machine) := by
  unfold Eval.readVariable
  split
  · split
    · next hvalue => exact .ok (hready.scopes.readAt hvalue) hready
    · exact .error nofun hready.scopes
  · split
    · next hvalue => exact .ok (hready.scopes.lookup? hvalue) hready
    · exact fail hready name _

theorem assignmentScope (id : NodeId) (name : Token) :
    Ended limit depth (fun _ => True) (Eval.assignmentScope id name machine) := by
  unfold Eval.assignmentScope
  split
  · split
    · exact .ok trivial hready
    · exact .error nofun hready.scopes
  · split
    · exact .ok trivial hready
    · exact fail hready name _

theorem define (name : String) {value : Value} (hvalue : ShortValue limit value) :
    Ended limit depth (fun _ => True) (Eval.define name value machine) :=
  .ok trivial ⟨hready.depth, hready.scopes.define _ name hvalue⟩

theorem writeVariable (id : NodeId) (name : Token) {value : Value}
    (hvalue : ShortValue limit value) :
    Ended limit depth (fun _ => True) (Eval.writeVariable id name value machine) := by
  unfold Eval.writeVariable
  refine (assignmentScope hready id name).bind fun target after _ hafter => ?_
  exact .ok trivial ⟨hafter.depth, hafter.scopes.define target name.lexeme hvalue⟩

theorem openScope (parent : Nat) :
    Ended limit depth (fun _ => True) (Eval.openScope parent machine) :=
  .ok trivial ⟨hready.depth, hready.scopes.child parent⟩

theorem openFrame (function : Closure) {arguments : List Value}
    (harguments : ∀ value ∈ arguments, ShortValue limit value) :
    Ended limit depth (fun _ => True) (Eval.openFrame function arguments machine) :=
  .ok trivial ⟨hready.depth, (hready.scopes.child function.scope).defineAll _ _ harguments⟩

end Ended

/-- With this bound, whatever is short enough ends. -/
structure EndsAt (limit bound : Nat) : Prop where
  evaluate : ∀ {expr machine depth}, Ready limit depth machine →
    exprLength expr + reserve limit depth ≤ bound →
    Ended limit depth (ShortValue limit) (Eval.evaluate bound expr machine)
  evaluateAll : ∀ {exprs machine depth}, Ready limit depth machine →
    exprsLength exprs + reserve limit depth ≤ bound →
    Ended limit depth (fun values => ∀ value ∈ values, ShortValue limit value)
      (Eval.evaluateAll bound exprs machine)
  call : ∀ {callee arguments paren machine depth}, Ready limit depth machine →
    ShortCallable limit callee → (∀ value ∈ arguments, ShortValue limit value) →
    limit + 1 + reserve limit depth ≤ bound →
    Ended limit depth (ShortValue limit) (Eval.call bound callee arguments paren machine)
  execute : ∀ {stmt machine depth}, Ready limit depth machine → ShortStmt limit stmt →
    stmtLength stmt + reserve limit depth ≤ bound →
    Ended limit depth (ShortFlow limit) (Eval.execute bound stmt machine)
  executeAll : ∀ {stmts machine depth}, Ready limit depth machine → ShortStmts limit stmts →
    stmtsLength stmts + reserve limit depth ≤ bound →
    Ended limit depth (ShortFlow limit) (Eval.executeAll bound stmts machine)

namespace EndsAt

variable {limit bound depth : Nat} {machine : Machine} (ih : EndsAt limit bound)
  (hready : Ready limit depth machine)
include ih hready

theorem evaluate_succ {expr : Expr} (henough : exprLength expr + reserve limit depth ≤ bound + 1) :
    Ended limit depth (ShortValue limit) (Eval.evaluate (bound + 1) expr machine) := by
  cases expr with
  | constant value => exact .pure hready (shortValue_of_constant value)
  | group inner =>
      simp only [exprLength] at henough
      exact ih.evaluate hready (by omega)
  | unary operator operand =>
      simp only [exprLength] at henough
      refine (ih.evaluate hready (by omega)).bind fun value after _ hafter => ?_
      exact .lift hafter operator fun _ h =>
        shortValue_of_ne_closure (Operator.unary_ne_closure h)
  | binary left operator right =>
      simp only [exprLength] at henough
      refine (ih.evaluate hready (by omega)).bind fun a between _ hbetween => ?_
      refine (ih.evaluate hbetween (by omega)).bind fun b after _ hafter => ?_
      exact .lift hafter operator fun _ h =>
        shortValue_of_ne_closure (Operator.binary_ne_closure h)
  | logical left operator right =>
      simp only [exprLength] at henough
      refine (ih.evaluate hready (by omega)).bind fun a after ha hafter => ?_
      split
      · exact .pure hafter ha
      · exact ih.evaluate hafter (by omega)
  | «variable» id name => exact .readVariable hready id name
  | assign id name value =>
      simp only [exprLength] at henough
      refine (ih.evaluate hready (by omega)).bind fun result between hresult hbetween => ?_
      refine (Ended.writeVariable hbetween id name hresult).bind fun _ after _ hafter => ?_
      exact .pure hafter hresult
  | call callee paren arguments =>
      simp only [exprLength] at henough
      refine (ih.evaluate hready (by omega)).bind fun target between htarget hbetween => ?_
      refine (ih.evaluateAll hbetween (by omega)).bind fun values after hvalues hafter => ?_
      refine (Ended.checkCall hafter htarget values paren).bind fun function checked hfunction
        hchecked => ?_
      have hreserve := reserve_of_lt limit hfunction.2
      have hdeeper : Ready limit (depth + 1) { checked with depth := checked.depth + 1 } :=
        ⟨congrArg (· + 1) hchecked.depth, hchecked.scopes⟩
      exact (ih.call hdeeper hfunction.1 hvalues (by omega)).deeper

theorem evaluateAll_succ {exprs : List Expr}
    (henough : exprsLength exprs + reserve limit depth ≤ bound + 1) :
    Ended limit depth (fun values => ∀ value ∈ values, ShortValue limit value)
      (Eval.evaluateAll (bound + 1) exprs machine) := by
  cases exprs with
  | nil => exact .pure hready nofun
  | cons first rest =>
      simp only [exprsLength] at henough
      refine (ih.evaluate hready (by omega)).bind fun value between hvalue hbetween => ?_
      refine (ih.evaluateAll hbetween (by omega)).bind fun values after hvalues hafter => ?_
      exact .pure hafter (List.forall_mem_cons.mpr ⟨hvalue, hvalues⟩)

theorem call_succ {callee : Callable} {arguments : List Value} {paren : Token}
    (hcallee : ShortCallable limit callee)
    (harguments : ∀ value ∈ arguments, ShortValue limit value)
    (henough : limit + 1 + reserve limit depth ≤ bound + 1) :
    Ended limit depth (ShortValue limit)
      (Eval.call (bound + 1) callee arguments paren machine) := by
  cases callee with
  | host function => exact .callHost hready function harguments paren
  | closure function =>
      have hbody : ShortStmts limit function.body := hcallee
      have hlength := hbody.2
      refine (Ended.openFrame hready function harguments).bind fun frame between _ hbetween => ?_
      have hinside : Ready limit depth { between with current := frame } :=
        ⟨hbetween.depth, hbetween.scopes⟩
      refine (ih.executeAll hinside hbody (by omega)).within.bind fun flow after hflow hafter => ?_
      cases flow with
      | leave value => exact .pure hafter hflow
      | normal => exact .pure hafter trivial

theorem execute_succ {stmt : Stmt} (hstmt : ShortStmt limit stmt)
    (henough : stmtLength stmt + reserve limit depth ≤ bound + 1) :
    Ended limit depth (ShortFlow limit) (Eval.execute (bound + 1) stmt machine) := by
  obtain ⟨hfree, hlength⟩ := hstmt
  cases stmt with
  | expression value =>
      simp only [stmtLength] at henough
      refine (ih.evaluate hready (by omega)).bind fun _ after _ hafter => ?_
      exact .pure hafter trivial
  | print value =>
      simp only [stmtLength] at henough
      refine (ih.evaluate hready (by omega)).bind fun result between _ hbetween => ?_
      refine (Ended.printLine hbetween _).bind fun _ after _ hafter => ?_
      exact .pure hafter trivial
  | declare name initial =>
      cases initial with
      | none =>
          have hnil : ShortValue limit .nil := trivial
          refine (Ended.define hready name.lexeme hnil).bind fun _ after _ hafter => ?_
          exact .pure hafter trivial
      | some initial =>
          simp only [stmtLength] at henough
          refine (ih.evaluate hready (by omega)).bind fun value between hvalue hbetween => ?_
          refine (Ended.define hbetween name.lexeme hvalue).bind fun _ after _ hafter => ?_
          exact .pure hafter trivial
  | block body =>
      simp only [stmtLength] at henough hlength
      refine (Ended.current hready).bind fun here between _ hbetween => ?_
      refine (Ended.openScope hbetween here.current).bind fun scope after _ hafter => ?_
      have hinside : Ready limit depth { after with current := scope } :=
        ⟨hafter.depth, hafter.scopes⟩
      exact (ih.executeAll hinside ⟨hfree, by omega⟩ (by omega)).within
  | branch condition whenTrue whenFalse =>
      cases whenFalse with
      | none =>
          simp only [stmtLength] at henough hlength
          refine (ih.evaluate hready (by omega)).bind fun value after _ hafter => ?_
          split
          · exact ih.execute hafter ⟨hfree, by omega⟩ (by omega)
          · exact .pure hafter trivial
      | some other =>
          simp only [stmtLength] at henough hlength
          refine (ih.evaluate hready (by omega)).bind fun value after _ hafter => ?_
          split
          · exact ih.execute hafter ⟨hfree.1, by omega⟩ (by omega)
          · exact ih.execute hafter ⟨hfree.2, by omega⟩ (by omega)
  | loop condition body => exact hfree.elim
  | function name params body =>
      simp only [stmtLength] at hlength
      have hbody : ShortStmts limit body := ⟨hfree, by omega⟩
      refine (Ended.freshIdentity hready).bind fun identity between _ hbetween => ?_
      refine (Ended.current hbetween).bind fun here after _ hafter => ?_
      have hclosure : ShortValue limit (.closure ⟨name, params, body, here.current, identity⟩) :=
        hbody
      refine (Ended.define hafter name.lexeme hclosure).bind fun _ later _ hlater => ?_
      exact .pure hlater trivial
  | leave keyword value =>
      cases value with
      | none => exact .pure hready trivial
      | some value =>
          simp only [stmtLength] at henough
          refine (ih.evaluate hready (by omega)).bind fun result after hresult hafter => ?_
          exact .pure hafter hresult

theorem executeAll_succ {stmts : List Stmt} (hstmts : ShortStmts limit stmts)
    (henough : stmtsLength stmts + reserve limit depth ≤ bound + 1) :
    Ended limit depth (ShortFlow limit) (Eval.executeAll (bound + 1) stmts machine) := by
  cases stmts with
  | nil => exact .pure hready trivial
  | cons first rest =>
      simp only [stmtsLength] at henough
      refine (ih.execute hready hstmts.head (by omega)).bind fun flow after hflow hafter => ?_
      cases flow with
      | leave value => exact .pure hafter hflow
      | normal => exact ih.executeAll hafter hstmts.tail (by omega)

end EndsAt

theorem EndsAt.succ {limit bound : Nat} (ih : EndsAt limit bound) : EndsAt limit (bound + 1) where
  evaluate hready := ih.evaluate_succ hready
  evaluateAll hready := ih.evaluateAll_succ hready
  call hready := ih.call_succ hready
  execute hready := ih.execute_succ hready
  executeAll hready := ih.executeAll_succ hready

theorem exprLength_pos (expr : Expr) : 0 < exprLength expr := by
  cases expr <;> exact Nat.succ_pos _

theorem exprsLength_pos (exprs : List Expr) : 0 < exprsLength exprs := by
  cases exprs <;> exact Nat.succ_pos _

theorem stmtLength_pos (stmt : Stmt) : 0 < stmtLength stmt := by
  cases stmt with
  | declare _ initial => cases initial <;> exact Nat.succ_pos _
  | branch _ _ whenFalse => cases whenFalse <;> exact Nat.succ_pos _
  | leave _ value => cases value <;> exact Nat.succ_pos _
  | _ => exact Nat.succ_pos _

theorem stmtsLength_pos (stmts : List Stmt) : 0 < stmtsLength stmts := by
  cases stmts <;> exact Nat.succ_pos _

theorem endsAt (limit bound : Nat) : EndsAt limit bound := by
  induction bound with
  | zero =>
      refine ⟨fun {expr _ _} _ h => ?_, fun {exprs _ _} _ h => ?_, fun _ _ _ h => ?_,
        fun {stmt _ _} _ _ h => ?_, fun {stmts _ _} _ _ h => ?_⟩
      · have hpos := exprLength_pos expr
        omega
      · have hpos := exprsLength_pos exprs
        omega
      · omega
      · have hpos := stmtLength_pos stmt
        omega
      · have hpos := stmtsLength_pos stmts
        omega
  | succ bound ih => exact ih.succ

theorem ended_runAll {limit bound depth : Nat} {program : List Stmt} {machine : Machine}
    (hready : Ready limit depth machine) (hprogram : ShortStmts limit program)
    (henough : stmtsLength program + reserve limit depth ≤ bound) :
    Ended limit depth (fun _ => True) (Eval.runAll bound program machine) := by
  induction program generalizing machine with
  | nil => exact .pure hready trivial
  | cons first rest ih =>
      simp only [stmtsLength] at henough
      refine ((endsAt limit bound).execute hready hprogram.head (by omega)).bind
        fun _ after _ hafter => ?_
      exact ih hafter hprogram.tail (by omega)

/-! ### A bound for all the code there is -/

def LoopFreeValue : Value → Prop
  | .closure function => LoopFreeStmts function.body
  | _ => True

def LoopFreeCallable : Callable → Prop
  | .closure function => LoopFreeStmts function.body
  | .host _ => True

/-- All functions that are stored in the scopes are loop-free. -/
def LoopFreeScopes (tree : ScopeTree Value) : Prop :=
  ∀ scope name value, tree.own? scope name = some value → LoopFreeValue value

def valueLength : Value → Nat
  | .closure function => stmtsLength function.body
  | _ => 0

def valuesLength : List Value → Nat
  | [] => 0
  | first :: rest => valueLength first + valuesLength rest

theorem shortValue_of_le {limit : Nat} {value : Value} (hfree : LoopFreeValue value)
    (hlength : valueLength value ≤ limit) : ShortValue limit value := by
  cases value with
  | closure function => exact ⟨hfree, hlength⟩
  | _ => trivial

theorem ShortValue.loopFree {limit : Nat} {value : Value} (h : ShortValue limit value) :
    LoopFreeValue value := by
  cases value with
  | closure function => exact h.1
  | _ => trivial

theorem valueLength_le_of_mem {value : Value} {values : List Value} (h : value ∈ values) :
    valueLength value ≤ valuesLength values := by
  induction values with
  | nil => cases h
  | cons first rest ih =>
      rw [valuesLength]
      rcases List.mem_cons.mp h with rfl | h
      · exact Nat.le_add_right _ _
      · exact Nat.le_trans (ih h) (Nat.le_add_left _ _)

theorem shortValues_of_le {limit : Nat} {values : List Value}
    (hfree : ∀ value ∈ values, LoopFreeValue value)
    (hlength : valuesLength values ≤ limit) :
    ∀ value ∈ values, ShortValue limit value :=
  fun value hvalue => shortValue_of_le (hfree value hvalue)
    (Nat.le_trans (valueLength_le_of_mem hvalue) hlength)

namespace ScopeTree

variable {tree : ScopeTree Value} {value : Value}

/-- The values that are bound in a tree of scopes. -/
def values (tree : ScopeTree Value) : List Value :=
  tree.scopes.toList.flatMap fun scope => scope.bindings.map Prod.snd

theorem mem_values_of_own? {scope : Nat} {name : String} (h : tree.own? scope name = some value) :
    value ∈ tree.values := by
  obtain ⟨found, hfound, hlookup⟩ := Option.bind_eq_some_iff.mp h
  obtain ⟨before, after, hbindings, -⟩ := List.lookup_eq_some_iff.mp hlookup
  refine List.mem_flatMap.mpr
    ⟨found, Array.mem_toList_iff.mpr (Array.mem_of_getElem? hfound), ?_⟩
  rw [hbindings]
  exact List.mem_map.mpr ⟨(name, value), List.mem_append_right _ List.mem_cons_self, rfl⟩

end ScopeTree

namespace Task

/-- The work is on loop-free code. -/
def LoopFree : Task → Prop
  | evaluate _ => True
  | evaluateAll _ => True
  | call callee arguments _ => LoopFreeCallable callee ∧ ∀ value ∈ arguments, LoopFreeValue value
  | execute stmt => LoopFreeStmt stmt
  | executeAll stmts => LoopFreeStmts stmts
  | inScope _ stmts => LoopFreeStmts stmts
  | program stmts => LoopFreeStmts stmts

/-- The work is on loop-free code of no more than a certain length. -/
def Short (limit : Nat) : Task → Prop
  | evaluate expr => exprLength expr ≤ limit
  | evaluateAll exprs => exprsLength exprs ≤ limit
  | call callee arguments _ =>
      ShortCallable limit callee ∧ ∀ value ∈ arguments, ShortValue limit value
  | execute stmt => ShortStmt limit stmt
  | executeAll stmts => ShortStmts limit stmts
  | inScope _ stmts => ShortStmts limit stmts
  | program stmts => ShortStmts limit stmts

theorem ended_run {limit bound depth : Nat} {task : Task} {machine : Machine}
    (hready : Ready limit depth machine) (htask : task.Short limit)
    (hbound : limit + 1 + reserve limit depth ≤ bound) :
    Ended limit depth (fun _ => True) (task.run bound machine) := by
  have henough : ∀ {length}, length ≤ limit → length + reserve limit depth ≤ bound := by
    intro length hlength
    omega
  have hends := endsAt limit bound
  cases task with
  | evaluate expr => exact (hends.evaluate hready (henough htask)).any
  | evaluateAll exprs => exact (hends.evaluateAll hready (henough htask)).any
  | call callee arguments paren => exact (hends.call hready htask.1 htask.2 hbound).any
  | execute stmt => exact (hends.execute hready htask (henough htask.2)).any
  | executeAll stmts => exact (hends.executeAll hready htask (henough htask.2)).any
  | inScope scope stmts =>
      have hinside : Ready limit depth { machine with current := scope } :=
        ⟨hready.depth, hready.scopes⟩
      exact (hends.executeAll hinside htask (henough htask.2)).within.any
  | program stmts => exact ended_runAll hready htask (henough htask.2)

/-- The lengths of the code at hand and of all bodies of functions. -/
def lengths (task : Task) (machine : Machine) : Nat :=
  valuesLength machine.scopes.values +
    match task with
    | evaluate expr => exprLength expr
    | evaluateAll exprs => exprsLength exprs
    | call (.closure function) arguments _ =>
        stmtsLength function.body + valuesLength arguments
    | call (.host _) arguments _ => valuesLength arguments
    | execute stmt => stmtLength stmt
    | executeAll stmts => stmtsLength stmts
    | inScope _ stmts => stmtsLength stmts
    | program stmts => stmtsLength stmts

theorem LoopFree.short {task : Task} (h : task.LoopFree) (machine : Machine) :
    task.Short (task.lengths machine) := by
  cases task with
  | evaluate expr => exact Nat.le_add_left _ _
  | evaluateAll exprs => exact Nat.le_add_left _ _
  | execute stmt => exact ⟨h, Nat.le_add_left _ _⟩
  | executeAll stmts => exact ⟨h, Nat.le_add_left _ _⟩
  | inScope scope stmts => exact ⟨h, Nat.le_add_left _ _⟩
  | program stmts => exact ⟨h, Nat.le_add_left _ _⟩
  | call callee arguments paren =>
      cases callee with
      | host function => exact ⟨trivial, shortValues_of_le h.2 (Nat.le_add_left _ _)⟩
      | closure function =>
          refine ⟨⟨h.1, ?_⟩, shortValues_of_le h.2 ?_⟩
          · simp only [lengths]
            omega
          · simp only [lengths]
            omega

/-- Loop-free work ends, where all functions that it can call are loop-free, and leaves only
such functions behind.  It does the same with every bound that is large enough. -/
theorem run_of_loopFree {task : Task} {machine : Machine} (htask : task.LoopFree)
    (hscopes : LoopFreeScopes machine.scopes) :
    ∃ enough, ∀ bound, enough ≤ bound →
      task.run bound machine = task.run enough machine ∧
        (∀ after, task.run bound machine ≠ .error .exhausted after) ∧
        LoopFreeScopes (Eval.final (task.run bound machine)).scopes := by
  have hshort : ShortScopes (task.lengths machine) machine.scopes := by
    intro scope name value hvalue
    have hlength := valueLength_le_of_mem (ScopeTree.mem_values_of_own? hvalue)
    exact shortValue_of_le (hscopes scope name value hvalue)
      (Nat.le_trans hlength (Nat.le_add_right _ _))
  have hends : ∀ bound, task.lengths machine + 1 + reserve (task.lengths machine) machine.depth ≤
      bound → Ended (task.lengths machine) machine.depth (fun _ => True)
        (task.run bound machine) :=
    fun bound hbound => ended_run ⟨rfl, hshort⟩ (LoopFree.short htask machine) hbound
  have hbounded : ∀ bound, task.lengths machine + 1 +
      reserve (task.lengths machine) machine.depth ≤ bound →
      ∀ after, task.run bound machine ≠ .error .exhausted after := by
    intro bound hbound after hexhausted
    have hended := hends bound hbound
    rw [hexhausted] at hended
    cases hended with
    | error hne _ => exact hne rfl
  refine ⟨_, fun bound hbound => ⟨?_, hbounded bound hbound, ?_⟩⟩
  · apply run_of_le hbound
    rintro ⟨after, hafter⟩
    exact hbounded _ (Nat.le_refl _) after hafter
  · intro scope name value hvalue
    exact ((hends bound hbound).scopes scope name value hvalue).loopFree

end Task

end Scriptlet
