/-
Running by the names and running by the side table are the same, where code runs in a chain
of scopes that its frames describe.
-/
import Scriptlet.Proofs.Values
import Scriptlet.Proofs.Walk.Chains
import Scriptlet.Proofs.Walk.Evaluate

namespace Scriptlet.Walk

open Binding Lexical

/-- Code with these frames around it may run here. -/
structure Poised (table : Table) (plans : Plans) (machine : Machine) (frames : Frames) :
    Prop where
  laid : Laid table plans machine
  chain : Chain plans machine.scopes machine.current frames

theorem Poised.grow {table : Table} {plans plans' : Plans} {machine machine' : Machine}
    {frames : Frames} (h : Poised table plans machine frames)
    (hgrown : Grown plans machine plans' machine') (hlaid : Laid table plans' machine') :
    Poised table plans' machine' frames := by
  refine ⟨hlaid, ?_⟩
  rw [hgrown.restored.current]
  exact h.chain.grow h.laid hgrown

/-- Both runs end alike, and if they end well, what has grown is laid out and the result meets
the condition. -/
inductive Agreed {α : Type} (table : Table) (plans : Plans) (machine : Machine)
    (Post : Plans → ScopeTree Value → α → Prop) :
    EStateM.Result Stop Machine α → EStateM.Result Stop Machine α → Prop
  | ok {plans' : Plans} {machine' : Machine} {value : α}
      (grown : Grown plans machine plans' machine') (laid : Laid table plans' machine')
      (post : Post plans' machine'.scopes value) :
      Agreed table plans machine Post (.ok value machine') (.ok value machine')
  | error {machine' : Machine} {stop : Stop} :
      Agreed table plans machine Post (.error stop machine') (.error stop machine')

namespace Agreed

variable {α β : Type} {table : Table} {plans plans' : Plans} {machine machine' : Machine}
  {P : Plans → ScopeTree Value → α → Prop} {Q : Plans → ScopeTree Value → β → Prop}
  {walk run : Eval α} {walkNext runNext : α → Eval β}

theorem eq {result result' : EStateM.Result Stop Machine α}
    (h : Agreed table plans machine P result result') : result = result' := by
  cases h with
  | ok _ _ _ => rfl
  | error => rfl

theorem of_ok {result : EStateM.Result Stop Machine α} {value : α}
    (h : Agreed table plans machine P result (.ok value machine')) :
    ∃ plans', Grown plans machine plans' machine' ∧ Laid table plans' machine' ∧
      P plans' machine'.scopes value := by
  cases h with
  | ok hgrown hlaid hpost => exact ⟨_, hgrown, hlaid, hpost⟩

theorem weaken {P' : Plans → ScopeTree Value → α → Prop}
    {result result' : EStateM.Result Stop Machine α}
    (h : Agreed table plans machine P result result')
    (himp : ∀ {plans' machine' value}, Grown plans machine plans' machine' →
      P plans' machine'.scopes value → P' plans' machine'.scopes value) :
    Agreed table plans machine P' result result' := by
  cases h with
  | ok hgrown hlaid hpost => exact .ok hgrown hlaid (himp hgrown hpost)
  | error => exact .error

theorem since {result result' : EStateM.Result Stop Machine α}
    (h : Agreed table plans' machine' P result result')
    (hgrown : Grown plans machine plans' machine') :
    Agreed table plans machine P result result' := by
  cases h with
  | ok hgrown' hlaid hpost => exact .ok (hgrown.trans hgrown') hlaid hpost
  | error => exact .error

theorem bind (h : Agreed table plans machine P (walk machine) (run machine))
    (hnext : ∀ {plans' machine' value}, Grown plans machine plans' machine' →
      Laid table plans' machine' → P plans' machine'.scopes value →
        Agreed table plans' machine' Q (walkNext value machine') (runNext value machine')) :
    Agreed table plans machine Q ((walk >>= walkNext) machine) ((run >>= runNext) machine) := by
  rw [Eval.bind_apply, Eval.bind_apply]
  generalize walk machine = result at h
  generalize run machine = result' at h
  cases h with
  | ok hgrown hlaid hpost => exact (hnext hgrown hlaid hpost).since hgrown
  | error => exact .error

theorem within {scope : Nat}
    (h : Agreed table plans { machine with current := scope } P
      (walk { machine with current := scope }) (run { machine with current := scope })) :
    Agreed table plans machine P (Eval.within scope walk machine)
      (Eval.within scope run machine) := by
  unfold Eval.within
  dsimp only
  generalize walk { machine with current := scope } = result at h
  generalize run { machine with current := scope } = result' at h
  cases h with
  | ok hgrown hlaid hpost =>
      exact .ok ⟨hgrown.kept, Restored.carried.within scope hgrown.restored⟩ { hlaid with } hpost
  | error => exact .error

theorem deeper
    (h : Agreed table plans { machine with depth := machine.depth + 1 } P
      (walk { machine with depth := machine.depth + 1 })
      (run { machine with depth := machine.depth + 1 })) :
    Agreed table plans machine P (Eval.deeper walk machine) (Eval.deeper run machine) := by
  unfold Eval.deeper
  dsimp only [HasOutside.modifyOutside]
  generalize walk { machine with depth := machine.depth + 1 } = result at h
  generalize run { machine with depth := machine.depth + 1 } = result' at h
  cases h with
  | ok hgrown hlaid hpost =>
      exact .ok ⟨hgrown.kept, Restored.carried.deeper hgrown.restored⟩ { hlaid with } hpost
  | error => exact .error

variable (hlaid : Laid table plans machine)
include hlaid

theorem pure {value : α} (h : P plans machine.scopes value) :
    Agreed table plans machine P ((Pure.pure value : Eval α) machine)
      ((Pure.pure value : Eval α) machine) :=
  .ok (.refl _ _) hlaid h

theorem lift (token : Token) {result : Except RuntimeFault α}
    (h : ∀ value, result = .ok value → P plans machine.scopes value) :
    Agreed table plans machine P (Eval.lift token result machine)
      (Eval.lift token result machine) := by
  cases result with
  | ok value => exact pure hlaid (h value rfl)
  | error fault => exact .error

theorem freshIdentity :
    Agreed table plans machine (fun _ _ _ => True) ((Eval.freshIdentity : Eval Nat) machine)
      ((Eval.freshIdentity : Eval Nat) machine) :=
  .ok ⟨List.prefix_refl _, { Restored.refl machine with }⟩ { hlaid with } trivial

theorem printLine (text : String) :
    Agreed table plans machine (fun _ _ _ => True) (Eval.printLine text machine)
      (Eval.printLine text machine) := by
  unfold Eval.printLine
  dsimp only
  split
  · exact .ok ⟨List.prefix_refl _, Restored.carried.write machine _⟩ { hlaid with } trivial
  · exact .error

theorem callHost (function : HostFunction) {arguments : List Value}
    (harguments : ∀ value ∈ arguments, PlacedValue table plans machine.scopes value)
    (paren : Token) :
    Agreed table plans machine (PlacedValue table) (Eval.callHost function arguments paren machine)
      (Eval.callHost function arguments paren machine) := by
  have hgrown : Grown plans machine plans { machine with clock := machine.clock.later } :=
    ⟨List.prefix_refl _, Restored.carried.tick machine⟩
  have hlater : Laid table plans { machine with clock := machine.clock.later } := { hlaid with }
  unfold Eval.callHost
  cases function.action with
  | clock => exact .ok hgrown hlater trivial
  | count => exact .ok hgrown hlater trivial
  | fail => exact .error
  | echo =>
      refine .ok hgrown hlater ?_
      cases arguments with
      | nil => trivial
      | cons first rest => exact harguments first List.mem_cons_self

theorem checkCall {callee : Value} (hcallee : PlacedValue table plans machine.scopes callee)
    (arguments : List Value) (paren : Token) :
    Agreed table plans machine
      (fun plans tree function =>
        PlacedCallable table plans tree function ∧ arguments.length = function.arity)
      (Eval.checkCall callee arguments paren machine)
      (Eval.checkCall callee arguments paren machine) := by
  unfold Eval.checkCall
  cases hfunction : callee.callable? with
  | none => exact .error
  | some function =>
      have hplaced : PlacedCallable table plans machine.scopes function := by
        cases callee with
        | closure closure =>
            cases hfunction
            exact hcallee
        | host host =>
            cases hfunction
            trivial
        | nil | bool _ | number _ | string _ => cases hfunction
      dsimp only
      by_cases harity : arguments.length = function.arity
      · rw [if_neg (not_not_intro harity)]
        split
        · exact .error
        · exact .ok (.refl _ _) hlaid ⟨hplaced, harity⟩
      · rw [if_pos harity]
        exact .error

end Agreed

/-! ### Variables -/

section Variables

variable {table : Table} {plans : Plans} {machine : Machine} {frames : Frames} {id : NodeId}
  {name : Token} (h : Poised table plans machine frames)
include h

theorem agreed_readVariable (hleads : Leads table frames id name) :
    Agreed table plans machine (PlacedValue table) (readVariable name machine)
      (Eval.readVariable id name machine) := by
  obtain ⟨htable, hclear⟩ := hleads
  cases hdistance : distance? frames.scopes name.lexeme with
  | none =>
      rw [hdistance, ← h.laid.sameTable] at htable
      have hlookup : machine.scopes.lookup? machine.current name.lexeme =
          machine.scopes.lookup? Machine.globals name.lexeme := by
        rw [ScopeTree.lookup?, h.chain.find_global h.laid hclear hdistance, ← ScopeTree.lookup?]
      simp only [readVariable, Eval.readVariable, htable, hlookup]
      cases hvalue : machine.scopes.lookup? Machine.globals name.lexeme with
      | none => exact .error
      | some value =>
          rw [lookup?_of_root h.laid.root] at hvalue
          exact .ok (.refl _ _) h.laid (h.laid.placed _ _ value hvalue)
  | some distance =>
      rw [hdistance, ← h.laid.sameTable] at htable
      obtain ⟨holder, hancestor, hholder, hbound⟩ := h.chain.find h.laid hclear hdistance
      obtain ⟨value, hvalue⟩ := Option.isSome_iff_exists.mp hbound
      have hlookup : machine.scopes.lookup? machine.current name.lexeme = some value := by
        rw [ScopeTree.lookup?, hholder, Option.bind_some, hvalue]
      have hread : machine.scopes.readAt machine.current distance name.lexeme = .ok value := by
        simp only [ScopeTree.readAt, ScopeTree.scopeAt, hancestor]
        dsimp only [bind, Except.bind]
        rw [hvalue]
        rfl
      simp only [readVariable, Eval.readVariable, htable, hlookup, hread]
      exact .ok (.refl _ _) h.laid (h.laid.placed _ _ value hvalue)

/-- A scope that binds a name has planned it. -/
theorem agreed_bind {value : Value} (hvalue : PlacedValue table plans machine.scopes value)
    {holder : Nat} (hbound : (machine.scopes.own? holder name.lexeme).isSome = true) :
    Agreed table plans machine (fun _ _ _ => True)
      (.ok () (machine.bind holder name.lexeme value))
      (.ok () (machine.bind holder name.lexeme value)) := by
  have hgrown := Grown.bind plans machine holder name.lexeme value
  refine .ok hgrown (h.laid.bind (hvalue.grow h.laid hgrown) ?_) trivial
  by_cases hglobal : holder = Machine.globals
  · exact Or.inl hglobal
  · exact Or.inr (h.laid.planned holder name.lexeme hglobal hbound)

theorem agreed_writeVariable (hleads : Leads table frames id name) {value : Value}
    (hvalue : PlacedValue table plans machine.scopes value) :
    Agreed table plans machine (fun _ _ _ => True) (writeVariable name value machine)
      (Eval.writeVariable id name value machine) := by
  obtain ⟨htable, hclear⟩ := hleads
  rw [Eval.writeVariable, Eval.bind_apply]
  cases hdistance : distance? frames.scopes name.lexeme with
  | none =>
      rw [hdistance, ← h.laid.sameTable] at htable
      simp only [writeVariable, ScopeTree.assign?, Eval.assignmentScope, htable,
        h.chain.find_global h.laid hclear hdistance]
      cases hholder : machine.scopes.holder? name.lexeme Machine.globals with
      | none => exact .error
      | some holder =>
          have hbound : (machine.scopes.own? holder name.lexeme).isSome = true := by
            rw [holder?_of_root h.laid.root] at hholder
            split at hholder
            · next hbound =>
                cases hholder
                exact hbound
            · cases hholder
          exact agreed_bind h hvalue hbound
  | some distance =>
      rw [hdistance, ← h.laid.sameTable] at htable
      obtain ⟨holder, hancestor, hholder, hbound⟩ := h.chain.find h.laid hclear hdistance
      simp only [writeVariable, ScopeTree.assign?, Eval.assignmentScope, ScopeTree.scopeAt, htable,
        hancestor, hholder]
      exact agreed_bind h hvalue hbound

/-- A name that is planned may be defined where the code runs. -/
theorem agreed_define (hplans : frames.Plans name.lexeme) {value : Value}
    (hvalue : Chain plans (machine.bind machine.current name.lexeme value).scopes machine.current
        (frames.declare name.lexeme) →
      PlacedValue table plans (machine.bind machine.current name.lexeme value).scopes value) :
    Agreed table plans machine
      (fun plans' tree _ => Chain plans' tree machine.current (frames.declare name.lexeme))
      (Eval.define name.lexeme value machine) (Eval.define name.lexeme value machine) := by
  have hgrown := Grown.bind plans machine machine.current name.lexeme value
  have hbound : ((machine.bind machine.current name.lexeme value).scopes.own? machine.current
      name.lexeme).isSome = true := by
    dsimp only [Machine.bind]
    rw [ScopeTree.own?_define, if_pos ⟨rfl, rfl, h.chain.lt_size h.laid⟩]
    rfl
  have hchain := (h.chain.grow h.laid hgrown).declare hbound
  exact .ok hgrown (h.laid.bind (hvalue hchain) (h.chain.planned hplans)) hchain

end Variables

/-! ### Runs of parts -/

theorem placed_of_ne_closure {table : Table} {plans : Plans} {tree : ScopeTree Value}
    {value : Value} (h : ∀ function, value ≠ .closure function) :
    PlacedValue table plans tree value := by
  cases value with
  | closure function => exact absurd rfl (h function)
  | _ => trivial

/-- With this bound, code agrees wherever it may run. -/
structure AgreesAt (table : Table) (bound : Nat) : Prop where
  evaluate : ∀ {plans machine frames expr}, Poised table plans machine frames →
    WalksExpr table frames expr →
    Agreed table plans machine (PlacedValue table) (Walk.evaluate bound expr machine)
      (Eval.evaluate bound expr machine)
  evaluateAll : ∀ {plans machine frames exprs}, Poised table plans machine frames →
    WalksExprs table frames exprs →
    Agreed table plans machine
      (fun plans tree values => ∀ value ∈ values, PlacedValue table plans tree value)
      (Walk.evaluateAll bound exprs machine) (Eval.evaluateAll bound exprs machine)
  call : ∀ {plans machine callee arguments paren}, Laid table plans machine →
    PlacedCallable table plans machine.scopes callee → arguments.length = callee.arity →
    (∀ value ∈ arguments, PlacedValue table plans machine.scopes value) →
    Agreed table plans machine (PlacedValue table) (Walk.call bound callee arguments paren machine)
      (Eval.call bound callee arguments paren machine)
  execute : ∀ {plans machine frames stmt}, Poised table plans machine frames →
    WalksStmt table frames stmt →
    Agreed table plans machine
      (fun plans tree flow => PlacedFlow table plans tree flow ∧
        Chain plans tree machine.current (frames.after stmt))
      (Walk.execute bound stmt machine) (Eval.execute bound stmt machine)
  executeAll : ∀ {plans machine frames stmts}, Poised table plans machine frames →
    WalksStmts table frames stmts →
    Agreed table plans machine (PlacedFlow table) (Walk.executeAll bound stmts machine)
      (Eval.executeAll bound stmts machine)

namespace AgreesAt

variable {table : Table} {plans : Plans} {machine : Machine} {frames : Frames} {bound : Nat}
  (ih : AgreesAt table bound)
include ih

theorem evaluate_succ {expr : Expr} (h : Poised table plans machine frames)
    (hexpr : WalksExpr table frames expr) :
    Agreed table plans machine (PlacedValue table) (Walk.evaluate (bound + 1) expr machine)
      (Eval.evaluate (bound + 1) expr machine) := by
  cases expr with
  | constant value =>
      refine .pure h.laid ?_
      cases value <;> trivial
  | group inner => exact ih.evaluate h hexpr
  | unary operator operand =>
      have hoperand : WalksExpr table frames operand := hexpr
      refine (ih.evaluate h hoperand).bind fun _ hlaid _ => ?_
      exact .lift hlaid operator fun _ hvalue =>
        placed_of_ne_closure (Operator.unary_ne_closure hvalue)
  | binary left operator right =>
      refine (ih.evaluate h hexpr.1).bind fun hgrown hlaid _ => ?_
      refine (ih.evaluate (h.grow hgrown hlaid) hexpr.2).bind fun _ hlaid _ => ?_
      exact .lift hlaid operator fun _ hvalue =>
        placed_of_ne_closure (Operator.binary_ne_closure hvalue)
  | logical left operator right =>
      refine (ih.evaluate h hexpr.1).bind fun hgrown hlaid hvalue => ?_
      split
      · exact .pure hlaid hvalue
      · exact ih.evaluate (h.grow hgrown hlaid) hexpr.2
  | «variable» id name => exact agreed_readVariable h hexpr
  | assign id name value =>
      refine (ih.evaluate h hexpr.1).bind fun hgrown hlaid hvalue => ?_
      refine (agreed_writeVariable (h.grow hgrown hlaid) hexpr.2 hvalue).bind
        fun hgrown' hlaid' _ => ?_
      exact .pure hlaid' (hvalue.grow hlaid hgrown')
  | call callee paren arguments =>
      refine (ih.evaluate h hexpr.1).bind fun hgrown hlaid hcallee => ?_
      refine (ih.evaluateAll (h.grow hgrown hlaid) hexpr.2).bind fun hgrown' hlaid' hvalues => ?_
      refine (Agreed.checkCall hlaid' (hcallee.grow hlaid hgrown') _ paren).bind
        fun {_ checked _} hgrown'' hlaid'' hfunction => ?_
      have hdeeper : Laid table _ { checked with depth := checked.depth + 1 } := { hlaid'' with }
      have harguments : ∀ value ∈ _, PlacedValue table _ checked.scopes value :=
        fun value hvalue => (hvalues value hvalue).grow hlaid' hgrown''
      exact (ih.call hdeeper hfunction.1 hfunction.2 harguments).deeper

theorem evaluateAll_succ {exprs : List Expr} (h : Poised table plans machine frames)
    (hexprs : WalksExprs table frames exprs) :
    Agreed table plans machine
      (fun plans tree values => ∀ value ∈ values, PlacedValue table plans tree value)
      (Walk.evaluateAll (bound + 1) exprs machine)
      (Eval.evaluateAll (bound + 1) exprs machine) := by
  cases exprs with
  | nil => exact .pure h.laid nofun
  | cons first rest =>
      refine (ih.evaluate h hexprs.1).bind fun hgrown hlaid hvalue => ?_
      refine (ih.evaluateAll (h.grow hgrown hlaid) hexprs.2).bind fun hgrown' hlaid' hvalues => ?_
      exact .pure hlaid' (List.forall_mem_cons.mpr ⟨hvalue.grow hlaid hgrown', hvalues⟩)

theorem call_succ {callee : Callable} {arguments : List Value} {paren : Token}
    (hlaid : Laid table plans machine) (hcallee : PlacedCallable table plans machine.scopes callee)
    (harity : arguments.length = callee.arity)
    (harguments : ∀ value ∈ arguments, PlacedValue table plans machine.scopes value) :
    Agreed table plans machine (PlacedValue table)
      (Walk.call (bound + 1) callee arguments paren machine)
      (Eval.call (bound + 1) callee arguments paren machine) := by
  cases callee with
  | host function => exact .callHost hlaid function harguments paren
  | closure function =>
      have hopen : Agreed table plans machine
          (fun plans' tree frame => ∃ frames, Chain plans' tree frame frames ∧
            WalksStmts table frames function.body)
          (Eval.openFrame function arguments machine)
          (Eval.openFrame function arguments machine) := by
        have hplaced : PlacedClosure table plans machine.scopes function := hcallee
        obtain ⟨plans', frames, hgrown, hlaid', hchain, hbody⟩ :=
          hplaced.openFrame hlaid harity harguments rfl
        exact .ok hgrown hlaid' ⟨frames, hchain, hbody⟩
      refine hopen.bind fun {_ opened frame} _ hlaid' ⟨frames, hchain, hbody⟩ => ?_
      have hinside : Poised table _ { opened with current := frame } frames :=
        ⟨{ hlaid' with }, hchain⟩
      refine (ih.executeAll hinside hbody).within.bind fun {_ _ flow} _ hlaid'' hflow => ?_
      cases flow with
      | leave value => exact .pure hlaid'' hflow
      | normal => exact .pure hlaid'' trivial

theorem execute_succ {stmt : Stmt} (h : Poised table plans machine frames)
    (hstmt : WalksStmt table frames stmt) :
    Agreed table plans machine
      (fun plans tree flow => PlacedFlow table plans tree flow ∧
        Chain plans tree machine.current (frames.after stmt))
      (Walk.execute (bound + 1) stmt machine) (Eval.execute (bound + 1) stmt machine) := by
  cases stmt with
  | expression value =>
      refine (ih.evaluate h hstmt).bind fun hgrown hlaid _ => ?_
      exact .pure hlaid ⟨trivial, h.chain.grow h.laid hgrown⟩
  | print value =>
      simp only [Walk.execute, Eval.execute]
      refine (ih.evaluate h hstmt).bind fun hgrown hlaid _ => ?_
      refine (Agreed.printLine hlaid _).bind fun hgrown' hlaid' _ => ?_
      exact .pure hlaid' ⟨trivial, h.chain.grow h.laid (hgrown.trans hgrown')⟩
  | declare name initial =>
      cases initial with
      | none =>
          have hnil : Agreed table plans machine _ (Eval.define name.lexeme .nil machine)
              (Eval.define name.lexeme .nil machine) := agreed_define h hstmt fun _ => trivial
          refine hnil.bind fun _ hlaid hchain => ?_
          exact .pure hlaid ⟨trivial, hchain⟩
      | some initial =>
          simp only [Walk.execute, Eval.execute]
          refine (ih.evaluate h hstmt.2).bind fun hgrown hlaid hvalue => ?_
          refine (agreed_define (h.grow hgrown hlaid) hstmt.1 fun _ =>
            hvalue.grow hlaid (.bind _ _ _ _ _)).bind fun _ hlaid' hchain => ?_
          exact .pure hlaid' ⟨trivial, hgrown.restored.current ▸ hchain⟩
  | block body =>
      change Agreed table plans machine _
        ((Eval.openScope machine.current >>= fun scope =>
          Eval.within scope (Walk.executeAll bound body)) machine)
        ((Eval.openScope machine.current >>= fun scope =>
          Eval.within scope (Eval.executeAll bound body)) machine)
      have hopen : Agreed table plans machine
          (fun plans' tree scope => Chain plans' tree scope (frameOf [] body :: frames))
          (Eval.openScope machine.current machine) (Eval.openScope machine.current machine) :=
        .ok (.child plans machine (frameOf [] body).planned _) (h.laid.child _ _)
          (h.chain.child h.laid _)
      refine hopen.bind fun {_ opened scope} hgrown hlaid hchain => ?_
      have hinside : Poised table _ { opened with current := scope } _ :=
        ⟨{ hlaid with }, hchain⟩
      refine (ih.executeAll hinside hstmt).within.weaken fun hgrown' hflow => ?_
      exact ⟨hflow, h.chain.grow h.laid (hgrown.trans hgrown')⟩
  | branch condition whenTrue whenFalse =>
      cases whenFalse with
      | none =>
          obtain ⟨hcondition, hnone, htrue⟩ := hstmt
          refine (ih.evaluate h hcondition).bind fun hgrown hlaid _ => ?_
          have hafter := h.grow hgrown hlaid
          split
          · have hbranch := ih.execute hafter htrue
            rw [Frames.after_of_none hnone, hgrown.restored.current] at hbranch
            exact hbranch
          · exact .pure hlaid ⟨trivial, h.chain.grow h.laid hgrown⟩
      | some whenFalse =>
          obtain ⟨hcondition, ⟨hnone, htrue⟩, hnone', hfalse⟩ := hstmt
          refine (ih.evaluate h hcondition).bind fun hgrown hlaid _ => ?_
          have hafter := h.grow hgrown hlaid
          split
          · have hbranch := ih.execute hafter htrue
            rw [Frames.after_of_none hnone, hgrown.restored.current] at hbranch
            exact hbranch
          · have hbranch := ih.execute hafter hfalse
            rw [Frames.after_of_none hnone', hgrown.restored.current] at hbranch
            exact hbranch
  | loop condition body =>
      have hloop := hstmt
      obtain ⟨hcondition, hnone, hbody⟩ := hstmt
      refine (ih.evaluate h hcondition).bind fun hgrown hlaid _ => ?_
      have hbetween := h.grow hgrown hlaid
      split
      · refine (ih.execute hbetween hbody).bind fun {_ _ flow} hgrown' hlaid' hflow => ?_
        rw [Frames.after_of_none hnone, hgrown.restored.current] at hflow
        cases flow with
        | leave value => exact .pure hlaid' hflow
        | normal =>
            have hagain := ih.execute (hbetween.grow hgrown' hlaid') hloop
            rw [hgrown'.restored.current, hgrown.restored.current] at hagain
            exact hagain
      · exact .pure hlaid ⟨trivial, h.chain.grow h.laid hgrown⟩
  | function name params body =>
      refine (Agreed.freshIdentity h.laid).bind fun {_ between identity} hgrown hlaid _ => ?_
      change Agreed table _ between _
        ((Eval.define name.lexeme (.closure ⟨name, params, body, between.current, identity⟩) >>=
          fun _ => Pure.pure Flow.normal) between)
        ((Eval.define name.lexeme (.closure ⟨name, params, body, between.current, identity⟩) >>=
          fun _ => Pure.pure Flow.normal) between)
      refine (agreed_define (h.grow hgrown hlaid) hstmt.1 fun hchain => ?_).bind
        fun _ hlaid' hchain => ?_
      · exact ⟨_, hchain, hstmt.2⟩
      · exact .pure hlaid' ⟨trivial, hgrown.restored.current ▸ hchain⟩
  | leave keyword value =>
      cases value with
      | none => exact .pure h.laid ⟨trivial, h.chain⟩
      | some value =>
          simp only [Walk.execute, Eval.execute]
          refine (ih.evaluate h hstmt).bind fun hgrown hlaid hvalue => ?_
          exact .pure hlaid ⟨hvalue, h.chain.grow h.laid hgrown⟩

theorem executeAll_succ {stmts : List Stmt} (h : Poised table plans machine frames)
    (hstmts : WalksStmts table frames stmts) :
    Agreed table plans machine (PlacedFlow table)
      (Walk.executeAll (bound + 1) stmts machine)
      (Eval.executeAll (bound + 1) stmts machine) := by
  cases stmts with
  | nil => exact .pure h.laid trivial
  | cons first rest =>
      refine (ih.execute h hstmts.1).bind fun {_ _ flow} hgrown hlaid hflow => ?_
      cases flow with
      | leave value => exact .pure hlaid hflow.1
      | normal =>
          have hafter : Poised table _ _ (frames.after first) :=
            ⟨hlaid, hgrown.restored.current ▸ hflow.2⟩
          exact ih.executeAll hafter hstmts.2

end AgreesAt

theorem AgreesAt.succ {table : Table} {bound : Nat} (ih : AgreesAt table bound) :
    AgreesAt table (bound + 1) where
  evaluate := ih.evaluate_succ
  evaluateAll := ih.evaluateAll_succ
  call := ih.call_succ
  execute := ih.execute_succ
  executeAll := ih.executeAll_succ

theorem agreesAt (table : Table) (bound : Nat) : AgreesAt table bound := by
  induction bound with
  | zero =>
      exact ⟨fun _ _ => .error, fun _ _ => .error, fun _ _ _ _ => .error, fun _ _ => .error,
        fun _ _ => .error⟩
  | succ bound ih => exact ih.succ

end Scriptlet.Walk
