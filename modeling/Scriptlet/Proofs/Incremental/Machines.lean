/-
Machines that are alike, and the single steps that keep them so.
-/
import Scriptlet.Proofs.Calls
import Scriptlet.Proofs.Incremental.Alike

namespace Scriptlet.Incremental

/-- Closures of functions that are alike, made in the same scope. -/
inductive AlikeClosure (link : Link) : Closure → Closure → Prop
  | same {name name' : Token} {params params' : List Token} {body body' : List Stmt}
      {scope identity : Nat} (name_ : link.tokens name name')
      (params_ : List.Forall₂ link.tokens params params') (body_ : AlikeStmts link body body') :
      AlikeClosure link ⟨name, params, body, scope, identity⟩
        ⟨name', params', body', scope, identity⟩

abbrev AlikeValue (link : Link) : Value → Value → Prop :=
  ValueIn.Rel (AlikeClosure link)

/-- The same scopes with values that are alike. -/
structure AlikeScopes (link : Link) (tree tree' : ScopeTree Value) : Prop where
  size : tree'.size = tree.size
  parent : ∀ scope, tree'.parent? scope = tree.parent? scope
  own : ∀ scope name, Option.Rel (AlikeValue link) (tree.own? scope name) (tree'.own? scope name)

/-- Machines at the same place of scopes that are alike, with sinks and side tables that may
stand for each other. -/
structure AlikeMachine (link : Link) (machine machine' : Machine) : Prop where
  sink : link.sinks machine.sink machine'.sink
  depth : machine'.depth = machine.depth
  clock : machine'.clock = machine.clock
  nextIdentity : machine'.nextIdentity = machine.nextIdentity
  current : machine'.current = machine.current
  scopes : AlikeScopes link machine.scopes machine'.scopes
  table : link.tables machine.table machine'.table

/-- Stops for the same reason; a fault stands at tokens that may stand for each
other. -/
inductive AlikeStop (link : Link) : Stop → Stop → Prop
  | runtime {token token' : Token} (cause : RuntimeFault) (tokens : link.tokens token token') :
      AlikeStop link (.fault (.runtime token.line cause)) (.fault (.runtime token'.line cause))
  | sink (cause : SinkFault) : AlikeStop link (.fault (.sink cause)) (.fault (.sink cause))
  | defect (cause : ScopeDefect) : AlikeStop link (.defect cause) (.defect cause)
  | exhausted : AlikeStop link .exhausted .exhausted

/-- Both actions end well with related results, or stop alike, and the machines are
alike again. -/
inductive AlikeResult {α β : Type} (link : Link) (R : α → β → Prop) :
    EStateM.Result Stop Machine α → EStateM.Result Stop Machine β → Prop
  | ok {machine machine' : Machine} {a : α} {b : β} (machines : AlikeMachine link machine machine')
      (related : R a b) : AlikeResult link R (.ok a machine) (.ok b machine')
  | error {machine machine' : Machine} {stop stop' : Stop}
      (machines : AlikeMachine link machine machine') (stops : AlikeStop link stop stop') :
      AlikeResult link R (.error stop machine) (.error stop' machine')

/-- From machines that are alike, the actions have results that are. -/
def AlikeRun {α β : Type} (link : Link) (R : α → β → Prop) (action : Eval α) (action' : Eval β) :
    Prop :=
  ∀ ⦃machine machine'⦄, AlikeMachine link machine machine' →
    AlikeResult link R (action machine) (action' machine')

section Results

variable {α β : Type} {link : Link} {R : α → β → Prop} {machine : Machine}
  {result : EStateM.Result Stop Machine α} {result' : EStateM.Result Stop Machine β}

theorem AlikeResult.of_ok (h : AlikeResult link R result result') {a : α}
    (hok : result = .ok a machine) :
    ∃ b machine', result' = .ok b machine' ∧ AlikeMachine link machine machine' ∧ R a b := by
  subst hok
  cases h with
  | ok hmachines hrelated => exact ⟨_, _, rfl, hmachines, hrelated⟩

theorem AlikeResult.of_error (h : AlikeResult link R result result') {stop : Stop}
    (herror : result = .error stop machine) :
    ∃ stop' machine', result' = .error stop' machine' ∧ AlikeMachine link machine machine' ∧
      AlikeStop link stop stop' := by
  subst herror
  cases h with
  | error hmachines hstops => exact ⟨_, _, rfl, hmachines, hstops⟩

end Results

/-! ### Links that allow more, or nothing -/

section Imp

variable {link other : Link}

theorem AlikeClosure.imp {f g : Closure} (h : AlikeClosure link f g)
    (htokens : ∀ a b, link.tokens a b → other.tokens a b)
    (hids : ∀ a b, link.ids a b → other.ids a b) : AlikeClosure other f g := by
  cases h with
  | same hname hparams hbody =>
      exact .same (htokens _ _ hname) (hparams.imp htokens)
        (hbody.imp htokens fun id _ id' => hids id id')

theorem AlikeScopes.imp {tree tree' : ScopeTree Value} (h : AlikeScopes link tree tree')
    (htokens : ∀ a b, link.tokens a b → other.tokens a b)
    (hids : ∀ a b, link.ids a b → other.ids a b) : AlikeScopes other tree tree' where
  size := h.size
  parent := h.parent
  own scope name := rel_imp (h.own scope name) fun _ _ hvalue =>
    hvalue.imp fun _ _ hclosure => hclosure.imp htokens hids

/-- Sink and side table may be others already. -/
theorem AlikeMachine.imp {machine machine' : Machine} (h : AlikeMachine link machine machine')
    (htokens : ∀ a b, link.tokens a b → other.tokens a b)
    (hids : ∀ a b, link.ids a b → other.ids a b) {sink sink' : Sink}
    (hsinks : other.sinks sink sink') {table table' : Table}
    (htables : other.tables table table') :
    AlikeMachine other { machine with sink := sink, table := table }
      { machine' with sink := sink', table := table' } :=
  { h with sink := hsinks, table := htables, scopes := h.scopes.imp htokens hids }

/-- Where nothing may differ, the values are the same. -/
theorem AlikeScopes.own?_eq {tree tree' : ScopeTree Value} (h : AlikeScopes link tree tree')
    (htokens : ∀ a b, link.tokens a b → a = b) (hids : ∀ a b, link.ids a b → a = b)
    (scope : Nat) (name : String) : tree'.own? scope name = tree.own? scope name := by
  have hown := h.own scope name
  generalize tree.own? scope name = found at hown ⊢
  generalize tree'.own? scope name = found' at hown ⊢
  cases hown with
  | none => rfl
  | some hvalue =>
      cases hvalue with
      | closure hclosure =>
          cases hclosure with
          | same hname hparams hbody =>
              rw [htokens _ _ hname, eq_of_forall₂ htokens hparams, hbody.eq htokens hids]
      | _ => rfl

/-- Where tokens may not differ, the stops are the same. -/
theorem AlikeStop.eq {stop stop' : Stop} (h : AlikeStop link stop stop')
    (htokens : ∀ a b, link.tokens a b → a = b) : stop' = stop := by
  cases h with
  | runtime cause hsame => rw [htokens _ _ hsame]
  | _ => rfl

/-- Apart from variables, only the sinks may differ. -/
theorem AlikeMachine.outside_eq {machine machine' : Machine}
    (h : AlikeMachine link machine machine')
    (hsinks : ∀ a b, link.sinks a b → b = a) : machine'.toOutside = machine.toOutside := by
  obtain ⟨outside, scopes, current, table⟩ := machine
  obtain ⟨outside', scopes', current', table'⟩ := machine'
  have hsink : outside'.sink = outside.sink := hsinks _ _ h.sink
  have hdepth : outside'.depth = outside.depth := h.depth
  have hclock : outside'.clock = outside.clock := h.clock
  have hnext : outside'.nextIdentity = outside.nextIdentity := h.nextIdentity
  obtain ⟨sink, depth, clock, nextIdentity⟩ := outside
  subst hsink hdepth hclock hnext
  rfl

end Imp

section Runs

variable {α β γ δ : Type} {link : Link} {R : α → β → Prop} {T : γ → δ → Prop}
  {action : Eval α} {action' : Eval β} {next : α → Eval γ} {next' : β → Eval δ}

theorem AlikeClosure.sameFace {f g : Closure} (h : AlikeClosure link f g) : f.SameFace g := by
  cases h with
  | same hname hparams _ => exact ⟨link.lexeme_eq hname, hparams.length_eq.symm, rfl⟩

theorem alikeRun_pure {a : α} {b : β} (h : R a b) : AlikeRun link R (pure a) (pure b) :=
  fun _ _ hmachines => .ok hmachines h

theorem alikeRun_throw {stop stop' : Stop} (h : AlikeStop link stop stop') :
    AlikeRun link R (throw stop) (throw stop') :=
  fun _ _ hmachines => .error hmachines h

theorem alikeRun_fail {token token' : Token} (htoken : link.tokens token token')
    (fault : RuntimeFault) : AlikeRun link R (Eval.fail token fault) (Eval.fail token' fault) :=
  alikeRun_throw (.runtime fault htoken)

theorem AlikeRun.bind (h : AlikeRun link R action action')
    (hnext : ∀ a b, R a b → AlikeRun link T (next a) (next' b)) :
    AlikeRun link T (action >>= next) (action' >>= next') := by
  intro machine machine' hmachines
  have hfirst := h hmachines
  rw [Eval.bind_apply, Eval.bind_apply]
  generalize action machine = result at hfirst ⊢
  generalize action' machine' = result' at hfirst ⊢
  cases hfirst with
  | ok hmachines' hrelated => exact hnext _ _ hrelated hmachines'
  | error hmachines' hstops => exact .error hmachines' hstops

theorem alikeRun_lift {token token' : Token} (htoken : link.tokens token token')
    {result : Except RuntimeFault α} {result' : Except RuntimeFault β}
    (h : SameResult R result result') :
    AlikeRun link R (Eval.lift token result) (Eval.lift token' result') := by
  cases h with
  | ok hrelated => exact alikeRun_pure hrelated
  | error fault => exact alikeRun_fail htoken fault

/-! ### Steps outside the scopes -/

theorem alikeRun_freshIdentity :
    AlikeRun link (fun a b => a = b) Eval.freshIdentity Eval.freshIdentity :=
  fun _ _ h => .ok { h with nextIdentity := congrArg (· + 1) h.nextIdentity } h.nextIdentity.symm

theorem alikeRun_printLine (text : String) :
    AlikeRun link (fun _ _ => True) (Eval.printLine text) (Eval.printLine text) := by
  intro machine machine' h
  have hfits : machine'.sink.fits (text ++ "\n") = machine.sink.fits (text ++ "\n") :=
    link.fits_eq h.sink _
  have hwritten : AlikeMachine link
      { machine with sink := machine.sink.write (text ++ "\n") }
      { machine' with sink := machine'.sink.write (text ++ "\n") } :=
    { h with sink := link.write h.sink _ }
  unfold Eval.printLine
  simp only [HasOutside.outside, hfits]
  split
  · exact .ok hwritten trivial
  · exact .error hwritten (.sink .full)

theorem alikeRun_flush : AlikeRun link (fun _ _ => True) Eval.flush Eval.flush := by
  intro machine machine' h
  have hflush : machine'.sink.flushFails = machine.sink.flushFails := link.flushFails_eq h.sink
  unfold Eval.flush
  simp only [HasOutside.outside, hflush]
  split
  · exact .error h (.sink .flush)
  · exact .ok h trivial

theorem AlikeRun.deeper (h : AlikeRun link R action action') :
    AlikeRun link R (Eval.deeper action) (Eval.deeper action') := by
  intro machine machine' hmachines
  have hin := h (show AlikeMachine link { machine with depth := machine.depth + 1 }
    { machine' with depth := machine'.depth + 1 } from
      { hmachines with depth := congrArg (· + 1) hmachines.depth })
  unfold Eval.deeper
  simp only [HasOutside.modifyOutside]
  generalize action _ = result at hin ⊢
  generalize action' _ = result' at hin ⊢
  cases hin with
  | ok hmachines' hrelated =>
      exact .ok { hmachines' with depth := congrArg (· - 1) hmachines'.depth } hrelated
  | error hmachines' hstops =>
      exact .error { hmachines' with depth := congrArg (· - 1) hmachines'.depth } hstops

/-! ### Calls -/

/-- A host function does the same with values that are alike. -/
theorem alikeRun_callHost (function : HostFunction) {arguments arguments' : List Value}
    (harguments : List.Forall₂ (AlikeValue link) arguments arguments') {paren paren' : Token}
    (hparen : link.tokens paren paren') :
    AlikeRun link (AlikeValue link) (Eval.callHost function arguments paren)
      (Eval.callHost function arguments' paren') := by
  intro machine machine' h
  have hlater : AlikeMachine link { machine with clock := machine.clock.later }
      { machine' with clock := machine'.clock.later } :=
    { h with clock := congrArg Clock.later h.clock }
  have hclock : (HasOutside.outside machine').clock = (HasOutside.outside machine).clock :=
    h.clock
  rw [Eval.callHost_apply, Eval.callHost_apply, hclock]
  have hresult := (function.action.run_rel harguments
    (HasOutside.outside machine).clock.now).mapError RuntimeFault.host
  exact alikeRun_lift hparen hresult hlater

/-- What is called on both sides. -/
def AlikeCallable (link : Link) (callee callee' : Callable) : Prop :=
  ∃ value value', AlikeValue link value value' ∧ value.callable? = some callee ∧
    value'.callable? = some callee'

theorem alikeRun_checkCall {value value' : Value} (hvalue : AlikeValue link value value')
    {arguments arguments' : List Value}
    (harguments : List.Forall₂ (AlikeValue link) arguments arguments') {paren paren' : Token}
    (hparen : link.tokens paren paren') :
    AlikeRun link (AlikeCallable link) (Eval.checkCall value arguments paren)
      (Eval.checkCall value' arguments' paren') := by
  intro machine machine' h
  have hdepth : (HasOutside.outside machine').depth = (HasOutside.outside machine).depth := h.depth
  rw [Eval.checkCall_apply, Eval.checkCall_apply, hdepth]
  have hresult := hvalue.checked (fun _ _ => AlikeClosure.sameFace) harguments.length_eq
    (HasOutside.outside machine).depth
  exact alikeRun_lift hparen (hresult.imp fun _ _ => And.left) h

/-! ### Scopes -/

section Scopes

variable {tree tree' : ScopeTree Value}

theorem AlikeScopes.ancestor?_eq (h : AlikeScopes link tree tree') (distance scope : Nat) :
    tree'.ancestor? distance scope = tree.ancestor? distance scope := by
  induction distance generalizing scope with
  | zero => rfl
  | succ distance ih => simp only [ScopeTree.ancestor?, h.parent, funext ih]

theorem AlikeScopes.height_eq (h : AlikeScopes link tree tree') (scope : Nat) :
    tree'.height scope = tree.height scope := by
  induction scope using Nat.strongRecOn with
  | ind scope ih =>
      rw [ScopeTree.height_eq, ScopeTree.height_eq, h.parent]
      cases hparent : tree.parent? scope with
      | none => rfl
      | some parent => exact congrArg (· + 1) (ih parent (ScopeTree.lt_of_parent? hparent))

theorem AlikeScopes.scopeAt_eq (h : AlikeScopes link tree tree') (scope distance : Nat) :
    tree'.scopeAt scope distance = tree.scopeAt scope distance := by
  simp only [ScopeTree.scopeAt, h.ancestor?_eq, h.height_eq]

theorem isSome_eq_of_rel {a : Option α} {b : Option β} (h : Option.Rel R a b) :
    b.isSome = a.isSome := by
  cases h with
  | none => rfl
  | some _ => rfl

theorem AlikeScopes.holder?_eq (h : AlikeScopes link tree tree') (name : String) (scope : Nat) :
    tree'.holder? name scope = tree.holder? name scope := by
  induction scope using Nat.strongRecOn with
  | ind scope ih =>
      rw [ScopeTree.holder?_eq, ScopeTree.holder?_eq, isSome_eq_of_rel (h.own scope name), h.parent]
      cases hparent : tree.parent? scope with
      | none => rfl
      | some parent =>
          rw [Option.bind_some, Option.bind_some, ih parent (ScopeTree.lt_of_parent? hparent)]

theorem AlikeScopes.define (h : AlikeScopes link tree tree') (scope : Nat) (name : String)
    {value value' : Value} (hvalue : AlikeValue link value value') :
    AlikeScopes link (tree.define scope name value) (tree'.define scope name value') := by
  refine ⟨?_, fun other => ?_, fun other key => ?_⟩
  · simp only [ScopeTree.size_define, h.size]
  · simp only [ScopeTree.parent?_define, h.parent]
  · simp only [ScopeTree.own?_define, h.size]
    split
    · exact .some hvalue
    · exact h.own other key

theorem AlikeScopes.child (h : AlikeScopes link tree tree') (parent : Nat) :
    AlikeScopes link (tree.child parent) (tree'.child parent) := by
  refine ⟨?_, fun other => ?_, fun other key => ?_⟩
  · simp only [ScopeTree.child, ScopeTree.size_openScope, h.size]
  · simp only [ScopeTree.child, ScopeTree.parent?_openScope, h.parent, h.size]
  · simp only [ScopeTree.child, ScopeTree.own?_openScope]
    exact h.own other key

theorem AlikeScopes.defineAll (h : AlikeScopes link tree tree') (scope : Nat)
    {params params' : List Token} (hparams : List.Forall₂ link.tokens params params')
    {values values' : List Value} (hvalues : List.Forall₂ (AlikeValue link) values values') :
    AlikeScopes link (tree.defineAll scope (params.map Token.lexeme) values)
      (tree'.defineAll scope (params'.map Token.lexeme) values') := by
  unfold ScopeTree.defineAll
  induction hparams generalizing tree tree' values values' with
  | nil => exact h
  | @cons param param' _ _ hname _ ih =>
      cases hvalues with
      | nil => exact h
      | cons hvalue hrest =>
          have hdefined := h.define scope param.lexeme hvalue
          simp only [List.map_cons, List.zip_cons_cons, List.foldl_cons, link.lexeme_eq hname]
          exact ih hdefined hrest

end Scopes

/-! ### Variables -/

theorem alikeRun_define {name name' : Token} (hname : link.tokens name name') {value value' : Value}
    (hvalue : AlikeValue link value value') :
    AlikeRun link (fun _ _ => True) (Eval.define name.lexeme value)
      (Eval.define name'.lexeme value') := by
  intro machine machine' h
  unfold Eval.define
  rw [Eval.modify_apply, Eval.modify_apply, h.current, link.lexeme_eq hname]
  exact .ok { h with scopes := h.scopes.define _ _ hvalue, current := rfl } trivial

theorem alikeRun_readVariable {id id' : NodeId} (hid : link.ids id id') {name name' : Token}
    (hname : link.tokens name name') :
    AlikeRun link (AlikeValue link) (Eval.readVariable id name) (Eval.readVariable id' name') := by
  intro machine machine' h
  unfold Eval.readVariable
  rw [link.distance?_eq h.table hid, link.lexeme_eq hname]
  cases machine.table.distance? id with
  | some distance =>
      simp only [ScopeTree.readAt, h.current, h.scopes.scopeAt_eq]
      cases machine.scopes.scopeAt machine.current distance with
      | error defect => exact .error h (.defect defect)
      | ok target =>
          have hown := h.scopes.own target name.lexeme
          simp only [bind, Except.bind]
          generalize machine.scopes.own? target name.lexeme = found at hown ⊢
          generalize machine'.scopes.own? target name.lexeme = found' at hown ⊢
          cases hown with
          | some hvalue => exact .ok h hvalue
          | none => exact .error h (.defect _)
  | none =>
      simp only [ScopeTree.lookup?, h.scopes.holder?_eq]
      cases machine.scopes.holder? name.lexeme Machine.globals with
      | none => exact alikeRun_fail hname _ h
      | some target =>
          have hown := h.scopes.own target name.lexeme
          simp only [Option.bind_some]
          generalize machine.scopes.own? target name.lexeme = found at hown ⊢
          generalize machine'.scopes.own? target name.lexeme = found' at hown ⊢
          cases hown with
          | some hvalue => exact .ok h hvalue
          | none => exact alikeRun_fail hname _ h

theorem alikeRun_assignmentScope {id id' : NodeId} (hid : link.ids id id') {name name' : Token}
    (hname : link.tokens name name') :
    AlikeRun link (fun a b => a = b) (Eval.assignmentScope id name)
      (Eval.assignmentScope id' name') := by
  intro machine machine' h
  unfold Eval.assignmentScope
  rw [link.distance?_eq h.table hid, link.lexeme_eq hname]
  cases machine.table.distance? id with
  | some distance =>
      simp only [h.current, h.scopes.scopeAt_eq]
      cases machine.scopes.scopeAt machine.current distance with
      | error defect => exact .error h (.defect defect)
      | ok target => exact .ok h rfl
  | none =>
      simp only [h.scopes.holder?_eq]
      cases machine.scopes.holder? name.lexeme Machine.globals with
      | none => exact alikeRun_fail hname _ h
      | some target => exact .ok h rfl

theorem alikeRun_writeVariable {id id' : NodeId} (hid : link.ids id id') {name name' : Token}
    (hname : link.tokens name name') {value value' : Value}
    (hvalue : AlikeValue link value value') :
    AlikeRun link (fun _ _ => True) (Eval.writeVariable id name value)
      (Eval.writeVariable id' name' value') := by
  refine (alikeRun_assignmentScope hid hname).bind
    fun target target' htarget machine machine' h => ?_
  subst htarget
  rw [Eval.modify_apply, Eval.modify_apply, link.lexeme_eq hname]
  exact .ok { h with scopes := h.scopes.define _ _ hvalue } trivial

/-! ### New scopes -/

theorem alikeRun_current :
    AlikeRun link (fun a b => b.current = a.current) (get : Eval Machine) (get : Eval Machine) :=
  fun _ _ h => .ok h h.current

theorem alikeRun_openScope (parent : Nat) :
    AlikeRun link (fun a b => a = b) (Eval.openScope parent) (Eval.openScope parent) :=
  fun _ _ h => .ok { h with scopes := h.scopes.child parent } h.scopes.size.symm

theorem alikeRun_openFrame {function function' : Closure} (h : AlikeClosure link function function')
    {arguments arguments' : List Value}
    (harguments : List.Forall₂ (AlikeValue link) arguments arguments') :
    AlikeRun link (fun a b => a = b) (Eval.openFrame function arguments)
      (Eval.openFrame function' arguments') := by
  cases h with
  | same _ hparams _ =>
      refine (alikeRun_openScope _).bind fun frame frame' hframe machine machine' h => ?_
      subst hframe
      exact .ok { h with scopes := h.scopes.defineAll frame hparams harguments } rfl

theorem AlikeRun.within (h : AlikeRun link R action action') (scope : Nat) :
    AlikeRun link R (Eval.within scope action) (Eval.within scope action') := by
  intro machine machine' hmachines
  have hin := h (show AlikeMachine link { machine with current := scope }
    { machine' with current := scope } from { hmachines with current := rfl })
  unfold Eval.within
  dsimp only
  generalize action _ = result at hin ⊢
  generalize action' _ = result' at hin ⊢
  cases hin with
  | ok hmachines' hrelated =>
      exact .ok { hmachines' with current := hmachines.current } hrelated
  | error hmachines' hstops =>
      exact .error { hmachines' with current := hmachines.current } hstops

end Runs

end Scriptlet.Incremental
