/-
The single steps of a program have the same outcome on both sides.
-/
import Mathlib.Data.List.Forall2
import Scriptlet.Proofs.Lexical.Simulates

namespace Scriptlet.Lexical

open Reference (Env Store Run)

/-- Things to call that differ at most in the form of a closure's scope. -/
def CallMatches (known : Known) (homes : Homes) (tree : ScopeTree Value) (callee : Callable)
    (callee' : CallableIn Env) : Prop :=
  ∃ value value', Matches known homes tree value value' ∧ value.callable? = some callee ∧
    value'.callable? = some callee'

/-- Lists of values that differ at most in the form of closures' scopes. -/
abbrev AllMatch (known : Known) (homes : Homes) (tree : ScopeTree Value) :
    List Value → List (ValueIn Env) → Prop :=
  List.Forall₂ (Matches known homes tree)

section Actions

variable {α β : Type} {known : Known} {touched : Option Nat} {homes : Homes}
  {machine : Machine} {store : Store} {pending : Option String} {env : Env}
  {action : Eval α} {ref : Run β} {P : Homes → Machine → α → β → Prop}
  {value : Value} {value' : ValueIn Env}

/-! ### Actions apart from variables -/

theorem simulates_freshIdentity (hrelates : Relates known homes machine store) :
    Simulates known touched homes machine store Eval.freshIdentity Eval.freshIdentity
      fun _ _ a b => a = b :=
  .ok (Grows.modifyOutside ..) (hrelates.modifyOutside _)
    (congrArg Outside.nextIdentity hrelates.outside)

theorem simulates_printLine (hrelates : Relates known homes machine store) (text : String) :
    Simulates known touched homes machine store (Eval.printLine text) (Eval.printLine text)
      fun _ _ _ _ => True := by
  have hsink : (HasOutside.outside machine).sink = (HasOutside.outside store).sink :=
    congrArg Outside.sink hrelates.outside
  unfold Simulates Eval.printLine
  rw [hsink]
  dsimp only
  split
  · exact .ok (Grows.modifyOutside ..) (hrelates.modifyOutside _) trivial
  · exact .error (Grows.modifyOutside ..) (hrelates.modifyOutside _) trivial

theorem simulates_flush (hrelates : Relates known homes machine store) :
    Simulates known touched homes machine store Eval.flush Eval.flush fun _ _ _ _ => True := by
  have hsink : (HasOutside.outside machine).sink = (HasOutside.outside store).sink :=
    congrArg Outside.sink hrelates.outside
  unfold Simulates Eval.flush
  rw [hsink]
  split
  · exact .error (Grows.refl ..) hrelates trivial
  · exact .ok (Grows.refl ..) hrelates trivial

theorem AllMatch.grow {arguments : List Value} {arguments' : List (ValueIn Env)}
    {homes' : Homes} {machine' : Machine}
    (h : AllMatch known homes machine.scopes arguments arguments')
    (hgrows : Grows touched homes machine homes' machine') :
    AllMatch known homes' machine'.scopes arguments arguments' :=
  h.imp fun _ _ hmatch => hmatch.grow hgrows

theorem simulates_callHost (hrelates : Relates known homes machine store)
    (function : HostFunction) {arguments : List Value} {arguments' : List (ValueIn Env)}
    (harguments : AllMatch known homes machine.scopes arguments arguments') (paren : Token) :
    Simulates known touched homes machine store (Eval.callHost function arguments paren)
      (Eval.callHost function arguments' paren)
      fun homes' machine' => Matches known homes' machine'.scopes := by
  have hclock : (HasOutside.outside machine).clock = (HasOutside.outside store).clock :=
    congrArg Outside.clock hrelates.outside
  unfold Simulates
  rw [Eval.callHost_apply, Eval.callHost_apply, hclock]
  have hresult := (function.action.run_rel harguments
    (HasOutside.outside store).clock.now).mapError RuntimeFault.host
  exact (simulates_lift (hrelates.modifyOutside _) paren hresult
    fun _ => HostAction.sound_run).since (Grows.modifyOutside ..)

theorem simulates_checkCall (hrelates : Relates known homes machine store)
    (hvalue : Matches known homes machine.scopes value value')
    {arguments : List Value} {arguments' : List (ValueIn Env)}
    (harguments : AllMatch known homes machine.scopes arguments arguments') (paren : Token) :
    Simulates known touched homes machine store (Eval.checkCall value arguments paren)
      (Eval.checkCall value' arguments' paren)
      fun homes' machine' callee callee' =>
        CallMatches known homes' machine'.scopes callee callee' ∧
          arguments.length = callee.arity := by
  have hdepth : (HasOutside.outside machine).depth = (HasOutside.outside store).depth :=
    congrArg Outside.depth hrelates.outside
  unfold Simulates
  rw [Eval.checkCall_apply, Eval.checkCall_apply, hdepth]
  have hresult := hvalue.checked (fun _ _ => ClosureMatches.sameFace) harguments.length_eq
    (HasOutside.outside store).depth
  exact simulates_lift hrelates paren hresult fun _ => ValueIn.sound_checked

/-- A condition on results that says nothing about the outside. -/
def Inward (P : Homes → Machine → α → β → Prop) : Prop :=
  ∀ homes machine machine' a b, P homes machine a b → machine'.scopes = machine.scopes →
    P homes machine' a b

theorem Simulates.deeper
    (h : ∀ change : Outside → Outside, Simulates known touched homes
      (HasOutside.modifyOutside change machine) (HasOutside.modifyOutside change store) action
        ref P)
    (hP : Inward P) :
    Simulates known touched homes machine store (Eval.deeper action) (Eval.deeper ref) P := by
  have hin := (h fun o => { o with depth := o.depth + 1 }).since (Grows.modifyOutside ..)
  unfold Simulates Eval.deeper
  dsimp only
  generalize action _ = result at hin ⊢
  generalize ref _ = result' at hin ⊢
  cases hin with
  | ok hgrows hrelates hpost =>
      exact .ok (hgrows.trans (Grows.modifyOutside ..)) (hrelates.modifyOutside _)
        (hP _ _ _ _ _ hpost rfl)
  | error hgrows hrelates hsound =>
      exact .error (hgrows.trans (Grows.modifyOutside ..)) (hrelates.modifyOutside _) hsound

/-- The reference run has no place that it would have to come back to. -/
theorem Simulates.within {scope : Nat}
    (h : Simulates known touched homes { machine with current := scope } store action ref P)
    (hP : Inward P) :
    Simulates known touched homes machine store (Eval.within scope action) ref P := by
  unfold Simulates Eval.within
  unfold Simulates at h
  dsimp only
  generalize action _ = result at h ⊢
  generalize ref _ = result' at h ⊢
  cases h with
  | ok hgrows hrelates hpost =>
      exact .ok { hgrows with current := rfl } (hrelates.move _) (hP _ _ _ _ _ hpost rfl)
  | error hgrows hrelates hsound =>
      exact .error { hgrows with current := rfl } (hrelates.move _) hsound

/-! ### Variables -/

/-- What a local name stands for on both sides. -/
theorem Relates.local_value (h : Relates known homes machine store) {cell holder : Nat}
    {name : String} (hhome : homes[cell]? = some (holder, name))
    (hbound : (machine.scopes.own? holder name).isSome = true) :
    ∃ value value', machine.scopes.own? holder name = some value ∧
      store.cells[cell]? = some value' ∧ Matches known homes machine.scopes value value' := by
  obtain ⟨value, hvalue⟩ := Option.isSome_iff_exists.mp hbound
  have hglobal := (h.inside _ (List.mem_of_getElem? hhome)).1
  obtain ⟨found, value', hfound, hcell, hmatch⟩ := h.locals holder name value hglobal hvalue
  have hlt := (List.getElem?_eq_some_iff.mp hhome).1
  have hsame : cell = found := (List.getElem?_inj hlt h.nodup).mp (hhome.trans hfound.symm)
  exact ⟨value, value', hvalue, hsame ▸ hcell, hmatch⟩

theorem simulates_read (hrelates : Relates known homes machine store)
    (hmirrors : Mirrors homes machine.scopes pending machine.current env) {id : NodeId}
    {name : Token} (hname : pending ≠ some name.lexeme) (hplaces : known.Places env.names id name) :
    Simulates known touched homes machine store (Eval.readVariable id name) (Run.read env name)
      fun homes' machine' => Matches known homes' machine'.scopes := by
  unfold Simulates Eval.readVariable Run.read
  rw [hrelates.table, hplaces.2]
  cases hdistance : Binding.distance? env.names name.lexeme with
  | some distance =>
      obtain ⟨cell, holder, hfind, hancestor, hhome, hbound⟩ := hmirrors.find hdistance
      obtain ⟨value, value', hvalue, hcell, hmatch⟩ := hrelates.local_value hhome (hbound hname)
      have hread : machine.scopes.readAt machine.current distance name.lexeme = .ok value := by
        simp [ScopeTree.readAt, ScopeTree.scopeAt, hancestor, hvalue, bind, Except.bind, pure,
          Except.pure]
      simp only [hread, hfind, List.getD_eq_getElem?_getD, hcell, Option.getD_some]
      exact .ok (Grows.refl ..) hrelates hmatch
  | none =>
      rw [find?_of_distance?_none hdistance, lookup?_of_root hrelates.root]
      have hglobal := hrelates.globals name.lexeme
      dsimp only
      generalize machine.scopes.own? _ _ = found at hglobal ⊢
      generalize store.globals.lookup _ = found' at hglobal ⊢
      cases hglobal with
      | some hmatch => exact .ok (Grows.refl ..) hrelates hmatch
      | none => exact simulates_fail hrelates name (RuntimeFault.sound_undefinedVariable _)

theorem simulates_assign (hrelates : Relates known homes machine store)
    (hmirrors : Mirrors homes machine.scopes pending machine.current env) {id : NodeId}
    {name : Token} (hplaces : known.Places env.names id name)
    (hmatch : Matches known homes machine.scopes value value') :
    Simulates known touched homes machine store (Eval.writeVariable id name value)
      (Run.assign env name value') fun _ _ _ _ => True := by
  unfold Simulates Eval.writeVariable Run.assign
  rw [Eval.bind_apply, Eval.assignmentScope, hrelates.table, hplaces.2]
  cases hdistance : Binding.distance? env.names name.lexeme with
  | some distance =>
      obtain ⟨cell, holder, hfind, hancestor, hhome, -⟩ := hmirrors.find hdistance
      have hgrows := Grows.define touched homes machine holder name.lexeme value
      simp only [ScopeTree.scopeAt, hancestor, hfind, Eval.modify_apply]
      exact .ok hgrows (hrelates.defineLocal hhome (hmatch.grow hgrows)) trivial
  | none =>
      rw [find?_of_distance?_none hdistance]
      have hglobal := hrelates.globals name.lexeme
      simp only [holder?_of_root hrelates.root]
      generalize machine.scopes.own? _ _ = found at hglobal ⊢
      generalize store.globals.lookup _ = found' at hglobal ⊢
      cases hglobal with
      | some _ =>
          have hgrows := Grows.define touched homes machine Machine.globals name.lexeme value
          exact .ok hgrows (hrelates.defineGlobal rfl (hmatch.grow hgrows)) trivial
      | none => exact simulates_fail hrelates name (RuntimeFault.sound_undefinedVariable _)

/-! ### Declarations -/

/-- The cell of the name that was declared last. -/
def Declares (homes : Homes) (scope : Nat) (env : Env) (name : String) : Prop :=
  env = [] ∨ ∃ cell : Nat, env.find? name = some cell ∧ homes[cell]? = some (scope, name)

theorem Declares.grow {homes' : Homes} {machine' : Machine} {scope : Nat} {name : String}
    (h : Declares homes scope env name) (hgrows : Grows touched homes machine homes' machine') :
    Declares homes' scope env name := by
  rcases h with rfl | ⟨cell, hfind, hhome⟩
  · exact Or.inl rfl
  · exact Or.inr ⟨cell, hfind, hgrows.home hhome⟩

/-- Declaring a name makes a cell, which the machine does not notice yet. -/
theorem Simulates.declare {name : String} {ref : Env → Run β}
    (hrelates : Relates known homes machine store) (hstands : Stands homes machine env)
    (hnew : Binding.declaredHere env.names name = false)
    (h : ∀ homes' store' inside, Grows (some machine.current) homes machine homes' machine →
      Relates known homes' machine store' →
      Mirrors homes' machine.scopes (Binding.pendingOf env.names name) machine.current inside →
      (∀ key, (machine.current, key) ∈ homes' → Binding.declaredHere inside.names key = true) →
      Declares homes' machine.current inside name →
      inside.names = Binding.declare env.names name →
        Simulates known (some machine.current) homes' machine store' action (ref inside) P) :
    Simulates known (some machine.current) homes machine store action
      (Run.declare env name >>= ref) P := by
  unfold Simulates
  rw [Eval.bind_apply]
  cases env with
  | nil =>
      exact h homes store [] (Grows.refl _ _ _) hrelates hstands.mirrors hstands.complete
        (Or.inl rfl) rfl
  | cons names outer =>
      have hlt := hstands.mirrors.lt_size hrelates.nonempty
      have hfresh : (machine.current, name) ∉ homes := by
        intro hmem
        rw [hstands.complete name hmem] at hnew
        cases hnew
      have hglobal : machine.current ≠ Machine.globals := by
        obtain ⟨⟨parent, hparent, -⟩, -⟩ := hstands.mirrors
        intro heq
        rw [heq, hrelates.root] at hparent
        cases hparent
      have hpending : Binding.pendingOf (Env.names (names :: outer)) name = some name := by
        rw [Binding.pendingOf, hnew]
        rfl
      have hcell : (homes ++ [(machine.current, name)])[store.cells.length]? =
          some (machine.current, name) := by
        rw [← hrelates.count, List.getElem?_append_right (Nat.le_refl _), Nat.sub_self]
        rfl
      have hnames := names_bind hnew store.cells.length
      have hgrows := Grows.allocate homes machine machine.current name
      refine (h _ _ _ hgrows (hrelates.allocate hfresh hglobal hlt) ?_ ?_ ?_ hnames).since hgrows
      · obtain ⟨hparent, hframe⟩ := hstands.mirrors.grow hgrows
        refine ⟨hparent, fun key cell hmem => ?_⟩
        rw [hpending]
        rcases List.mem_cons.mp hmem with heq | hmem
        · cases heq
          exact ⟨hcell, fun hne => absurd rfl hne⟩
        · exact ⟨(hframe key cell hmem).1, fun _ => (hframe key cell hmem).2 nofun⟩
      · intro key hmem
        show ((name :: names.map Prod.fst).contains key) = true
        rw [List.contains_iff_mem]
        rcases List.mem_append.mp hmem with hmem | hmem
        · exact List.mem_cons_of_mem _ (List.contains_iff_mem.mp (hstands.complete key hmem))
        · cases List.mem_singleton.mp hmem
          exact List.mem_cons_self
      · exact Or.inr ⟨_, find?_bind names outer name _, hcell⟩

/-- Once it is defined, the name is not pending any more. -/
theorem Mirrors.define {scope : Nat} {name : String}
    (h : Mirrors homes machine.scopes pending scope env)
    (hpending : ∀ key, pending = some key → key = name) (hlt : scope < machine.scopes.size)
    (value : Value) : Mirrors homes (machine.scopes.define scope name value) none scope env := by
  have hgrows := Grows.define none homes machine scope name value
  cases env with
  | nil => exact h
  | cons names outer =>
      obtain ⟨⟨parent, hparent, houter⟩, hframe⟩ := h
      refine ⟨⟨parent, hgrows.parent scope parent hparent, houter.grow hgrows⟩, ?_⟩
      intro key cell hmem
      obtain ⟨hhome, hbound⟩ := hframe key cell hmem
      refine ⟨hhome, fun _ => ?_⟩
      by_cases hkey : key = name
      · rw [ScopeTree.own?_define, if_pos ⟨rfl, hkey, hlt⟩]
        rfl
      · exact hgrows.bound scope key (hbound fun heq => hkey (hpending key heq))

theorem simulates_define {name : String} (hrelates : Relates known homes machine store)
    (hmirrors : Mirrors homes machine.scopes pending machine.current env)
    (hdeclares : Declares homes machine.current env name)
    (hmatch : Matches known homes (machine.scopes.define machine.current name value) value value') :
    Simulates known touched homes machine store (Eval.define name value)
      (Run.define env name value')
      fun homes' machine' _ _ => homes' = homes ∧
        machine' = { machine with scopes := machine.scopes.define machine.current name value } := by
  unfold Simulates Eval.define Run.define
  rw [Eval.modify_apply, Eval.modify_apply]
  rcases hdeclares with rfl | ⟨cell, hfind, hhome⟩
  · exact .ok (Grows.define ..) (hrelates.defineGlobal hmirrors hmatch) ⟨rfl, rfl⟩
  · simp only [hfind]
    exact .ok (Grows.define ..) (hrelates.defineLocal hhome hmatch) ⟨rfl, rfl⟩

theorem pendingOf_eq_some {scopes : Binding.Scopes} {name key : String}
    (h : Binding.pendingOf scopes name = some key) : key = name := by
  unfold Binding.pendingOf at h
  split at h
  · cases h
  · exact (Option.some.inj h).symm

/-- A name is declared, its value is found, and the rest goes on behind it. -/
theorem Simulates.declaration {γ δ : Type} {name : String} {action : Eval Value}
    {ref : Env → Run (ValueIn Env)} {next : Eval γ} {next' : Env → Run δ}
    {Q : Homes → Machine → γ → δ → Prop}
    (hrelates : Relates known homes machine store) (hstands : Stands homes machine env)
    (hnew : Binding.declaredHere env.names name = false)
    (haction : ∀ homes' store' inside, Grows (some machine.current) homes machine homes' machine →
      Relates known homes' machine store' →
      Mirrors homes' machine.scopes (Binding.pendingOf env.names name) machine.current inside →
      inside.names = Binding.declare env.names name →
        Simulates known none homes' machine store' action (ref inside)
          fun homes' machine' value value' => Matches known homes'
            (machine'.scopes.define machine.current name value) value value')
    (hnext : ∀ homes' machine' store' inside,
      Grows (some machine.current) homes machine homes' machine' →
      Relates known homes' machine' store' → Stands homes' machine' inside →
      inside.names = Binding.declare env.names name →
        Simulates known (some machine.current) homes' machine' store' next (next' inside) Q) :
    Simulates known (some machine.current) homes machine store
      (action >>= fun value => Eval.define name value >>= fun _ => next)
      (Run.declare env name >>= fun inside => ref inside >>= fun value =>
        Run.define inside name value >>= fun _ => next' inside) Q := by
  have hlt := hstands.mirrors.lt_size hrelates.nonempty
  refine Simulates.declare hrelates hstands hnew
    fun homes' store' inside hgrowsDeclare hrelates' hmirrors hcomplete hdeclares hnames => ?_
  have hvalue := haction homes' store' inside hgrowsDeclare hrelates' hmirrors hnames
  -- The value is found without declaring anything, so the place keeps its names.
  refine (hvalue.growing.untouched nofun _).bind
    fun homes'' machine'' store'' value value' _ hrelates'' ⟨hmatch, hgrows⟩ => ?_
  have hmirrors' := hmirrors.grow hgrows
  rw [← hgrows.current] at hmatch hdeclares hmirrors'
  refine (simulates_define hrelates'' hmirrors' (hdeclares.grow hgrows) hmatch).bind
    fun homes3 machine3 store3 _ _ hgrows3 hrelates3 ⟨hhomes, hmachine⟩ => ?_
  subst hhomes hmachine
  have hgrowsAll := (hgrowsDeclare.trans (hgrows.untouched nofun _)).trans hgrows3
  refine hnext _ _ _ inside hgrowsAll hrelates3 ⟨?_, fun key hmem => ?_⟩ hnames
  · exact hmirrors'.define (fun key => pendingOf_eq_some)
      (Nat.lt_of_lt_of_le (hgrows.current ▸ hlt) hgrows.size) value
  · rcases hgrows.fresh _ key hmem with hmem | hsize | hmem
    · exact hcomplete key (hgrows.current ▸ hmem)
    · exact absurd (hgrows.current ▸ hsize) (Nat.not_le_of_lt hlt)
    · cases hmem

/-! ### New scopes -/

/-- A scope that has just been opened is one where nothing is declared yet. -/
theorem Stands.child {parent : Nat} (hrelates : Relates known homes machine store)
    (hmirrors : Mirrors homes machine.scopes none parent env) :
    Stands homes
      { machine with scopes := machine.scopes.child parent, current := machine.scopes.size }
      ([] :: env) := by
  have hlt := hmirrors.lt_size hrelates.nonempty
  have houter : Mirrors homes (machine.scopes.child parent) none parent env :=
    hmirrors.grow (Grows.openScope none homes machine parent)
  refine ⟨⟨⟨parent, ScopeTree.parent?_openScope_self hlt, houter⟩, nofun⟩, ?_⟩
  intro name hmem
  exact absurd (hrelates.inside _ hmem).2 (Nat.lt_irrefl _)

/-- An inner scope is opened and left again; the reference run only passes on a
longer environment. -/
theorem Simulates.inChild {parent : Nat} (hrelates : Relates known homes machine store)
    (hmirrors : Mirrors homes machine.scopes none parent env)
    (h : ∀ inner : Machine,
      (∀ value value', Matches known homes machine.scopes value value' →
        Matches known homes inner.scopes value value') →
      Relates known homes inner store → Stands homes inner ([] :: env) →
        Simulates known (some inner.current) homes inner store action ref P)
    (hP : Inward P) :
    Simulates known touched homes machine store
      (Eval.openScope parent >>= fun scope => Eval.within scope action) ref P := by
  have hgrows := Grows.openScope (some machine.scopes.size) homes machine parent
  have hopened := hrelates.openScope parent
  have hstands := Stands.child hrelates hmirrors
  have hkept : ∀ value value', Matches known homes machine.scopes value value' →
      Matches known homes (machine.scopes.child parent) value value' :=
    fun _ _ hmatch => hmatch.grow hgrows
  have hinner : Simulates known (some machine.scopes.size) homes
      { machine with scopes := machine.scopes.child parent } store
      (Eval.within machine.scopes.size action) ref P := Simulates.within
    (h { machine with scopes := machine.scopes.child parent, current := machine.scopes.size }
      hkept (hopened.move _) hstands) hP
  have hwhole : Simulates known (some machine.scopes.size) homes machine store
      (Eval.openScope parent >>= fun scope => Eval.within scope action) ref P :=
    hinner.since hgrows
  exact hwhole.untouched (fun scope hscope => Nat.le_of_eq (Option.some.inj hscope)) touched

/-- Bind names in the scope where statements run, one after the other. -/
def fill : List (String × Value) → Eval Unit
  | [] => return ()
  | (name, value) :: rest => do
      Eval.define name value
      fill rest

theorem fill_apply (pairs : List (String × Value)) (machine : Machine) :
    fill pairs machine = .ok () { machine with
      scopes := pairs.foldl (fun tree pair => tree.define machine.current pair.1 pair.2)
        machine.scopes } := by
  induction pairs generalizing machine with
  | nil => rfl
  | cons pair rest ih =>
      obtain ⟨name, value⟩ := pair
      rw [fill, Eval.bind_apply, Eval.define, Eval.modify_apply]
      exact ih _

/-- Parameters are bound where the body will run. -/
theorem openFrame_within (function : Closure) (arguments : List Value) (action : Eval α)
    (machine : Machine) :
    (Eval.openFrame function arguments >>= fun frame => Eval.within frame action) machine =
      (Eval.openScope function.scope >>= fun frame => Eval.within frame
        (fill ((function.params.map Token.lexeme).zip arguments) >>= fun _ => action)) machine := by
  simp only [Eval.bind_apply, Eval.openFrame, Eval.openScope, Eval.modify_apply, Eval.pure_apply,
    Eval.within, fill_apply]
  rfl

theorem simulates_fill {names : List String} {arguments : List Value}
    {arguments' : List (ValueIn Env)} {declared : List String} {outer : Binding.Scopes}
    (hrelates : Relates known homes machine store) (hstands : Stands homes machine env)
    (hnames : env.names = declared :: outer) (hnodup : names.Nodup)
    (hnew : ∀ name ∈ names, name ∉ declared) (hlength : arguments.length = names.length)
    (harguments : AllMatch known homes machine.scopes arguments arguments') :
    Simulates known (some machine.current) homes machine store (fill (names.zip arguments))
      (Run.openFrame env (names.zip arguments'))
      fun homes' machine' _ inside => Stands homes' machine' inside ∧
        inside.names = (names.reverse ++ declared) :: outer := by
  induction names generalizing arguments arguments' homes machine store env declared with
  | nil =>
      cases harguments with
      | cons _ _ => cases hlength
      | nil => exact simulates_pure hrelates ⟨hstands, hnames⟩
  | cons name rest ih =>
      cases harguments with
      | nil => cases hlength
      | @cons value value' arguments arguments' hvalue harguments =>
          obtain ⟨hnot, hnodup⟩ := List.nodup_cons.mp hnodup
          have hname : ¬ declared.contains name = true := fun hcontains =>
            hnew name List.mem_cons_self (List.contains_iff_mem.mp hcontains)
          have hhere : Binding.declaredHere env.names name = false := by
            rw [hnames, Binding.declaredHere, Bool.eq_false_iff]
            exact hname
          have hstep : Simulates known (some machine.current) homes machine store
              (pure value >>= fun found => Eval.define name found >>= fun _ =>
                fill (rest.zip arguments))
              (Run.declare env name >>= fun inside => pure value' >>= fun found =>
                Run.define inside name found >>= fun _ =>
                  Run.openFrame inside (rest.zip arguments'))
              fun homes' machine' _ inside => Stands homes' machine' inside ∧
                inside.names = ((name :: rest).reverse ++ declared) :: outer := by
            refine Simulates.declaration hrelates hstands hhere
              (fun homes' store' inside hgrows hrelates' _ _ => ?_)
              fun homes' machine' store' inside hgrows hrelates' hstands' hinside => ?_
            · have hdefined := Grows.define none homes' machine machine.current name value
              exact simulates_pure hrelates' ((hvalue.grow hgrows).grow hdefined)
            · rw [hnames, Binding.declare, if_neg hname] at hinside
              rw [← hgrows.current, List.reverse_cons, List.append_assoc, List.singleton_append]
              refine ih hrelates' hstands' hinside hnodup (fun key hkey hmem => ?_)
                (Nat.succ.inj hlength) (AllMatch.grow harguments hgrows)
              rcases List.mem_cons.mp hmem with rfl | hmem
              · exact hnot hkey
              · exact hnew key (List.mem_cons_of_mem _ hkey) hmem
          exact hstep

end Actions

end Scriptlet.Lexical
