/-
Stores of runs of two programs that differ in names: every cell has its twin in the same place,
and only what closures hold may differ.
-/
import Scriptlet.Proofs.Calls
import Scriptlet.Proofs.Lexical.Reference
import Scriptlet.Proofs.Renaming.Alpha

namespace Scriptlet.Renaming

open Reference (Env Store Run)

/-- The same cells, under the one names and under the other. -/
inductive TwinEnv : Pairs → Env → Env → Prop
  | nil : TwinEnv [] [] []
  | open {pairs : Pairs} {env env' : Env} (outer : TwinEnv pairs env env') :
      TwinEnv ([] :: pairs) ([] :: env) ([] :: env')
  | declare {frame : List (String × String)} {pairs : Pairs} {names names' : List (String × Nat)}
      {env env' : Env} {name name' : String} {cell : Nat}
      (inner : TwinEnv (frame :: pairs) (names :: env) (names' :: env')) :
      TwinEnv (((name, name') :: frame) :: pairs) (((name, cell) :: names) :: env)
        (((name', cell) :: names') :: env')

/-- Closures of functions that differ in names. -/
inductive TwinClosure (new : String) : ClosureIn Env → ClosureIn Env → Prop
  | same {pairs inside : Pairs} {env env' : Env} {strict : Bool} {name : Token}
      {params params' : List Token} {body body' : List Stmt} {identity : Nat}
      (scope : TwinEnv pairs env env')
      (params_ : AlphaParams new strict ([] :: pairs) params params' inside)
      (body_ : AlphaStmts new strict inside body body') :
      TwinClosure new ⟨name, params, body, env, identity⟩ ⟨name, params', body', env', identity⟩

abbrev TwinValue (new : String) : ValueIn Env → ValueIn Env → Prop :=
  ValueIn.Rel (TwinClosure new)

structure TwinStore (new : String) (store store' : Store) : Prop where
  outside : store'.toOutside = store.toOutside
  globals : ∀ name, Option.Rel (TwinValue new) (store.globals.lookup name)
    (store'.globals.lookup name)
  cells : List.Forall₂ (TwinValue new) store.cells store'.cells

section Env

variable {pairs : Pairs} {env env' : Env} {name name' : String}

/-- The name that was declared last is found first. -/
theorem find?_declared (key : String) (cell : Nat) (names : List (String × Nat)) (outer : Env) :
    Env.find? (((key, cell) :: names) :: outer) name =
      if name = key then some cell else Env.find? (names :: outer) name := by
  unfold Env.find?
  rw [List.findSome?_cons, List.findSome?_cons, List.lookup_cons]
  by_cases h : name = key
  · rw [if_pos h, beq_iff_eq.mpr h]
  · rw [if_neg h, beq_false_of_ne h]

/-- Names that mean the same denote the same cell, or are the same global. -/
theorem TwinEnv.find?_eq (h : TwinEnv pairs env env') (hsame : pairs.Same name name') :
    env'.find? name' = env.find? name ∧ (env.find? name = none → name' = name) := by
  induction h with
  | nil => exact ⟨rfl, fun _ => hsame.symm⟩
  | «open» _ ih => exact ih hsame
  | declare _ ih =>
      rw [find?_declared, find?_declared]
      rcases hsame with ⟨hname, hname'⟩ | ⟨hne, hne', hsame⟩
      · rw [if_pos hname, if_pos hname']
        exact ⟨rfl, nofun⟩
      · rw [if_neg hne, if_neg hne']
        exact ih hsame

theorem TwinEnv.bind (h : TwinEnv pairs env env') (name name' : String) (cell : Nat) :
    TwinEnv (pairs.declare name name') (env.bind name cell) (env'.bind name' cell) := by
  cases h with
  | nil => exact .nil
  | «open» houter => exact .declare (.open houter)
  | declare hinner => exact .declare (.declare hinner)

end Env

/-! ### A store is its own twin -/

section Refl

variable {new : String}

theorem twinEnv_refl (env : Env) : ∃ pairs, TwinEnv pairs env env ∧ pairs.Identical := by
  induction env with
  | nil => exact ⟨[], .nil, nofun⟩
  | cons names outer ih =>
      induction names with
      | nil =>
          obtain ⟨pairs, htwin, hidentical⟩ := ih
          exact ⟨[] :: pairs, .open htwin, hidentical.open⟩
      | cons binding names ihNames =>
          obtain ⟨pairs, htwin, hidentical⟩ := ihNames
          obtain ⟨frame, outer', rfl⟩ : ∃ frame outer', pairs = frame :: outer' := by
            cases htwin <;> exact ⟨_, _, rfl⟩
          exact ⟨_, .declare htwin, hidentical.declare binding.1⟩

theorem twinValue_refl (value : ValueIn Env) : TwinValue new value value := by
  cases value with
  | nil => exact .nil
  | bool value => exact .bool value
  | number value => exact .number value
  | string text => exact .string text
  | host function => exact .host function
  | closure function =>
      obtain ⟨pairs, htwin, hidentical⟩ := twinEnv_refl function.scope
      obtain ⟨inside, hparams, hinside⟩ := alphaParams_refl hidentical.open function.params
      exact .closure (.same htwin hparams (alphaStmts_refl hinside function.body))

theorem twinStore_refl (store : Store) : TwinStore new store store where
  outside := rfl
  globals name := by
    cases store.globals.lookup name with
    | none => exact .none
    | some value => exact .some (twinValue_refl value)
  cells := List.forall₂_same.mpr fun value _ => twinValue_refl value

end Refl

/-! ### Lists of related values -/

section Lists

variable {α β : Type} {R : α → β → Prop} {values : List α} {values' : List β} {a : α} {b : β}

theorem forall₂_set (h : List.Forall₂ R values values') (hab : R a b) (place : Nat) :
    List.Forall₂ R (values.set place a) (values'.set place b) := by
  induction h generalizing place with
  | nil => exact .nil
  | cons hfirst hrest ih =>
      cases place with
      | zero => exact .cons hab hrest
      | succ place => exact .cons hfirst (ih place)

theorem forall₂_getD (h : List.Forall₂ R values values') (hab : R a b) (place : Nat) :
    R (values.getD place a) (values'.getD place b) := by
  induction h generalizing place with
  | nil => exact hab
  | cons hfirst _ ih =>
      cases place with
      | zero => exact hfirst
      | succ place => exact ih place

end Lists

/-! ### Actions on twins -/

/-- Both actions end well with related results, or stop for the same reason, and the stores are
twins again. -/
inductive TwinResult {α β : Type} (new : String) (R : α → β → Prop) :
    EStateM.Result Stop Store α → EStateM.Result Stop Store β → Prop
  | ok {store store' : Store} {a : α} {b : β} (stores : TwinStore new store store')
      (related : R a b) : TwinResult new R (.ok a store) (.ok b store')
  | error {store store' : Store} {stop : Stop} (stores : TwinStore new store store') :
      TwinResult new R (.error stop store) (.error stop store')

def TwinRun {α β : Type} (new : String) (R : α → β → Prop) (action : Run α) (action' : Run β) :
    Prop :=
  ∀ ⦃store store'⦄, TwinStore new store store' → TwinResult new R (action store) (action' store')

section Actions

variable {α β γ δ : Type} {new : String} {R : α → β → Prop} {T : γ → δ → Prop}
  {action : Run α} {action' : Run β} {next : α → Run γ} {next' : β → Run δ}

theorem TwinClosure.sameFace {f g : ClosureIn Env} (h : TwinClosure new f g) : f.SameFace g := by
  cases h with
  | same _ hparams _ => exact ⟨rfl, hparams.length_eq, rfl⟩

theorem twinRun_pure {a : α} {b : β} (h : R a b) : TwinRun new R (pure a) (pure b) :=
  fun _ _ hstores => .ok hstores h

theorem twinRun_throw (stop : Stop) : TwinRun new R (throw stop) (throw stop) :=
  fun _ _ hstores => .error hstores

theorem twinRun_fail {token token' : Token} (hline : token'.line = token.line)
    (fault : RuntimeFault) : TwinRun new R (Eval.fail token fault) (Eval.fail token' fault) := by
  unfold Eval.fail
  rw [hline]
  exact twinRun_throw _

theorem TwinRun.bind (h : TwinRun new R action action')
    (hnext : ∀ a b, R a b → TwinRun new T (next a) (next' b)) :
    TwinRun new T (action >>= next) (action' >>= next') := by
  intro store store' hstores
  have hfirst := h hstores
  rw [Eval.bind_apply, Eval.bind_apply]
  generalize action store = result at hfirst ⊢
  generalize action' store' = result' at hfirst ⊢
  cases hfirst with
  | ok hstores' hrelated => exact hnext _ _ hrelated hstores'
  | error hstores' => exact .error hstores'

theorem twinRun_lift (token : Token) {result : Except RuntimeFault α}
    {result' : Except RuntimeFault β} (h : SameResult R result result') :
    TwinRun new R (Eval.lift token result) (Eval.lift token result') := by
  cases h with
  | ok hrelated => exact twinRun_pure hrelated
  | error fault => exact twinRun_fail rfl fault

theorem TwinStore.modifyOutside {store store' : Store} (h : TwinStore new store store')
    (change : Outside → Outside) :
    TwinStore new (HasOutside.modifyOutside change store)
      (HasOutside.modifyOutside change store') :=
  { h with outside := congrArg change h.outside }

theorem twinRun_freshIdentity :
    TwinRun new (fun a b => b = a) Eval.freshIdentity Eval.freshIdentity :=
  fun _ _ h => .ok (h.modifyOutside _) (congrArg Outside.nextIdentity h.outside)

theorem twinRun_printLine (text : String) :
    TwinRun new (fun _ _ => True) (Eval.printLine text) (Eval.printLine text) := by
  intro store store' h
  have hsink : (HasOutside.outside store').sink = (HasOutside.outside store).sink :=
    congrArg Outside.sink h.outside
  unfold Eval.printLine
  rw [hsink]
  dsimp only
  split
  · exact .ok (h.modifyOutside _) trivial
  · exact .error (h.modifyOutside _)

theorem twinRun_flush : TwinRun new (fun _ _ => True) Eval.flush Eval.flush := by
  intro store store' h
  have hsink : (HasOutside.outside store').sink = (HasOutside.outside store).sink :=
    congrArg Outside.sink h.outside
  unfold Eval.flush
  rw [hsink]
  split
  · exact .error h
  · exact .ok h trivial

theorem TwinRun.deeper (h : TwinRun new R action action') :
    TwinRun new R (Eval.deeper action) (Eval.deeper action') := by
  intro store store' hstores
  have hin := h (hstores.modifyOutside fun o => { o with depth := o.depth + 1 })
  unfold Eval.deeper
  dsimp only
  generalize action _ = result at hin ⊢
  generalize action' _ = result' at hin ⊢
  cases hin with
  | ok hstores' hrelated => exact .ok (hstores'.modifyOutside _) hrelated
  | error hstores' => exact .error (hstores'.modifyOutside _)

/-! ### Calls -/

theorem twinRun_callHost (function : HostFunction) {arguments arguments' : List (ValueIn Env)}
    (harguments : List.Forall₂ (TwinValue new) arguments arguments') (paren : Token) :
    TwinRun new (TwinValue new) (Eval.callHost function arguments paren)
      (Eval.callHost function arguments' paren) := by
  intro store store' h
  have hclock : (HasOutside.outside store').clock = (HasOutside.outside store).clock :=
    congrArg Outside.clock h.outside
  rw [Eval.callHost_apply, Eval.callHost_apply, hclock]
  have hresult := (function.action.run_rel harguments
    (HasOutside.outside store).clock.now).mapError RuntimeFault.host
  exact twinRun_lift paren hresult (h.modifyOutside _)

/-- What is called on both sides. -/
def TwinCallable (new : String) (callee callee' : CallableIn Env) : Prop :=
  ∃ value value', TwinValue new value value' ∧ value.callable? = some callee ∧
    value'.callable? = some callee'

theorem twinRun_checkCall {value value' : ValueIn Env} (hvalue : TwinValue new value value')
    {arguments arguments' : List (ValueIn Env)}
    (harguments : List.Forall₂ (TwinValue new) arguments arguments') (paren : Token) :
    TwinRun new (fun callee callee' => TwinCallable new callee callee' ∧
        arguments.length = callee.arity)
      (Eval.checkCall value arguments paren) (Eval.checkCall value' arguments' paren) := by
  intro store store' h
  have hdepth : (HasOutside.outside store').depth = (HasOutside.outside store).depth :=
    congrArg Outside.depth h.outside
  rw [Eval.checkCall_apply, Eval.checkCall_apply, hdepth]
  have hresult := hvalue.checked (fun _ _ => TwinClosure.sameFace) harguments.length_eq
    (HasOutside.outside store).depth
  exact twinRun_lift paren hresult h

/-! ### Variables -/

section Variables

variable {pairs : Pairs} {env env' : Env} {value value' : ValueIn Env}

theorem TwinStore.setCell {store store' : Store} (h : TwinStore new store store') (cell : Nat)
    (hvalue : TwinValue new value value') :
    TwinStore new { store with cells := store.cells.set cell value }
      { store' with cells := store'.cells.set cell value' } :=
  { h with cells := forall₂_set h.cells hvalue cell }

theorem TwinStore.bindGlobal {store store' : Store} (h : TwinStore new store store')
    (name : String) (hvalue : TwinValue new value value') :
    TwinStore new { store with globals := bindName name value store.globals }
      { store' with globals := bindName name value' store'.globals } := by
  refine { h with globals := fun other => ?_ }
  rw [lookup_bindName, lookup_bindName]
  split
  · exact .some hvalue
  · exact h.globals other

theorem twinRun_read (henv : TwinEnv pairs env env') {name name' : Token}
    (hsame : pairs.Same name.lexeme name'.lexeme) (hline : name'.line = name.line) :
    TwinRun new (TwinValue new) (Run.read env name) (Run.read env' name') := by
  intro store store' h
  obtain ⟨hfind, hglobal⟩ := henv.find?_eq hsame
  unfold Run.read
  rw [hfind]
  cases hcell : env.find? name.lexeme with
  | some cell => exact .ok h (forall₂_getD h.cells .nil cell)
  | none =>
      rw [hglobal hcell]
      have hvalue := h.globals name.lexeme
      dsimp only
      generalize store.globals.lookup name.lexeme = found at hvalue ⊢
      generalize store'.globals.lookup name.lexeme = found' at hvalue ⊢
      cases hvalue with
      | some hrelated => exact .ok h hrelated
      | none => exact twinRun_fail hline _ h

theorem twinRun_assign (henv : TwinEnv pairs env env') {name name' : Token}
    (hsame : pairs.Same name.lexeme name'.lexeme) (hline : name'.line = name.line)
    (hvalue : TwinValue new value value') :
    TwinRun new (fun _ _ => True) (Run.assign env name value) (Run.assign env' name' value') := by
  intro store store' h
  obtain ⟨hfind, hglobal⟩ := henv.find?_eq hsame
  unfold Run.assign
  rw [hfind]
  cases hcell : env.find? name.lexeme with
  | some cell => exact .ok (h.setCell cell hvalue) trivial
  | none =>
      rw [hglobal hcell]
      have hbound := h.globals name.lexeme
      dsimp only
      generalize store.globals.lookup name.lexeme = found at hbound ⊢
      generalize store'.globals.lookup name.lexeme = found' at hbound ⊢
      cases hbound with
      | some _ => exact .ok (h.bindGlobal _ hvalue) trivial
      | none => exact twinRun_fail hline _ h

theorem twinRun_define (henv : TwinEnv pairs env env') {name name' : String}
    (hsame : pairs.Same name name') (hvalue : TwinValue new value value') :
    TwinRun new (fun _ _ => True) (Run.define env name value) (Run.define env' name' value') := by
  intro store store' h
  obtain ⟨hfind, hglobal⟩ := henv.find?_eq hsame
  unfold Run.define
  rw [Eval.modify_apply, Eval.modify_apply, hfind]
  cases hcell : env.find? name with
  | some cell => exact .ok (h.setCell cell hvalue) trivial
  | none =>
      rw [hglobal hcell]
      exact .ok (h.bindGlobal _ hvalue) trivial

theorem twinRun_declare (henv : TwinEnv pairs env env') (name name' : String) :
    TwinRun new (TwinEnv (pairs.declare name name')) (Run.declare env name)
      (Run.declare env' name') := by
  intro store store' h
  have hinside := henv.bind name name' store.cells.length
  have hmore : TwinStore new { store with cells := store.cells ++ [.nil] }
      { store' with cells := store'.cells ++ [.nil] } :=
    { h with cells := List.rel_append h.cells (.cons .nil .nil) }
  unfold Run.declare
  rw [← h.cells.length_eq]
  cases henv with
  | nil => exact .ok h .nil
  | «open» _ | declare _ => exact .ok hmore hinside

/-- The scope of a call. -/
theorem twinRun_openFrame {strict : Bool} {pairs inside : Pairs} {params params' : List Token}
    (hparams : AlphaParams new strict pairs params params' inside) {env env' : Env}
    (henv : TwinEnv pairs env env') {arguments arguments' : List (ValueIn Env)}
    (harity : arguments.length = params.length)
    (harguments : List.Forall₂ (TwinValue new) arguments arguments') :
    TwinRun new (TwinEnv inside)
      (Run.openFrame env ((params.map Token.lexeme).zip arguments))
      (Run.openFrame env' ((params'.map Token.lexeme).zip arguments')) := by
  induction hparams generalizing env env' arguments arguments' with
  | nil => exact twinRun_pure henv
  | cons _ _ hsame _ ih =>
      cases harguments with
      | nil => cases harity
      | cons hfirst hrest =>
          refine (twinRun_declare henv _ _).bind fun opened opened' hopened => ?_
          refine (twinRun_define hopened hsame hfirst).bind fun _ _ _ => ?_
          exact ih hopened (Nat.succ.inj harity) hrest

end Variables

end Actions

end Scriptlet.Renaming
