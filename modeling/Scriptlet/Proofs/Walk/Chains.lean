/-
Chains of scopes that the code inside them knows: each scope binds the names that its frame
has declared, and none that its frame does not plan.

A machine is laid out by plans, one for each scope, which say what the scope will ever bind.
A closure holds on to a chain, and by the frames of that chain its body finds its names, no
matter what the scopes have come to bind since then.
-/
import Scriptlet.Proofs.Lexical.Mirrors
import Scriptlet.Proofs.Runs.Restored
import Scriptlet.Proofs.Walk.Frames

namespace Scriptlet.Walk

open Binding Lexical

/-- What each scope will ever bind; for the global scope it does not matter. -/
abbrev Plans := List (List String)

/-- The chain of scopes that starts here is the one that the frames describe. -/
def Chain (plans : Plans) (tree : ScopeTree Value) : Nat → Frames → Prop
  | scope, [] => scope = Machine.globals
  | scope, frame :: outer =>
      plans[scope]? = some frame.planned ∧
        (∃ parent, tree.parent? scope = some parent ∧ Chain plans tree parent outer) ∧
          ∀ name ∈ frame.declared, (tree.own? scope name).isSome = true

/-- The body of the function finds its names from where the function was declared. -/
def PlacedClosure (table : Table) (plans : Plans) (tree : ScopeTree Value)
    (function : Closure) : Prop :=
  ∃ frames, Chain plans tree function.scope frames ∧
    WalksStmts table
      (frameOf (function.params.map Token.lexeme).reverse function.body :: frames) function.body

def PlacedValue (table : Table) (plans : Plans) (tree : ScopeTree Value) : Value → Prop
  | .closure function => PlacedClosure table plans tree function
  | _ => True

def PlacedCallable (table : Table) (plans : Plans) (tree : ScopeTree Value) : Callable → Prop
  | .closure function => PlacedClosure table plans tree function
  | .host _ => True

def PlacedFlow (table : Table) (plans : Plans) (tree : ScopeTree Value) : Flow Value → Prop
  | .leave value => PlacedValue table plans tree value
  | .normal => True

/-- The local scopes bind what is planned, and all functions are where they belong. -/
structure Laid (table : Table) (plans : Plans) (machine : Machine) : Prop where
  sameTable : machine.table = table
  count : plans.length = machine.scopes.size
  root : machine.scopes.parent? Machine.globals = none
  nonempty : Machine.globals < machine.scopes.size
  planned : ∀ scope name, scope ≠ Machine.globals →
    (machine.scopes.own? scope name).isSome = true → ∃ plan ∈ plans[scope]?, name ∈ plan
  placed : ∀ scope name value, machine.scopes.own? scope name = some value →
    PlacedValue table plans machine.scopes value

/-- Running has kept the plans of the scopes that were there. -/
structure Grown (plans : Plans) (machine : Machine) (plans' : Plans) (machine' : Machine) :
    Prop where
  kept : plans <+: plans'
  restored : Restored machine machine'

section Growth

variable {table : Table} {plans plans' plans'' : Plans} {machine machine' machine'' : Machine}
  {scope : Nat} {frames : Frames}

theorem Grown.refl (plans : Plans) (machine : Machine) : Grown plans machine plans machine :=
  ⟨List.prefix_refl _, .refl _⟩

theorem Grown.trans (h : Grown plans machine plans' machine')
    (h' : Grown plans' machine' plans'' machine'') : Grown plans machine plans'' machine'' :=
  ⟨h.kept.trans h'.kept, h.restored.trans h'.restored⟩

/-- The scopes of a chain are there. -/
theorem Chain.lt_size (h : Chain plans machine.scopes scope frames)
    (hlaid : Laid table plans machine) : scope < machine.scopes.size := by
  cases frames with
  | nil => exact h ▸ hlaid.nonempty
  | cons frame outer =>
      rw [← hlaid.count]
      exact (List.getElem?_eq_some_iff.mp h.1).1

theorem Chain.grow (h : Chain plans machine.scopes scope frames) (hlaid : Laid table plans machine)
    (hgrown : Grown plans machine plans' machine') : Chain plans' machine'.scopes scope frames := by
  induction frames generalizing scope with
  | nil => exact h
  | cons frame outer ih =>
      have hlt := h.lt_size hlaid
      obtain ⟨hplan, ⟨parent, hparent, houter⟩, hdeclared⟩ := h
      refine ⟨?_, ⟨parent, ?_, ih houter⟩, fun name hname => ?_⟩
      · obtain ⟨more, rfl⟩ := hgrown.kept
        rw [List.getElem?_append_left (List.getElem?_eq_some_iff.mp hplan).1, hplan]
      · rw [hgrown.restored.parent scope hlt, hparent]
      · exact hgrown.restored.bound scope name (hdeclared name hname)

theorem PlacedValue.grow {value : Value} (h : PlacedValue table plans machine.scopes value)
    (hlaid : Laid table plans machine) (hgrown : Grown plans machine plans' machine') :
    PlacedValue table plans' machine'.scopes value := by
  cases value with
  | closure function =>
      obtain ⟨frames, hchain, hbody⟩ := h
      exact ⟨frames, hchain.grow hlaid hgrown, hbody⟩
  | _ => trivial

end Growth

/-! ### Finding a name -/

section Find

variable {table : Table} {plans : Plans} {machine : Machine} {scope : Nat} {frame : Frame}
  {outer frames : Frames} {name : String}

theorem Chain.ne_globals (h : Chain plans machine.scopes scope (frame :: outer))
    (hlaid : Laid table plans machine) : scope ≠ Machine.globals := by
  rintro rfl
  obtain ⟨-, ⟨parent, hparent, -⟩, -⟩ := h
  rw [hlaid.root] at hparent
  cases hparent

theorem distance?_cons (frame : Frame) (outer : Frames) (name : String) :
    distance? (Frames.scopes (frame :: outer)) name =
      if name ∈ frame.declared then some 0 else (distance? outer.scopes name).map (· + 1) := by
  show List.findIdx? _ (frame.declared :: outer.scopes) = _
  rw [List.findIdx?_cons]
  simp only [List.contains_iff_mem]
  rfl

/-- A name that the innermost frame does not plan is looked for in the scope around it. -/
theorem Chain.holder?_of_not_planned (h : Chain plans machine.scopes scope (frame :: outer))
    (hlaid : Laid table plans machine) (hname : name ∉ frame.planned) :
    machine.scopes.holder? name scope =
      (machine.scopes.parent? scope).bind (machine.scopes.holder? name) := by
  have hunbound : ¬ (machine.scopes.own? scope name).isSome = true := by
    intro hbound
    obtain ⟨plan, hplan, hmem⟩ := hlaid.planned scope name (h.ne_globals hlaid) hbound
    rw [h.1] at hplan
    cases hplan
    exact hname hmem
  rw [ScopeTree.holder?_eq, if_neg hunbound]

/-- Counting scopes and looking for the name lead to the same scope, which binds the name. -/
theorem Chain.find (h : Chain plans machine.scopes scope frames)
    (hlaid : Laid table plans machine) (hclear : frames.Clear name) {distance : Nat}
    (hdistance : distance? frames.scopes name = some distance) :
    ∃ holder, machine.scopes.ancestor? distance scope = some holder ∧
      machine.scopes.holder? name scope = some holder ∧
      (machine.scopes.own? holder name).isSome = true := by
  induction frames generalizing scope distance with
  | nil => cases hdistance
  | cons frame outer ih =>
      have hchain := h
      obtain ⟨-, ⟨parent, hparent, houter⟩, hdeclared⟩ := h
      rw [distance?_cons] at hdistance
      by_cases hname : name ∈ frame.declared
      · rw [if_pos hname] at hdistance
        cases hdistance
        have hbound := hdeclared name hname
        refine ⟨scope, rfl, ?_, hbound⟩
        rw [ScopeTree.holder?_eq, if_pos hbound]
      · rw [if_neg hname] at hdistance
        obtain ⟨further, hfurther, rfl⟩ := Option.map_eq_some_iff.mp hdistance
        obtain ⟨hplanned, hclear⟩ := hclear.resolve_left hname
        obtain ⟨holder, hancestor, hholder, hbound⟩ := ih houter hclear hfurther
        refine ⟨holder, ?_, ?_, hbound⟩
        · rw [ScopeTree.ancestor?, hparent]
          exact hancestor
        · rw [hchain.holder?_of_not_planned hlaid hplanned, hparent]
          exact hholder

/-- A name that no frame declares is looked for among the globals. -/
theorem Chain.find_global (h : Chain plans machine.scopes scope frames)
    (hlaid : Laid table plans machine) (hclear : frames.Clear name)
    (hdistance : distance? frames.scopes name = none) :
    machine.scopes.holder? name scope = machine.scopes.holder? name Machine.globals := by
  induction frames generalizing scope with
  | nil => exact congrArg _ h
  | cons frame outer ih =>
      have hchain := h
      obtain ⟨-, ⟨parent, hparent, houter⟩, -⟩ := h
      rw [distance?_cons] at hdistance
      by_cases hname : name ∈ frame.declared
      · rw [if_pos hname] at hdistance
        cases hdistance
      · rw [if_neg hname] at hdistance
        obtain ⟨hplanned, hclear⟩ := hclear.resolve_left hname
        rw [hchain.holder?_of_not_planned hlaid hplanned, hparent]
        exact ih houter hclear (Option.map_eq_none_iff.mp hdistance)

end Find

/-! ### Steps -/

section Steps

variable {table : Table} {plans : Plans} {machine : Machine} {scope : Nat} {name : String}
  {value : Value} {frames : Frames}

theorem Grown.bind (plans : Plans) (machine : Machine) (scope : Nat) (name : String)
    (value : Value) : Grown plans machine plans (machine.bind scope name value) :=
  ⟨List.prefix_refl _, .bind _ _ _ _⟩

/-- A name may be bound where it is planned. -/
theorem Laid.bind (h : Laid table plans machine)
    (hvalue : PlacedValue table plans (machine.bind scope name value).scopes value)
    (hplanned : scope = Machine.globals ∨ ∃ plan ∈ plans[scope]?, name ∈ plan) :
    Laid table plans (machine.bind scope name value) := by
  have hgrown := Grown.bind plans machine scope name value
  refine ⟨h.sameTable, ?_, ?_, ?_, fun other key hother hbound => ?_, fun other key old hold => ?_⟩
  · exact h.count.trans (ScopeTree.size_define ..).symm
  · exact (ScopeTree.parent?_define ..).trans h.root
  · exact Nat.lt_of_lt_of_le h.nonempty hgrown.restored.size
  · dsimp only [Machine.bind] at hbound
    rw [ScopeTree.own?_define] at hbound
    split at hbound
    · next hsame =>
        obtain ⟨rfl, rfl, -⟩ := hsame
        exact hplanned.resolve_left hother
    · exact h.planned other key hother hbound
  · dsimp only [Machine.bind] at hold
    rw [ScopeTree.own?_define] at hold
    split at hold
    · cases hold
      exact hvalue
    · exact (h.placed other key old hold).grow h hgrown

theorem Chain.declare (h : Chain plans machine.scopes scope frames)
    (hbound : (machine.scopes.own? scope name).isSome = true) :
    Chain plans machine.scopes scope (frames.declare name) := by
  cases frames with
  | nil => exact h
  | cons frame outer =>
      obtain ⟨hplan, hparent, hdeclared⟩ := h
      exact ⟨hplan, hparent, List.forall_mem_cons.mpr ⟨hbound, hdeclared⟩⟩

theorem Chain.planned (h : Chain plans machine.scopes scope frames) (hplans : frames.Plans name) :
    scope = Machine.globals ∨ ∃ plan ∈ plans[scope]?, name ∈ plan := by
  cases frames with
  | nil => exact Or.inl h
  | cons frame outer => exact Or.inr ⟨frame.planned, h.1, hplans⟩

theorem Grown.child (plans : Plans) (machine : Machine) (plan : List String) (parent : Nat) :
    Grown plans machine (plans ++ [plan])
      { machine with scopes := machine.scopes.child parent } :=
  ⟨List.prefix_append _ _, .child _ _⟩

theorem Laid.child (h : Laid table plans machine) (plan : List String) (parent : Nat) :
    Laid table (plans ++ [plan]) { machine with scopes := machine.scopes.child parent } := by
  have hgrown := Grown.child plans machine plan parent
  refine ⟨h.sameTable, ?_, ?_, ?_, fun other key hother hbound => ?_, fun other key old hold => ?_⟩
  · rw [List.length_append, h.count]
    exact (ScopeTree.size_openScope ..).symm
  · exact (ScopeTree.parent?_openScope_of_lt h.nonempty _).trans h.root
  · exact Nat.lt_of_lt_of_le h.nonempty hgrown.restored.size
  · dsimp only [ScopeTree.child] at hbound
    rw [ScopeTree.own?_openScope] at hbound
    obtain ⟨found, hfound, hmem⟩ := h.planned other key hother hbound
    refine ⟨found, ?_, hmem⟩
    rw [Option.mem_def] at hfound ⊢
    rw [List.getElem?_append_left (List.getElem?_eq_some_iff.mp hfound).1, hfound]
  · dsimp only [ScopeTree.child] at hold
    rw [ScopeTree.own?_openScope] at hold
    exact (h.placed other key old hold).grow h hgrown

/-- The scope that is opened has a plan and binds nothing yet. -/
theorem Chain.child (h : Chain plans machine.scopes scope frames)
    (hlaid : Laid table plans machine) (plan : List String) :
    Chain (plans ++ [plan]) (machine.scopes.child scope) machine.scopes.size
      (⟨[], plan⟩ :: frames) := by
  refine ⟨?_, ⟨scope, ?_, ?_⟩, nofun⟩
  · rw [← hlaid.count, List.getElem?_append_right (Nat.le_refl _), Nat.sub_self]
    rfl
  · exact ScopeTree.parent?_openScope_self (h.lt_size hlaid)
  · exact h.grow hlaid (Grown.child plans machine plan scope)

/-- Names that are planned may be bound one after the other. -/
theorem Laid.defineAll {names : List String} {values : List Value}
    (h : Laid table plans machine)
    (hvalues : ∀ value ∈ values, PlacedValue table plans machine.scopes value)
    (hplanned : ∀ name ∈ names, ∃ plan ∈ plans[scope]?, name ∈ plan) :
    Laid table plans { machine with scopes := machine.scopes.defineAll scope names values } := by
  induction names generalizing machine values with
  | nil => exact h
  | cons name names ih =>
      cases values with
      | nil => exact h
      | cons value values =>
          obtain ⟨hvalue, hvalues⟩ := List.forall_mem_cons.mp hvalues
          obtain ⟨hname, hplanned⟩ := List.forall_mem_cons.mp hplanned
          have hgrown := Grown.bind plans machine scope name value
          have hbound := h.bind (hvalue.grow h hgrown) (Or.inr hname)
          exact ih hbound (fun other hother => (hvalues other hother).grow h hgrown) hplanned

theorem isSome_defineAll {tree : ScopeTree Value} {names : List String} {values : List Value}
    (hscope : scope < tree.size) (hlength : values.length = names.length) {name : String}
    (hname : name ∈ names ∨ (tree.own? scope name).isSome = true) :
    ((tree.defineAll scope names values).own? scope name).isSome = true := by
  induction names generalizing tree values with
  | nil => exact hname.resolve_left (List.not_mem_nil)
  | cons first names ih =>
      cases values with
      | nil => cases hlength
      | cons value values =>
          change (((tree.define scope first value).defineAll scope names values).own?
            scope name).isSome = true
          refine ih ?_ (Nat.succ.inj hlength) ?_
          · rw [ScopeTree.size_define]
            exact hscope
          · rw [ScopeTree.own?_define]
            by_cases hfirst : name = first
            · rw [if_pos ⟨rfl, hfirst, hscope⟩]
              exact Or.inr rfl
            · rw [if_neg fun h => hfirst h.2.1]
              exact hname.imp_left fun hmem => (List.mem_cons.mp hmem).resolve_left hfirst

/-- A function that is called finds its parameters bound. -/
theorem PlacedClosure.openFrame {function : Closure} {arguments : List Value} {frame : Nat}
    {after : Machine} (h : PlacedClosure table plans machine.scopes function)
    (hlaid : Laid table plans machine) (harity : arguments.length = function.params.length)
    (harguments : ∀ value ∈ arguments, PlacedValue table plans machine.scopes value)
    (hframe : Eval.openFrame function arguments machine = .ok frame after) :
    ∃ plans' frames, Grown plans machine plans' after ∧ Laid table plans' after ∧
      Chain plans' after.scopes frame frames ∧ WalksStmts table frames function.body := by
  obtain ⟨frames, hchain, hbody⟩ := h
  have hrestored := Restored.openFrame hframe
  cases hframe
  generalize hnames : function.params.map Token.lexeme = names at hbody hrestored ⊢
  have hlength : arguments.length = names.length := by rw [← hnames, List.length_map, harity]
  generalize hinner : frameOf names.reverse function.body = inner at hbody
  have hplans : ∀ name ∈ names, name ∈ inner.planned := by
    intro name hname
    rw [← hinner]
    exact List.mem_append_left _ (List.mem_reverse.mpr hname)
  have hgrown := Grown.child plans machine inner.planned function.scope
  have hopened := hlaid.child inner.planned function.scope
  obtain ⟨hplan, ⟨parent, hparent, houter⟩, -⟩ := hchain.child hlaid inner.planned
  have hlt : machine.scopes.size < (machine.scopes.child function.scope).size := by
    rw [ScopeTree.child, ScopeTree.size_openScope]
    exact Nat.lt_succ_self _
  have hfilled := hopened.defineAll
    (fun value hvalue => (harguments value hvalue).grow hlaid hgrown)
    fun name hname => ⟨_, hplan, hplans name hname⟩
  have hkept := Restored.defineAll { machine with scopes := machine.scopes.child function.scope }
    machine.scopes.size names arguments
  refine ⟨plans ++ [inner.planned], inner :: frames, ⟨List.prefix_append _ _, hrestored⟩, hfilled,
    ⟨hplan, ⟨parent, (hkept.parent _ hlt).trans hparent, ?_⟩, fun name hname => ?_⟩, hbody⟩
  · exact houter.grow hopened ⟨List.prefix_refl _, hkept⟩
  · rw [← hinner] at hname
    exact isSome_defineAll hlt hlength (Or.inl (List.mem_reverse.mp hname))

end Steps

end Scriptlet.Walk
