/-
How the state of a machine and the store of a reference run belong together.

A cell has its home in a scope, under the name that it was made for, and an
environment lists the cells at home in a chain of scopes, or those of them that
were declared by then: a scope goes on growing after a closure was made in it, the
environment of the closure does not.
-/
import Scriptlet.Proofs.Lexical.Fits
import Scriptlet.Proofs.Lexical.Reference
import Scriptlet.Proofs.Values

namespace Scriptlet

namespace Reference

/-- The names of an environment, as the binding rules see them. -/
def Env.names (env : Env) : Binding.Scopes :=
  env.map (·.map Prod.fst)

end Reference

namespace Lexical

open Reference (Env Store)

/-- The scope and the name that each cell belongs to. -/
abbrev Homes := List (Nat × String)

/-- The environment lists cells of the chain of scopes that starts here.  Their
names are bound, but for the one that is pending in the innermost scope. -/
def Mirrors (homes : Homes) (tree : ScopeTree Value) : Option String → Nat → Env → Prop
  | _, scope, [] => scope = Machine.globals
  | pending, scope, names :: outer =>
      (∃ parent, tree.parent? scope = some parent ∧ Mirrors homes tree none parent outer) ∧
        ∀ name cell, (name, cell) ∈ names →
          homes[cell]? = some (scope, name) ∧
            (pending ≠ some name → (tree.own? scope name).isSome = true)

/-- The environment is the one of the place where statements run: it lists all cells
that are at home in the innermost scope. -/
structure Stands (homes : Homes) (machine : Machine) (env : Env) : Prop where
  mirrors : Mirrors homes machine.scopes none machine.current env
  complete : ∀ name, (machine.current, name) ∈ homes →
    Binding.declaredHere env.names name = true

/-- Closures of the same function, whose scopes are the same in different forms. -/
inductive ClosureMatches (known : Known) (homes : Homes) (tree : ScopeTree Value) :
    Closure → ClosureIn Env → Prop
  | same {name : Token} {params : List Token} {body : List Stmt} {identity scope : Nat}
      {env : Env} (mirrors : Mirrors homes tree none scope env)
      (distinct : (params.map Token.lexeme).Nodup)
      (fits : FitsStmts known ((params.map Token.lexeme).reverse :: env.names) body) :
      ClosureMatches known homes tree ⟨name, params, body, scope, identity⟩
        ⟨name, params, body, env, identity⟩

/-- Values that differ at most in the form of a closure's scope. -/
abbrev Matches (known : Known) (homes : Homes) (tree : ScopeTree Value) :
    Value → ValueIn Env → Prop :=
  ValueIn.Rel (ClosureMatches known homes tree)

theorem ClosureMatches.sameFace {known : Known} {homes : Homes} {tree : ScopeTree Value}
    {f : Closure} {g : ClosureIn Env} (h : ClosureMatches known homes tree f g) : f.SameFace g := by
  cases h with
  | same _ _ _ => exact ⟨rfl, rfl, rfl⟩

structure Relates (known : Known) (homes : Homes) (machine : Machine) (store : Store) :
    Prop where
  outside : machine.toOutside = store.toOutside
  table : machine.table = known.table
  count : homes.length = store.cells.length
  nodup : homes.Nodup
  inside : ∀ home ∈ homes, home.1 ≠ Machine.globals ∧ home.1 < machine.scopes.size
  root : machine.scopes.parent? Machine.globals = none
  nonempty : Machine.globals < machine.scopes.size
  globals : ∀ name, Option.Rel (Matches known homes machine.scopes)
    (machine.scopes.own? Machine.globals name) (store.globals.lookup name)
  locals : ∀ scope name value, scope ≠ Machine.globals →
    machine.scopes.own? scope name = some value →
      ∃ (cell : Nat) (value' : ValueIn Env), homes[cell]? = some (scope, name) ∧
        store.cells[cell]? = some value' ∧ Matches known homes machine.scopes value value'

/-- What running can do to a machine and to the homes of cells.  New cells are at
home in new scopes, or in the one that is touched. -/
structure Grows (touched : Option Nat) (homes : Homes) (machine : Machine) (homes' : Homes)
    (machine' : Machine) : Prop where
  kept : homes <+: homes'
  size : machine.scopes.size ≤ machine'.scopes.size
  parent : ∀ scope parent, machine.scopes.parent? scope = some parent →
    machine'.scopes.parent? scope = some parent
  bound : ∀ scope name, (machine.scopes.own? scope name).isSome = true →
    (machine'.scopes.own? scope name).isSome = true
  fresh : ∀ scope name, (scope, name) ∈ homes' →
    (scope, name) ∈ homes ∨ machine.scopes.size ≤ scope ∨ scope ∈ touched
  current : machine'.current = machine.current

section Grows

variable {known later : Known} {touched : Option Nat} {homes homes' homes'' : Homes}
  {machine machine' machine'' : Machine} {pending : Option String} {scope : Nat} {env : Env}
  {value : Value} {value' : ValueIn Env}

theorem Grows.refl (touched : Option Nat) (homes : Homes) (machine : Machine) :
    Grows touched homes machine homes machine :=
  ⟨List.prefix_refl _, Nat.le_refl _, fun _ _ h => h, fun _ _ h => h, fun _ _ h => Or.inl h, rfl⟩

theorem Grows.trans (h : Grows touched homes machine homes' machine')
    (h' : Grows touched homes' machine' homes'' machine'') :
    Grows touched homes machine homes'' machine'' := by
  refine ⟨h.kept.trans h'.kept, Nat.le_trans h.size h'.size,
    fun scope parent hparent => h'.parent scope parent (h.parent scope parent hparent),
    fun scope name hbound => h'.bound scope name (h.bound scope name hbound), ?_,
    h'.current.trans h.current⟩
  intro scope name hmem
  rcases h'.fresh scope name hmem with hmem | hsize | htouched
  · exact h.fresh scope name hmem
  · exact Or.inr (Or.inl (Nat.le_trans h.size hsize))
  · exact Or.inr (Or.inr htouched)

/-- What touches no scope that was there before touches none. -/
theorem Grows.untouched (h : Grows touched homes machine homes' machine')
    (hnew : ∀ scope ∈ touched, machine.scopes.size ≤ scope) (other : Option Nat) :
    Grows other homes machine homes' machine' := by
  refine ⟨h.kept, h.size, h.parent, h.bound, fun scope name hmem => ?_, h.current⟩
  rcases h.fresh scope name hmem with hmem | hsize | htouched
  · exact Or.inl hmem
  · exact Or.inr (Or.inl hsize)
  · exact Or.inr (Or.inl (hnew scope htouched))

theorem Grows.home (h : Grows touched homes machine homes' machine') {cell : Nat}
    {home : Nat × String} (hhome : homes[cell]? = some home) : homes'[cell]? = some home := by
  obtain ⟨more, rfl⟩ := h.kept
  rw [List.getElem?_append_left (List.getElem?_eq_some_iff.mp hhome).1, hhome]

theorem Mirrors.grow (h : Mirrors homes machine.scopes pending scope env)
    (hgrows : Grows touched homes machine homes' machine') :
    Mirrors homes' machine'.scopes pending scope env := by
  induction env generalizing pending scope with
  | nil => exact h
  | cons names outer ih =>
      obtain ⟨⟨parent, hparent, houter⟩, hnames⟩ := h
      refine ⟨⟨parent, hgrows.parent scope parent hparent, ih houter⟩, fun name cell hmem => ?_⟩
      obtain ⟨hhome, hbound⟩ := hnames name cell hmem
      refine ⟨?_, fun hpending => hgrows.bound scope name (hbound hpending)⟩
      exact hgrows.home hhome

theorem Matches.grow (h : Matches known homes machine.scopes value value')
    (hgrows : Grows touched homes machine homes' machine') :
    Matches known homes' machine'.scopes value value' := by
  refine ValueIn.Rel.imp h fun f g hclosure => ?_
  cases hclosure with
  | same hmirrors hdistinct hfits => exact .same (hmirrors.grow hgrows) hdistinct hfits

theorem Matches.extend (h : Matches known homes machine.scopes value value')
    (hextends : known.Extends later) : Matches later homes machine.scopes value value' := by
  refine ValueIn.Rel.imp h fun f g hclosure => ?_
  cases hclosure with
  | same hmirrors hdistinct hfits => exact .same hmirrors hdistinct (hfits.extend hextends)

/-- A mirrored scope is one of the machine's. -/
theorem Mirrors.lt_size {tree : ScopeTree Value} (h : Mirrors homes tree pending scope env)
    (hroot : Machine.globals < tree.size) : scope < tree.size := by
  cases env with
  | nil => exact h ▸ hroot
  | cons names outer =>
      obtain ⟨⟨parent, hparent, -⟩, -⟩ := h
      obtain ⟨found, hfound, -⟩ := Option.bind_eq_some_iff.mp hparent
      exact (Array.getElem?_eq_some_iff.mp hfound).1

theorem Stands.grow (h : Stands homes machine env)
    (hgrows : Grows touched homes machine homes' machine')
    (hlt : machine.current < machine.scopes.size) (htouched : machine.current ∉ touched) :
    Stands homes' machine' env := by
  refine ⟨?_, fun name hmem => ?_⟩
  · rw [hgrows.current]
    exact h.mirrors.grow hgrows
  · rw [hgrows.current] at hmem
    rcases hgrows.fresh machine.current name hmem with hmem | hsize | hmem
    · exact h.complete name hmem
    · exact absurd hsize (Nat.not_le_of_lt hlt)
    · exact absurd hmem htouched

end Grows

/-! ### Steps of the state -/

section Steps

variable {known : Known} {homes : Homes} {machine : Machine} {store : Store}
  {pending : Option String} {scope cell : Nat} {name : String} {env : Env} {value : Value}
  {value' : ValueIn Env}

theorem Grows.modifyOutside (touched : Option Nat) (homes : Homes) (machine : Machine)
    (change : Outside → Outside) :
    Grows touched homes machine homes (HasOutside.modifyOutside change machine) :=
  ⟨List.prefix_refl _, Nat.le_refl _, fun _ _ h => h, fun _ _ h => h, fun _ _ h => Or.inl h, rfl⟩

theorem Relates.modifyOutside (h : Relates known homes machine store)
    (change : Outside → Outside) :
    Relates known homes (HasOutside.modifyOutside change machine)
      (HasOutside.modifyOutside change store) :=
  { h with outside := congrArg change h.outside }

/-- Acting in another scope concerns nothing else. -/
theorem Relates.move (h : Relates known homes machine store) (current : Nat) :
    Relates known homes { machine with current := current } store :=
  { h with }

theorem Grows.openScope (touched : Option Nat) (homes : Homes) (machine : Machine)
    (parent : Nat) :
    Grows touched homes machine homes { machine with scopes := machine.scopes.child parent } := by
  refine ⟨List.prefix_refl _, ?_, ?_, ?_, fun _ _ h => Or.inl h, rfl⟩
  · show machine.scopes.size ≤ (machine.scopes.openScope _).size
    rw [ScopeTree.size_openScope]
    exact Nat.le_succ _
  · intro scope other hparent
    have hlt : scope < machine.scopes.size := by
      obtain ⟨found, hfound, -⟩ := Option.bind_eq_some_iff.mp hparent
      exact (Array.getElem?_eq_some_iff.mp hfound).1
    exact (ScopeTree.parent?_openScope_of_lt hlt _).trans hparent
  · intro scope name hbound
    exact (ScopeTree.own?_openScope _ _ scope name).symm ▸ hbound

theorem Relates.openScope (h : Relates known homes machine store) (parent : Nat) :
    Relates known homes { machine with scopes := machine.scopes.child parent } store := by
  have hgrows := Grows.openScope none homes machine parent
  have hown : ∀ scope name,
      (machine.scopes.child parent).own? scope name = machine.scopes.own? scope name :=
    fun scope name => ScopeTree.own?_openScope ..
  refine { h with inside := ?_, root := ?_, nonempty := ?_, globals := ?_, locals := ?_ }
  · exact fun home hhome => ⟨(h.inside home hhome).1,
      Nat.lt_of_lt_of_le (h.inside home hhome).2 hgrows.size⟩
  · exact (ScopeTree.parent?_openScope_of_lt h.nonempty _).trans h.root
  · exact Nat.lt_of_lt_of_le h.nonempty hgrows.size
  · intro name
    show Option.Rel _ ((machine.scopes.child parent).own? _ _) _
    rw [hown]
    exact rel_imp (h.globals name) fun _ _ hmatch => hmatch.grow hgrows
  · intro scope name value hscope hvalue
    rw [hown] at hvalue
    obtain ⟨cell, value', hhome, hcell, hmatch⟩ := h.locals scope name value hscope hvalue
    exact ⟨cell, value', hhome, hcell, hmatch.grow hgrows⟩

theorem Grows.define (touched : Option Nat) (homes : Homes) (machine : Machine) (scope : Nat)
    (name : String) (value : Value) :
    Grows touched homes machine homes
      { machine with scopes := machine.scopes.define scope name value } := by
  refine ⟨List.prefix_refl _, Nat.le_of_eq (ScopeTree.size_define ..).symm, ?_, ?_,
    fun _ _ h => Or.inl h, rfl⟩
  · intro other parent hparent
    exact (ScopeTree.parent?_define ..).trans hparent
  · intro other key hbound
    show ((machine.scopes.define scope name value).own? other key).isSome = true
    rw [ScopeTree.own?_define]
    split
    · rfl
    · exact hbound

/-- A global gets a value on both sides. -/
theorem Relates.defineGlobal (h : Relates known homes machine store)
    (hscope : scope = Machine.globals)
    (hmatch : Matches known homes (machine.scopes.define scope name value) value value') :
    Relates known homes { machine with scopes := machine.scopes.define scope name value }
      { store with globals := bindName name value' store.globals } := by
  subst hscope
  have hgrows := Grows.define none homes machine Machine.globals name value
  refine { h with inside := ?_, root := ?_, nonempty := ?_, globals := ?_, locals := ?_ }
  · exact fun home hhome => ⟨(h.inside home hhome).1,
      Nat.lt_of_lt_of_le (h.inside home hhome).2 hgrows.size⟩
  · exact (ScopeTree.parent?_define ..).trans h.root
  · exact Nat.lt_of_lt_of_le h.nonempty hgrows.size
  · intro key
    show Option.Rel _ ((machine.scopes.define _ _ _).own? _ _) _
    rw [ScopeTree.own?_define, lookup_bindName]
    by_cases hkey : key = name
    · rw [if_pos ⟨rfl, hkey, h.nonempty⟩, if_pos hkey]
      exact .some hmatch
    · rw [if_neg (fun hsame => hkey hsame.2.1), if_neg hkey]
      exact rel_imp (h.globals key) fun _ _ hmatch => hmatch.grow hgrows
  · intro scope key value hscope hown
    change (machine.scopes.define _ _ _).own? _ _ = _ at hown
    rw [ScopeTree.own?_define, if_neg (fun hsame => hscope hsame.1.symm)] at hown
    obtain ⟨cell, value', hhome, hcell, hmatch⟩ := h.locals scope key value hscope hown
    exact ⟨cell, value', hhome, hcell, hmatch.grow hgrows⟩

/-- A local gets a value on both sides: in its scope and in its cell. -/
theorem Relates.defineLocal (h : Relates known homes machine store)
    (hhome : homes[cell]? = some (scope, name))
    (hmatch : Matches known homes (machine.scopes.define scope name value) value value') :
    Relates known homes { machine with scopes := machine.scopes.define scope name value }
      { store with cells := store.cells.set cell value' } := by
  have hgrows := Grows.define none homes machine scope name value
  have hscope := h.inside _ (List.mem_of_getElem? hhome)
  refine { h with
    count := ?_, inside := ?_, root := ?_, nonempty := ?_, globals := ?_, locals := ?_ }
  · rw [h.count, List.length_set]
  · exact fun home hhome => ⟨(h.inside home hhome).1,
      Nat.lt_of_lt_of_le (h.inside home hhome).2 hgrows.size⟩
  · exact (ScopeTree.parent?_define ..).trans h.root
  · exact Nat.lt_of_lt_of_le h.nonempty hgrows.size
  · intro key
    show Option.Rel _ ((machine.scopes.define _ _ _).own? _ _) _
    rw [ScopeTree.own?_define, if_neg (fun hsame => hscope.1 hsame.1)]
    exact rel_imp (h.globals key) fun _ _ hmatch => hmatch.grow hgrows
  · intro other key old hother hown
    change (machine.scopes.define _ _ _).own? _ _ = _ at hown
    rw [ScopeTree.own?_define] at hown
    have hlt : cell < store.cells.length := h.count ▸ (List.getElem?_eq_some_iff.mp hhome).1
    split at hown
    · next hsame =>
        obtain ⟨rfl, rfl, -⟩ := hsame
        cases hown
        exact ⟨cell, value', hhome, List.getElem?_set_self hlt, hmatch⟩
    · next hdiffers =>
        obtain ⟨found, old', hfound, hcell, hold⟩ := h.locals other key old hother hown
        have hne : cell ≠ found := by
          rintro rfl
          rw [hhome] at hfound
          cases hfound
          exact hdiffers ⟨rfl, rfl, hscope.2⟩
        exact ⟨found, old', hfound, (List.getElem?_set_ne hne).trans hcell, hold.grow hgrows⟩

theorem Grows.allocate (homes : Homes) (machine : Machine) (scope : Nat) (name : String) :
    Grows (some scope) homes machine (homes ++ [(scope, name)]) machine := by
  refine ⟨List.prefix_append _ _, Nat.le_refl _, fun _ _ h => h, fun _ _ h => h, ?_, rfl⟩
  intro other key hmem
  rcases List.mem_append.mp hmem with hmem | hmem
  · exact Or.inl hmem
  · cases List.mem_singleton.mp hmem
    exact Or.inr (Or.inr rfl)

/-- A new cell belongs to a name that is bound nowhere in its scope yet. -/
theorem Relates.allocate (h : Relates known homes machine store) (hnew : (scope, name) ∉ homes)
    (hglobal : scope ≠ Machine.globals) (hlt : scope < machine.scopes.size) :
    Relates known (homes ++ [(scope, name)]) machine
      { store with cells := store.cells ++ [.nil] } := by
  have hgrows := Grows.allocate homes machine scope name
  refine { h with count := ?_, nodup := ?_, inside := ?_, globals := ?_, locals := ?_ }
  · simp [h.count]
  · refine List.nodup_append.mpr ⟨h.nodup, List.pairwise_singleton .., fun a ha b hb => ?_⟩
    cases List.mem_singleton.mp hb
    exact fun heq => hnew (heq ▸ ha)
  · intro home hhome
    rcases List.mem_append.mp hhome with hhome | hhome
    · exact h.inside home hhome
    · cases List.mem_singleton.mp hhome
      exact ⟨hglobal, hlt⟩
  · exact fun key => rel_imp (h.globals key) fun _ _ hmatch => hmatch.grow hgrows
  · intro other key value hother hvalue
    obtain ⟨cell, value', hhome, hcell, hmatch⟩ := h.locals other key value hother hvalue
    refine ⟨cell, value', hgrows.home hhome, ?_, hmatch.grow hgrows⟩
    exact (List.getElem?_append_left (List.getElem?_eq_some_iff.mp hcell).1).trans hcell

end Steps

/-! ### Finding a name -/

section Find

variable {homes : Homes} {tree : ScopeTree Value} {pending : Option String} {scope : Nat}
  {env : Env} {name : String}

theorem names_bind (hnew : Binding.declaredHere env.names name = false) (cell : Nat) :
    (env.bind name cell).names = Binding.declare env.names name := by
  cases env with
  | nil => rfl
  | cons names outer =>
      have hnot : ¬ (names.map Prod.fst).contains name = true := Bool.eq_false_iff.mp hnew
      show _ = Binding.declare (names.map Prod.fst :: Env.names outer) name
      rw [Binding.declare, if_neg hnot]
      rfl

theorem find?_bind (names : List (String × Nat)) (outer : Env) (name : String) (cell : Nat) :
    (Env.bind name cell (names :: outer)).find? name = some cell := by
  simp [Env.bind, Env.find?]

theorem lookup_eq_none_of_contains {names : List (String × Nat)}
    (h : (names.map Prod.fst).contains name = false) : names.lookup name = none := by
  rw [List.lookup_eq_none_iff]
  intro entry hentry
  rw [bne_iff_ne]
  rintro rfl
  rw [← Bool.not_eq_true, List.contains_iff_mem] at h
  exact h (List.mem_map_of_mem hentry)

theorem exists_lookup_of_contains {names : List (String × Nat)}
    (h : (names.map Prod.fst).contains name = true) :
    ∃ cell, names.lookup name = some cell ∧ (name, cell) ∈ names := by
  cases hlookup : names.lookup name with
  | none =>
      obtain ⟨entry, hentry, rfl⟩ := List.mem_map.mp (List.contains_iff_mem.mp h)
      have hne := List.lookup_eq_none_iff.mp hlookup entry hentry
      simp at hne
  | some cell =>
      obtain ⟨before, behind, rfl, -⟩ := List.lookup_eq_some_iff.mp hlookup
      exact ⟨cell, rfl, List.mem_append_right _ List.mem_cons_self⟩

theorem find?_of_distance?_none (h : Binding.distance? env.names name = none) :
    env.find? name = none := by
  induction env with
  | nil => rfl
  | cons names outer ih =>
      have hcons : Binding.distance? (names.map Prod.fst :: Env.names outer) name = none := h
      rw [Binding.distance?, List.findIdx?_cons] at hcons
      split at hcons
      · cases hcons
      · next hhere =>
          have hnone := lookup_eq_none_of_contains (Bool.not_eq_true _ ▸ hhere)
          rw [Env.find?, List.findSome?_cons, hnone]
          exact ih (Option.map_eq_none_iff.mp hcons)

/-- The number of scopes to go out leads to the home of the cell. -/
theorem Mirrors.find (h : Mirrors homes tree pending scope env) {distance : Nat}
    (hdistance : Binding.distance? env.names name = some distance) :
    ∃ cell holder, env.find? name = some cell ∧ tree.ancestor? distance scope = some holder ∧
      homes[cell]? = some (holder, name) ∧
      (pending ≠ some name → (tree.own? holder name).isSome = true) := by
  induction env generalizing pending scope distance with
  | nil => cases hdistance
  | cons names outer ih =>
      have hcons : Binding.distance? (names.map Prod.fst :: Env.names outer) name =
        some distance := hdistance
      obtain ⟨⟨parent, hparent, houter⟩, hnames⟩ := h
      rw [Binding.distance?, List.findIdx?_cons] at hcons
      split at hcons
      · next hhere =>
          cases hcons
          obtain ⟨cell, hlookup, hmem⟩ := exists_lookup_of_contains hhere
          refine ⟨cell, scope, ?_, rfl, hnames name cell hmem⟩
          rw [Env.find?, List.findSome?_cons, hlookup]
      · next hhere =>
          have hnone := lookup_eq_none_of_contains (Bool.not_eq_true _ ▸ hhere)
          obtain ⟨further, hfurther, rfl⟩ := Option.map_eq_some_iff.mp hcons
          obtain ⟨cell, holder, hfind, hancestor, hhome, hbound⟩ := ih houter hfurther
          refine ⟨cell, holder, ?_, ?_, hhome, fun _ => hbound nofun⟩
          · rw [Env.find?, List.findSome?_cons, hnone]
            exact hfind
          · rw [ScopeTree.ancestor?, hparent]
            exact hancestor

/-- Where no scope lies around, a name is looked up in the scope itself. -/
theorem holder?_of_root {scope : Nat} (h : tree.parent? scope = none) (name : String) :
    tree.holder? name scope = if (tree.own? scope name).isSome then some scope else none := by
  rw [ScopeTree.holder?]
  split
  · rfl
  · split
    · next parent hparent => rw [h] at hparent; cases hparent
    · rfl

theorem lookup?_of_root {scope : Nat} (h : tree.parent? scope = none) (name : String) :
    tree.lookup? scope name = tree.own? scope name := by
  rw [ScopeTree.lookup?, holder?_of_root h]
  cases hown : tree.own? scope name with
  | none => rfl
  | some value => exact hown

end Find

end Lexical

end Scriptlet
