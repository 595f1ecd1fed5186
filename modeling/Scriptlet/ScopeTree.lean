/-
Scopes at run time.  A scope binds names and is nested in at most one other;
closures keep scopes alive after the code that opened them, so scopes form a
tree that only grows.  A scope is named by its place in the tree, and its
parent stands before it.

There are two ways to a binding: by name, outward along the chain of parents,
and by the number of scopes to go out.
-/

namespace Scriptlet

/-- Bind a name, in the place of its earlier binding if there is one. -/
def bindName {α : Type} (name : String) (value : α) :
    List (String × α) → List (String × α)
  | [] => [(name, value)]
  | (key, old) :: rest =>
      if key = name then (key, value) :: rest else (key, old) :: bindName name value rest

theorem lookup_bindName {α : Type} (name other : String) (value : α)
    (bindings : List (String × α)) :
    (bindName name value bindings).lookup other =
      if other = name then some value else bindings.lookup other := by
  induction bindings with
  | nil =>
      by_cases h : other = name
      · simp [bindName, h]
      · simp [bindName, List.lookup_cons, beq_false_of_ne h, h]
  | cons binding rest ih =>
      obtain ⟨key, old⟩ := binding
      by_cases hkey : key = name
      · subst hkey
        by_cases h : other = key
        · simp [bindName, h]
        · simp [bindName, List.lookup_cons, beq_false_of_ne h, h]
      · by_cases h : other = key
        · subst h
          simp [bindName, hkey]
        · simp [bindName, List.lookup_cons, hkey, beq_false_of_ne h, ih]

structure Scope (α : Type) where
  parent : Option Nat
  bindings : List (String × α)

/-- Why a binding cannot be reached by counting scopes. -/
inductive ScopeDefect where
  | missing (name : String) (distance : Nat)
  | chainEnded (hops distance : Nat)
deriving DecidableEq, Repr

def ScopeDefect.message : ScopeDefect → String
  | missing name distance =>
      "resolved local '" ++ name ++ "' missing at distance " ++ toString distance
  | chainEnded hops distance =>
      "scope chain ended after " ++ toString hops ++ " of " ++ toString distance ++ " hop(s)"

structure ScopeTree (α : Type) where
  scopes : Array (Scope α)
  parent_lt : ∀ (id : Nat) (h : id < scopes.size) (parent : Nat),
    (scopes[id]).parent = some parent → parent < id

namespace ScopeTree

variable {α : Type}

def empty : ScopeTree α where
  scopes := #[]
  parent_lt := by simp

/-- The number of scopes, which is the name of the next one. -/
def size (tree : ScopeTree α) : Nat :=
  tree.scopes.size

/-- Open a scope without bindings; a parent outside the tree is left out. -/
def openScope (tree : ScopeTree α) (parent : Option Nat) : ScopeTree α where
  scopes := tree.scopes.push ⟨parent.filter (· < tree.scopes.size), []⟩
  parent_lt := by
    intro id h parent' hparent
    rw [Array.getElem_push] at hparent
    split at hparent
    · next hid => exact tree.parent_lt id hid parent' hparent
    · next hid =>
        have hlt := (Option.filter_eq_some_iff.mp hparent).2
        exact Nat.lt_of_lt_of_le (of_decide_eq_true hlt) (Nat.le_of_not_lt hid)

/-- Open a scope that is nested in no other. -/
def root (tree : ScopeTree α) : ScopeTree α :=
  tree.openScope none

def child (tree : ScopeTree α) (parent : Nat) : ScopeTree α :=
  tree.openScope (some parent)

def parent? (tree : ScopeTree α) (id : Nat) : Option Nat :=
  tree.scopes[id]?.bind Scope.parent

theorem lt_of_parent? {tree : ScopeTree α} {id parent : Nat}
    (h : tree.parent? id = some parent) : parent < id := by
  obtain ⟨scope, hscope, hparent⟩ := Option.bind_eq_some_iff.mp h
  obtain ⟨hid, rfl⟩ := Array.getElem?_eq_some_iff.mp hscope
  exact tree.parent_lt id hid parent hparent

/-- What the scope itself binds the name to. -/
def own? (tree : ScopeTree α) (id : Nat) (name : String) : Option α :=
  tree.scopes[id]?.bind fun scope => scope.bindings.lookup name

/-- Bind a name in a scope. -/
def define (tree : ScopeTree α) (id : Nat) (name : String) (value : α) : ScopeTree α where
  scopes := tree.scopes.modify id fun scope =>
    { scope with bindings := bindName name value scope.bindings }
  parent_lt := by
    intro other h parent hparent
    rw [Array.size_modify] at h
    rw [Array.getElem_modify] at hparent
    split at hparent
    · exact tree.parent_lt other h parent hparent
    · exact tree.parent_lt other h parent hparent

@[simp] theorem size_empty : (empty : ScopeTree α).size = 0 := rfl

@[simp] theorem size_openScope (tree : ScopeTree α) (parent : Option Nat) :
    (tree.openScope parent).size = tree.size + 1 :=
  Array.size_push _

@[simp] theorem size_define (tree : ScopeTree α) (id : Nat) (name : String) (value : α) :
    (tree.define id name value).size = tree.size :=
  Array.size_modify

/-- Opening a scope leaves the bindings of all others, and has none itself. -/
@[simp] theorem own?_openScope (tree : ScopeTree α) (parent : Option Nat)
    (id : Nat) (name : String) :
    (tree.openScope parent).own? id name = tree.own? id name := by
  unfold own? openScope
  rw [Array.getElem?_push]
  split
  · next h => simp [h]
  · rfl

theorem parent?_openScope_of_lt {tree : ScopeTree α} {id : Nat} (h : id < tree.size)
    (parent : Option Nat) : (tree.openScope parent).parent? id = tree.parent? id := by
  have hne : id ≠ tree.scopes.size := Nat.ne_of_lt h
  unfold parent? openScope
  rw [Array.getElem?_push, if_neg hne]

theorem parent?_openScope (tree : ScopeTree α) (parent : Option Nat) (id : Nat) :
    (tree.openScope parent).parent? id =
      if id = tree.size then parent.filter (· < tree.size) else tree.parent? id := by
  unfold parent? openScope size
  rw [Array.getElem?_push]
  split
  · rfl
  · rfl

theorem parent?_openScope_self {tree : ScopeTree α} {parent : Nat}
    (h : parent < tree.size) :
    (tree.openScope (some parent)).parent? tree.size = some parent := by
  have hlt : parent < tree.scopes.size := h
  unfold parent? openScope size
  rw [Array.getElem?_push, if_pos rfl]
  simp [Option.filter, hlt]

/-- Binding a name moves no scope. -/
@[simp] theorem parent?_define (tree : ScopeTree α) (id other : Nat) (name : String)
    (value : α) : (tree.define id name value).parent? other = tree.parent? other := by
  unfold parent? define
  rw [Array.getElem?_modify]
  split
  · cases tree.scopes[other]? <;> rfl
  · rfl

/-- Binding a name changes what this scope binds it to, and nothing else. -/
theorem own?_define (tree : ScopeTree α) (id other : Nat) (name key : String)
    (value : α) :
    (tree.define id name value).own? other key =
      if id = other ∧ key = name ∧ id < tree.size then some value
      else tree.own? other key := by
  unfold own? define size
  rw [Array.getElem?_modify]
  by_cases hid : id = other
  · subst hid
    by_cases hlt : id < tree.scopes.size
    · by_cases hkey : key = name <;>
        simp [hlt, hkey, lookup_bindName]
    · simp [hlt]
  · simp [hid]

/-- Bind names to values, one after the other, as far as both lists go. -/
def defineAll (tree : ScopeTree α) (id : Nat) (names : List String) (values : List α) :
    ScopeTree α :=
  (names.zip values).foldl (fun filled pair => filled.define id pair.1 pair.2) tree

/-- The nearest scope, from the given one outward, that binds the name. -/
def holder? (tree : ScopeTree α) (name : String) (id : Nat) : Option Nat :=
  if (tree.own? id name).isSome then some id
  else
    match _h : tree.parent? id with
    | some parent => tree.holder? name parent
    | none => none
termination_by id
decreasing_by exact lt_of_parent? _h

theorem holder?_eq (tree : ScopeTree α) (name : String) (id : Nat) :
    tree.holder? name id =
      if (tree.own? id name).isSome then some id
      else (tree.parent? id).bind (tree.holder? name) := by
  rw [holder?]
  split
  · rfl
  · split
    · next parent hparent => rw [hparent, Option.bind_some]
    · next hparent => rw [hparent, Option.bind_none]

/-- Read a name by the chain of parents. -/
def lookup? (tree : ScopeTree α) (id : Nat) (name : String) : Option α :=
  (tree.holder? name id).bind fun holder => tree.own? holder name

/-- Overwrite the nearest binding of a name. -/
def assign? (tree : ScopeTree α) (id : Nat) (name : String) (value : α) :
    Option (ScopeTree α) :=
  (tree.holder? name id).map fun holder => tree.define holder name value

/-- The scope that lies the given number of scopes further out. -/
def ancestor? (tree : ScopeTree α) : (distance : Nat) → Nat → Option Nat
  | 0, id => some id
  | distance + 1, id => (tree.parent? id).bind (tree.ancestor? distance)

/-- How many scopes lie around a scope. -/
def height (tree : ScopeTree α) (id : Nat) : Nat :=
  match _h : tree.parent? id with
  | some parent => tree.height parent + 1
  | none => 0
termination_by id
decreasing_by exact lt_of_parent? _h

theorem height_eq (tree : ScopeTree α) (id : Nat) :
    tree.height id = (tree.parent? id).elim 0 fun parent => tree.height parent + 1 := by
  rw [height]
  split
  · next parent hparent => rw [hparent, Option.elim_some]
  · next hparent => rw [hparent, Option.elim_none]

/-- The scope at a distance, which must not lead beyond the chain. -/
def scopeAt (tree : ScopeTree α) (id : Nat) (distance : Nat) :
    Except ScopeDefect Nat :=
  match tree.ancestor? distance id with
  | some target => .ok target
  | none => .error (.chainEnded (tree.height id) distance)

/-- Read a name at a distance. -/
def readAt (tree : ScopeTree α) (id : Nat) (distance : Nat) (name : String) :
    Except ScopeDefect α := do
  let target ← tree.scopeAt id distance
  match tree.own? target name with
  | some value => return value
  | none => throw (.missing name distance)

/-- Bind a name at a distance, whether or not it was bound there. -/
def writeAt (tree : ScopeTree α) (id : Nat) (distance : Nat) (name : String)
    (value : α) : Except ScopeDefect (ScopeTree α) := do
  let target ← tree.scopeAt id distance
  return tree.define target name value

end ScopeTree

end Scriptlet
