/-
What a run gives back as it took it, however it ends: the place where it stands, the depth of
calls, the side table, and every scope with its parent and the names it binds.
-/
import Scriptlet.Proofs.Runs.Carried

namespace Scriptlet

/-- The later machine stands where the earlier one did, at the same depth of calls and with
the same side table and kind of sink; scopes have kept their parents and the names they bound. -/
structure Restored (machine later : Machine) : Prop where
  current : later.current = machine.current
  depth : later.depth = machine.depth
  table : later.table = machine.table
  flushFails : later.sink.flushFails = machine.sink.flushFails
  size : machine.scopes.size ≤ later.scopes.size
  parent : ∀ scope, scope < machine.scopes.size →
    later.scopes.parent? scope = machine.scopes.parent? scope
  bound : ∀ scope name, (machine.scopes.own? scope name).isSome = true →
    (later.scopes.own? scope name).isSome = true

namespace Restored

variable {first second third : Machine}

theorem refl (machine : Machine) : Restored machine machine :=
  ⟨rfl, rfl, rfl, rfl, Nat.le_refl _, fun _ _ => rfl, fun _ _ h => h⟩

theorem trans (h : Restored first second) (h' : Restored second third) :
    Restored first third where
  current := h'.current.trans h.current
  depth := h'.depth.trans h.depth
  table := h'.table.trans h.table
  flushFails := h'.flushFails.trans h.flushFails
  size := Nat.le_trans h.size h'.size
  parent scope hscope :=
    (h'.parent scope (Nat.lt_of_lt_of_le hscope h.size)).trans (h.parent scope hscope)
  bound scope name hbound := h'.bound scope name (h.bound scope name hbound)

theorem bind (machine : Machine) (scope : Nat) (name : String) (value : Value) :
    Restored machine (machine.bind scope name value) := by
  refine { refl machine with size := ?_, parent := ?_, bound := ?_ }
  · exact Nat.le_of_eq (ScopeTree.size_define machine.scopes scope name value).symm
  · intro other _
    exact ScopeTree.parent?_define machine.scopes scope other name value
  · intro other key hbound
    dsimp only [Machine.bind]
    rw [ScopeTree.own?_define]
    split
    · rfl
    · exact hbound

theorem child (machine : Machine) (parent : Nat) :
    Restored machine { machine with scopes := machine.scopes.child parent } := by
  refine { refl machine with size := ?_, parent := ?_, bound := ?_ }
  · exact Nat.le_of_lt (Nat.lt_of_lt_of_eq (Nat.lt_succ_self _)
      (ScopeTree.size_openScope machine.scopes (some parent)).symm)
  · intro other hother
    exact ScopeTree.parent?_openScope_of_lt hother (some parent)
  · intro other key hbound
    dsimp only [ScopeTree.child]
    rw [ScopeTree.own?_openScope]
    exact hbound

theorem flushFails_write (sink : Sink) (text : String) :
    (sink.write text).flushFails = sink.flushFails := by
  unfold Sink.write
  split
  · rfl
  · rfl

theorem defineAll (machine : Machine) (scope : Nat) (names : List String) (values : List Value) :
    Restored machine { machine with scopes := machine.scopes.defineAll scope names values } := by
  unfold ScopeTree.defineAll
  generalize names.zip values = pairs
  induction pairs generalizing machine with
  | nil => exact refl machine
  | cons pair rest ih => exact (bind machine scope pair.1 pair.2).trans (ih _)

theorem openFrame {function : Closure} {arguments : List Value} {frame : Nat}
    {machine after : Machine} (h : Eval.openFrame function arguments machine = .ok frame after) :
    Restored machine after := by
  cases h
  exact (child machine function.scope).trans (defineAll _ _ _ _)

theorem carried : Carried (fun _ => True) Restored where
  enters _ _ := trivial
  refl := refl
  trans := trans
  write machine text := { refl machine with flushFails := flushFails_write machine.sink text }
  tick machine := { refl machine with }
  within _ h := { h with current := rfl }
  deeper h := { h with depth := by rw [h.depth]; rfl }
  block _ hscope := by
    cases hscope
    exact child _ _
  frame _ := openFrame
  declare _ := bind _ _ _ _
  declareWith _ _ := bind _ _ _ _
  function value _ := { bind _ _ _ value with }
  assign _ _ _ := bind _ _ _ _

/-- Whatever is done, it gives back what it took. -/
theorem run (bound : Nat) (task : Task) (machine : Machine) :
    Restored machine (Eval.final (task.run bound machine)) :=
  carried.run ⟨bound, task, machine⟩ trivial

variable {bound : Nat} {machine after : Machine}

theorem evaluate {expr : Expr} {value : Value}
    (h : Eval.evaluate bound expr machine = .ok value after) : Restored machine after :=
  Keeps.ok (run bound (.evaluate expr) machine) h

theorem evaluateAll {exprs : List Expr} {values : List Value}
    (h : Eval.evaluateAll bound exprs machine = .ok values after) : Restored machine after :=
  Keeps.ok (run bound (.evaluateAll exprs) machine) h

theorem execute {stmt : Stmt} {flow : Flow Value}
    (h : Eval.execute bound stmt machine = .ok flow after) : Restored machine after :=
  Keeps.ok (run bound (.execute stmt) machine) h

theorem runAll {program : List Stmt} {value : Unit}
    (h : Eval.runAll bound program machine = .ok value after) : Restored machine after :=
  Keeps.ok (run bound (.program program) machine) h

end Restored

end Scriptlet
