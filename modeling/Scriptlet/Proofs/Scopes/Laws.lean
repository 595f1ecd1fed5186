/-
What may be relied on when scopes are read and changed.

By name and by distance, the same bindings are reached: a name is the name at the distance of
the nearest scope that binds it.  What a change shows, seen from any scope and for any name, is
said for all ways of changing at once, so that nothing else can have changed.
-/
import Scriptlet.Proofs.Runs.Carried
import Scriptlet.Proofs.Scopes.Chains

namespace Scriptlet

namespace ScopeTree

variable {α : Type}

/-- The name has the value for those scopes that see the change, and everything else is as it
was. -/
structure ChangesFor (tree after : ScopeTree α) (sees : Nat → Prop) (name : String) (value : α) :
    Prop where
  seen : ∀ scope, sees scope → after.lookup? scope name = some value
  unseen : ∀ scope key, ¬ (key = name ∧ sees scope) →
    after.lookup? scope key = tree.lookup? scope key

/-- What holds of reading a name in a scope, and of giving it a value there. -/
structure Lawful (tree : ScopeTree α) (scope : Nat) (name : String) (value : α) : Prop where
  /-- A name is found if and only if some scope on the chain binds it. -/
  found_iff : (tree.lookup? scope name).isSome ↔ ∃ distance target,
    tree.ancestor? distance scope = some target ∧ (tree.own? target name).isSome
  /-- A chain that binds the name has a nearest scope that does. -/
  nearest : (tree.lookup? scope name).isSome →
    ∃ distance target, tree.Nearest scope name distance target
  /-- There, the name is read by its distance, too. -/
  read : ∀ distance target, tree.Nearest scope name distance target → ∃ found,
    tree.lookup? scope name = some found ∧ tree.readAt scope distance name = .ok found
  /-- A name can be assigned to if and only if it is found. -/
  assigned_iff : (tree.assign? scope name value).isSome ↔ (tree.lookup? scope name).isSome
  /-- That is to bind it by its distance, and shows wherever the same scope is the nearest. -/
  assigned : ∀ distance target, tree.Nearest scope name distance target → ∃ after,
    tree.assign? scope name value = some after ∧
      tree.writeAt scope distance name value = .ok after ∧
        tree.ChangesFor after (fun other => ∃ d, tree.Nearest other name d target) name value
  /-- Binding by distance has a defect if and only if the chain is too short. -/
  beyond_iff : ∀ distance, (∃ defect, tree.writeAt scope distance name value = .error defect) ↔
    tree.height scope < distance
  /-- A name bound in the scope shows wherever the scope comes first. -/
  defined : tree.ChangesFor (tree.define scope name value)
    (fun other => ∃ d, tree.Reaches other name d scope) name value
  /-- So it does if the scope was reached by its distance from another one. -/
  written : ∀ start distance, tree.ancestor? distance start = some scope → ∃ after,
    tree.writeAt start distance name value = .ok after ∧
      tree.ChangesFor after (fun other => ∃ d, tree.Reaches other name d scope) name value

variable {tree : ScopeTree α} {scope target : Nat} {name : String}

theorem changesFor_define (htarget : target < tree.size) (name : String) (value : α) :
    tree.ChangesFor (tree.define target name value)
      (fun other => ∃ distance, tree.Reaches other name distance target) name value where
  seen _ hsees := by
    obtain ⟨distance, hreaches⟩ := hsees
    exact lookup?_define_of_reaches hreaches htarget
  unseen _ _ hunseen := lookup?_define_of_not_reaches hunseen

/-- Those who see the change may be described in another way. -/
theorem ChangesFor.of_iff {after : ScopeTree α} {sees sees' : Nat → Prop} {value : α}
    (h : tree.ChangesFor after sees name value) (hiff : ∀ scope, sees' scope ↔ sees scope) :
    tree.ChangesFor after sees' name value := by
  have hsame : sees' = sees := funext fun scope => propext (hiff scope)
  exact hsame ▸ h

theorem writeAt_of_place {start distance : Nat} {value : α}
    (hplace : tree.ancestor? distance start = some target) :
    tree.writeAt start distance name value = .ok (tree.define target name value) := by
  rw [writeAt, scopeAt_eq_ok_iff.mpr hplace]
  rfl

theorem Nearest.readAt_eq {distance : Nat} (h : tree.Nearest scope name distance target) :
    ∃ found, tree.lookup? scope name = some found ∧
      tree.readAt scope distance name = .ok found := by
  obtain ⟨found, hfound⟩ := Option.isSome_iff_exists.mp h.binds
  refine ⟨found, h.lookup?_eq.trans hfound, ?_⟩
  simp only [readAt, scopeAt_eq_ok_iff.mpr h.place, hfound, bind, Except.bind, pure, Except.pure]

theorem Nearest.assign?_eq {distance : Nat} (h : tree.Nearest scope name distance target)
    (value : α) : tree.assign? scope name value = some (tree.define target name value) := by
  rw [assign?, h.holder?_eq, Option.map_some]

theorem writeAt_eq_error_iff {distance : Nat} {value : α} :
    (∃ defect, tree.writeAt scope distance name value = .error defect) ↔
      tree.height scope < distance := by
  cases hplace : tree.scopeAt scope distance with
  | ok target =>
      have hsome := scopeAt_eq_ok_iff.mp hplace
      have hnot : ¬ tree.height scope < distance := by
        rw [← ancestor?_eq_none_iff, hsome]
        exact nofun
      rw [writeAt_of_place hsome]
      exact ⟨nofun, fun hlt => absurd hlt hnot⟩
  | error defect =>
      rw [writeAt, hplace]
      exact ⟨fun _ => (scopeAt_eq_error_iff.mp hplace).1, fun _ => ⟨defect, rfl⟩⟩

theorem lawful (hscope : scope < tree.size) (name : String) (value : α) :
    tree.Lawful scope name value where
  found_iff := isSome_lookup?_iff.trans exists_nearest_iff
  nearest := isSome_lookup?_iff.mp
  read _ _ := Nearest.readAt_eq
  assigned_iff := by
    rw [isSome_lookup?_iff, ← isSome_holder?_iff, assign?, Option.isSome_map]
  assigned _ target hnearest := by
    refine ⟨_, hnearest.assign?_eq value, writeAt_of_place hnearest.place, ?_⟩
    have hchanges := changesFor_define (lt_size_of_own? hnearest.binds) name value
    exact hchanges.of_iff fun _ => exists_nearest_iff_reaches hnearest.binds
  beyond_iff _ := writeAt_eq_error_iff
  defined := changesFor_define hscope name value
  written _ _ hplace := ⟨_, writeAt_of_place hplace, changesFor_define hscope name value⟩

end ScopeTree

namespace Eval

/-- Reading a variable changes nothing, whether it is found or not. -/
theorem final_readVariable (id : NodeId) (name : Token) (machine : Machine) :
    final (readVariable id name machine) = machine := by
  unfold readVariable
  split
  · split
    · rfl
    · rfl
  · split
    · rfl
    · rfl

/-- An assignment that fails, by name or by distance, has changed nothing. -/
theorem unchanged_of_writeVariable {id : NodeId} {name : Token} {value : Value} {stop : Stop}
    {machine after : Machine} (h : writeVariable id name value machine = .error stop after) :
    after = machine := by
  have hscope := final_assignmentScope id name machine
  rw [writeVariable, bind_apply] at h
  cases hresult : assignmentScope id name machine with
  | ok target between =>
      rw [hresult] at h
      cases h
  | error stop' between =>
      rw [hresult] at h hscope
      cases h
      exact hscope

end Eval

/-- Names and distances lead to the same bindings, and a change shows exactly where it should;
what cannot be read or assigned leaves the whole machine as it was. -/
theorem scopes_lawful {α : Type} (tree : ScopeTree α) {scope : Nat} (hscope : scope < tree.size)
    (name : String) (value : α) :
    tree.Lawful scope name value ∧
      ∀ (machine : Machine) (id : NodeId) (occurrence : Token) (result : Value),
        Eval.final (Eval.readVariable id occurrence machine) = machine ∧
          ∀ stop after, Eval.writeVariable id occurrence result machine = .error stop after →
            after = machine :=
  ⟨ScopeTree.lawful hscope name value, fun machine id occurrence _ =>
    ⟨Eval.final_readVariable id occurrence machine, fun _ _ => Eval.unchanged_of_writeVariable⟩⟩

/-- Two scopes bind a name, the inner one by distance from a scope inside it. -/
def shadowing : ScopeTree Nat :=
  let outer := ScopeTree.empty.root.define 0 "x" 1
  let nested := (outer.child 0).child 1
  match nested.writeAt 2 1 "x" 2 with
  | .ok after => after
  | .error _ => nested

/-- The binding that came later hides the outer one from the innermost scope, and is the one
that is assigned to. -/
theorem scopes_lawful_shadowing :
    2 < shadowing.size ∧ shadowing.Lawful 2 "x" 3 ∧ shadowing.lookup? 2 "x" = some 2 ∧
      (shadowing.assign? 2 "x" 3).map (fun after => (after.lookup? 1 "x", after.lookup? 0 "x")) =
        some (some 3, some 1) := by
  have hsize : 2 < shadowing.size := by decide
  exact ⟨hsize, (scopes_lawful shadowing hsize "x" 3).1, by decide +kernel, by decide +kernel⟩

end Scriptlet
