/-
The chain of scopes from a scope outward.

Two ways lead along it: one looks for a name, the other counts scopes.  They meet in the
distance of the nearest scope that binds the name, and a binding shows wherever no scope
before it on the chain binds the same name.
-/
import Mathlib.Tactic.Push
import Scriptlet.ScopeTree

namespace Scriptlet.ScopeTree

variable {α : Type} {tree : ScopeTree α} {scope parent target : Nat} {name : String}

/-- No scope fewer than so many scopes out binds the name. -/
def Clear (tree : ScopeTree α) (scope : Nat) (name : String) (distance : Nat) : Prop :=
  ∀ nearer < distance, ∀ inner, tree.ancestor? nearer scope = some inner →
    tree.own? inner name = none

/-- From the scope outward, the target comes before any other scope that binds the name. -/
structure Reaches (tree : ScopeTree α) (scope : Nat) (name : String) (distance target : Nat) :
    Prop where
  place : tree.ancestor? distance scope = some target
  clear : tree.Clear scope name distance

/-- The target is the first scope, from the given one outward, that binds the name. -/
structure Nearest (tree : ScopeTree α) (scope : Nat) (name : String) (distance target : Nat) :
    Prop extends tree.Reaches scope name distance target where
  binds : (tree.own? target name).isSome

theorem lt_size_of_own? (h : (tree.own? target name).isSome) : target < tree.size := by
  apply Nat.lt_of_not_le
  intro hle
  rw [own?, Array.getElem?_eq_none hle] at h
  cases h

/-! ### The length of a chain -/

theorem ancestor?_succ (hparent : tree.parent? scope = some parent) (distance : Nat) :
    tree.ancestor? (distance + 1) scope = tree.ancestor? distance parent := by
  rw [ancestor?, hparent, Option.bind_some]

/-- A chain has as many scopes further out as its height says. -/
theorem ancestor?_eq_none_iff (distance : Nat) :
    tree.ancestor? distance scope = none ↔ tree.height scope < distance := by
  induction distance generalizing scope with
  | zero => simp [ancestor?]
  | succ distance ih =>
      rw [ancestor?, height_eq]
      cases hparent : tree.parent? scope with
      | none => simp
      | some parent => simp [ih]

theorem scopeAt_eq_ok_iff {distance : Nat} :
    tree.scopeAt scope distance = .ok target ↔ tree.ancestor? distance scope = some target := by
  unfold scopeAt
  cases tree.ancestor? distance scope with
  | none => simp
  | some found => simp

/-- Counting leads beyond the chain if and only if the chain is too short. -/
theorem scopeAt_eq_error_iff {distance : Nat} {defect : ScopeDefect} :
    tree.scopeAt scope distance = .error defect ↔
      tree.height scope < distance ∧ defect = .chainEnded (tree.height scope) distance := by
  rw [← ancestor?_eq_none_iff]
  unfold scopeAt
  cases tree.ancestor? distance scope with
  | none => simp [eq_comm]
  | some found => simp

/-! ### The nearest scope that binds a name -/

theorem reaches_zero : tree.Reaches scope name 0 scope :=
  ⟨rfl, fun _ hlt => absurd hlt (Nat.not_lt_zero _)⟩

/-- One scope further in, if that one does not bind the name. -/
theorem reaches_succ_iff (hparent : tree.parent? scope = some parent)
    (hown : tree.own? scope name = none) (distance : Nat) :
    tree.Reaches scope name (distance + 1) target ↔
      tree.Reaches parent name distance target := by
  constructor
  · rintro ⟨hplace, hclear⟩
    refine ⟨(ancestor?_succ hparent distance).symm.trans hplace, fun nearer hlt inner hinner => ?_⟩
    apply hclear (nearer + 1) (Nat.succ_lt_succ hlt) inner
    exact (ancestor?_succ hparent nearer).trans hinner
  · rintro ⟨hplace, hclear⟩
    refine ⟨(ancestor?_succ hparent distance).trans hplace, fun nearer hlt inner hinner => ?_⟩
    cases nearer with
    | zero =>
        obtain rfl := Option.some.inj hinner
        exact hown
    | succ nearer =>
        apply hclear nearer (Nat.lt_of_succ_lt_succ hlt) inner
        exact (ancestor?_succ hparent nearer).symm.trans hinner

/-- A scope that binds the name hides all others. -/
theorem Reaches.distance_eq_zero {distance : Nat} (h : tree.Reaches scope name distance target)
    (hown : (tree.own? scope name).isSome) : distance = 0 := by
  cases distance with
  | zero => rfl
  | succ distance =>
      have hnone := h.clear 0 (Nat.succ_pos distance) scope rfl
      rw [hnone] at hown
      cases hown

/-- Beyond the outermost scope there is none. -/
theorem Reaches.eq_self {distance : Nat} (h : tree.Reaches scope name distance target)
    (hparent : tree.parent? scope = none) : target = scope := by
  have hplace := h.place
  cases distance with
  | zero => exact (Option.some.inj hplace).symm
  | succ distance =>
      rw [ancestor?, hparent] at hplace
      cases hplace

/-- What a scope reaches further out, its parent reaches, too. -/
theorem Reaches.further {distance : Nat} (h : tree.Reaches scope name distance target)
    (hne : target ≠ scope) : ∃ parent nearer, tree.parent? scope = some parent ∧
      distance = nearer + 1 ∧ tree.Reaches parent name nearer target := by
  cases distance with
  | zero => exact absurd (Option.some.inj h.place).symm hne
  | succ nearer =>
      cases hparent : tree.parent? scope with
      | none => exact absurd (h.eq_self hparent) hne
      | some parent =>
          have hown : tree.own? scope name = none := h.clear 0 (Nat.succ_pos nearer) scope rfl
          exact ⟨parent, nearer, rfl, rfl, (reaches_succ_iff hparent hown nearer).mp h⟩

/-- Looking for a name ends at the nearest scope that binds it. -/
theorem holder?_eq_some_iff :
    tree.holder? name scope = some target ↔
      ∃ distance, tree.Nearest scope name distance target := by
  induction scope using Nat.strongRecOn with
  | ind scope ih =>
  rw [holder?_eq]
  by_cases hown : (tree.own? scope name).isSome = true
  · rw [if_pos hown]
    constructor
    · rintro ⟨rfl⟩
      exact ⟨0, ⟨reaches_zero, hown⟩⟩
    · rintro ⟨distance, hnearest⟩
      have hplace := hnearest.place
      rwa [hnearest.distance_eq_zero hown] at hplace
  · have hnone : tree.own? scope name = none := Option.not_isSome_iff_eq_none.mp hown
    rw [if_neg hown]
    cases hparent : tree.parent? scope with
    | none =>
        constructor
        · exact nofun
        · rintro ⟨distance, hnearest⟩
          obtain rfl := hnearest.eq_self hparent
          exact absurd hnearest.binds hown
    | some parent =>
        rw [Option.bind_some, ih parent (lt_of_parent? hparent)]
        constructor
        · rintro ⟨distance, hnearest⟩
          exact ⟨distance + 1,
            (reaches_succ_iff hparent hnone distance).mpr hnearest.toReaches, hnearest.binds⟩
        · rintro ⟨distance, hnearest⟩
          cases distance with
          | zero =>
              obtain rfl := Option.some.inj hnearest.place
              exact absurd hnearest.binds hown
          | succ distance =>
              exact ⟨distance,
                (reaches_succ_iff hparent hnone distance).mp hnearest.toReaches, hnearest.binds⟩

theorem Nearest.holder?_eq {distance : Nat} (h : tree.Nearest scope name distance target) :
    tree.holder? name scope = some target :=
  holder?_eq_some_iff.mpr ⟨distance, h⟩

theorem Nearest.unique {distance distance' target' : Nat}
    (h : tree.Nearest scope name distance target)
    (h' : tree.Nearest scope name distance' target') : target = target' :=
  Option.some.inj (h.holder?_eq.symm.trans h'.holder?_eq)

/-- What a scope that binds the name reaches is the nearest one. -/
theorem exists_nearest_iff_reaches (hbinds : (tree.own? target name).isSome) :
    (∃ distance, tree.Nearest scope name distance target) ↔
      ∃ distance, tree.Reaches scope name distance target :=
  ⟨fun ⟨distance, h⟩ => ⟨distance, h.toReaches⟩, fun ⟨distance, h⟩ => ⟨distance, h, hbinds⟩⟩

/-- A chain that binds the name at all has a first scope that does. -/
theorem exists_nearest_iff :
    (∃ distance target, tree.Nearest scope name distance target) ↔
      ∃ distance target, tree.ancestor? distance scope = some target ∧
        (tree.own? target name).isSome := by
  constructor
  · rintro ⟨distance, target, h⟩
    exact ⟨distance, target, h.place, h.binds⟩
  · rintro ⟨distance, target, hplace, hbinds⟩
    induction distance using Nat.strongRecOn generalizing target with
    | ind distance ih =>
    by_cases hclear : tree.Clear scope name distance
    · exact ⟨distance, target, ⟨hplace, hclear⟩, hbinds⟩
    · unfold Clear at hclear
      push Not at hclear
      obtain ⟨nearer, hlt, inner, hinner, hbound⟩ := hclear
      exact ih nearer hlt inner hinner (Option.isSome_iff_ne_none.mpr hbound)

/-! ### Reading and binding -/

theorem Nearest.lookup?_eq {distance : Nat} (h : tree.Nearest scope name distance target) :
    tree.lookup? scope name = tree.own? target name := by
  rw [lookup?, h.holder?_eq, Option.bind_some]

theorem isSome_holder?_iff : (tree.holder? name scope).isSome ↔
    ∃ distance target, tree.Nearest scope name distance target := by
  rw [Option.isSome_iff_exists, exists_comm]
  exact exists_congr fun _ => holder?_eq_some_iff

theorem isSome_lookup?_iff : (tree.lookup? scope name).isSome ↔
    ∃ distance target, tree.Nearest scope name distance target := by
  rw [← isSome_holder?_iff, lookup?]
  cases hholder : tree.holder? name scope with
  | none => simp
  | some target =>
      obtain ⟨distance, hnearest⟩ := holder?_eq_some_iff.mp hholder
      simpa using hnearest.binds

/-- Nothing shows of a binding where another scope binds the name first, or where the scope is
not on the chain at all. -/
theorem holder?_define_of_not_reaches {value : α}
    (h : ∀ distance, ¬ tree.Reaches scope name distance target) :
    (tree.define target name value).holder? name scope = tree.holder? name scope := by
  induction scope using Nat.strongRecOn with
  | ind scope ih =>
  have hne : target ≠ scope := by
    rintro rfl
    exact h 0 reaches_zero
  have hown : (tree.define target name value).own? scope name = tree.own? scope name := by
    rw [own?_define, if_neg fun hsame => hne hsame.1]
  rw [holder?_eq, holder?_eq, hown, parent?_define]
  split
  · rfl
  · next hbound =>
      have hnone : tree.own? scope name = none := Option.not_isSome_iff_eq_none.mp hbound
      cases hparent : tree.parent? scope with
      | none => rfl
      | some parent =>
          apply ih parent (lt_of_parent? hparent)
          intro distance hreaches
          exact h (distance + 1) ((reaches_succ_iff hparent hnone distance).mpr hreaches)

theorem isSome_own?_define {value : α} (htarget : target < tree.size) :
    ((tree.define target name value).own? target name).isSome := by
  rw [own?_define, if_pos ⟨rfl, rfl, htarget⟩]
  rfl

theorem holder?_define_of_reaches {value : α} {distance : Nat}
    (h : tree.Reaches scope name distance target) (htarget : target < tree.size) :
    (tree.define target name value).holder? name scope = some target := by
  induction distance generalizing scope with
  | zero =>
      obtain rfl := Option.some.inj h.place
      rw [holder?_eq, if_pos (isSome_own?_define htarget)]
  | succ distance ih =>
      by_cases hsame : target = scope
      · subst hsame
        rw [holder?_eq, if_pos (isSome_own?_define htarget)]
      · obtain ⟨parent, nearer, hparent, hdistance, hreaches⟩ := h.further hsame
        obtain rfl := Nat.succ.inj hdistance
        have hnone : tree.own? scope name = none := h.clear 0 (Nat.succ_pos distance) scope rfl
        have hown : (tree.define target name value).own? scope name = none := by
          rw [own?_define, if_neg fun hall => hsame hall.1, hnone]
        rw [holder?_eq, hown, parent?_define, hparent]
        exact ih hreaches

theorem holder?_define_of_ne {key : String} {value : α} (hne : key ≠ name) :
    (tree.define target name value).holder? key scope = tree.holder? key scope := by
  induction scope using Nat.strongRecOn with
  | ind scope ih =>
  have hown : (tree.define target name value).own? scope key = tree.own? scope key := by
    rw [own?_define, if_neg fun hsame => hne hsame.2.1]
  rw [holder?_eq, holder?_eq, hown, parent?_define]
  cases hparent : tree.parent? scope with
  | none => rfl
  | some parent => rw [Option.bind_some, Option.bind_some, ih parent (lt_of_parent? hparent)]

/-- A name has the value wherever the target comes first. -/
theorem lookup?_define_of_reaches {value : α} {distance : Nat}
    (h : tree.Reaches scope name distance target) (htarget : target < tree.size) :
    (tree.define target name value).lookup? scope name = some value := by
  rw [lookup?, holder?_define_of_reaches h htarget, Option.bind_some, own?_define,
    if_pos ⟨rfl, rfl, htarget⟩]

/-- Elsewhere, and of other names, nothing shows. -/
theorem lookup?_define_of_not_reaches {key : String} {value : α}
    (h : ¬ (key = name ∧ ∃ distance, tree.Reaches scope name distance target)) :
    (tree.define target name value).lookup? scope key = tree.lookup? scope key := by
  by_cases hkey : key = name
  · subst hkey
    have hnot : ∀ distance, ¬ tree.Reaches scope key distance target :=
      fun distance hreaches => h ⟨rfl, distance, hreaches⟩
    rw [lookup?, lookup?, holder?_define_of_not_reaches hnot]
    cases hholder : tree.holder? key scope with
    | none => rfl
    | some holder =>
        obtain ⟨distance, hnearest⟩ := holder?_eq_some_iff.mp hholder
        have hne : target ≠ holder := by
          rintro rfl
          exact hnot distance hnearest.toReaches
        rw [Option.bind_some, Option.bind_some, own?_define, if_neg fun hall => hne hall.1]
  · rw [lookup?, lookup?, holder?_define_of_ne hkey]
    cases tree.holder? key scope with
    | none => rfl
    | some holder =>
        rw [Option.bind_some, Option.bind_some, own?_define, if_neg fun hall => hkey hall.2.1]

end Scriptlet.ScopeTree
