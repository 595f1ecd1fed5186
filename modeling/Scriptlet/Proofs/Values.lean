/-
Values that agree but for what their closures hold, and what that is enough for:
how they print, whether they count as true, and what operators make of them.
-/
import Scriptlet.Operator

namespace Scriptlet

theorem rel_imp {α β : Type} {R S : α → β → Prop} {a : Option α} {b : Option β}
    (h : Option.Rel R a b) (himp : ∀ a b, R a b → S a b) : Option.Rel S a b := by
  cases h with
  | none => exact .none
  | some hrel => exact .some (himp _ _ hrel)

/-- What shows of closures without calling them is the same. -/
structure ClosureIn.SameFace {P Q : Type} (f : ClosureIn P) (g : ClosureIn Q) : Prop where
  lexeme : g.name.lexeme = f.name.lexeme
  arity : g.params.length = f.params.length
  identity : g.identity = f.identity

/-- The same values, or related closures. -/
inductive ValueIn.Rel {P Q : Type} (R : ClosureIn P → ClosureIn Q → Prop) :
    ValueIn P → ValueIn Q → Prop
  | nil : ValueIn.Rel R .nil .nil
  | bool (value : Bool) : ValueIn.Rel R (.bool value) (.bool value)
  | number (value : Float) : ValueIn.Rel R (.number value) (.number value)
  | string (text : String) : ValueIn.Rel R (.string text) (.string text)
  | host (function : HostFunction) : ValueIn.Rel R (.host function) (.host function)
  | closure {f : ClosureIn P} {g : ClosureIn Q} (related : R f g) :
      ValueIn.Rel R (.closure f) (.closure g)

/-- Both end well with related values, or both stop for the same reason. -/
inductive SameResult {ε α β : Type} (R : α → β → Prop) : Except ε α → Except ε β → Prop
  | ok {a : α} {b : β} (related : R a b) : SameResult R (.ok a) (.ok b)
  | error (reason : ε) : SameResult R (.error reason) (.error reason)

namespace ValueIn.Rel

variable {P Q : Type} {R S : ClosureIn P → ClosureIn Q → Prop} {value other : ValueIn P}
  {value' other' : ValueIn Q}

theorem imp (h : Rel R value value') (himp : ∀ f g, R f g → S f g) : Rel S value value' := by
  cases h with
  | nil => exact .nil
  | bool value => exact .bool value
  | number value => exact .number value
  | string text => exact .string text
  | host function => exact .host function
  | closure hrelated => exact .closure (himp _ _ hrelated)

theorem ofConstant (constant : Constant) : Rel R (.ofConstant constant) (.ofConstant constant) := by
  cases constant with
  | nil => exact .nil
  | bool value => exact .bool value
  | number value => exact .number value
  | string text => exact .string text

theorem isTruthy_eq (h : Rel R value value') : value.isTruthy = value'.isTruthy := by
  cases h <;> rfl

theorem decides_eq (h : Rel R value value') {operator operator' : Token}
    (hkind : operator'.kind = operator.kind) :
    Operator.decides operator value = Operator.decides operator' value' := by
  simp only [Operator.decides, h.isTruthy_eq, hkind]

section Faces

variable (hface : ∀ f g, R f g → f.SameFace g)
include hface

theorem text_eq (h : Rel R value value') : value.text = value'.text := by
  cases h with
  | nil | number _ | string _ | host _ => rfl
  | bool value => cases value <;> rfl
  | closure hrelated => simp only [ValueIn.text, (hface _ _ hrelated).lexeme]

theorem equals_eq (h : Rel R value value') (hother : Rel R other other') :
    value.equals other = value'.equals other' := by
  cases h with
  | closure hrelated =>
      cases hother with
      | closure hrelated' =>
          simp only [ValueIn.equals, (hface _ _ hrelated).identity,
            (hface _ _ hrelated').identity]
      | _ => rfl
  | _ => cases hother <;> rfl

theorem callable?_rel (h : Rel R value value') :
    (value.callable? = none ∧ value'.callable? = none) ∨
      ∃ callee callee', value.callable? = some callee ∧ value'.callable? = some callee' ∧
        callee.arity = callee'.arity := by
  cases h with
  | nil | bool _ | number _ | string _ => exact Or.inl ⟨rfl, rfl⟩
  | host function => exact Or.inr ⟨_, _, rfl, rfl, rfl⟩
  | closure hrelated => exact Or.inr ⟨_, _, rfl, rfl, (hface _ _ hrelated).arity.symm⟩

end Faces

/-! ### Operators -/

section Operators

variable {operator operator' : Token} (hkind : operator'.kind = operator.kind)
  (hlexeme : operator'.lexeme = operator.lexeme)
include hkind hlexeme

theorem unary (h : Rel R value value') :
    SameResult (Rel R) (Operator.unary operator value) (Operator.unary operator' value') := by
  unfold Operator.unary
  rw [hkind, hlexeme, h.isTruthy_eq]
  generalize operator.kind = kind
  split
  · cases h
    exact .ok (.number _)
  · next hnumber =>
      cases h with
      | number value => exact absurd rfl (hnumber value)
      | _ => exact .error _
  · exact .ok (.bool _)
  · next hminus hbang _ =>
      split
      · exact absurd rfl hminus
      · exact absurd rfl hminus
      · exact absurd rfl hbang
      · exact .error _

omit hkind hlexeme in
theorem add (h : Rel R value value') (hother : Rel R other other') :
    SameResult (Rel R) (Operator.add value other) (Operator.add value' other') := by
  cases h with
  | number a =>
      cases hother with
      | number b => exact .ok (.number _)
      | _ => exact .error _
  | string a =>
      cases hother with
      | string b => exact .ok (.string _)
      | _ => exact .error _
  | _ => cases hother <;> exact .error _

omit hkind in
theorem onNumbers (h : Rel R value value') (hother : Rel R other other')
    {operation : Float → Float → ValueIn P} {operation' : Float → Float → ValueIn Q}
    (hoperation : ∀ a b, Rel R (operation a b) (operation' a b)) :
    SameResult (Rel R) (Operator.onNumbers operator operation value other)
      (Operator.onNumbers operator' operation' value' other') := by
  unfold Operator.onNumbers
  rw [hlexeme]
  cases h with
  | number a =>
      cases hother with
      | number b => exact .ok (hoperation a b)
      | _ => exact .error _
  | _ => cases hother <;> exact .error _

theorem binary (hface : ∀ f g, R f g → f.SameFace g) (h : Rel R value value')
    (hother : Rel R other other') :
    SameResult (Rel R) (Operator.binary operator value other)
      (Operator.binary operator' value' other') := by
  unfold Operator.binary
  rw [hkind, h.equals_eq hface hother]
  split
  · exact h.add hother
  · exact h.onNumbers hlexeme hother fun _ _ => .number _
  · exact h.onNumbers hlexeme hother fun _ _ => .number _
  · exact h.onNumbers hlexeme hother fun _ _ => .number _
  · exact h.onNumbers hlexeme hother fun _ _ => .bool _
  · exact h.onNumbers hlexeme hother fun _ _ => .bool _
  · exact h.onNumbers hlexeme hother fun _ _ => .bool _
  · exact h.onNumbers hlexeme hother fun _ _ => .bool _
  · exact .ok (.bool _)
  · exact .ok (.bool _)
  · exact .error _

end Operators

end ValueIn.Rel

/-! ### Results of operators are no functions -/

namespace Operator

variable {Place : Type} {operator : Token} {left right operand value : ValueIn Place}

theorem unary_ne_closure (h : unary operator operand = .ok value) (function : ClosureIn Place) :
    value ≠ .closure function := by
  rintro rfl
  unfold unary at h
  split at h
  all_goals cases h

theorem onNumbers_ne_closure {operation : Float → Float → ValueIn Place}
    (h : onNumbers operator operation left right = .ok value) {function : ClosureIn Place}
    (hoperation : ∀ a b, operation a b ≠ .closure function) : value ≠ .closure function := by
  unfold onNumbers at h
  split at h
  · cases h
    exact hoperation _ _
  · cases h

theorem binary_ne_closure (h : binary operator left right = .ok value)
    (function : ClosureIn Place) : value ≠ .closure function := by
  unfold binary at h
  split at h
  · rintro rfl
    unfold add at h
    split at h
    all_goals cases h
  all_goals first | exact onNumbers_ne_closure h fun _ _ => nofun | cases h
  all_goals exact nofun

end Operator

end Scriptlet
