/-
Calls depend on values and on the outside alone.

Whether something can be called is checked, and a host function runs, without a look at variables
or scopes.  So runs that keep these in different ways agree here as soon as their values do.
-/
import Mathlib.Data.List.Forall2
import Scriptlet.Machine.Basic
import Scriptlet.Proofs.Values

namespace Scriptlet

section Results

variable {ε ε' α β : Type} {S T : α → β → Prop} {result : Except ε α} {result' : Except ε β}

theorem SameResult.imp (h : SameResult S result result') (himp : ∀ a b, S a b → T a b) :
    SameResult T result result' := by
  cases h with
  | ok hrelated => exact .ok (himp _ _ hrelated)
  | error reason => exact .error reason

theorem SameResult.mapError (h : SameResult S result result') (change : ε → ε') :
    SameResult S (result.mapError change) (result'.mapError change) := by
  cases h with
  | ok hrelated => exact .ok hrelated
  | error reason => exact .error (change reason)

end Results

section Calls

variable {P Q : Type} {R : ClosureIn P → ClosureIn Q → Prop} {callee : ValueIn P}
  {callee' : ValueIn Q} {arguments : List (ValueIn P)} {arguments' : List (ValueIn Q)}

/-- A host function cannot look into closures. -/
theorem HostAction.run_rel (h : List.Forall₂ (ValueIn.Rel R) arguments arguments')
    (action : HostAction) (now : Int) :
    SameResult (ValueIn.Rel R) (action.run now arguments) (action.run now arguments') := by
  have hlength := h.length_eq
  cases action with
  | clock => exact .ok (.number _)
  | echo =>
      cases h with
      | nil => exact .ok .nil
      | cons hfirst _ => exact .ok hfirst
  | count =>
      simp only [HostAction.run, hlength]
      exact .ok (.number _)
  | fail =>
      simp only [HostAction.run, hlength]
      exact .error _

/-- What there is to call, with so many calls that have not ended. -/
def ValueIn.checked (depth : Nat) (callee : ValueIn P) (arguments : List (ValueIn P)) :
    Except RuntimeFault (CallableIn P) :=
  match callee.callable? with
  | none => .error .notCallable
  | some function =>
      if arguments.length ≠ function.arity then
        .error (.argumentCount function.arity arguments.length)
      else if Eval.maxDepth ≤ depth then .error .stackOverflow
      else .ok function

/-- Related values are called on both sides. -/
def CallableIn.Rel (R : ClosureIn P → ClosureIn Q → Prop) (function : CallableIn P)
    (function' : CallableIn Q) : Prop :=
  ∃ callee callee', ValueIn.Rel R callee callee' ∧ callee.callable? = some function ∧
    callee'.callable? = some function'

theorem ValueIn.Rel.checked (h : ValueIn.Rel R callee callee') (hface : ∀ f g, R f g → f.SameFace g)
    (hlength : arguments.length = arguments'.length) (depth : Nat) :
    SameResult (fun function function' => CallableIn.Rel R function function' ∧
        arguments.length = function.arity)
      (callee.checked depth arguments) (callee'.checked depth arguments') := by
  unfold ValueIn.checked
  rcases h.callable?_rel hface with
    ⟨hnone, hnone'⟩ | ⟨function, function', hfunction, hfunction', harity⟩
  · rw [hnone, hnone']
    exact .error _
  · simp only [hfunction, hfunction', ← hlength, ← harity]
    split
    · exact .error _
    · next hcount =>
        split
        · exact .error _
        · exact .ok ⟨⟨callee, callee', h, hfunction, hfunction'⟩, Decidable.not_not.mp hcount⟩

end Calls

namespace Eval

open HasOutside

variable {State P : Type} [HasOutside State] {arguments : List (ValueIn P)} {paren : Token}

theorem checkCall_apply (callee : ValueIn P) (state : State) :
    checkCall callee arguments paren state =
      lift paren (callee.checked (outside state).depth arguments) state := by
  unfold checkCall ValueIn.checked
  cases callee.callable? with
  | none => rfl
  | some function =>
      dsimp only
      split
      · rfl
      · split
        · rfl
        · rfl

theorem callHost_apply (function : HostFunction) (state : State) :
    callHost function arguments paren state =
      lift paren ((function.action.run (outside state).clock.now arguments).mapError .host)
        (modifyOutside (fun o => { o with clock := o.clock.later }) state) := by
  unfold callHost
  cases function.action.run (outside state).clock.now arguments with
  | ok value => rfl
  | error message => rfl

end Eval

end Scriptlet
