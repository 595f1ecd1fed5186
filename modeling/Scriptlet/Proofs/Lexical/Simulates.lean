/-
Actions of a machine and of a reference run that have the same outcome from states
that belong together, and the actions that programs are made of.
-/
import Scriptlet.Proofs.Calls
import Scriptlet.Proofs.Lexical.Mirrors

namespace Scriptlet

/-- No report of the fault reads as if a token stood for an operator that it is
not. -/
def RuntimeFault.Sound (fault : RuntimeFault) : Prop :=
  fault.message ≠ "Invalid unary operator." ∧ fault.message ≠ "Invalid binary operator."

/-- A stop that neither the side table nor the grammar is to blame for. -/
def Stop.Sound : Stop → Prop
  | .fault (.runtime _ cause) => cause.Sound
  | .fault _ => True
  | .defect _ => False
  | .exhausted => True

namespace RuntimeFault

theorem sound_of_head {fault : RuntimeFault} (h : fault.message.toList.head? ≠ some 'I') :
    fault.Sound := by
  constructor
  · intro heq
    rw [heq] at h
    exact h rfl
  · intro heq
    rw [heq] at h
    exact h rfl

theorem sound_undefinedVariable (name : String) : (undefinedVariable name).Sound := by
  apply sound_of_head
  change ("Undefined variable '" ++ name ++ "'.").toList.head? ≠ some 'I'
  simp [String.toList_append]

theorem sound_operandNotNumber (operator : String) : (operandNotNumber operator).Sound := by
  apply sound_of_head
  change ("Operand of '" ++ operator ++ "' must be a number.").toList.head? ≠ some 'I'
  simp [String.toList_append]

theorem sound_operandsNotNumbers (operator : String) : (operandsNotNumbers operator).Sound := by
  apply sound_of_head
  change ("Operands of '" ++ operator ++ "' must be numbers.").toList.head? ≠ some 'I'
  simp [String.toList_append]

theorem sound_argumentCount (expected given : Nat) : (argumentCount expected given).Sound := by
  apply sound_of_head
  change ("Expected " ++ toString expected ++ " arguments but got " ++ toString given ++
    ".").toList.head? ≠ some 'I'
  simp [String.toList_append]

theorem sound_operandsNotAddable : operandsNotAddable.Sound :=
  sound_of_head (by decide)

theorem sound_notCallable : notCallable.Sound :=
  sound_of_head (by decide)

theorem sound_stackOverflow : stackOverflow.Sound :=
  sound_of_head (by decide)

theorem sound_hostFailure {α : Type} (arguments : List α) :
    (host ("host failure (" ++ toString arguments.length ++ " args)")).Sound := by
  apply sound_of_head
  change ("host failure (" ++ toString arguments.length ++ " args)").toList.head? ≠ some 'I'
  simp [String.toList_append]

end RuntimeFault

namespace Operator

variable {Place : Type} {operator : Token} {fault : RuntimeFault}

theorem sound_unary {value : ValueIn Place}
    (hoperator : operator.IsMark .bang ∨ operator.IsMark .minus)
    (h : unary operator value = .error fault) : fault.Sound := by
  rcases hoperator with hbang | hminus
  · simp only [unary, hbang] at h
    cases h
  · simp only [unary, hminus] at h
    split at h
    · cases h
    · cases h
      exact RuntimeFault.sound_operandNotNumber _
    · cases h
    · next hother _ _ => exact absurd rfl hother

theorem sound_add {left right : ValueIn Place} (h : add left right = .error fault) :
    fault.Sound := by
  unfold add at h
  split at h
  · cases h
  · cases h
  · cases h
    exact RuntimeFault.sound_operandsNotAddable

theorem sound_onNumbers {operation : Float → Float → ValueIn Place} {left right : ValueIn Place}
    (h : onNumbers operator operation left right = .error fault) : fault.Sound := by
  unfold onNumbers at h
  split at h
  · cases h
  · cases h
    exact RuntimeFault.sound_operandsNotNumbers _

theorem sound_binary {left right : ValueIn Place} (hoperator : operator.kind ∈ Grammar.binaryKinds)
    (h : binary operator left right = .error fault) : fault.Sound := by
  unfold binary at h
  split at h
  · exact sound_add h
  · exact sound_onNumbers h
  · exact sound_onNumbers h
  · exact sound_onNumbers h
  · exact sound_onNumbers h
  · exact sound_onNumbers h
  · exact sound_onNumbers h
  · exact sound_onNumbers h
  · cases h
  · cases h
  · simp [Grammar.binaryKinds, Grammar.Level.operators] at hoperator
    grind

end Operator

section Calls

variable {Place : Type} {arguments : List (ValueIn Place)} {fault : RuntimeFault}

theorem HostAction.sound_run {action : HostAction} {now : Int}
    (h : (action.run now arguments).mapError RuntimeFault.host = .error fault) : fault.Sound := by
  cases action with
  | clock | echo | count => cases h
  | fail =>
      cases h
      exact RuntimeFault.sound_hostFailure arguments

theorem ValueIn.sound_checked {callee : ValueIn Place} {depth : Nat}
    (h : callee.checked depth arguments = .error fault) : fault.Sound := by
  unfold ValueIn.checked at h
  split at h
  · cases h
    exact RuntimeFault.sound_notCallable
  · split at h
    · cases h
      exact RuntimeFault.sound_argumentCount _ _
    · split at h
      · cases h
        exact RuntimeFault.sound_stackOverflow
      · cases h

end Calls

namespace Lexical

open Reference (Env Store Run)

/-! ### Actions with the same outcome -/

/-- Both actions end well, with results that meet the condition, or both stop for
the same sound reason; either way the states belong together again. -/
inductive Outcome {α β : Type} (known : Known) (touched : Option Nat) (homes : Homes)
    (machine : Machine) (Post : Homes → Machine → α → β → Prop) :
    EStateM.Result Stop Machine α → EStateM.Result Stop Store β → Prop
  | ok {homes' : Homes} {machine' : Machine} {store' : Store} {a : α} {b : β}
      (grows : Grows touched homes machine homes' machine')
      (relates : Relates known homes' machine' store') (post : Post homes' machine' a b) :
      Outcome known touched homes machine Post (.ok a machine') (.ok b store')
  | error {homes' : Homes} {machine' : Machine} {store' : Store} {stop : Stop}
      (grows : Grows touched homes machine homes' machine')
      (relates : Relates known homes' machine' store') (sound : stop.Sound) :
      Outcome known touched homes machine Post (.error stop machine') (.error stop store')

def Simulates {α β : Type} (known : Known) (touched : Option Nat) (homes : Homes)
    (machine : Machine) (store : Store) (action : Eval α) (ref : Run β)
    (Post : Homes → Machine → α → β → Prop) : Prop :=
  Outcome known touched homes machine Post (action machine) (ref store)

section Simulates

variable {α β γ δ : Type} {known : Known} {touched : Option Nat} {homes : Homes}
  {machine : Machine} {store : Store} {action : Eval α} {ref : Run β}
  {next : α → Eval γ} {next' : β → Run δ} {P P' : Homes → Machine → α → β → Prop}
  {Q : Homes → Machine → γ → δ → Prop}

theorem simulates_pure {a : α} {b : β} (hrelates : Relates known homes machine store)
    (h : P homes machine a b) :
    Simulates known touched homes machine store (pure a) (pure b) P :=
  .ok (Grows.refl _ _ _) hrelates h

theorem simulates_throw {stop : Stop} (hrelates : Relates known homes machine store)
    (h : stop.Sound) :
    Simulates known touched homes machine store (throw stop) (throw stop) P :=
  .error (Grows.refl _ _ _) hrelates h

theorem simulates_fail (hrelates : Relates known homes machine store) (token : Token)
    {fault : RuntimeFault} (h : fault.Sound) :
    Simulates known touched homes machine store (Eval.fail token fault) (Eval.fail token fault)
      P :=
  simulates_throw hrelates h

theorem Outcome.since {homes' : Homes} {machine' : Machine}
    {result : EStateM.Result Stop Machine α} {result' : EStateM.Result Stop Store β}
    (h : Outcome known touched homes' machine' P result result')
    (hgrows : Grows touched homes machine homes' machine') :
    Outcome known touched homes machine P result result' := by
  cases h with
  | ok hgrows' hrelates hpost => exact .ok (hgrows.trans hgrows') hrelates hpost
  | error hgrows' hrelates hsound => exact .error (hgrows.trans hgrows') hrelates hsound

/-- One action after the other. -/
theorem Simulates.bind (h : Simulates known touched homes machine store action ref P)
    (hnext : ∀ homes' machine' store' a b, Grows touched homes machine homes' machine' →
      Relates known homes' machine' store' → P homes' machine' a b →
        Simulates known touched homes' machine' store' (next a) (next' b) Q) :
    Simulates known touched homes machine store (action >>= next) (ref >>= next') Q := by
  unfold Simulates at h ⊢
  rw [Eval.bind_apply, Eval.bind_apply]
  generalize action machine = result at h ⊢
  generalize ref store = result' at h ⊢
  cases h with
  | ok hgrows hrelates hpost => exact (hnext _ _ _ _ _ hgrows hrelates hpost).since hgrows
  | error hgrows hrelates hsound => exact .error hgrows hrelates hsound

theorem Simulates.weaken (h : Simulates known touched homes machine store action ref P)
    (himp : ∀ homes' machine' a b, Grows touched homes machine homes' machine' →
      P homes' machine' a b → P' homes' machine' a b) :
    Simulates known touched homes machine store action ref P' := by
  unfold Simulates at h ⊢
  generalize action machine = result at h ⊢
  generalize ref store = result' at h ⊢
  cases h with
  | ok hgrows hrelates hpost => exact .ok hgrows hrelates (himp _ _ _ _ hgrows hpost)
  | error hgrows hrelates hsound => exact .error hgrows hrelates hsound

/-- The growth may be used with the result. -/
theorem Simulates.growing (h : Simulates known touched homes machine store action ref P) :
    Simulates known touched homes machine store action ref fun homes' machine' a b =>
      P homes' machine' a b ∧ Grows touched homes machine homes' machine' :=
  h.weaken fun _ _ _ _ hgrows hpost => ⟨hpost, hgrows⟩

/-- The reference run changes the form of its result. -/
theorem Simulates.mapRef {change : β → δ} {P' : Homes → Machine → α → δ → Prop}
    (h : Simulates known touched homes machine store action ref P)
    (himp : ∀ homes' machine' a b, P homes' machine' a b → P' homes' machine' a (change b)) :
    Simulates known touched homes machine store action (ref >>= fun b => pure (change b)) P' := by
  unfold Simulates at h ⊢
  rw [Eval.bind_apply]
  generalize action machine = result at h ⊢
  generalize ref store = result' at h ⊢
  cases h with
  | ok hgrows hrelates hpost => exact .ok hgrows hrelates (himp _ _ _ _ hpost)
  | error hgrows hrelates hsound => exact .error hgrows hrelates hsound

/-- What touches nothing may stand where something is touched. -/
theorem Simulates.untouched (h : Simulates known touched homes machine store action ref P)
    (hnew : ∀ scope ∈ touched, machine.scopes.size ≤ scope) (other : Option Nat) :
    Simulates known other homes machine store action ref P := by
  unfold Simulates at h ⊢
  generalize action machine = result at h ⊢
  generalize ref store = result' at h ⊢
  cases h with
  | ok hgrows hrelates hpost => exact .ok (hgrows.untouched hnew other) hrelates hpost
  | error hgrows hrelates hsound => exact .error (hgrows.untouched hnew other) hrelates hsound

/-- An action that ends well has done what the reference run did. -/
theorem Simulates.of_ok (h : Simulates known touched homes machine store action ref P) {a : α}
    {machine' : Machine} (haction : action machine = .ok a machine') :
    ∃ homes' store' b, Grows touched homes machine homes' machine' ∧
      Relates known homes' machine' store' ∧ P homes' machine' a b := by
  unfold Simulates at h
  rw [haction] at h
  generalize ref store = result' at h
  cases h with
  | ok hgrows hrelates hpost => exact ⟨_, _, _, hgrows, hrelates, hpost⟩

theorem simulates_lift (hrelates : Relates known homes machine store) (token : Token)
    {result : Except RuntimeFault α} {result' : Except RuntimeFault β}
    (h : SameResult (P homes machine) result result')
    (hsound : ∀ fault, result = .error fault → fault.Sound) :
    Simulates known touched homes machine store (Eval.lift token result)
      (Eval.lift token result') P := by
  cases h with
  | ok hpost => exact simulates_pure hrelates hpost
  | error fault => exact simulates_fail hrelates token (hsound fault rfl)

end Simulates

end Lexical

end Scriptlet
