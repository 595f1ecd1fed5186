/-
A larger bound changes nothing for the reader.

A rule that does not come to its bound does the same with every larger one, and with a bound
above the number of tokens none comes to it.  So what is read of some tokens does not depend on
how many others stood before them.
-/
import Scriptlet.Proofs.Reading.Spends

namespace Scriptlet.Reading

open Reader

variable {α β : Type}

/-- The second rule does what the first one does, unless the first comes to its bound. -/
def Prolonged (rule longer : Reader α) : Prop :=
  ∀ cursor, (∃ after, rule cursor = .error .exhausted after) ∨ longer cursor = rule cursor

section Steps

variable {rule longer : Reader α} {next next' : α → Reader β}

theorem Prolonged.same (rule : Reader α) : Prolonged rule rule :=
  fun _ => Or.inr rfl

theorem Prolonged.exhausted (longer : Reader α) : Prolonged exhausted longer :=
  fun cursor => Or.inl ⟨cursor, rfl⟩

theorem Prolonged.bind (h : Prolonged rule longer)
    (hnext : ∀ value, Prolonged (next value) (next' value)) :
    Prolonged (rule >>= next) (longer >>= next') := by
  intro cursor
  rw [bind_apply, bind_apply]
  rcases h cursor with ⟨after, hexhausted⟩ | hsame
  · exact Or.inl ⟨after, by rw [hexhausted]⟩
  · rw [hsame]
    cases rule cursor with
    | ok value after => exact hnext value after
    | error reason after => exact Or.inr rfl

/-- A rule that both sides begin with. -/
theorem Prolonged.after (rule : Reader α) (hnext : ∀ value, Prolonged (next value) (next' value)) :
    Prolonged (rule >>= next) (rule >>= next') :=
  (same rule).bind hnext

/-- A rule that both sides end with. -/
theorem Prolonged.before (h : Prolonged rule longer) (next : α → Reader β) :
    Prolonged (rule >>= next) (longer >>= next) :=
  h.bind fun value => same (next value)

theorem Prolonged.accept {kind : Kind → Bool} {next next' : Option Token → Reader β}
    (hsome : ∀ token, kind token.kind = true →
      Prolonged (next (some token)) (next' (some token)))
    (hnone : Prolonged (next none) (next' none)) :
    Prolonged (accept? kind >>= next) (accept? kind >>= next') := by
  intro cursor
  rw [bind_apply, bind_apply]
  rcases accept?_cases kind cursor with h | ⟨token, rest, -, hkind, h⟩
  · rw [h]
    exact hnone cursor
  · rw [h]
    exact hsome token hkind { cursor with rest := rest }

theorem Prolonged.recover (h : Prolonged rule longer) :
    Prolonged (recover rule) (recover longer) := by
  intro cursor
  unfold Reader.recover
  rcases h cursor with ⟨after, hexhausted⟩ | hsame
  · exact Or.inl ⟨after, by rw [hexhausted]⟩
  · exact Or.inr (by rw [hsame])

/-- With a bound above the number of tokens, a rule does not come to it. -/
theorem Prolonged.eq {bound : Nat} {cursor : Cursor} (h : Prolonged rule longer)
    (hspends : Spends 0 bound rule) (hlt : cursor.rest.length < bound) :
    longer cursor = rule cursor := by
  rcases h cursor with ⟨after, hexhausted⟩ | hsame
  · have hspent := hspends cursor hlt
    rw [hexhausted] at hspent
    exact hspent.elim
  · exact hsame

end Steps

/-! ### Rules of the grammar -/

theorem expressionLaws_prolonged :
    ExpressionLaws [] fun _ _ _ rule longer => Prolonged rule longer where
  weaken h _ _ := h
  done _ := .same _
  andThen := Prolonged.bind
  exhausted := Prolonged.exhausted
  halt _ := .same _
  freshId := .same _
  looksAt _ := .same _
  accept _ _ hsome hnone := .accept hsome hnone
  barred_subset := List.nil_subset _
  report _ := .same _
  reportHere _ := .same _

section Declarations

variable {member member' : Reader (Option Stmt)} {bound more : Nat}

theorem Prolonged.declarationsUntil (h : Prolonged member member') (stop : Kind → Bool)
    (hle : bound ≤ more) :
    Prolonged (declarationsUntil stop member bound) (declarationsUntil stop member' more) := by
  induction bound generalizing more with
  | zero => exact .exhausted _
  | succ bound ih =>
      obtain ⟨more, rfl⟩ := Nat.exists_eq_add_one_of_ne_zero (Nat.ne_zero_of_lt hle)
      apply Prolonged.after
      intro stops
      apply Prolonged.after
      intro isEnd
      cases stops || isEnd with
      | true => exact .same _
      | false =>
          apply h.bind
          intro first
          exact (ih (Nat.le_of_succ_le_succ hle)).before _

theorem Prolonged.blockBody (h : Prolonged member member') (hle : bound ≤ more) :
    Prolonged (blockBody bound member) (blockBody more member') :=
  (h.declarationsUntil _ hle).before _

end Declarations

theorem statementLaws_prolonged :
    StatementLaws (fun _ _ _ rule longer => Prolonged rule longer)
      (fun _ _ rule longer => Prolonged rule longer)
      fun _ rounds more => Prolonged (declaration rounds) (declaration more) :=
  expressionLaws_prolonged.statementLaws expressionLaws_prolonged.expression
    expressionLaws_prolonged.parameterList
    (fun h _ hmore => h.blockBody (Nat.succ_le_succ hmore)) (.exhausted _) (fun h _ => h)
    Prolonged.recover

theorem prolonged_statement_declaration {bound more : Nat} (hle : bound ≤ more) :
    Prolonged (statement bound) (statement more) ∧
      Prolonged (declaration bound) (declaration more) :=
  statementLaws_prolonged.statement_declaration (Nat.le_refl bound) hle

end Scriptlet.Reading
