/-
The rules of the reader are made of few steps.

A rule is a function on cursors, and a function might do anything with them.  A script is a rule
as data: it may look at the next token, take it, hand out an identity, collect a fault, give up,
or go on after a fault, and nothing else.  Every rule is what some script does.
-/
import Mathlib.Tactic.Choose
import Scriptlet.Proofs.Reading.Spends

namespace Scriptlet

namespace Reading

open Reader

/-- A rule as data. -/
inductive Script : Type → Type 1
  | done {α : Type} (value : α) : Script α
  | andThen {α β : Type} (first : Script α) (next : α → Script β) : Script β
  | halt {α : Type} (fault : GrammarFault) : Script α
  | exhausted {α : Type} : Script α
  | report (diagnostic : Diagnostic) : Script Unit
  | reportHere (fault : GrammarFault) : Script Unit
  | looksAt (kind : Kind → Bool) : Script Bool
  | atEnd : Script Bool
  | accept? (kind : Kind → Bool) : Script (Option Token)
  | freshId : Script NodeId
  | recover {α : Type} (rule : Script α) : Script (Option α)

/-- What a script does with a cursor. -/
def Script.onCursor {α : Type} : Script α → Reader α
  | .done value => pure value
  | .andThen first next => first.onCursor >>= fun value => (next value).onCursor
  | .halt fault => Reader.halt fault
  | .exhausted => Reader.exhausted
  | .report diagnostic => Reader.report diagnostic
  | .reportHere fault => Reader.reportHere fault
  | .looksAt kind => Reader.looksAt kind
  | .atEnd => Reader.atEnd
  | .accept? kind => Reader.accept? kind
  | .freshId => Reader.freshId
  | .recover rule => Reader.recover rule.onCursor

/-- The rule is what some script does. -/
def Scripted {α : Type} (rule : Reader α) : Prop :=
  ∃ script : Script α, script.onCursor = rule

section Steps

variable {α β : Type} {rule : Reader α} {next : α → Reader β}

theorem scripted_pure (value : α) : Scripted (pure value) :=
  ⟨.done value, rfl⟩

theorem Scripted.bind (h : Scripted rule) (hnext : ∀ value, Scripted (next value)) :
    Scripted (rule >>= next) := by
  obtain ⟨first, rfl⟩ := h
  choose scripts hscripts using hnext
  refine ⟨.andThen first scripts, ?_⟩
  simp only [Script.onCursor, hscripts]

theorem Scripted.map (h : Scripted rule) (result : α → β) : Scripted (result <$> rule) := by
  have hbind : result <$> rule = rule >>= fun value => pure (result value) := by
    funext cursor
    simp only [map_apply, bind_apply, pure_apply]
  rw [hbind]
  exact h.bind fun value => scripted_pure (result value)

theorem scripted_halt (fault : GrammarFault) : Scripted (halt (α := α) fault) :=
  ⟨.halt fault, rfl⟩

theorem scripted_exhausted : Scripted (exhausted : Reader α) :=
  ⟨.exhausted, rfl⟩

theorem scripted_report (diagnostic : Diagnostic) : Scripted (report diagnostic) :=
  ⟨.report diagnostic, rfl⟩

theorem scripted_reportHere (fault : GrammarFault) : Scripted (reportHere fault) :=
  ⟨.reportHere fault, rfl⟩

theorem scripted_looksAt (kind : Kind → Bool) : Scripted (looksAt kind) :=
  ⟨.looksAt kind, rfl⟩

theorem scripted_atEnd : Scripted atEnd :=
  ⟨.atEnd, rfl⟩

theorem scripted_accept? (kind : Kind → Bool) : Scripted (accept? kind) :=
  ⟨.accept? kind, rfl⟩

theorem scripted_freshId : Scripted freshId :=
  ⟨.freshId, rfl⟩

theorem Scripted.recover (h : Scripted rule) : Scripted (recover rule) := by
  obtain ⟨script, rfl⟩ := h
  exact ⟨.recover script, rfl⟩

/-- Going on with tokens of this kind only. -/
def heeding (kind : Kind → Bool) (next : Option Token → Reader β) : Option Token → Reader β
  | some token => if kind token.kind then next (some token) else next none
  | none => next none

/-- Tokens of other kinds are not taken, so it does not matter what would be done with them. -/
theorem accept_heeding (kind : Kind → Bool) (next : Option Token → Reader β) :
    (accept? kind >>= heeding kind next) = accept? kind >>= next := by
  funext cursor
  rw [bind_apply, bind_apply]
  rcases accept?_cases kind cursor with h | ⟨token, rest, -, hkind, h⟩
  · rw [h]
    rfl
  · simp only [h, heeding, hkind, if_true]

theorem scripted_accept {kind : Kind → Bool} {next : Option Token → Reader β}
    (hsome : ∀ token, kind token.kind = true → Scripted (next (some token)))
    (hnone : Scripted (next none)) : Scripted (accept? kind >>= next) := by
  rw [← accept_heeding]
  apply (scripted_accept? kind).bind
  intro found
  cases found with
  | none => exact hnone
  | some token =>
      rw [heeding]
      split
      · next hkind => exact hsome token hkind
      · exact hnone

theorem scripted_expect (kind : Kind → Bool) (fault : GrammarFault) :
    Scripted (expect kind fault) := by
  apply (scripted_accept? kind).bind
  intro found
  cases found with
  | none => exact scripted_halt fault
  | some token => exact scripted_pure token

end Steps

/-! ### Rules of the grammar -/

theorem expressionLaws_scripted : ExpressionLaws [] fun _ _ _ rule _ => Scripted rule where
  weaken h _ _ := h
  done := scripted_pure
  andThen := Scripted.bind
  exhausted _ := scripted_exhausted
  halt _ := scripted_halt _
  freshId := scripted_freshId
  looksAt := scripted_looksAt
  accept _ _ hsome hnone := scripted_accept hsome hnone
  barred_subset := List.nil_subset _
  report _ := scripted_report _
  reportHere _ := scripted_reportHere _

theorem Scripted.declarationsUntil {member : Reader (Option Stmt)} (h : Scripted member)
    (stop : Kind → Bool) (bound : Nat) : Scripted (declarationsUntil stop member bound) := by
  induction bound with
  | zero => exact scripted_exhausted
  | succ bound ih =>
      apply (scripted_looksAt stop).bind
      intro stops
      apply scripted_atEnd.bind
      intro isEnd
      cases stops || isEnd with
      | true => exact scripted_pure _
      | false => exact h.bind fun _ => ih.bind fun _ => scripted_pure _

theorem Scripted.blockBody {member : Reader (Option Stmt)} (h : Scripted member) (bound : Nat) :
    Scripted (blockBody bound member) :=
  (h.declarationsUntil _ bound).bind fun _ => (scripted_expect _ _).bind fun _ => scripted_pure _

theorem statementLaws_scripted :
    StatementLaws (fun _ _ _ rule _ => Scripted rule) (fun _ _ rule _ => Scripted rule)
      fun _ rounds _ => Scripted (declaration rounds) :=
  expressionLaws_scripted.statementLaws expressionLaws_scripted.expression
    expressionLaws_scripted.parameterList (fun h _ _ => h.blockBody _) scripted_exhausted
    (fun h _ => h) Scripted.recover

theorem scripted_expression (bound : Nat) : Scripted (expression bound) :=
  expressionLaws_scripted.expression (Nat.le_refl bound) (Nat.le_refl bound)

theorem scripted_statement_declaration (bound : Nat) :
    Scripted (statement bound) ∧ Scripted (declaration bound) :=
  statementLaws_scripted.statement_declaration (Nat.le_refl bound) (Nat.le_refl bound)

theorem scripted_program (bound : Nat) : Scripted (program bound) :=
  (scripted_statement_declaration bound).2.declarationsUntil _ bound

theorem scripted_wholeExpression (bound : Nat) : Scripted (wholeExpression bound) := by
  apply (scripted_expression bound).bind
  intro value
  apply scripted_atEnd.bind
  intro isEnd
  cases isEnd with
  | true => exact scripted_pure value
  | false => exact scripted_halt _

/-! ### What no step undoes -/

end Reading

namespace Reader

/-- Where a rule left the cursor. -/
def final {α : Type} : EStateM.Result Halt Cursor α → Cursor
  | .ok _ after => after
  | .error _ after => after

/-- As many identities as before are handed out when the rule ends, or more. -/
def Counts {α : Type} (rule : Reader α) : Prop :=
  ∀ cursor, cursor.issued ≤ (final (rule cursor)).issued

/-- No fault is forgotten wherever the rule begins. -/
def Grows {α : Type} (rule : Reader α) : Prop :=
  ∀ cursor, cursor.faults.length ≤ (final (rule cursor)).faults.length

end Reader

namespace Reading

open Reader

/-- A relation between cursors that holds along all that a script does. -/
structure Progress (R : Cursor → Cursor → Prop) : Prop where
  refl (cursor : Cursor) : R cursor cursor
  trans {first middle last : Cursor} : R first middle → R middle last → R first last
  skip {cursor : Cursor} {rest : List Token} :
    rest <:+ cursor.rest → R cursor { cursor with rest := rest }
  fresh (cursor : Cursor) : R cursor { cursor with issued := cursor.issued + 1 }
  fault (cursor : Cursor) (diagnostic : Diagnostic) :
    R cursor { cursor with faults := cursor.faults ++ [diagnostic] }

section Progress

variable {α : Type} {R : Cursor → Cursor → Prop} {rule : Reader α}

theorem Script.progress (hR : Progress R) (script : Script α) (cursor : Cursor) :
    R cursor (final (script.onCursor cursor)) := by
  induction script generalizing cursor with
  | done value => exact hR.refl cursor
  | andThen first next ihFirst ihNext =>
      have hfirst := ihFirst cursor
      rw [Script.onCursor, bind_apply]
      generalize first.onCursor cursor = result at hfirst ⊢
      cases result with
      | ok value after => exact hR.trans hfirst (ihNext value after)
      | error reason after => exact hfirst
  | halt fault => exact hR.refl cursor
  | exhausted => exact hR.refl cursor
  | report diagnostic => exact hR.fault cursor diagnostic
  | reportHere fault => exact hR.fault cursor _
  | looksAt kind =>
      rw [Script.onCursor]
      obtain ⟨found, hfound⟩ := looksAt_cases kind cursor
      rw [hfound]
      exact hR.refl cursor
  | atEnd => exact hR.refl cursor
  | accept? kind =>
      rw [Script.onCursor]
      rcases accept?_cases kind cursor with h | ⟨token, rest, hrest, -, h⟩
      · rw [h]
        exact hR.refl cursor
      · rw [h]
        exact hR.skip (hrest ▸ List.suffix_cons token rest)
  | freshId => exact hR.fresh cursor
  | recover rule ih =>
      have hrule := ih cursor
      rw [Script.onCursor, Reader.recover]
      generalize rule.onCursor cursor = result at hrule ⊢
      match result with
      | .ok value after => exact hrule
      | .error (.fault diagnostic) after =>
          have hfault := hR.trans hrule (hR.fault after diagnostic)
          exact hR.trans hfault (hR.skip (resume_suffix after.rest))
      | .error .exhausted after => exact hrule

theorem progress_issued : Progress fun first last => first.issued ≤ last.issued where
  refl _ := Nat.le_refl _
  trans := Nat.le_trans
  skip _ := Nat.le_refl _
  fresh _ := Nat.le_succ _
  fault _ _ := Nat.le_refl _

theorem progress_faults : Progress fun first last => first.faults.length ≤ last.faults.length where
  refl _ := Nat.le_refl _
  trans := Nat.le_trans
  skip _ := Nat.le_refl _
  fresh _ := Nat.le_refl _
  fault _ _ := List.length_append ▸ Nat.le_add_right _ _

/-- Identities are handed out one after the other, and never taken back. -/
theorem Scripted.counts (h : Scripted rule) : Counts rule := by
  obtain ⟨script, rfl⟩ := h
  exact script.progress progress_issued

theorem Scripted.grows (h : Scripted rule) : Grows rule := by
  obtain ⟨script, rfl⟩ := h
  exact script.progress progress_faults

end Progress

end Reading

namespace Reader

open Reading

theorem counts_program (bound : Nat) : Counts (program bound) :=
  (scripted_program bound).counts

theorem counts_wholeExpression (bound : Nat) : Counts (wholeExpression bound) :=
  (scripted_wholeExpression bound).counts

/-- Sources are numbered one after the other. -/
theorem issued_le_parse {α : Type} {rule : Nat → Reader α} (h : ∀ bound, Counts (rule bound))
    (tokens : List Token) (issued : Nat) : issued ≤ (parse rule tokens issued).issued := by
  have hrule := h ((Cursor.ofTokens tokens issued).rest.length + 1) (Cursor.ofTokens tokens issued)
  unfold parse
  dsimp only
  generalize rule _ _ = result at hrule ⊢
  cases result with
  | ok value after => exact hrule
  | error reason after =>
      cases reason with
      | fault diagnostic => exact hrule
      | exhausted => exact hrule

end Reader

end Scriptlet
