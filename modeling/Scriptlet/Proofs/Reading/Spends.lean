/-
The reader never runs into its bound.

A rule that is nested uses up a token before it goes deeper, and so does a rule that repeats
another one before it comes round again.  After a fault at least one token is skipped where there
is one.  So with a bound above the number of tokens that are left, every rule comes to an end of
its own.
-/
import Scriptlet.Proofs.Reading.Laws

namespace Scriptlet.Reading

open Reader

variable {α β : Type} {taken bound rounds : Nat}

/-- The rule came to an end of its own: with a result, for which it took so many tokens, or with
a fault.  In no case are there more tokens than before. -/
def Spent (taken : Nat) (cursor : Cursor) : EStateM.Result Halt Cursor α → Prop
  | .ok _ after => after.rest.length + taken ≤ cursor.rest.length
  | .error (.fault _) after => after.rest.length ≤ cursor.rest.length
  | .error .exhausted _ => False

/-- So it does wherever fewer tokens are left than the bound. -/
def Spends (taken bound : Nat) (rule : Reader α) : Prop :=
  ∀ cursor, cursor.rest.length < bound → Spent taken cursor (rule cursor)

/-- So it does where tokens are left at all. -/
def SpendsSome (taken bound : Nat) (rule : Reader α) : Prop :=
  ∀ cursor, cursor.rest ≠ [] → cursor.rest.length < bound → Spent taken cursor (rule cursor)

section Spent

variable {cursor after : Cursor} {result : EStateM.Result Halt Cursor α}

theorem Spent.mono {taken' : Nat} (h : Spent taken cursor result) (htaken : taken' ≤ taken) :
    Spent taken' cursor result := by
  match result with
  | .ok _ _ => exact Nat.le_trans (Nat.add_le_add_left htaken _) h
  | .error (.fault _) _ => exact h
  | .error .exhausted _ => exact h

/-- What was taken before counts, too. -/
theorem Spent.trans {more : Nat} (h : Spent more after result)
    (hafter : after.rest.length + taken ≤ cursor.rest.length) :
    Spent (taken + more) cursor result := by
  match result with
  | .ok _ last =>
      have hlast : last.rest.length + more ≤ after.rest.length := h
      show last.rest.length + (taken + more) ≤ cursor.rest.length
      omega
  | .error (.fault _) last =>
      have hlast : last.rest.length ≤ after.rest.length := h
      show last.rest.length ≤ cursor.rest.length
      omega
  | .error .exhausted _ => exact h

end Spent

section Steps

variable {rule : Reader α} {next : α → Reader β}

theorem Spends.mono {taken' bound' : Nat} (h : Spends taken bound rule) (htaken : taken' ≤ taken)
    (hbound : bound' ≤ bound) : Spends taken' bound' rule :=
  fun cursor hlt => (h cursor (Nat.lt_of_lt_of_le hlt hbound)).mono htaken

/-- What else a rule takes may be left out of account. -/
theorem Spends.free (h : Spends taken bound rule) : Spends 0 bound rule :=
  h.mono (Nat.zero_le _) (Nat.le_refl _)

/-- No cursor has fewer tokens than none. -/
theorem spends_zero (rule : Reader α) : Spends taken 0 rule :=
  fun _ hlt => absurd hlt (Nat.not_lt_zero _)

theorem spends_pure (value : α) : Spends 0 bound (pure value) :=
  fun _ _ => Nat.le_refl _

/-- The tokens that the first rule took are gone when the second one begins. -/
theorem Spends.andThen {more : Nat} (h : Spends taken bound rule)
    (hnext : ∀ value, Spends more (bound - taken) (next value)) :
    Spends (taken + more) bound (rule >>= next) := by
  intro cursor hlt
  have hrule := h cursor hlt
  rw [bind_apply]
  generalize rule cursor = result at hrule ⊢
  match result with
  | .ok value after =>
      have hafter : after.rest.length + taken ≤ cursor.rest.length := hrule
      exact (hnext value after (by omega)).trans hafter
  | .error (.fault _) after => exact hrule
  | .error .exhausted _ => exact hrule

theorem Spends.bind (h : Spends taken bound rule) (hnext : ∀ value, Spends 0 bound (next value)) :
    Spends taken bound (rule >>= next) :=
  h.andThen fun value => (hnext value).mono (Nat.le_refl 0) (Nat.sub_le _ _)

theorem spends_halt (fault : GrammarFault) : Spends taken bound (halt fault : Reader α) :=
  fun _ _ => Nat.le_refl _

theorem spends_report (diagnostic : Diagnostic) : Spends 0 bound (report diagnostic) :=
  fun _ _ => Nat.le_refl _

theorem spends_reportHere (fault : GrammarFault) : Spends 0 bound (reportHere fault) :=
  fun _ _ => Nat.le_refl _

theorem spends_looksAt (kind : Kind → Bool) : Spends 0 bound (looksAt kind) := by
  intro cursor _
  unfold looksAt
  split
  · exact Nat.le_refl _
  · exact Nat.le_refl _

theorem spends_freshId : Spends 0 bound freshId :=
  fun _ _ => Nat.le_refl _

/-- A token that was taken is gone. -/
theorem Spends.accept {kind : Kind → Bool} {next : Option Token → Reader β} (htaken : taken ≤ 1)
    (hsome : ∀ token, kind token.kind = true → Spends 0 (bound - 1) (next (some token)))
    (hnone : Spends taken bound (next none)) : Spends taken bound (accept? kind >>= next) := by
  intro cursor hlt
  rw [bind_apply]
  rcases accept?_cases kind cursor with h | ⟨token, rest, hrest, hkind, h⟩
  · rw [h]
    exact hnone cursor hlt
  · rw [h]
    have hlength : rest.length + 1 = cursor.rest.length := by rw [hrest, List.length_cons]
    have hlater := hsome token hkind { cursor with rest := rest } (by simp only; omega)
    exact (hlater.trans (Nat.le_of_eq hlength)).mono htaken

theorem spends_expect (kind : Kind → Bool) (fault : GrammarFault) :
    Spends 1 bound (expect kind fault) :=
  .accept (Nat.le_refl 1) (fun token _ => spends_pure token) (spends_halt _)

/-- No token comes back when reading goes on after a fault. -/
theorem boundary_suffix (skipped : Token) (rest : List Token) :
    Cursor.boundary skipped rest <:+ rest := by
  induction rest generalizing skipped with
  | nil => exact List.suffix_refl _
  | cons token rest ih =>
      rw [Cursor.boundary]
      split
      · exact List.suffix_refl _
      · exact (ih token).trans (List.suffix_cons token rest)

theorem resume_suffix (tokens : List Token) : Cursor.resume tokens <:+ tokens := by
  cases tokens with
  | nil => exact List.suffix_refl _
  | cons token rest => exact (boundary_suffix token rest).trans (List.suffix_cons token rest)

/-- After a fault a token is skipped, if there is one. -/
theorem Spends.recover (h : Spends 1 bound rule) : SpendsSome 1 bound (recover rule) := by
  intro cursor hsome hlt
  have hpos := List.length_pos_iff.mpr hsome
  have hrule := h cursor hlt
  unfold Reader.recover
  generalize rule cursor = result at hrule ⊢
  match result with
  | .ok value after => exact hrule
  | .error (.fault diagnostic) after =>
      have hafter : after.rest.length ≤ cursor.rest.length := hrule
      show (Cursor.resume after.rest).length + 1 ≤ cursor.rest.length
      cases hrest : after.rest with
      | nil => exact hpos
      | cons token rest =>
          have hle := (boundary_suffix token rest).length_le
          rw [hrest, List.length_cons] at hafter
          rw [Cursor.resume]
          omega
  | .error .exhausted _ => exact hrule

end Steps

/-! ### Rules of the grammar -/

theorem expressionLaws_spends :
    ExpressionLaws [] fun taken bound _ rule _ => Spends taken bound rule where
  weaken := Spends.mono
  done := spends_pure
  andThen := Spends.andThen
  exhausted _ := spends_zero _
  halt _ := spends_halt _
  freshId := spends_freshId
  looksAt := spends_looksAt
  accept _ htaken hsome hnone := .accept htaken hsome hnone
  barred_subset := List.nil_subset _
  report _ := spends_report _
  reportHere _ := spends_reportHere _

section Declarations

variable {member : Reader (Option Stmt)}

/-- Members are read until the next token is one to stop at, or there is none. -/
theorem declarationsUntil_apply (stop : Kind → Bool) (member : Reader (Option Stmt))
    (rounds : Nat) (cursor : Cursor) :
    declarationsUntil stop member (rounds + 1) cursor =
      if cursor.rest.head?.all fun token => stop token.kind then .ok [] cursor
      else (member >>= fun first =>
        declarationsUntil stop member rounds >>= fun rest =>
          pure (first.toList ++ rest)) cursor := by
  rw [declarationsUntil, bind_apply, looksAt]
  cases hrest : cursor.rest with
  | nil => simp [atEnd, hrest]
  | cons token rest => cases hstop : stop token.kind <;> simp [atEnd, hrest, hstop]

/-- Each round takes a token, because a member is read only where one is left. -/
theorem SpendsSome.declarationsUntil (h : SpendsSome 1 bound member) (stop : Kind → Bool)
    (hrounds : bound ≤ rounds) : Spends 0 bound (declarationsUntil stop member rounds) := by
  induction rounds generalizing bound with
  | zero =>
      obtain rfl := Nat.le_zero.mp hrounds
      exact spends_zero _
  | succ rounds ih =>
      intro cursor hlt
      rw [declarationsUntil_apply]
      split
      · exact Nat.le_refl _
      · next hstop =>
          have hsome : cursor.rest ≠ [] := by
            intro hrest
            rw [hrest] at hstop
            exact hstop rfl
          have hmember := h cursor hsome hlt
          rw [bind_apply]
          generalize member cursor = result at hmember ⊢
          match result with
          | .ok first after =>
              have hafter : after.rest.length + 1 ≤ cursor.rest.length := hmember
              have hlater : SpendsSome 1 (bound - 1) member := fun other hother hshort =>
                h other hother (by omega)
              have hrest := (ih hlater (by omega)).bind fun rest =>
                spends_pure (first.toList ++ rest)
              exact ((hrest after (by omega)).trans hafter).mono (Nat.zero_le _)
          | .error (.fault _) after => exact hmember
          | .error .exhausted _ => exact hmember

theorem SpendsSome.blockBody (h : SpendsSome 1 bound member) (hrounds : bound ≤ rounds) :
    Spends 0 bound (blockBody rounds member) :=
  (h.declarationsUntil _ hrounds).bind fun _ =>
    (spends_expect _ _).free.bind fun _ => spends_pure _

end Declarations

theorem statementLaws_spends :
    StatementLaws (fun taken bound _ rule _ => Spends taken bound rule)
      (fun taken bound rule _ => Spends taken bound rule)
      fun bound rounds _ => SpendsSome 1 bound (declaration rounds) :=
  expressionLaws_spends.statementLaws expressionLaws_spends.expression
    expressionLaws_spends.parameterList
    (fun h hrounds _ => h.blockBody (Nat.le_succ_of_le hrounds))
    (fun _ _ hlt => absurd hlt (Nat.not_lt_zero _))
    (fun h hless cursor hsome hlt => h cursor hsome (Nat.lt_of_lt_of_le hlt hless)) Spends.recover

theorem spends_statement_declaration (bound : Nat) :
    Spends 1 bound (statement bound) ∧ SpendsSome 1 bound (declaration bound) :=
  statementLaws_spends.statement_declaration (Nat.le_refl bound) (Nat.le_refl bound)

theorem spends_program (bound : Nat) : Spends 0 bound (program bound) :=
  (spends_statement_declaration bound).2.declarationsUntil _ (Nat.le_refl bound)

end Scriptlet.Reading
