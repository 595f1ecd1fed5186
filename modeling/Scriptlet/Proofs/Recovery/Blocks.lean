/-
Blocks, and going on after a fault.

Behind the gap a block of the grammar is read up to its end.  One that began before the gap is
closed by a brace behind it, which may be met too early or never.  A row of declarations goes on
after each fault, up to such a brace or to the end.
-/
import Scriptlet.Proofs.Recovery.Gaps

namespace Scriptlet.Recovery

open Grammar Reader Reading

variable {α : Type} {ledger : Ledger} {bound rounds opened n : Nat} {cursor : Cursor}
  {near : List Token}

/-! ### After a fault -/

theorem Tallies.recover {rule : Reader α}
    (h : Tallies (ledger.stands opened) (ledger.thrown opened) (rule cursor)) :
    Tallies (ledger.resumed opened) (ledger.thrown opened) (recover rule cursor) := by
  rw [Reader.recover]
  generalize rule cursor = result at h ⊢
  cases result with
  | ok value after => exact ledger.resumed_of_stands h
  | error reason after =>
      cases reason with
      | fault diagnostic => exact ledger.caught h diagnostic
      | exhausted => trivial

/-- Before the gap, a rule that halts leaves a fault. -/
theorem Bridges.recover {rule : Reader α} (h : Bridges ledger ledger.stands rule) :
    Bridges ledger ledger.resumed (recover rule) := by
  refine ⟨h.scripted.recover, fun near n => ?_⟩
  cases h.meets near n with
  | before value left m hsuffix hbalance hrun =>
      refine .before (some value) left m hsuffix hbalance fun far endLine faults => ?_
      rw [Reader.recover, hrun]
  | faulty hsome hrun =>
      refine .faulty hsome fun far endLine faults => ?_
      have hfaulty := hrun far endLine faults
      have hgrows := h.scripted.grows ⟨near ++ far, endLine, n, faults⟩
      rw [Reader.recover]
      generalize rule _ = result at hfaulty hgrows ⊢
      cases result with
      | ok value after => exact hfaulty
      | error reason after =>
          cases reason with
          | exhausted => trivial
          | fault diagnostic =>
              have hle : faults.length ≤ after.faults.length := hgrows
              show _ < (after.faults ++ [diagnostic]).length
              rw [List.length_append]
              exact Nat.lt_succ_of_le hle
  | across blocks hbalance hrun =>
      exact .across blocks hbalance fun outer far endLine faults hfar =>
        (hrun outer far endLine faults hfar).recover

/-! ### Rows of declarations -/

/-- A row of declarations is in no block, or ends where one is closed. -/
def Heeds (stop : Kind → Bool) (opened : Nat) : Prop :=
  opened = 0 ∨ stop = (·.isMark .rightBrace)

/-- What is known where the row ends. -/
def Stopped (ledger : Ledger) (stop : Kind → Bool) (opened : Nat) (cursor : Cursor) : Prop :=
  ledger.resumed opened cursor ∧ ∀ token ∈ cursor.rest.head?, stop token.kind = true

section Declarations

variable {stop : Kind → Bool} (h : Bridges ledger ledger.resumed (declaration rounds))
include h

/-- A declaration ends the reading of what is left of others, or begins anew. -/
theorem Bridges.declaration_onward (hcursor : ledger.resumed opened cursor)
    (hsome : cursor.rest ≠ [])
    (hhead : opened = 0 ∨ ∀ token ∈ cursor.rest.head?, token.kind.isMark .rightBrace = false) :
    Tallies (ledger.resumed opened) (ledger.thrown opened) (declaration rounds cursor) := by
  rcases ledger.onward hcursor hsome hhead with hwithin | hrun
  · exact h.onward (fun _ => ledger.resumed_of_within) hwithin
  · exact hrun rounds

theorem Bridges.tallies_until (hheeds : Heeds stop opened)
    (hcursor : ledger.resumed opened cursor) :
    Tallies (Stopped ledger stop opened) (ledger.thrown opened)
      (declarationsUntil stop (declaration rounds) bound cursor) := by
  induction bound generalizing cursor with
  | zero => trivial
  | succ bound ih =>
      rw [declarationsUntil_apply]
      by_cases hstop : (cursor.rest.head?.all fun token => stop token.kind) = true
      · rw [if_pos hstop]
        refine ⟨hcursor, fun token htoken => ?_⟩
        rwa [htoken] at hstop
      rw [if_neg hstop, bind_apply]
      have hsome : cursor.rest ≠ [] := by
        intro hnone
        rw [hnone] at hstop
        exact hstop rfl
      have hhead : opened = 0 ∨
          ∀ token ∈ cursor.rest.head?, token.kind.isMark .rightBrace = false := by
        refine hheeds.imp_right fun hbrace token htoken => ?_
        rw [htoken, hbrace] at hstop
        exact Bool.eq_false_iff.mpr hstop
      refine (h.declaration_onward hcursor hsome hhead).bind (fun first after hafter => ?_)
        fun _ => id
      exact (ih hafter).before _

theorem Bridges.meets_until (near : List Token) (n : Nat) :
    Meets ledger (fun opened cursor => Heeds stop opened → Stopped ledger stop opened cursor)
      (fun opened cursor => Heeds stop opened → ledger.thrown opened cursor) 0
      (declarationsUntil stop (declaration rounds) bound) near n := by
  induction bound generalizing near n with
  | zero => exact (bridges_exhausted.meets near n).mono (fun _ _ => id) fun _ _ hthrown _ => hthrown
  | succ bound ih =>
      cases near with
      | nil =>
          refine .across 0 rfl fun outer far endLine faults hfar => .given fun hheeds => ?_
          exact h.tallies_until hheeds (ledger.resumed_of_within hfar)
      | cons token rest =>
          by_cases hstop : stop token.kind = true
          · refine .before [] (token :: rest) n (List.suffix_refl _) (Int.add_zero _) ?_
            intro far endLine faults
            rw [declarationsUntil_apply]
            exact if_pos hstop
          have hround := Meets.andThen (h.meets (token :: rest) n)
            (fun first left m => (ih left m).map fun others => first.toList ++ others)
            (fun first => (h.scripted.declarationsUntil stop bound).bind fun _ => scripted_pure _)
            (fun outer first after hafter =>
              (Tallies.given fun hheeds => h.tallies_until hheeds hafter).before _)
            fun outer _ hthrown _ => hthrown
          refine .congr (fun far endLine faults => ?_) hround
          rw [declarationsUntil_apply]
          exact if_neg hstop

end Declarations

/-! ### Blocks -/

/-- The brace that closes a block is there, or is missing. -/
theorem tallies_rightBrace (body : List Stmt)
    (hclosed : ∀ rbrace rest, cursor.rest = rbrace :: rest → rbrace.IsMark .rightBrace →
      ledger.stands opened { cursor with rest := rest })
    (hmissing : (∀ token ∈ cursor.rest.head?, token.kind.isMark .rightBrace = false) →
      ledger.thrown opened cursor) :
    Tallies (ledger.stands opened) (ledger.thrown opened)
      ((expect (·.isMark .rightBrace) .braceAfterBlock >>= fun _ => pure body) cursor) := by
  rw [expect, bind_assoc]
  refine .accept (fun rbrace rest hrest hbrace => ?_) fun hhead => ?_
  · exact hclosed rbrace rest hrest (Kind.isMark_iff.mp hbrace)
  · exact hmissing hhead

/-- Before the gap it is there, or the block has a fault.  At the gap the block is open. -/
theorem meets_rightBrace (body : List Stmt) (near : List Token) (n : Nat) :
    Meets ledger ledger.stands ledger.thrown 1
      (expect (·.isMark .rightBrace) .braceAfterBlock >>= fun _ => pure body) near n := by
  cases near with
  | nil =>
      refine .across 1 rfl fun outer far endLine faults hfar => tallies_rightBrace body ?_ ?_
      · exact fun rbrace rest => ledger.closed (ledger.resumed_of_within hfar)
      · exact fun _ => ledger.abandoned (ledger.thrown_of_within hfar)
  | cons token rest =>
      by_cases hbrace : token.kind.isMark .rightBrace = true
      · have hdepth := depth_rightBrace (Kind.isMark_iff.mp hbrace) rest
        refine .before body rest n (List.suffix_cons token rest) (by omega) ?_
        intro far endLine faults
        rw [List.cons_append, bind_apply, expect_of_kind hbrace]
        rfl
      · refine .faulty (List.cons_ne_nil _ _) fun far endLine faults => ?_
        have hnone : accept? (·.isMark .rightBrace) ⟨token :: rest ++ far, endLine, n, faults⟩ =
            .ok none ⟨token :: rest ++ far, endLine, n, faults⟩ := if_neg hbrace
        rw [bind_apply, expect, bind_apply, hnone]
        trivial

/-- Behind the brace that opens it, a block is to close that one. -/
theorem Bridges.meets_blockBody (h : Bridges ledger ledger.resumed (declaration rounds))
    (near : List Token) (n : Nat) :
    Meets ledger ledger.stands ledger.thrown 1 (blockBody bound (declaration rounds)) near n := by
  refine (h.meets_until near n).andThen meets_rightBrace
    (fun body => (scripted_expect _ _).bind fun _ => scripted_pure body)
    (fun outer body after hafter => ?_) fun outer cursor hthrown => ?_
  · obtain ⟨hresumed, hstop⟩ := hafter (Or.inr rfl)
    refine tallies_rightBrace body (fun rbrace rest => ledger.closed hresumed) fun hhead => ?_
    have hnone : after.rest.head? = none :=
      Option.eq_none_iff_forall_ne_some.mpr fun token htoken =>
        Bool.false_ne_true ((hhead token htoken).symm.trans (hstop token htoken))
    exact ledger.ended hresumed (List.head?_eq_none_iff.mp hnone)
  · exact ledger.abandoned (hthrown (Or.inr rfl))

/-- A rule that may begin with a block.  Behind the gap that block is one of the grammar, or is open
like those that began before. -/
theorem Bridges.acceptBrace (h : Bridges ledger ledger.resumed (declaration rounds))
    {kind : Kind → Bool} {next : Option Token → Reader Stmt} {result : List Stmt → Stmt}
    (hright : kind (.mark .rightBrace) = false)
    (hblock : ∀ token, token.IsMark .leftBrace →
      next (some token) = result <$> blockBody (rounds + 1) (declaration rounds))
    (hsome : ∀ token, kind token.kind = true → ¬token.IsMark .leftBrace →
      Bridges ledger ledger.stands (next (some token)))
    (hnone : Bridges ledger ledger.stands (next none)) :
    Bridges ledger ledger.stands (accept? kind >>= next) := by
  have hbody : ∀ token, token.IsMark .leftBrace → ∀ near n,
      Meets ledger ledger.stands ledger.thrown 1 (next (some token)) near n := by
    intro token hbrace near n
    rw [hblock token hbrace, map_eq_pure_bind]
    exact (h.meets_blockBody near n).map result
  refine ⟨scripted_accept (fun token hkind => ?_) hnone.scripted, fun near n => ?_⟩
  · by_cases hbrace : token.IsMark .leftBrace
    · rw [hblock token hbrace]
      exact (h.scripted.blockBody _).map result
    · exact (hsome token hkind hbrace).scripted
  cases near with
  | nil =>
      refine .across 0 rfl fun outer far endLine faults hfar => .accept ?_ fun _ => ?_
      · intro token rest hrest hkind
        obtain rfl : far = token :: rest := hrest
        by_cases hbrace : token.IsMark .leftBrace
        · rcases ledger.entered hfar rfl hbrace with hwithin | hencloses
          · exact (hbody token hbrace [] n).onward (fun _ => ledger.stands_of_within) hwithin
          · obtain ⟨body, left, rfl, hclears⟩ := hencloses.clears rounds
            rw [hblock token hbrace, map_eq_pure_bind]
            refine Tallies.before (tallies_of_clears hclears rfl fun issued => ?_) result
            exact ledger.stands_of_within (ledger.moved hfar
              ((List.suffix_append body left).trans (List.suffix_cons token _)) endLine issued)
        · exact (hsome token hkind hbrace).onward (fun _ => ledger.stands_of_within)
            (ledger.moved hfar (List.suffix_cons token rest) endLine n)
      · exact hnone.onward (fun _ => ledger.stands_of_within) hfar
  | cons token rest =>
      by_cases hbrace : kind token.kind = true ∧ token.IsMark .leftBrace
      · obtain ⟨hkind, hbrace⟩ := hbrace
        refine .step (List.suffix_cons token rest) ?_ (fun far endLine faults => if_pos hkind)
          (hbody token hbrace rest n)
        rw [depth_leftBrace hbrace]
        omega
      · have hnot : kind token.kind = true → isBrace token.kind = false := by
          intro hkind
          rw [← Bool.not_eq_true, isBrace, Bool.or_eq_true, Kind.isMark_iff, Kind.isMark_iff]
          rintro (hleft | hright')
          · exact hbrace ⟨hkind, hleft⟩
          · rw [hright', hright] at hkind
            cases hkind
        refine .accept (fun hkind => depth_cons (hnot hkind) rest) (fun hkind => ?_)
          (hnone.meets (token :: rest) n)
        exact (hsome token hkind fun h => hbrace ⟨hkind, h⟩).meets rest n

/-! ### All rules -/

/-- Behind a statement there may be a branch that was begun before. -/
theorem Bridges.branches (h : Bridges ledger ledger.stands (statement rounds)) (condition : Expr) :
    Bridges ledger ledger.stands (branches condition (statement rounds)) := by
  refine h.bind (fun whenTrue => ?_) fun outer whenTrue after hafter => ?_
  · apply Bridges.accept (by decide)
    · exact fun else_ _ => h.before _
    · exact bridges_pure _
    · exact fun _ _ => ledger.stands_of_within
  · refine .accept (fun else_ rest hrest helse => ?_) fun _ => hafter
    rcases ledger.branched hafter hrest (Kind.isKeyword_iff.mp helse) with hwithin | hrun
    · refine Tallies.before (h.onward (fun _ => ledger.stands_of_within) ?_) _
      exact ledger.moved hwithin (hrest ▸ List.suffix_cons else_ rest) _ _
    · exact (hrun rounds).before _

theorem statementLaws_bridges (ledger : Ledger) :
    StatementLaws (fun _ _ _ rule _ => Bridges ledger ledger.within rule)
      (fun _ _ rule _ => Bridges ledger ledger.stands rule)
      fun _ rounds _ => Bridges ledger ledger.resumed (declaration rounds) where
  steps :=
    { (expressionLaws_bridges ledger).toStepLaws with
      accept := fun hbraces _ hsome hnone => .accept hbraces hsome hnone fun _ _ => id }
  expression := (expressionLaws_bridges ledger).expression
  parameterList := (expressionLaws_bridges ledger).parameterList
  lift h := h.mono fun _ _ => ledger.stands_of_within
  weaken h _ _ := h
  andThen h hnext := h.andThen hnext fun _ _ => ledger.stands_of_within
  before h result := h.before result
  accept hbraces _ hsome hnone :=
    .accept hbraces hsome hnone fun _ _ => ledger.stands_of_within
  branches condition h := h.branches condition
  block hmember _ _ _ hright hblock hsome hnone :=
    hmember.acceptBrace hright (fun token hbrace => (hblock token hbrace).1) hsome hnone
  noMember := bridges_exhausted
  fewer h _ := h
  member _ _ hrule := hrule.recover

theorem bridges_declaration (ledger : Ledger) (bound : Nat) :
    Bridges ledger ledger.resumed (declaration bound) :=
  ((statementLaws_bridges ledger).statement_declaration (Nat.le_refl bound) (Nat.le_refl bound)).2

/-- If nothing is wrong with the tokens before the gap when others follow, then when these follow
either nothing is found at all, or what is found comes from the gap and what stands behind it. -/
theorem tallies_program (ledger : Ledger) {other far : List Token} {endLine otherLine : Nat}
    {body : List Stmt} {after : Cursor}
    (hother : program bound ⟨near ++ other, endLine, n, []⟩ = .ok body after)
    (hclean : after.faults = [])
    (hfar : ∀ blocks : Nat, depth near = blocks → ledger.within blocks ⟨far, otherLine, n, []⟩) :
    (∃ value last, program bound ⟨near ++ far, otherLine, n, []⟩ = .ok value last ∧
        last.faults = []) ∨
      Tallies (ledger.resumed 0) (ledger.thrown 0)
        (program bound ⟨near ++ far, otherLine, n, []⟩) := by
  have hmeets : Meets ledger _ _ 0 (program bound) near n :=
    (bridges_declaration ledger bound).meets_until near n
  cases hmeets with
  | before value left m _ _ hrun => exact Or.inl ⟨value, _, hrun far otherLine [], rfl⟩
  | faulty _ hrun =>
      have hfaulty := hrun other endLine []
      rw [hother, Faulty, hclean] at hfaulty
      exact absurd hfaulty (Nat.lt_irrefl _)
  | across blocks hbalance hrun =>
      have hwithin := hfar blocks ((Int.add_zero _).symm.trans hbalance)
      rw [← Nat.zero_add blocks] at hwithin
      have htallies := hrun 0 far otherLine [] hwithin
      exact Or.inr (htallies.mono (fun _ hstopped => (hstopped (Or.inl rfl)).1)
        fun _ hthrown => hthrown (Or.inl rfl))

end Scriptlet.Recovery
