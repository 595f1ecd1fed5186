/-
Reading up to a gap in the tokens, and on behind it.

Some tokens stand before the gap, and whatever else behind it.  A rule that begins before the gap
may end there, and then it does so whatever stands behind, or it finds a fault there, or it comes
to the gap and goes on.  A ledger says what is then known of the cursor, so that the faults behind
the gap can be counted: which faults are paid for, and by what, is left to it.
-/
import Scriptlet.Proofs.Reading.Script
import Scriptlet.Proofs.Recovery.Phrases

namespace Scriptlet.Recovery

open Grammar Reader Reading

variable {α β : Type}

/-- The rule left the cursor in one of these ways, or came to its bound. -/
def Tallies (stands thrown : Cursor → Prop) : EStateM.Result Halt Cursor α → Prop
  | .ok _ after => stands after
  | .error (.fault _) after => thrown after
  | .error .exhausted _ => True

/-- What is known of the cursor behind the gap, depending on how many blocks are still open that
began before the gap.  Only the faults that are found matter, and the tokens that are left. -/
structure Ledger where
  /-- Wherever a rule may be. -/
  within : Nat → Cursor → Prop
  /-- Behind a statement. -/
  stands : Nat → Cursor → Prop
  /-- Where a declaration is to come, or the end of the block. -/
  resumed : Nat → Cursor → Prop
  /-- Where a rule halted. -/
  thrown : Nat → Cursor → Prop
  stands_of_within {opened : Nat} {cursor : Cursor} : within opened cursor → stands opened cursor
  resumed_of_stands {opened : Nat} {cursor : Cursor} : stands opened cursor → resumed opened cursor
  thrown_of_within {opened : Nat} {cursor : Cursor} : within opened cursor → thrown opened cursor
  moved {opened : Nat} {cursor : Cursor} {rest : List Token} :
    within opened cursor → rest <:+ cursor.rest → ∀ endLine issued,
      within opened ⟨rest, endLine, issued, cursor.faults⟩
  reported {opened : Nat} {cursor : Cursor} {diagnostic : Diagnostic} :
    within opened cursor → diagnostic.isMild = true →
      within opened { cursor with faults := cursor.faults ++ [diagnostic] }
  caught {opened : Nat} {cursor : Cursor} :
    thrown opened cursor → ∀ diagnostic,
      resumed opened { cursor with
        rest := Cursor.resume cursor.rest
        faults := cursor.faults ++ [diagnostic] }
  abandoned {opened : Nat} {cursor : Cursor} : thrown (opened + 1) cursor → thrown opened cursor
  entered {opened : Nat} {cursor : Cursor} {lbrace : Token} {rest : List Token} :
    within opened cursor → cursor.rest = lbrace :: rest → lbrace.IsMark .leftBrace →
      within (opened + 1) { cursor with rest := rest } ∨ Encloses (lbrace :: rest)
  closed {opened : Nat} {cursor : Cursor} {rbrace : Token} {rest : List Token} :
    resumed (opened + 1) cursor → cursor.rest = rbrace :: rest → rbrace.IsMark .rightBrace →
      stands opened { cursor with rest := rest }
  ended {opened : Nat} {cursor : Cursor} :
    resumed (opened + 1) cursor → cursor.rest = [] → thrown opened cursor
  branched {opened : Nat} {cursor : Cursor} {else_ : Token} {rest : List Token} :
    stands opened cursor → cursor.rest = else_ :: rest → else_.IsKeyword .else_ →
      within opened cursor ∨ ∀ bound, Tallies (stands opened) (thrown opened)
        (statement bound { cursor with rest := rest })
  onward {opened : Nat} {cursor : Cursor} :
    resumed opened cursor → cursor.rest ≠ [] →
      (opened = 0 ∨ ∀ token ∈ cursor.rest.head?, token.kind.isMark .rightBrace = false) →
      within opened cursor ∨ ∀ bound, Tallies (resumed opened) (thrown opened)
        (declaration bound cursor)

/-- Something was found besides these faults. -/
def Faulty (faults : List Diagnostic) : EStateM.Result Halt Cursor α → Prop
  | .ok _ after => faults.length < after.faults.length
  | .error _ _ => True

/-- How a rule fares that begins at these tokens before the gap, after `n` identities, so many
braces being open that it is to close. -/
inductive Meets (ledger : Ledger) (stands thrown : Nat → Cursor → Prop) (opened : Nat)
    (rule : Reader α) (near : List Token) (n : Nat) : Prop
  /-- It ends before the gap, or just there. -/
  | before (value : α) (left : List Token) (m : Nat) (suffix : left <:+ near)
      (balance : depth near + opened = depth left)
      (run : ∀ far endLine faults,
        rule ⟨near ++ far, endLine, n, faults⟩ = .ok value ⟨left ++ far, endLine, m, faults⟩)
  /-- It finds a fault whatever stands behind the gap. -/
  | faulty (some : near ≠ [])
      (run : ∀ far endLine faults, Faulty faults (rule ⟨near ++ far, endLine, n, faults⟩))
  /-- It comes to the gap, and so many blocks are open there. -/
  | across (blocks : Nat) (balance : depth near + opened = blocks)
      (run : ∀ outer far endLine faults, ledger.within (outer + blocks) ⟨far, endLine, n, faults⟩ →
        Tallies (stands outer) (thrown outer) (rule ⟨near ++ far, endLine, n, faults⟩))

/-- The rule fares so wherever it begins, and closes the blocks that it opens. -/
structure Bridges (ledger : Ledger) (stands : Nat → Cursor → Prop) (rule : Reader α) : Prop where
  scripted : Scripted rule
  meets : ∀ near n, Meets ledger stands ledger.thrown 0 rule near n

variable {ledger : Ledger} {stands stands' thrown thrown' : Nat → Cursor → Prop}
  {rule : Reader α} {next : α → Reader β} {n m opened later outer : Nat}
  {near left : List Token} {cursor : Cursor}

theorem Ledger.resumed_of_within (ledger : Ledger) (h : ledger.within opened cursor) :
    ledger.resumed opened cursor :=
  ledger.resumed_of_stands (ledger.stands_of_within h)

section Tallies

variable {here there gone away : Cursor → Prop}

theorem Tallies.mono {result : EStateM.Result Halt Cursor α} (h : Tallies here gone result)
    (hthere : ∀ cursor, here cursor → there cursor) (haway : ∀ cursor, gone cursor → away cursor) :
    Tallies there away result := by
  match result with
  | .ok _ after => exact hthere after h
  | .error (.fault _) after => exact haway after h
  | .error .exhausted _ => trivial

/-- Where one rule leaves the cursor, the next one goes on. -/
theorem Tallies.bind {result : EStateM.Result Halt Cursor α} (h : Tallies here gone result)
    (hnext : ∀ value after, here after → Tallies there away (next value after))
    (haway : ∀ cursor, gone cursor → away cursor) :
    Tallies there away
      (match result with
      | .ok value after => next value after
      | .error reason after => .error reason after) := by
  match result with
  | .ok value after => exact hnext value after h
  | .error (.fault _) after => exact haway after h
  | .error .exhausted _ => trivial

/-- What is made of the value changes nothing. -/
theorem Tallies.before (h : Tallies here gone (rule cursor)) (f : α → β) :
    Tallies here gone ((rule >>= fun value => pure (f value)) cursor) := by
  rw [bind_apply]
  exact h.bind (fun _ _ => id) fun _ => id

theorem Tallies.accept {kind : Kind → Bool} {next : Option Token → Reader β}
    (hsome : ∀ token rest, cursor.rest = token :: rest → kind token.kind = true →
      Tallies here gone (next (some token) { cursor with rest := rest }))
    (hnone : (∀ token ∈ cursor.rest.head?, kind token.kind = false) →
      Tallies here gone (next none cursor)) :
    Tallies here gone ((accept? kind >>= next) cursor) := by
  obtain ⟨rest, endLine, issued, faults⟩ := cursor
  cases rest with
  | nil => exact hnone nofun
  | cons token rest =>
      rw [bind_apply]
      by_cases hkind : kind token.kind = true
      · rw [accept?_of_kind hkind]
        exact hsome token rest rfl hkind
      · have hhead : ∀ first ∈ (token :: rest).head?, kind first.kind = false := by
          simpa using hkind
        rw [accept?_of_head hhead]
        exact hnone hhead

/-- What is known on a condition. -/
theorem Tallies.given {p : Prop} {result : EStateM.Result Halt Cursor α}
    (h : p → Tallies here gone result) :
    Tallies (fun cursor => p → here cursor) (fun cursor => p → gone cursor) result := by
  match result with
  | .ok _ after => exact h
  | .error (.fault _) after => exact h
  | .error .exhausted _ => trivial

theorem tallies_of_clears {tokens rest : List Token} (h : Clears rule tokens rest)
    (hcursor : cursor.rest = tokens ++ rest)
    (hrest : ∀ issued, here { cursor with rest := rest, issued := issued }) :
    Tallies here gone (rule cursor) := by
  obtain ⟨whole, endLine, k, faults⟩ := cursor
  obtain rfl : whole = tokens ++ rest := hcursor
  rcases h endLine k faults with ⟨after, hrun⟩ | ⟨value, issued, hrun⟩
  · rw [hrun]
    trivial
  · rw [hrun]
    exact hrest issued

end Tallies

/-! ### Rules one after the other -/

section Steps

/-- What one rule finds is not forgotten by the next. -/
theorem Faulty.bind {faults : List Diagnostic} (h : Faulty faults (rule cursor))
    (hnext : ∀ value, Scripted (next value)) : Faulty faults ((rule >>= next) cursor) := by
  rw [bind_apply]
  generalize rule cursor = result at h ⊢
  cases result with
  | error reason after => trivial
  | ok value after =>
      have hgrows := (hnext value).grows after
      dsimp only
      generalize next value after = last at hgrows ⊢
      cases last with
      | error reason last => trivial
      | ok result last => exact Nat.lt_of_lt_of_le h hgrows

theorem Meets.mono (h : Meets ledger stands thrown opened rule near n)
    (hstands : ∀ outer cursor, stands outer cursor → stands' outer cursor)
    (hthrown : ∀ outer cursor, thrown outer cursor → thrown' outer cursor) :
    Meets ledger stands' thrown' opened rule near n := by
  cases h with
  | before value left m hsuffix hbalance hrun => exact .before value left m hsuffix hbalance hrun
  | faulty hsome hrun => exact .faulty hsome hrun
  | across blocks hbalance hrun =>
      exact .across blocks hbalance fun outer far endLine faults hfar =>
        (hrun outer far endLine faults hfar).mono (hstands outer) (hthrown outer)

/-- Behind the gap, only the braces are open that the rule is to close. -/
theorem Meets.onward (h : Meets ledger stands thrown opened rule [] cursor.issued)
    (hstands : ∀ cursor, ledger.within outer cursor → stands outer cursor)
    (hcursor : ledger.within (outer + opened) cursor) :
    Tallies (stands outer) (thrown outer) (rule cursor) := by
  cases h with
  | before value left m hsuffix hbalance hrun =>
      obtain rfl := List.suffix_nil.mp hsuffix
      obtain rfl : opened = 0 := by omega
      have hcursor' := hrun cursor.rest cursor.endLine cursor.faults
      rw [List.nil_append] at hcursor'
      rw [hcursor']
      exact hstands _ (ledger.moved hcursor (List.suffix_refl _) cursor.endLine m)
  | faulty hsome _ => exact absurd rfl hsome
  | across blocks hbalance hrun =>
      obtain rfl : blocks = opened := by
        rw [depth_nil] at hbalance
        omega
      exact hrun outer cursor.rest cursor.endLine cursor.faults hcursor

theorem Bridges.onward (h : Bridges ledger stands rule)
    (hstands : ∀ cursor, ledger.within outer cursor → stands outer cursor)
    (hcursor : ledger.within outer cursor) :
    Tallies (stands outer) (ledger.thrown outer) (rule cursor) :=
  (h.meets [] cursor.issued).onward hstands hcursor

/-- Only what the rule does there matters. -/
theorem Meets.congr {rule' : Reader α}
    (hsame : ∀ far endLine faults,
      rule ⟨near ++ far, endLine, n, faults⟩ = rule' ⟨near ++ far, endLine, n, faults⟩)
    (h : Meets ledger stands thrown opened rule' near n) :
    Meets ledger stands thrown opened rule near n := by
  cases h with
  | before value left m hsuffix hbalance hrun =>
      exact .before value left m hsuffix hbalance fun far endLine faults =>
        (hsame far endLine faults).trans (hrun far endLine faults)
  | faulty hsome hrun =>
      refine .faulty hsome fun far endLine faults => ?_
      rw [hsame]
      exact hrun far endLine faults
  | across blocks hbalance hrun =>
      refine .across blocks hbalance fun outer far endLine faults hfar => ?_
      rw [hsame]
      exact hrun outer far endLine faults hfar

/-- A rule that ends before the gap leaves the rest to the next one. -/
theorem Meets.step {value : α} (hsuffix : left <:+ near)
    (hbalance : depth near + opened = depth left + later)
    (hrun : ∀ far endLine faults,
      rule ⟨near ++ far, endLine, n, faults⟩ = .ok value ⟨left ++ far, endLine, m, faults⟩)
    (hnext : Meets ledger stands thrown later (next value) left m) :
    Meets ledger stands thrown opened (rule >>= next) near n := by
  cases hnext with
  | before result last k hlast hdepth hrun' =>
      refine .before result last k (hlast.trans hsuffix) (hbalance.trans hdepth)
        fun far endLine faults => ?_
      rw [bind_apply, hrun]
      exact hrun' far endLine faults
  | faulty hsome hrun' =>
      refine .faulty ?_ fun far endLine faults => ?_
      · rintro rfl
        exact hsome (List.suffix_nil.mp hsuffix)
      · rw [bind_apply, hrun]
        exact hrun' far endLine faults
  | across blocks hdepth hrun' =>
      refine .across blocks (hbalance.trans hdepth) fun outer far endLine faults hfar => ?_
      rw [bind_apply, hrun]
      exact hrun' outer far endLine faults (ledger.moved hfar (List.suffix_refl far) endLine m)

/-- Each of the rules closes so many blocks that it did not open. -/
theorem Meets.andThen (h : Meets ledger stands thrown opened rule near n)
    (hnext : ∀ value left m, Meets ledger stands' thrown' later (next value) left m)
    (hscripted : ∀ value, Scripted (next value))
    (honward : ∀ outer value after, stands (outer + later) after →
      Tallies (stands' outer) (thrown' outer) (next value after))
    (hthrown : ∀ outer cursor, thrown (outer + later) cursor → thrown' outer cursor) :
    Meets ledger stands' thrown' (opened + later) (rule >>= next) near n := by
  cases h with
  | before value left m hsuffix hbalance hrun =>
      exact .step hsuffix (by omega) hrun (hnext value left m)
  | faulty hsome hrun =>
      exact .faulty hsome fun far endLine faults => (hrun far endLine faults).bind hscripted
  | across blocks hbalance hrun =>
      refine .across (blocks + later) (by omega) fun outer far endLine faults hfar => ?_
      rw [Nat.add_comm blocks, ← Nat.add_assoc] at hfar
      rw [bind_apply]
      exact (hrun (outer + later) far endLine faults hfar).bind (honward outer) (hthrown outer)

/-- The second rule goes on wherever the first one may leave the cursor. -/
theorem Bridges.bind (h : Bridges ledger stands rule)
    (hnext : ∀ value, Bridges ledger stands' (next value))
    (honward : ∀ outer value after, stands outer after →
      Tallies (stands' outer) (ledger.thrown outer) (next value after)) :
    Bridges ledger stands' (rule >>= next) :=
  ⟨h.scripted.bind fun value => (hnext value).scripted, fun near n =>
    (h.meets near n).andThen (fun value => (hnext value).meets)
      (fun value => (hnext value).scripted) honward fun _ _ => id⟩

theorem Bridges.andThen (h : Bridges ledger ledger.within rule)
    (hnext : ∀ value, Bridges ledger stands (next value))
    (hstands : ∀ outer cursor, ledger.within outer cursor → stands outer cursor) :
    Bridges ledger stands (rule >>= next) :=
  h.bind hnext fun outer value _ hafter => (hnext value).onward (hstands outer) hafter

theorem meets_pure (value : α) (near : List Token) (n : Nat) :
    Meets ledger stands thrown 0 (pure value : Reader α) near n :=
  .before value near n (List.suffix_refl near) (Int.add_zero _) fun _ _ _ => rfl

theorem bridges_pure (value : α) : Bridges ledger stands (pure value : Reader α) :=
  ⟨scripted_pure value, meets_pure value⟩

theorem Meets.map (h : Meets ledger stands thrown opened rule near n) (result : α → β) :
    Meets ledger stands thrown opened (rule >>= fun value => pure (result value)) near n :=
  h.andThen (fun value => meets_pure (result value)) (fun value => scripted_pure (result value))
    (fun _ _ _ => id) fun _ _ => id

theorem Bridges.before (h : Bridges ledger stands rule) (result : α → β) :
    Bridges ledger stands (rule >>= fun value => pure (result value)) :=
  ⟨h.scripted.bind fun value => scripted_pure (result value), fun near n =>
    (h.meets near n).map result⟩

theorem Bridges.mono (h : Bridges ledger stands rule)
    (hstands : ∀ outer cursor, stands outer cursor → stands' outer cursor) :
    Bridges ledger stands' rule :=
  ⟨h.scripted, fun near n => (h.meets near n).mono hstands fun _ _ => id⟩

/-- A rule that halts wherever it begins. -/
theorem bridges_error (hscripted : Scripted rule)
    (hrun : ∀ cursor, ∃ reason, rule cursor = .error reason cursor) :
    Bridges ledger stands rule := by
  refine ⟨hscripted, fun near n => ?_⟩
  cases near with
  | nil =>
      refine .across 0 rfl fun outer far endLine faults hfar => ?_
      obtain ⟨reason, hrule⟩ := hrun ⟨far, endLine, n, faults⟩
      rw [List.nil_append, hrule]
      cases reason with
      | fault _ => exact ledger.thrown_of_within hfar
      | exhausted => trivial
  | cons token rest =>
      refine .faulty (List.cons_ne_nil _ _) fun far endLine faults => ?_
      obtain ⟨reason, hrule⟩ := hrun ⟨token :: rest ++ far, endLine, n, faults⟩
      rw [hrule]
      trivial

theorem bridges_halt (fault : GrammarFault) : Bridges ledger stands (halt fault : Reader α) :=
  bridges_error (scripted_halt fault) fun _ => ⟨_, rfl⟩

theorem bridges_exhausted : Bridges ledger stands (exhausted : Reader α) :=
  bridges_error scripted_exhausted fun _ => ⟨_, rfl⟩

theorem bridges_freshId : Bridges ledger stands freshId :=
  ⟨scripted_freshId, fun near n => .before (.ofCount n) near (n + 1) (List.suffix_refl near)
    (Int.add_zero _) fun _ _ _ => rfl⟩

theorem bridges_looksAt (kind : Kind → Bool) : Bridges ledger ledger.within (looksAt kind) := by
  refine ⟨scripted_looksAt kind, fun near n => ?_⟩
  cases near with
  | nil =>
      refine .across 0 rfl fun outer far endLine faults hfar => ?_
      obtain ⟨found, hfound⟩ := looksAt_cases kind ⟨far, endLine, n, faults⟩
      rw [List.nil_append, hfound]
      exact hfar
  | cons token rest =>
      exact .before (kind token.kind) (token :: rest) n (List.suffix_refl _) (Int.add_zero _)
        fun far endLine faults => rfl

/-- A fault that stops no rule is free of charge, unless it was found before the gap. -/
theorem bridges_collect {rule : Reader Unit} (hscripted : Scripted rule)
    (hrun : ∀ cursor, ∃ diagnostic : Diagnostic, diagnostic.isMild = true ∧
      rule cursor = .ok () { cursor with faults := cursor.faults ++ [diagnostic] }) :
    Bridges ledger ledger.within rule := by
  refine ⟨hscripted, fun near n => ?_⟩
  cases near with
  | nil =>
      refine .across 0 rfl fun outer far endLine faults hfar => ?_
      obtain ⟨diagnostic, hmild, hrule⟩ := hrun ⟨far, endLine, n, faults⟩
      rw [List.nil_append, hrule]
      exact ledger.reported hfar hmild
  | cons token rest =>
      refine .faulty (List.cons_ne_nil _ _) fun far endLine faults => ?_
      obtain ⟨diagnostic, -, hrule⟩ := hrun ⟨token :: rest ++ far, endLine, n, faults⟩
      rw [hrule]
      show faults.length < (faults ++ [diagnostic]).length
      simp

/-- Before the gap, the next token decides. -/
theorem Meets.accept {kind : Kind → Bool} {next : Option Token → Reader β} {token : Token}
    {rest : List Token} (hdepth : kind token.kind = true → depth (token :: rest) = depth rest)
    (hsome : kind token.kind = true → Meets ledger stands thrown opened (next (some token)) rest n)
    (hnone : Meets ledger stands thrown opened (next none) (token :: rest) n) :
    Meets ledger stands thrown opened (accept? kind >>= next) (token :: rest) n := by
  by_cases hkind : kind token.kind = true
  · exact .step (List.suffix_cons token rest) (by rw [hdepth hkind])
      (fun far endLine faults => if_pos hkind) (hsome hkind)
  · exact .step (List.suffix_refl _) rfl (fun far endLine faults => if_neg hkind) hnone

theorem isBrace_of_taken {kind : Kind → Bool} (hbraces : ∀ brace ∈ braces, kind brace = false)
    {token : Token} (hkind : kind token.kind = true) : isBrace token.kind = false := by
  rw [← Bool.not_eq_true, isBrace, Bool.or_eq_true, Kind.isMark_iff, Kind.isMark_iff]
  rintro (hbrace | hbrace) <;>
  · rw [hbrace, hbraces _ (by simp [braces])] at hkind
    cases hkind

theorem Bridges.accept {kind : Kind → Bool} {next : Option Token → Reader β}
    (hbraces : ∀ brace ∈ braces, kind brace = false)
    (hsome : ∀ token, kind token.kind = true → Bridges ledger stands (next (some token)))
    (hnone : Bridges ledger stands (next none))
    (hstands : ∀ outer cursor, ledger.within outer cursor → stands outer cursor) :
    Bridges ledger stands (accept? kind >>= next) := by
  refine ⟨scripted_accept (fun token hkind => (hsome token hkind).scripted) hnone.scripted,
    fun near n => ?_⟩
  cases near with
  | nil =>
      refine .across 0 rfl fun outer far endLine faults hfar => .accept ?_ fun _ => ?_
      · intro token rest hrest hkind
        obtain rfl : far = token :: rest := hrest
        exact (hsome token hkind).onward (hstands outer)
          (ledger.moved hfar (List.suffix_cons token rest) endLine n)
      · exact hnone.onward (hstands outer) hfar
  | cons token rest =>
      exact .accept (fun hkind => depth_cons (isBrace_of_taken hbraces hkind) rest)
        (fun hkind => (hsome token hkind).meets rest n) (hnone.meets (token :: rest) n)

end Steps

theorem expressionLaws_bridges (ledger : Ledger) :
    ExpressionLaws braces fun _ _ _ rule _ => Bridges ledger ledger.within rule where
  weaken h _ _ := h
  done := bridges_pure
  andThen h hnext := h.andThen hnext fun _ _ => id
  exhausted _ := bridges_exhausted
  halt _ := bridges_halt _
  freshId := bridges_freshId
  looksAt := bridges_looksAt
  accept hbraces _ hsome hnone := .accept hbraces hsome hnone fun _ _ => id
  barred_subset := by simp [braces, separators]
  report hmild := bridges_collect (scripted_report _) fun _ => ⟨_, hmild, rfl⟩
  reportHere hmild := bridges_collect (scripted_reportHere _) fun cursor =>
    ⟨_, (cursor.isMild_diagnose _).trans hmild, rfl⟩

end Scriptlet.Recovery
