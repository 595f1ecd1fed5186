/-
What is known behind a gap in a program, and behind its end.

Behind a gap in a program every brace that opens something begins a block of the grammar, and the
places where reading may go on are those of a program.  So once it goes on, it stops at most twice
more for the rest of the parentheses of a `for`, and then only at a brace or an `else` of something
that began before the gap.  Behind the end of a program there may be anything: there each fault is
paid for by a semicolon, by a token with which a statement starts, or by a brace that has no end.
-/
import Scriptlet.Proofs.Recovery.Blocks
import Scriptlet.Proofs.Recovery.Leftovers
import Scriptlet.Proofs.Recovery.Mild

namespace Scriptlet.Recovery

open Grammar Reader Reading

/-- The number of faults that stopped a rule. -/
def graves (faults : List Diagnostic) : Nat :=
  faults.countP fun diagnostic => !diagnostic.isMild

theorem graves_mild {diagnostic : Diagnostic} (h : diagnostic.isMild = true)
    (faults : List Diagnostic) : graves (faults ++ [diagnostic]) = graves faults := by
  simp [graves, h]

theorem graves_append_le (faults : List Diagnostic) (diagnostic : Diagnostic) :
    graves (faults ++ [diagnostic]) ≤ graves faults + 1 := by
  rw [graves, List.countP_append]
  exact Nat.add_le_add_left List.countP_le_length _

theorem length_eq_milds_add_graves (faults : List Diagnostic) :
    faults.length = milds faults + graves faults := by
  rw [List.length_eq_countP_add_countP Diagnostic.isMild, milds, graves]
  simp only [Bool.not_eq_true, Bool.decide_eq_false]

/-! ### In a program -/

def closings (tokens : List Token) : Nat :=
  tokens.countP fun token => token.kind.isMark .rightBrace

def branchings (tokens : List Token) : Nat :=
  tokens.countP fun token => token.kind.isKeyword .else_

/-- The credit allows for so many faults more, for one at each `else`, and for one at each brace
that closes something; or for one in each open block, where these are more than such braces. -/
def Affords (credit more opened : Nat) (faults : List Diagnostic) (tokens : List Token) : Prop :=
  graves faults + more + max opened (closings tokens) + branchings tokens ≤ credit

section Affords

variable {credit more opened : Nat} {faults : List Diagnostic} {tokens rest : List Token}
  {token : Token}

theorem Affords.moved (h : Affords credit more opened faults tokens) (hsuffix : rest <:+ tokens) :
    Affords credit more opened faults rest := by
  have hclosings : closings rest ≤ closings tokens := hsuffix.sublist.countP_le
  have hbranchings : branchings rest ≤ branchings tokens := hsuffix.sublist.countP_le
  unfold Affords at h ⊢
  omega

theorem Affords.fewer {less : Nat} (h : Affords credit more opened faults tokens)
    (hless : less ≤ more) : Affords credit less opened faults tokens := by
  unfold Affords at h ⊢
  omega

theorem Affords.left (h : Affords credit more (opened + 1) faults tokens) :
    Affords credit more opened faults tokens := by
  unfold Affords at h ⊢
  omega

theorem Affords.mild {diagnostic : Diagnostic} (h : Affords credit more opened faults tokens)
    (hmild : diagnostic.isMild = true) :
    Affords credit more opened (faults ++ [diagnostic]) tokens := by
  rwa [Affords, graves_mild hmild]

theorem Affords.fault (h : Affords credit (more + 1) opened faults tokens)
    (diagnostic : Diagnostic) : Affords credit more opened (faults ++ [diagnostic]) tokens := by
  have hgraves := graves_append_le faults diagnostic
  unfold Affords at h ⊢
  omega

/-- A brace closes a block. -/
theorem Affords.closed (h : Affords credit more (opened + 1) faults (token :: rest))
    (hbrace : token.IsMark .rightBrace) : Affords credit more opened faults rest := by
  simp only [Affords, closings, branchings, List.countP_cons, Kind.isMark_iff.mpr hbrace,
    ↓reduceIte] at h ⊢
  omega

/-- Where no block is open, a brace pays for a fault. -/
theorem Affords.brace (h : Affords credit more 0 faults (token :: rest))
    (hbrace : token.IsMark .rightBrace) : Affords credit (more + 1) 0 faults rest := by
  simp only [Affords, closings, branchings, List.countP_cons, Kind.isMark_iff.mpr hbrace,
    ↓reduceIte] at h ⊢
  omega

theorem Affords.else_ (h : Affords credit more opened faults (token :: rest))
    (helse : token.IsKeyword .else_) : Affords credit (more + 1) opened faults rest := by
  simp only [Affords, closings, branchings, List.countP_cons, Kind.isKeyword_iff.mpr helse,
    ↓reduceIte] at h ⊢
  omega

end Affords

structure Within (credit opened : Nat) (cursor : Cursor) : Prop where
  enclosing : Enclosing cursor.rest
  landing : Landing cursor.rest
  affords : Affords credit 3 opened cursor.faults cursor.rest

def Stands (credit opened : Nat) (cursor : Cursor) : Prop :=
  Within credit opened cursor ∨
    Leftover cursor.rest ∧ Affords credit 0 opened cursor.faults cursor.rest

def Resumed (credit opened : Nat) (cursor : Cursor) : Prop :=
  Within credit opened cursor ∨
    ∃ more, Landed more cursor.rest ∧ Affords credit more opened cursor.faults cursor.rest

def Thrown (credit opened : Nat) (cursor : Cursor) : Prop :=
  Within credit opened cursor ∨
    cursor.rest = [] ∧ Affords credit 1 opened cursor.faults cursor.rest

section Bounds

variable {credit opened : Nat} {tokens : List Token} {cursor : Cursor}

theorem affords_start {blocks : Nat} (h : opened ≤ closings tokens + blocks) :
    Affords (3 + (closings tokens + blocks) + branchings tokens) 3 opened [] tokens := by
  have hnone : graves [] = 0 := rfl
  unfold Affords
  omega

theorem Affords.le {more : Nat} {faults : List Diagnostic}
    (h : Affords credit more opened faults tokens) : graves faults + more ≤ credit := by
  unfold Affords at h
  omega

theorem Resumed.le (h : Resumed credit opened cursor) : graves cursor.faults ≤ credit := by
  rcases h with hwithin | ⟨more, -, hafford⟩
  · exact (Nat.le_add_right _ 3).trans hwithin.affords.le
  · exact (Nat.le_add_right _ more).trans hafford.le

theorem Thrown.le (h : Thrown credit opened cursor) : graves cursor.faults + 1 ≤ credit := by
  rcases h with hwithin | ⟨-, hafford⟩
  · exact (hwithin.affords.fewer (by decide)).le
  · exact hafford.le

end Bounds

/-! ### Heads of what is left -/

section Heads

variable {more : Nat} {tokens rest : List Token} {token : Token}

/-- The rest of parentheses neither ends a block nor begins a branch. -/
theorem Landed.opens (h : Landed more tokens) (hmore : more ≠ 0) :
    StartsIn opensDeclaration tokens := by
  have hoptional : ∀ {n m : Nat} {first others : List Token} {value : Option Expr} {last : Token},
      Derives true .optionalExpression n first value m → opensDeclaration last.kind = true →
        StartsIn opensDeclaration (first ++ last :: others) := by
    intro n m first others value last hfirst hlast
    cases hfirst with
    | noExpression => exact startsIn_cons.mpr hlast
    | someExpression hvalue =>
        exact (StartsIn.mono (derives_opens hvalue) fun _ hkind =>
          (opensExpression_cases hkind).1).append _
  cases h with
  | leftover _ => exact absurd rfl hmore
  | step head close _ => exact hoptional head (by rw [close]; rfl)
  | test head end_ _ => exact hoptional head (by rw [end_]; rfl)
  | «variable» head _ =>
      refine (StartsIn.mono (derives_opens head) fun kind hkind => ?_).append _
      rw [Kind.isKeyword_iff.mp hkind]
      rfl

theorem stops_else_of_opens (h : StartsIn opensDeclaration tokens) :
    Stops [.keyword .else_] tokens := by
  refine h.stops fun kind hkind hmem => ?_
  rw [List.mem_singleton.mp hmem] at hkind
  cases hkind

/-- What a leftover starts with. -/
theorem Leftover.head (h : Leftover (token :: rest)) :
    opensDeclaration token.kind = true ∨ token.IsMark .rightBrace ∧ Leftover rest ∨
      token.IsKeyword .else_ ∧ ∃ n first left tree dangling m, rest = first ++ left ∧
        Derives true (.statement dangling) n first tree m ∧
          (dangling = true → Stops [.keyword .else_] left) ∧ Leftover left := by
  generalize hwhole : token :: rest = whole at h
  have hopens : ∀ {first others : List Token}, StartsIn opensDeclaration first →
      token :: rest = first ++ others → opensDeclaration token.kind = true := by
    intro first others hfirst heq
    exact startsIn_cons.mp (heq ▸ hfirst.append others)
  cases h with
  | nothing => cases hwhole
  | declaration head _ _ => exact Or.inl (hopens (derives_opens head) hwhole)
  | statement head _ _ =>
      exact Or.inl (hopens (StartsIn.mono (derives_opens head) fun _ hkind =>
        (opensStatement_cases hkind).1) hwhole)
  | brace close tail =>
      obtain ⟨rfl, rfl⟩ := List.cons_eq_cons.mp hwhole
      exact Or.inr (Or.inl ⟨close, tail⟩)
  | branch or_ head nearest tail =>
      obtain ⟨rfl, rfl⟩ := List.cons_eq_cons.mp hwhole
      exact Or.inr (Or.inr ⟨or_, _, _, _, _, _, _, rfl, head, nearest, tail⟩)

theorem Landed.rightBrace (h : Landed more (token :: rest)) (hbrace : token.IsMark .rightBrace) :
    more = 0 ∧ Leftover rest := by
  have hcloses : opensDeclaration token.kind ≠ true := by
    rw [hbrace]
    exact Bool.false_ne_true
  by_cases hmore : more = 0
  · subst hmore
    refine ⟨rfl, ?_⟩
    cases h with
    | leftover tail =>
        rcases tail.head with hopens | ⟨-, hrest⟩ | ⟨helse, -⟩
        · exact absurd hopens hcloses
        · exact hrest
        · cases hbrace.symm.trans helse
  · exact absurd (startsIn_cons.mp (h.opens hmore)) hcloses

end Heads

/-! ### On from there -/

section Onward

variable {here gone : Cursor → Prop} {credit more opened n m k : Nat} {tokens rest : List Token}
  {token rparen : Token} {endLine : Nat} {faults : List Diagnostic}

/-- A token that begins no declaration is reported, and reading goes on behind it. -/
theorem tallies_stuck (hstuck : leadsDeclaration token.kind = false)
    (hnext : ∀ diagnostic,
      here ⟨Cursor.boundary token rest, endLine, n, faults ++ [diagnostic]⟩) (bound : Nat) :
    Tallies here gone (declaration bound ⟨token :: rest, endLine, n, faults⟩) := by
  cases bound with
  | zero => trivial
  | succ bound =>
      rw [declaration, recover, declarationRule_stuck hstuck]
      exact hnext _

/-- An expression is no statement without its semicolon. -/
theorem tallies_unended {value : Expr} (hvalue : Derives true (.expr .expression) k tokens value m)
    (hclose : rparen.IsMark .rightParen)
    (hnext : ∀ issued diagnostic,
      here ⟨Cursor.boundary rparen rest, endLine, issued, faults ++ [diagnostic]⟩) (bound : Nat) :
    Tallies here gone (declaration bound ⟨tokens ++ rparen :: rest, endLine, n, faults⟩) := by
  cases bound with
  | zero => trivial
  | succ bound =>
      obtain ⟨first, hfirst, hopens⟩ := (derives_opens hvalue).expression
      obtain ⟨others, rfl⟩ := List.head?_eq_some_iff.mp hfirst
      obtain ⟨-, hlead, hfun, hvar, -⟩ := opensExpression_cases hopens
      have hstops := stops_of_mark hclose (Or.inr (Or.inl rfl)) rest
      have hend : ∀ first ∈ (rparen :: rest).head?, first.kind.isMark .semicolon = false := by
        rintro first ⟨⟩
        rw [hclose]
        rfl
      rw [declaration, recover, List.cons_append, declarationRule_other hfun hvar hlead,
        expressionStatement, bind_apply]
      rcases clears_expression hvalue hstops (bound + 1) endLine n faults with
        ⟨after, hrun⟩ | ⟨value', issued, hrun⟩
      · rw [List.cons_append] at hrun
        rw [hrun]
        trivial
      · rw [List.cons_append] at hrun
        rw [hrun]
        dsimp only
        rw [bind_apply, expect, bind_apply, accept?_of_head hend]
        exact hnext issued _

/-- What is left of a program is read without a fault up to a brace or an `else`, which pay for
theirs. -/
theorem Leftover.onward (h : Leftover tokens) (hsome : tokens ≠ [])
    (hhead : opened = 0 ∨ ∀ token ∈ tokens.head?, token.kind.isMark .rightBrace = false)
    (hafford : Affords credit 0 opened faults tokens) (bound : Nat) :
    Tallies (Resumed credit opened) (Thrown credit opened)
      (Reader.declaration bound ⟨tokens, endLine, n, faults⟩) := by
  cases h with
  | nothing => exact absurd rfl hsome
  | declaration head nearest tail =>
      refine tallies_of_clears (clears_declaration head nearest bound) rfl fun issued => ?_
      exact Or.inr ⟨0, .leftover tail, hafford.moved (List.suffix_append _ _)⟩
  | statement head nearest tail =>
      refine tallies_of_clears (clears_declaration_of_statement head nearest bound) rfl
        fun issued => ?_
      exact Or.inr ⟨0, .leftover tail, hafford.moved (List.suffix_append _ _)⟩
  | @brace rbrace rest close tail =>
      obtain rfl : opened = 0 := by
        refine hhead.resolve_right fun hnone => ?_
        have hnot := hnone rbrace rfl
        rw [close] at hnot
        cases hnot
      refine tallies_stuck (by rw [close]; rfl) (fun diagnostic => ?_) bound
      exact Or.inr ⟨0, .leftover (tail.boundary rbrace),
        ((hafford.brace close).moved (boundary_suffix rbrace rest)).fault diagnostic⟩
  | @branch _ _ else_ _ _ _ _ or_ head nearest tail =>
      refine tallies_stuck (by rw [or_]; rfl) (fun diagnostic => ?_) bound
      exact Or.inr ⟨0, .leftover ((Leftover.statement head nearest tail).boundary else_),
        ((hafford.else_ or_).moved (boundary_suffix else_ _)).fault diagnostic⟩

/-- The rest of the parentheses of a `for` leads to a fault at its first semicolon, or none, and to
another one at its end. -/
theorem Landed.onward (h : Landed more tokens) (hsome : tokens ≠ [])
    (hhead : opened = 0 ∨ ∀ token ∈ tokens.head?, token.kind.isMark .rightBrace = false)
    (hafford : Affords credit more opened faults tokens) (bound : Nat) :
    Tallies (Resumed credit opened) (Thrown credit opened)
      (declaration bound ⟨tokens, endLine, n, faults⟩) := by
  cases h with
  | leftover tail => exact tail.onward hsome hhead hafford bound
  | @step _ _ first rest _ rparen head close tail =>
      have hnext : ∀ issued diagnostic, Resumed credit opened
          ⟨Cursor.boundary rparen rest, endLine, issued, faults ++ [diagnostic]⟩ := by
        intro issued diagnostic
        have hrest : Cursor.boundary rparen rest <:+ first ++ rparen :: rest :=
          (boundary_suffix rparen rest).trans
            ((List.suffix_cons rparen rest).trans (List.suffix_append _ _))
        exact Or.inr ⟨0, .leftover (tail.boundary rparen), (hafford.moved hrest).fault diagnostic⟩
      cases head with
      | noExpression => exact tallies_stuck (by rw [close]; rfl) (hnext n) bound
      | someExpression hvalue => exact tallies_unended hvalue close hnext bound
  | @test _ _ first rest _ semicolon head end_ tail =>
      cases head with
      | noExpression =>
          refine tallies_stuck (by rw [end_]; rfl) (fun diagnostic => ?_) bound
          rw [boundary_semicolon end_]
          exact Or.inr ⟨1, tail, (hafford.moved (List.suffix_cons semicolon rest)).fault diagnostic⟩
      | someExpression hvalue =>
          have hstatement := Derives.expression (.expressionStatement hvalue end_)
          refine tallies_of_clears (clears_declaration_of_statement hstatement nofun bound)
            (List.append_cons _ semicolon rest) fun issued => ?_
          have hrest := (List.suffix_cons semicolon rest).trans (List.suffix_append first _)
          exact Or.inr ⟨1, tail, (hafford.moved hrest).fewer (Nat.le_succ 1)⟩
  | «variable» head tail =>
      have helse := stops_else_of_opens (tail.opens (Nat.succ_ne_zero 1))
      refine tallies_of_clears (clears_declaration (.var_ head) helse bound) rfl fun issued => ?_
      exact Or.inr ⟨2, tail, hafford.moved (List.suffix_append _ _)⟩

end Onward

/-- In a program. -/
def programLedger (credit : Nat) : Ledger where
  within := Within credit
  stands := Stands credit
  resumed := Resumed credit
  thrown := Thrown credit
  stands_of_within := Or.inl
  resumed_of_stands := by
    rintro opened cursor (hwithin | ⟨hleft, hafford⟩)
    · exact Or.inl hwithin
    · exact Or.inr ⟨0, .leftover hleft, hafford⟩
  thrown_of_within := Or.inl
  moved h hsuffix _ _ :=
    ⟨h.enclosing.suffix hsuffix, h.landing.suffix hsuffix, h.affords.moved hsuffix⟩
  reported h hmild := ⟨h.enclosing, h.landing, h.affords.mild hmild⟩
  caught := by
    rintro opened cursor (hwithin | ⟨hnone, hafford⟩) diagnostic
    · obtain ⟨more, hlanded⟩ := hwithin.landing.resume
      have hmoved := hwithin.affords.moved (resume_suffix cursor.rest)
      exact Or.inr ⟨more, hlanded, (hmoved.fewer (Nat.succ_le_succ hlanded.le)).fault diagnostic⟩
    · refine Or.inr ⟨0, ?_, (hafford.moved (resume_suffix cursor.rest)).fault diagnostic⟩
      rw [hnone]
      exact .leftover .nothing
  abandoned := by
    rintro opened cursor (hwithin | ⟨hnone, hafford⟩)
    · exact Or.inl ⟨hwithin.enclosing, hwithin.landing, hwithin.affords.left⟩
    · exact Or.inr ⟨hnone, hafford.left⟩
  entered := by
    intro opened cursor lbrace rest h hrest hbrace
    exact Or.inr (h.enclosing lbrace rest (hrest ▸ List.suffix_refl _) hbrace)
  closed := by
    rintro opened ⟨_, endLine, issued, faults⟩ rbrace rest (hwithin | ⟨more, hlanded, hafford⟩)
      rfl hbrace
    · exact Or.inl ⟨hwithin.enclosing.suffix (List.suffix_cons rbrace rest),
        hwithin.landing.suffix (List.suffix_cons rbrace rest), hwithin.affords.closed hbrace⟩
    · obtain ⟨rfl, hleft⟩ := hlanded.rightBrace hbrace
      exact Or.inr ⟨hleft, hafford.closed hbrace⟩
  ended := by
    rintro opened ⟨_, endLine, issued, faults⟩ (hwithin | ⟨more, -, hafford⟩) rfl
    · exact Or.inl ⟨hwithin.enclosing, hwithin.landing, hwithin.affords.left⟩
    · refine Or.inr ⟨rfl, ?_⟩
      have hempty : closings [] = 0 := rfl
      simp only [Affords, hempty] at hafford ⊢
      omega
  branched := by
    rintro opened ⟨_, endLine, issued, faults⟩ else_ rest (hwithin | ⟨hleft, hafford⟩) rfl helse
    · exact Or.inl hwithin
    · refine Or.inr fun bound => ?_
      rcases hleft.head with hopens | ⟨hbrace, -⟩ |
        ⟨-, n, first, left, tree, dangling, m, rfl, hfirst, hnearest, hleft⟩
      · rw [helse] at hopens
        cases hopens
      · cases helse.symm.trans hbrace
      · refine tallies_of_clears (clears_statement hfirst hnearest bound) rfl fun issued => ?_
        exact Or.inr ⟨hleft, hafford.moved
          ((List.suffix_append first left).trans (List.suffix_cons else_ _))⟩
  onward := by
    rintro opened cursor (hwithin | ⟨more, hlanded, hafford⟩) hsome hhead
    · exact Or.inl hwithin
    · exact Or.inr fun bound => hlanded.onward hsome hhead hafford bound

/-! ### Behind a program -/

/-- The kinds of tokens that may each lead to a fault there. -/
def pays (kind : Kind) : Bool :=
  kind.isMark .semicolon || Cursor.startsStatement kind || kind.isMark .leftBrace

/-- What the tokens pay for.  If reading went on at the first one, that one has paid. -/
def funds : List Token → Nat
  | [] => 0
  | token :: rest =>
      (if pays token.kind && !Cursor.startsStatement token.kind then 1 else 0) +
        rest.countP fun token => pays token.kind

section Funds

variable {tokens rest : List Token} {token : Token}

theorem funds_le (tokens : List Token) :
    funds tokens ≤ tokens.countP fun token => pays token.kind := by
  cases tokens with
  | nil => exact Nat.le_refl _
  | cons token rest =>
      rw [funds, List.countP_cons, Nat.add_comm]
      refine Nat.add_le_add_left ?_ _
      cases pays token.kind <;> cases Cursor.startsStatement token.kind <;> decide

theorem funds_suffix (h : rest <:+ tokens) : funds rest ≤ funds tokens := by
  cases tokens with
  | nil =>
      obtain rfl := List.suffix_nil.mp h
      exact Nat.le_refl _
  | cons token tokens =>
      rcases List.suffix_cons_iff.mp h with rfl | hrest
      · exact Nat.le_refl _
      · exact ((funds_le rest).trans hrest.sublist.countP_le).trans (Nat.le_add_left _ _)

/-- Reading goes on behind a semicolon, or at a token with which a statement starts. -/
theorem funds_boundary (skipped : Token) (rest : List Token) :
    Cursor.boundary skipped rest = [] ∨
      funds (Cursor.boundary skipped rest) + 1 ≤
        (if skipped.kind.isMark .semicolon then 1 else 0) +
          rest.countP fun token => pays token.kind := by
  induction rest generalizing skipped with
  | nil => exact Or.inl rfl
  | cons token rest ih =>
      by_cases hsemicolon : skipped.kind.isMark .semicolon = true
      · right
        rw [boundary_semicolon (Kind.isMark_iff.mp hsemicolon), if_pos hsemicolon, Nat.add_comm]
        exact Nat.add_le_add_left (funds_le _) 1
      by_cases hstarts : Cursor.startsStatement token.kind = true
      · right
        have hpays : pays token.kind = true := by simp [pays, hstarts]
        simp [boundary_of_starts hstarts, funds, hstarts, hpays, hsemicolon]
      have hskip : Cursor.boundary skipped (token :: rest) = Cursor.boundary token rest := by
        rw [Cursor.boundary, if_neg (by simp [hsemicolon, hstarts])]
      rw [hskip, if_neg hsemicolon, Nat.zero_add, List.countP_cons]
      refine (ih token).imp_right fun hle => hle.trans ?_
      rw [Nat.add_comm]
      refine Nat.add_le_add_left ?_ _
      cases hend : token.kind.isMark .semicolon <;> simp [pays, hend]

theorem funds_resume (tokens : List Token) :
    Cursor.resume tokens = [] ∨ funds (Cursor.resume tokens) + 1 ≤ funds tokens := by
  cases tokens with
  | nil => exact Or.inl rfl
  | cons token rest =>
      refine (funds_boundary token rest).imp_right fun hle => hle.trans ?_
      rw [funds]
      refine Nat.add_le_add_right ?_ _
      by_cases hend : token.IsMark .semicolon
      · rw [hend]
        exact Nat.le_refl 1
      · rw [if_neg (mt Kind.isMark_iff.mp hend)]
        exact Nat.zero_le _

end Funds

/-- The credit allows for one fault more, for one in each open block, and for what the tokens behind
pay for. -/
def Solvent (credit opened : Nat) (cursor : Cursor) : Prop :=
  graves cursor.faults + opened + 1 + funds cursor.rest ≤ credit

/-- At the end there need not be one fault more. -/
def Settled (credit opened : Nat) (cursor : Cursor) : Prop :=
  Solvent credit opened cursor ∨ cursor.rest = [] ∧ graves cursor.faults + opened ≤ credit

theorem solvent_start {tokens : List Token} (endLine n : Nat) :
    Solvent (1 + tokens.countP fun token => pays token.kind) 0 ⟨tokens, endLine, n, []⟩ := by
  have hnone : graves [] = 0 := rfl
  have hfunds := funds_le tokens
  unfold Solvent
  dsimp only
  omega

theorem Solvent.le {credit opened : Nat} {cursor : Cursor} (h : Solvent credit opened cursor) :
    graves cursor.faults + 1 ≤ credit := by
  unfold Solvent at h
  omega

theorem Settled.le {credit opened : Nat} {cursor : Cursor} (h : Settled credit opened cursor) :
    graves cursor.faults ≤ credit := by
  rcases h with hsolvent | ⟨-, hle⟩
  · exact (Nat.le_succ _).trans hsolvent.le
  · exact (Nat.le_add_right _ opened).trans hle

/-- Behind the end of a program. -/
def trailingLedger (credit : Nat) : Ledger where
  within := Solvent credit
  stands := Solvent credit
  resumed := Settled credit
  thrown := Solvent credit
  stands_of_within := id
  resumed_of_stands := Or.inl
  thrown_of_within := id
  moved h hsuffix _ _ := (Nat.add_le_add_left (funds_suffix hsuffix) _).trans h
  reported h hmild := by rwa [Solvent, graves_mild hmild]
  caught := by
    intro opened cursor h diagnostic
    have hgraves := graves_append_le cursor.faults diagnostic
    unfold Solvent at h
    rcases funds_resume cursor.rest with hnone | hless
    · refine Or.inr ⟨hnone, ?_⟩
      dsimp only
      omega
    · refine Or.inl ?_
      unfold Solvent
      dsimp only
      omega
  abandoned h := by
    unfold Solvent at h ⊢
    omega
  entered := by
    intro opened cursor lbrace rest h hrest hbrace
    have hfunds : funds cursor.rest = 1 + rest.countP fun token => pays token.kind := by
      rw [hrest, funds, hbrace]
      rfl
    have hle := funds_le rest
    refine Or.inl ?_
    unfold Solvent at h ⊢
    dsimp only
    omega
  closed := by
    rintro opened cursor rbrace rest (hsolvent | ⟨hnone, -⟩) hrest hbrace
    · have hle : funds rest ≤ funds cursor.rest :=
        funds_suffix (hrest ▸ List.suffix_cons rbrace rest)
      unfold Solvent at hsolvent ⊢
      dsimp only
      omega
    · rw [hnone] at hrest
      cases hrest
  ended := by
    rintro opened cursor (hsolvent | ⟨-, hle⟩) hnone
    · unfold Solvent at hsolvent ⊢
      omega
    · unfold Solvent
      rw [hnone, funds]
      omega
  branched h _ _ := Or.inl h
  onward := by
    rintro opened cursor (hsolvent | ⟨hnone, -⟩) hsome -
    · exact Or.inl hsolvent
    · exact absurd hnone hsome

end Scriptlet.Recovery
