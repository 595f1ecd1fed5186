/-
What stands behind the places in a program where reading may go on after a fault.

Such a place is behind a semicolon, or at a token with which a statement starts.  In a program
complete declarations follow it, one behind the other, up to the end.  Between them there may be
braces of blocks that began before, and branches of an `if` that did.  Only the semicolons in the
parentheses of a `for` are different: there the rest of the parentheses comes first.
-/
import Scriptlet.Proofs.Recovery.Phrases

namespace Scriptlet.Recovery

open Grammar Reader Reading

/-- Declarations, with some braces too many and some `else`. -/
inductive Leftover : List Token → Prop
  | nothing : Leftover []
  | declaration {n m : Nat} {tokens rest : List Token} {tree : Stmt}
      (head : Derives true .declaration n tokens tree m) (nearest : Stops [.keyword .else_] rest)
      (tail : Leftover rest) : Leftover (tokens ++ rest)
  | statement {n m : Nat} {tokens rest : List Token} {tree : Stmt} {dangling : Bool}
      (head : Derives true (.statement dangling) n tokens tree m)
      (nearest : dangling = true → Stops [.keyword .else_] rest) (tail : Leftover rest) :
      Leftover (tokens ++ rest)
  | brace {rbrace : Token} {rest : List Token} (close : rbrace.IsMark .rightBrace)
      (tail : Leftover rest) : Leftover (rbrace :: rest)
  | branch {n m : Nat} {else_ : Token} {tokens rest : List Token} {tree : Stmt} {dangling : Bool}
      (or_ : else_.IsKeyword .else_) (head : Derives true (.statement dangling) n tokens tree m)
      (nearest : dangling = true → Stops [.keyword .else_] rest) (tail : Leftover rest) :
      Leftover (else_ :: (tokens ++ rest))

/-- The number tells how many faults there are at most before only declarations are left. -/
inductive Landed : Nat → List Token → Prop
  | leftover {tokens : List Token} (tail : Leftover tokens) : Landed 0 tokens
  /-- `expression? ")" …` -/
  | step {n m : Nat} {tokens rest : List Token} {step : Option Expr} {rparen : Token}
      (head : Derives true .optionalExpression n tokens step m) (close : rparen.IsMark .rightParen)
      (tail : Leftover rest) : Landed 1 (tokens ++ rparen :: rest)
  /-- `expression? ";" expression? ")" …` -/
  | test {n m : Nat} {tokens rest : List Token} {test : Option Expr} {semicolon : Token}
      (head : Derives true .optionalExpression n tokens test m)
      (end_ : semicolon.IsMark .semicolon) (tail : Landed 1 rest) :
      Landed 2 (tokens ++ semicolon :: rest)
  /-- `variableDeclaration expression? ";" expression? ")" …` -/
  | «variable» {n m : Nat} {tokens rest : List Token} {tree : Stmt}
      (head : Derives true .variableDeclaration n tokens tree m) (tail : Landed 2 rest) :
      Landed 2 (tokens ++ rest)

def Lands (tokens : List Token) : Prop :=
  ∃ faults, Landed faults tokens

/-- Reading lands at all places in the tokens where it may go on. -/
structure Landing (tokens : List Token) : Prop where
  behind : ∀ semicolon rest, semicolon :: rest <:+ tokens → semicolon.IsMark .semicolon → Lands rest
  starts : ∀ lead rest, lead :: rest <:+ tokens → Cursor.startsStatement lead.kind = true →
    Lands (lead :: rest)

/-- Kinds of tokens at which and behind which reading does not go on. -/
def isSkipped (kind : Kind) : Bool :=
  !(kind.isMark .semicolon || Cursor.startsStatement kind)

variable {tokens rest others : List Token} {token semicolon lead : Token}

theorem Landed.le {faults : Nat} (h : Landed faults tokens) : faults ≤ 2 := by
  cases h with
  | leftover _ => exact Nat.zero_le 2
  | step _ _ _ => exact Nat.le_succ 1
  | test _ _ _ => exact Nat.le_refl 2
  | «variable» _ _ => exact Nat.le_refl 2

theorem Leftover.lands (h : Leftover tokens) : Lands tokens :=
  ⟨0, .leftover h⟩

section Landing

theorem not_skipped (h : isSkipped token.kind = true) :
    ¬token.IsMark .semicolon ∧ Cursor.startsStatement token.kind = false := by
  rw [isSkipped, Bool.not_eq_true', Bool.or_eq_false_iff] at h
  refine ⟨fun hmark => ?_, h.2⟩
  rw [Kind.isMark_iff.mpr hmark] at h
  cases h.1

theorem Landing.suffix (h : Landing tokens) (hsuffix : others <:+ tokens) : Landing others :=
  ⟨fun semicolon rest hrest => h.behind semicolon rest (hrest.trans hsuffix),
    fun lead rest hrest => h.starts lead rest (hrest.trans hsuffix)⟩

theorem landing_nil : Landing [] := by
  refine ⟨fun semicolon rest hsuffix => ?_, fun lead rest hsuffix => ?_⟩ <;>
  · cases List.suffix_nil.mp hsuffix

theorem Landing.cons (h : Landing tokens) (hbehind : token.IsMark .semicolon → Lands tokens)
    (hstarts : Cursor.startsStatement token.kind = true → Lands (token :: tokens)) :
    Landing (token :: tokens) := by
  refine ⟨fun semicolon rest hsuffix hmark => ?_, fun lead rest hsuffix hlead => ?_⟩
  · rcases List.suffix_cons_iff.mp hsuffix with heq | hrest
    · obtain ⟨rfl, rfl⟩ := List.cons_eq_cons.mp heq
      exact hbehind hmark
    · exact h.behind semicolon rest hrest hmark
  · rcases List.suffix_cons_iff.mp hsuffix with heq | hrest
    · obtain ⟨rfl, rfl⟩ := List.cons_eq_cons.mp heq
      exact hstarts hlead
    · exact h.starts lead rest hrest hlead

theorem Landing.skip (h : Landing tokens) (htoken : isSkipped token.kind = true) :
    Landing (token :: tokens) := by
  obtain ⟨hmark, hstarts⟩ := not_skipped htoken
  exact h.cons (fun hsemicolon => absurd hsemicolon hmark)
    fun hlead => absurd hlead (by simp [hstarts])

theorem Landing.skipAll (h : Landing tokens)
    (hothers : ∀ token ∈ others, isSkipped token.kind = true) :
    Landing (others ++ tokens) := by
  induction others with
  | nil => exact h
  | cons token others ih =>
      obtain ⟨htoken, hothers⟩ := List.forall_mem_cons.mp hothers
      exact (ih hothers).skip htoken

theorem Landing.close (h : Landing tokens) (hend : semicolon.IsMark .semicolon)
    (hlands : Lands tokens) : Landing (semicolon :: tokens) := by
  refine h.cons (fun _ => hlands) fun hstarts => ?_
  rw [hend] at hstarts
  cases hstarts

theorem Landing.start (h : Landing tokens) (hmark : ¬lead.IsMark .semicolon)
    (hlands : Lands (lead :: tokens)) : Landing (lead :: tokens) :=
  h.cons (fun hend => absurd hend hmark) fun _ => hlands

/-- So reading lands at the next of these places, or comes to the end. -/
theorem Landing.boundary {skipped : Token} (h : Landing (skipped :: rest)) :
    Lands (Cursor.boundary skipped rest) := by
  induction rest generalizing skipped with
  | nil => exact Leftover.nothing.lands
  | cons token rest ih =>
      rw [Cursor.boundary]
      split
      · next hboundary =>
          rw [Bool.or_eq_true] at hboundary
          rcases hboundary with hend | hstarts
          · exact h.behind skipped _ (List.suffix_refl _) (Kind.isMark_iff.mp hend)
          · exact h.starts token rest (List.suffix_cons skipped _) hstarts
      · exact ih (h.suffix (List.suffix_cons skipped _))

theorem Landing.resume (h : Landing tokens) : Lands (Cursor.resume tokens) := by
  cases tokens with
  | nil => exact Leftover.nothing.lands
  | cons token rest => exact h.boundary

end Landing

/-! ### Programs -/

theorem derives_skipped {symbol : Symbol} {n m : Nat} {tree : symbol.Tree}
    (h : Derives true symbol n tokens tree m) (hflat : isFlat symbol = true) :
    ∀ token ∈ tokens, isSkipped token.kind = true := by
  intro token htoken
  have hinner := derives_inner h hflat token htoken
  rw [isInner, Bool.not_eq_true', Bool.or_eq_false_iff] at hinner
  rw [isSkipped, hinner.2]
  rfl

theorem Leftover.declarations {n m : Nat} {body : List Stmt}
    (h : Derives true .declarations n tokens body m) (helse : Stops [.keyword .else_] rest)
    (hrest : Leftover rest) : Leftover (tokens ++ rest) := by
  induction body generalizing n tokens with
  | nil =>
      cases h
      exact hrest
  | cons first body ih =>
      cases h with
      | declarations hhead htail =>
          rw [List.append_assoc]
          exact .declaration hhead (stops_else_append htail helse) (ih htail)

/-- How a phrase of the symbol stands before what follows it. -/
def LandsBefore : Symbol → List Token → Prop
  | .declarations, tokens => ∀ rest, Leftover rest → Stops [.keyword .else_] rest →
      Landing rest → Landing (tokens ++ rest)
  | .declaration, tokens => ∀ rest, Leftover rest → Stops [.keyword .else_] rest →
      Landing rest → Landing (tokens ++ rest)
  | .statement dangling, tokens => ∀ rest, Leftover rest →
      (dangling = true → Stops [.keyword .else_] rest) → Landing rest → Landing (tokens ++ rest)
  | .block, tokens => ∀ rest, Leftover rest → Landing rest → Landing (tokens ++ rest)
  | .variableDeclaration, tokens => ∀ rest, Lands rest → Lands (tokens ++ rest) →
      Landing rest → Landing (tokens ++ rest)
  | .expressionStatement, tokens => ∀ rest, Lands rest → Landing rest → Landing (tokens ++ rest)
  | .initializer, tokens => ∀ rest, Landed 2 rest → Landing rest → Landing (tokens ++ rest)
  | _, _ => True

theorem stops_else_rightBrace {rbrace : Token} (h : rbrace.IsMark .rightBrace)
    (rest : List Token) : Stops [.keyword .else_] (rbrace :: rest) := by
  simp [stops_cons, h]

theorem derives_landsBefore {symbol : Symbol} {n m : Nat} {tree : symbol.Tree}
    (h : Derives true symbol n tokens tree m) : LandsBefore symbol tokens := by
  induction h with
  | nothing => exact fun rest _ _ hrest => hrest
  | declarations _ htail ihHead ihTail =>
      intro rest hleft helse hrest
      rw [List.append_assoc]
      exact ihHead _ (.declarations htail helse hleft) (stops_else_append htail helse)
        (ihTail rest hleft helse hrest)
  | function hlead hname hopen hparams hclose hlimit hblock _ ihBlock =>
      intro rest hleft helse hrest
      have hwhole := Leftover.declaration
        (.function hlead hname hopen hparams hclose hlimit hblock) helse hleft
      simp only [List.cons_append, List.append_assoc] at hwhole ⊢
      refine Landing.start ?_ (by simp [hlead]) hwhole.lands
      exact ((((ihBlock rest hleft hrest).skip (by rw [hclose]; rfl)).skipAll
        (derives_skipped hparams rfl)).skip (by rw [hopen]; rfl)).skip (by rw [hname]; rfl)
  | var_ hdeclaration ih =>
      intro rest hleft helse hrest
      exact ih rest hleft.lands (Leftover.declaration (.var_ hdeclaration) helse hleft).lands hrest
  | statement _ ih => exact fun rest hleft helse hrest => ih rest hleft (fun _ => helse) hrest
  | block hopen _ hclose ih =>
      intro rest hleft hrest
      have hbrace := ih (_ :: rest) (.brace hclose hleft) (stops_else_rightBrace hclose rest)
        (hrest.skip (by rw [hclose]; rfl))
      simpa using hbrace.skip (by rw [hopen]; rfl)
  | uninitialized hlead hname hend =>
      intro rest hlands hwhole hrest
      exact (((hrest.close hend hlands).skip (by rw [hname]; rfl)).start (by simp [hlead]) hwhole)
  | initialized hlead hname hequal hvalue hend _ =>
      intro rest hlands hwhole hrest
      simp only [List.cons_append, List.append_assoc, List.nil_append] at hwhole ⊢
      exact ((((hrest.close hend hlands).skipAll (derives_skipped hvalue rfl)).skip
        (by rw [hequal]; rfl)).skip (by rw [hname]; rfl)).start (by simp [hlead]) hwhole
  | expression _ ih => exact fun rest hleft _ hrest => ih rest hleft.lands hrest
  | for_ hlead hopen hinitial htest hend hstep hclose hinner ihInitial _ _ ihInner =>
      intro rest hleft helse hrest
      have hwhole := Leftover.statement
        (.for_ hlead hopen hinitial htest hend hstep hclose hinner) helse hleft
      have hbody := Leftover.statement hinner helse hleft
      have hsteps := Landed.step hstep hclose hbody
      have htests := Landed.test htest hend hsteps
      simp only [List.cons_append, List.append_assoc] at hwhole htests ⊢
      refine Landing.start (Landing.skip ?_ (by rw [hopen]; rfl)) (by simp [hlead]) hwhole.lands
      refine ihInitial _ htests (Landing.skipAll ?_ (derives_skipped htest rfl))
      refine Landing.close (Landing.skipAll ?_ (derives_skipped hstep rfl)) hend ⟨1, hsteps⟩
      exact (ihInner rest hleft helse hrest).skip (by rw [hclose]; rfl)
  | if_ hlead hopen htest hclose hinner _ ihInner =>
      intro rest hleft helse hrest
      have hwhole := Leftover.statement (.if_ hlead hopen htest hclose hinner) helse hleft
      simp only [List.cons_append, List.append_assoc] at hwhole ⊢
      refine Landing.start (Landing.skip ?_ (by rw [hopen]; rfl)) (by simp [hlead]) hwhole.lands
      refine Landing.skipAll (Landing.skip ?_ (by rw [hclose]; rfl)) (derives_skipped htest rfl)
      exact ihInner rest hleft (fun _ => helse rfl) hrest
  | ifElse hlead hopen htest hclose hinner hnearest helse_ hother _ ihInner ihOther =>
      intro rest hleft helse hrest
      have hwhole := Leftover.statement
        (.ifElse hlead hopen htest hclose hinner hnearest helse_ hother) helse hleft
      have hbranch := Leftover.branch helse_ hother helse hleft
      simp only [List.cons_append, List.append_assoc] at hwhole ⊢
      refine Landing.start (Landing.skip ?_ (by rw [hopen]; rfl)) (by simp [hlead]) hwhole.lands
      refine Landing.skipAll (Landing.skip ?_ (by rw [hclose]; rfl)) (derives_skipped htest rfl)
      refine ihInner _ hbranch (fun hdangling => ?_)
        ((ihOther rest hleft helse hrest).skip (by rw [helse_]; rfl))
      exact absurd (hdangling.symm.trans (hnearest rfl)) Bool.noConfusion
  | print hlead hvalue hend _ =>
      intro rest hleft helse hrest
      have hwhole := Leftover.statement (.print hlead hvalue hend) helse hleft
      simp only [List.cons_append, List.append_assoc, List.nil_append] at hwhole ⊢
      exact (((hrest.close hend hleft.lands).skipAll (derives_skipped hvalue rfl)).start
        (by simp [hlead]) hwhole.lands)
  | return_ hlead hvalue hend _ =>
      intro rest hleft helse hrest
      have hwhole := Leftover.statement (.return_ hlead hvalue hend) helse hleft
      simp only [List.cons_append, List.append_assoc, List.nil_append] at hwhole ⊢
      exact (((hrest.close hend hleft.lands).skipAll (derives_skipped hvalue rfl)).start
        (by simp [hlead]) hwhole.lands)
  | while_ hlead hopen htest hclose hinner _ ihInner =>
      intro rest hleft helse hrest
      have hwhole := Leftover.statement (.while_ hlead hopen htest hclose hinner) helse hleft
      simp only [List.cons_append, List.append_assoc] at hwhole ⊢
      refine Landing.start (Landing.skip ?_ (by rw [hopen]; rfl)) (by simp [hlead]) hwhole.lands
      refine Landing.skipAll (Landing.skip ?_ (by rw [hclose]; rfl)) (derives_skipped htest rfl)
      exact ihInner rest hleft helse hrest
  | blockStatement _ ih => exact fun rest hleft _ hrest => ih rest hleft hrest
  | expressionStatement hvalue hend _ =>
      intro rest hlands hrest
      rw [List.append_assoc]
      exact (hrest.close hend hlands).skipAll (derives_skipped hvalue rfl)
  | noInitializer hend =>
      exact fun rest hlanded hrest => hrest.close hend ⟨2, hlanded⟩
  | initialVariable hdeclaration ih =>
      exact fun rest hlanded hrest =>
        ih rest ⟨2, hlanded⟩ ⟨2, .variable hdeclaration hlanded⟩ hrest
  | initialExpression _ ih => exact fun rest hlanded hrest => ih rest ⟨2, hlanded⟩ hrest
  | _ => trivial

theorem derives_landing {n m : Nat} {body : List Stmt}
    (h : Derives true .declarations n tokens body m) : Landing tokens := by
  have hlands : LandsBefore .declarations tokens := derives_landsBefore h
  have hlanding := hlands [] .nothing stops_nil landing_nil
  rwa [List.append_nil] at hlanding

/-! ### From a leftover on -/

section Boundary

variable {skipped : Token}

theorem boundary_cons_cases (skipped token : Token) (rest : List Token) :
    Cursor.boundary skipped (token :: rest) = token :: rest ∨
      ¬skipped.IsMark .semicolon ∧ Cursor.startsStatement token.kind = false ∧
        Cursor.boundary skipped (token :: rest) = Cursor.boundary token rest := by
  rw [Cursor.boundary]
  split
  · exact Or.inl rfl
  · next hboundary =>
      rw [Bool.or_eq_true, not_or, Kind.isMark_iff, Bool.not_eq_true] at hboundary
      exact Or.inr ⟨hboundary.1, hboundary.2, rfl⟩

theorem boundary_of_starts (h : Cursor.startsStatement lead.kind = true) (skipped : Token)
    (rest : List Token) : Cursor.boundary skipped (lead :: rest) = lead :: rest := by
  rw [Cursor.boundary, h, Bool.or_true, if_pos rfl]

theorem boundary_semicolon (h : semicolon.IsMark .semicolon) (rest : List Token) :
    Cursor.boundary semicolon rest = rest := by
  cases rest with
  | nil => rfl
  | cons token rest => rw [Cursor.boundary, Kind.isMark_iff.mpr h, Bool.true_or, if_pos rfl]

/-- Tokens are skipped up to the first semicolon behind them. -/
theorem boundary_skipAll (hskipped : ¬skipped.IsMark .semicolon)
    (hothers : ∀ token ∈ others, isSkipped token.kind = true) (hend : semicolon.IsMark .semicolon)
    (rest : List Token) : Cursor.boundary skipped (others ++ semicolon :: rest) = rest := by
  induction others generalizing skipped with
  | nil =>
      have hstarts : Cursor.startsStatement semicolon.kind = false := by rw [hend]; rfl
      rw [List.nil_append, Cursor.boundary, hstarts, Bool.or_false,
        if_neg (mt Kind.isMark_iff.mp hskipped), boundary_semicolon hend]
  | cons token others ih =>
      obtain ⟨htoken, hothers⟩ := List.forall_mem_cons.mp hothers
      obtain ⟨hmark, hstarts⟩ := not_skipped htoken
      rw [List.cons_append, Cursor.boundary, hstarts, Bool.or_false,
        if_neg (mt Kind.isMark_iff.mp hskipped), ih hmark hothers]

/-- Whatever is skipped of leftovers, other ones are left.  The induction is on the number of
tokens, for what stands in a block is left when its brace is skipped. -/
theorem Leftover.boundary (h : Leftover tokens) (skipped : Token) :
    Leftover (Cursor.boundary skipped tokens) := by
  induction hlength : tokens.length using Nat.strong_induction_on generalizing tokens skipped with
  | _ length ih =>
  by_cases hsemicolon : skipped.IsMark .semicolon
  · rwa [boundary_semicolon hsemicolon]
  have hlater : ∀ token rest, tokens = token :: rest → Leftover rest →
      Leftover (Cursor.boundary skipped tokens) := by
    rintro token rest rfl hrest
    rcases boundary_cons_cases skipped token rest with hsame | ⟨-, -, hskip⟩
    · rwa [hsame]
    · rw [hskip]
      exact ih rest.length (by rw [← hlength]; exact Nat.lt_succ_self _) hrest token rfl
  have hstarts : ∀ lead rest, tokens = lead :: rest → Cursor.startsStatement lead.kind = true →
      Leftover (Cursor.boundary skipped tokens) := by
    rintro lead rest rfl hlead
    rwa [boundary_of_starts hlead]
  have hstatement : ∀ {n m : Nat} {first rest : List Token} {tree : Stmt} {dangling : Bool},
      Derives true (.statement dangling) n first tree m → Leftover rest → tokens = first ++ rest →
        Leftover (Cursor.boundary skipped tokens) := by
    intro n m first rest tree dangling hfirst hrest htokens
    cases hfirst with
    | expression hexpression =>
        cases hexpression with
        | expressionStatement hvalue hend =>
            rw [List.append_assoc] at htokens
            rw [htokens]
            exact (boundary_skipAll hsemicolon (derives_skipped hvalue rfl) hend rest).symm ▸ hrest
    | for_ hlead => exact hstarts _ _ htokens (by rw [hlead]; rfl)
    | if_ hlead => exact hstarts _ _ htokens (by rw [hlead]; rfl)
    | ifElse hlead => exact hstarts _ _ htokens (by rw [hlead]; rfl)
    | print hlead => exact hstarts _ _ htokens (by rw [hlead]; rfl)
    | return_ hlead => exact hstarts _ _ htokens (by rw [hlead]; rfl)
    | while_ hlead => exact hstarts _ _ htokens (by rw [hlead]; rfl)
    | blockStatement hblock =>
        cases hblock with
        | block hopen hbody hclose =>
            simp only [List.cons_append, List.append_assoc] at htokens
            exact hlater _ _ htokens
              (.declarations hbody (stops_else_rightBrace hclose _) (.brace hclose hrest))
  cases h with
  | nothing => exact .nothing
  | declaration hhead helse hrest =>
      cases hhead with
      | function hlead => exact hstarts _ _ rfl (by rw [hlead]; rfl)
      | var_ hdeclaration =>
          cases hdeclaration with
          | uninitialized hlead => exact hstarts _ _ rfl (by rw [hlead]; rfl)
          | initialized hlead => exact hstarts _ _ rfl (by rw [hlead]; rfl)
      | statement hhead => exact hstatement hhead hrest rfl
  | statement hhead _ hrest => exact hstatement hhead hrest rfl
  | brace _ hrest => exact hlater _ _ rfl hrest
  | branch _ hhead helse hrest => exact hlater _ _ rfl (.statement hhead helse hrest)

end Boundary

end Scriptlet.Recovery
