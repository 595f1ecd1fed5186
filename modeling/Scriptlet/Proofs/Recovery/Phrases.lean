/-
Phrases of a program that are read out of their place.

What a phrase is read as depends neither on the bound, unless that is too small, nor on how many
identities were handed out before.  Its braces are matched, and at each of those that open
something begins a block.
-/
import Scriptlet.Proofs.Incremental.Reading
import Scriptlet.Proofs.Reading.Appended

namespace Scriptlet.Recovery

open Grammar Incremental Reader Reading

variable {α : Type} {n m : Nat} {tokens rest : List Token}

/-! ### Reading them -/

/-- Wherever the rule begins at these tokens it takes them, up to the rest, and finds nothing, or
it comes to its bound. -/
def Clears (rule : Reader α) (tokens rest : List Token) : Prop :=
  ∀ endLine k faults,
    (∃ after, rule ⟨tokens ++ rest, endLine, k, faults⟩ = .error .exhausted after) ∨
      ∃ value issued, rule ⟨tokens ++ rest, endLine, k, faults⟩ =
        .ok value ⟨rest, endLine, issued, faults⟩

/-- What a rule takes does not depend on the identities handed out before. -/
theorem takes_anywhere {rule : Reader α} {produce : Pairing → Produce α} {value : α}
    (hsteady : ∀ later, Steady (.behind later) [] (produce (.behind later)) rule rule)
    (h : Takes rule n tokens value m rest) (k : Nat) :
    ∀ endLine faults, ∃ value' issued, rule ⟨tokens ++ rest, endLine, k, faults⟩ =
      .ok value' ⟨rest, endLine, issued, faults⟩ := by
  intro endLine faults
  -- Both numbers of identities are compared with none at all.
  have hshifted : ∀ later, SameEnd (.behind later) (produce (.behind later)) 0
      (rule ⟨tokens ++ rest, endLine, 0, faults⟩)
      (rule ⟨tokens ++ rest, endLine, later, faults⟩) := by
    intro later
    have haligned := aligned_shift later ⟨tokens ++ rest, endLine, 0, faults⟩
    rw [Cursor.shift, Nat.zero_add] at haligned
    exact hsteady later 0 _ _ (numbered_nil 0) haligned
  have hfirst := hshifted n
  have hother := hshifted k
  rw [h endLine faults] at hfirst
  generalize rule ⟨tokens ++ rest, endLine, 0, faults⟩ = start at hfirst hother
  generalize rule ⟨tokens ++ rest, endLine, k, faults⟩ = result at hother ⊢
  generalize hend : Cursor.mk rest endLine m faults = last at hfirst
  cases hfirst with
  | ok _ _ hafter =>
      cases hother with
      | ok _ _ hafter' =>
          obtain rfl := hafter'.eq_shift
          have hsame := hend.trans hafter.eq_shift
          rw [Cursor.shift, Cursor.mk.injEq] at hsame
          obtain ⟨hrest, hendLine, -, hfaults⟩ := hsame
          rw [Cursor.shift, ← hrest, ← hendLine, ← hfaults]
          exact ⟨_, _, rfl⟩

/-- Nor does it depend on the bound. -/
theorem clears_of_takes (rule : Nat → Reader α) {produce : Pairing → Produce α} {value : α}
    {bound : Nat} (hprolonged : ∀ {more}, bound ≤ more → Prolonged (rule bound) (rule more))
    (hsteady : ∀ more pairing, Steady pairing [] (produce pairing) (rule more) (rule more))
    (h : ∀ more, (tokens ++ rest).length < more → Takes (rule more) n tokens value m rest) :
    Clears (rule bound) tokens rest := by
  intro endLine k faults
  obtain ⟨more, hlonger, henough⟩ : ∃ more, bound ≤ more ∧ (tokens ++ rest).length < more :=
    ⟨_, Nat.le_max_left _ _, Nat.lt_of_lt_of_le (Nat.lt_succ_self _) (Nat.le_max_right _ _)⟩
  obtain ⟨value', issued, hrun⟩ :=
    takes_anywhere (fun later => hsteady more (.behind later)) (h more henough) k endLine faults
  rcases hprolonged hlonger ⟨tokens ++ rest, endLine, k, faults⟩ with hexhausted | hsame
  · exact Or.inl hexhausted
  · exact Or.inr ⟨value', issued, hsame.symm.trans hrun⟩

section Clears

variable {tree : Stmt} {dangling : Bool}

theorem clears_expression {value : Expr} (h : Derives true (.expr .expression) n tokens value m)
    (hrest : Stops Level.expression.continuing rest) (bound : Nat) :
    Clears (expression bound) tokens rest := by
  have hcomplete : Level.expression.Complete n tokens value m := derives_complete h
  refine clears_of_takes expression (fun hle => ?_)
    (fun more _ => steady_expression more)
    fun more hmore endLine faults => hcomplete.nested more endLine faults hmore hrest
  exact expressionLaws_prolonged.expression (Nat.le_refl bound) hle

theorem clears_declaration (h : Derives true .declaration n tokens tree m)
    (helse : Stops [.keyword .else_] rest) (bound : Nat) :
    Clears (declaration bound) tokens rest :=
  clears_of_takes declaration (fun hle => (prolonged_statement_declaration hle).2)
    (fun more _ => (steady_statement_declaration more).2)
    fun more hmore => derives_complete h more rest helse hmore

theorem clears_statement (h : Derives true (.statement dangling) n tokens tree m)
    (helse : dangling = true → Stops [.keyword .else_] rest) (bound : Nat) :
    Clears (statement bound) tokens rest :=
  clears_of_takes statement (fun hle => (prolonged_statement_declaration hle).1)
    (fun more _ => (steady_statement_declaration more).1)
    fun more hmore => derives_complete h more rest helse hmore

/-- A statement in front of an `else` is read as a declaration, too. -/
theorem clears_declaration_of_statement (h : Derives true (.statement dangling) n tokens tree m)
    (helse : dangling = true → Stops [.keyword .else_] rest) (bound : Nat) :
    Clears (declaration bound) tokens rest := by
  have htakes : ∀ more, (tokens ++ rest).length < more →
      Takes (declaration more) n tokens (some tree) m rest := by
    intro more hmore
    obtain ⟨more, rfl⟩ := Nat.exists_eq_add_one_of_ne_zero (Nat.ne_zero_of_lt hmore)
    exact takes_declaration_of_statement (derives_opens h)
      (derives_complete h (more + 1) rest helse hmore)
  exact clears_of_takes declaration (fun hle => (prolonged_statement_declaration hle).2)
    (fun more _ => (steady_statement_declaration more).2) htakes

end Clears

/-- At the brace begins a block of the grammar. -/
def Encloses (tokens : List Token) : Prop :=
  ∃ block behind n tree m, tokens = block ++ behind ∧ Derives true .block n block tree m

/-- A block is read up to the brace that closes it. -/
theorem Encloses.clears {lbrace : Token} (h : Encloses (lbrace :: rest)) (bound : Nat) :
    ∃ body left, rest = body ++ left ∧
      Clears (blockBody (bound + 1) (declaration bound)) body left := by
  obtain ⟨block, behind, n, body, m, hsplit, hderives⟩ := h
  obtain ⟨lbrace', others, rfl, -, hruns⟩ : CompleteAt .block n block body m :=
    derives_complete hderives
  obtain ⟨rfl, rfl⟩ : lbrace = lbrace' ∧ rest = others ++ behind :=
    List.cons_eq_cons.mp hsplit
  refine ⟨others, behind, rfl, ?_⟩
  exact clears_of_takes (fun bound => blockBody (bound + 1) (declaration bound))
    (fun hle => (prolonged_statement_declaration hle).2.blockBody (Nat.succ_le_succ hle))
    (fun more _ => (steady_statement_declaration more).2.blockBody (more + 1))
    fun more hmore => hruns more behind hmore

/-- The kinds with which a declaration of the grammar starts. -/
def leadsDeclaration (kind : Kind) : Bool :=
  kind.isKeyword .fun_ || kind.isKeyword .var_ || opensStatement kind

section Leads

variable {bound : Nat} {inner : Reader Stmt} {member : Reader (Option Stmt)} {token : Token}
  {endLine : Nat} {faults : List Diagnostic}

/-- Where no keyword and no brace leads a statement, an expression is to come. -/
theorem declarationRule_other (hfun : token.kind.isKeyword .fun_ = false)
    (hvar : token.kind.isKeyword .var_ = false) (hlead : leadsStatement token.kind = false) :
    declarationRule (bound + 1) inner member ⟨token :: rest, endLine, n, faults⟩ =
      expressionStatement (bound + 1) ⟨token :: rest, endLine, n, faults⟩ := by
  rw [declarationRule, bind_apply, accept?_of_head (by simpa using hfun)]
  dsimp only
  rw [bind_apply, accept?_of_head (by simpa using hvar)]
  dsimp only
  rw [statementRule, bind_apply, accept?_of_head (by simpa using hlead)]

/-- A token of any other kind is no start of a declaration. -/
theorem declarationRule_stuck (hstuck : leadsDeclaration token.kind = false) :
    declarationRule (bound + 1) inner member ⟨token :: rest, endLine, n, faults⟩ =
      .error (.fault (Cursor.diagnose ⟨token :: rest, endLine, n, faults⟩ .expression))
        ⟨token :: rest, endLine, n, faults⟩ := by
  simp only [leadsDeclaration, opensStatement, opensExpression, Bool.or_eq_false_iff] at hstuck
  obtain ⟨⟨hfun, hvar⟩, hleads, hsign, hoperand⟩ := hstuck
  have hconstant : (constant? token.kind).isSome = false := by
    cases hkind : constant? token.kind with
    | none => rfl
    | some value =>
        unfold constant? at hkind
        split at hkind <;> simp_all [opensOperand]
  have hname : token.kind.isIdentifier = false := by
    cases hkind : token.kind <;> simp_all [opensOperand, Kind.isIdentifier]
  have hparen : token.kind.isMark .leftParen = false := by
    rw [← Bool.not_eq_true, Kind.isMark_iff]
    intro hkind
    rw [hkind] at hoperand
    cases hoperand
  have hprimary : ∀ inner, primary inner ⟨token :: rest, endLine, n, faults⟩ =
      .error (.fault (Cursor.diagnose ⟨token :: rest, endLine, n, faults⟩ .expression))
        ⟨token :: rest, endLine, n, faults⟩ := by
    intro inner
    rw [primary, bind_apply, accept?_of_head (by simpa using hconstant)]
    dsimp only
    rw [bind_apply, accept?_of_head (by simpa using hname)]
    dsimp only
    rw [bind_apply, accept?_of_head (by simpa using hparen)]
    rfl
  have hunary : ∀ inner, unary (call (bound + 1) inner) (bound + 1)
      ⟨token :: rest, endLine, n, faults⟩ =
        .error (.fault (Cursor.diagnose ⟨token :: rest, endLine, n, faults⟩ .expression))
          ⟨token :: rest, endLine, n, faults⟩ := by
    intro inner
    rw [unary, bind_apply, accept?_of_head (by simpa using hsign)]
    dsimp only
    rw [call, bind_apply, hprimary]
  rw [declarationRule_other hfun hvar hleads]
  simp only [expressionStatement, expression, assignment, disjunction, conjunction, equality,
    comparison, term, factor, level, bind_apply, hunary]

end Leads

/-! ### Expressions and lists -/

/-- Symbols of expressions and of lists. -/
def isFlat : Symbol → Bool
  | .parameters => true
  | .parameterList => true
  | .optionalExpression => true
  | .expr _ => true
  | .arguments => true
  | .argumentList => true
  | _ => false

def isBrace (kind : Kind) : Bool :=
  kind.isMark .leftBrace || kind.isMark .rightBrace

/-- Kinds of tokens in expressions and lists.  They are no braces, and after a fault reading goes
on neither at them nor behind them. -/
def isInner (kind : Kind) : Bool :=
  !(isBrace kind || (kind.isMark .semicolon || Cursor.startsStatement kind))

theorem isInner_of_operators {level : Level} {kind : Kind} (h : kind ∈ level.operators) :
    isInner kind = true := by
  cases level <;> simp only [Level.operators, List.not_mem_nil, List.mem_cons, or_false] at h <;>
    rcases h with rfl | rfl | rfl | rfl <;> rfl

theorem derives_inner {symbol : Symbol} {tree : symbol.Tree}
    (h : Derives true symbol n tokens tree m) (hflat : isFlat symbol = true) :
    ∀ token ∈ tokens, isInner token.kind = true := by
  induction h with
  | parameter hname =>
      rw [List.forall_mem_singleton, hname]
      rfl
  | parameters hname hcomma _ ih =>
      rw [List.forall_mem_cons, List.forall_mem_cons, hname, hcomma]
      exact ⟨rfl, rfl, ih rfl⟩
  | noParameters => nofun
  | someParameters _ ih => exact ih rfl
  | noExpression => nofun
  | someExpression _ ih => exact ih rfl
  | tighter _ _ ih => exact ih rfl
  | assign hname hequal _ ih =>
      rw [List.forall_mem_cons, List.forall_mem_cons, hname, hequal]
      exact ⟨rfl, rfl, ih rfl⟩
  | operator _ _ hsign _ ihLeft ihRight =>
      rw [List.forall_mem_append, List.forall_mem_cons]
      exact ⟨ihLeft rfl, isInner_of_operators hsign, ihRight rfl⟩
  | unary hsign _ ih =>
      rw [List.forall_mem_cons]
      exact ⟨by rcases hsign with h | h <;> rw [h] <;> rfl, ih rfl⟩
  | call _ hopen _ hclose _ ihCallee ihArguments =>
      rw [List.forall_mem_append, List.forall_mem_cons, List.forall_mem_append,
        List.forall_mem_singleton, hopen, hclose]
      exact ⟨ihCallee rfl, rfl, ihArguments rfl, rfl⟩
  | number hliteral =>
      rw [List.forall_mem_singleton, hliteral]
      rfl
  | string hliteral =>
      rw [List.forall_mem_singleton, hliteral]
      rfl
  | true_ hword =>
      rw [List.forall_mem_singleton, hword]
      rfl
  | false_ hword =>
      rw [List.forall_mem_singleton, hword]
      rfl
  | nil_ hword =>
      rw [List.forall_mem_singleton, hword]
      rfl
  | name hname =>
      rw [List.forall_mem_singleton, hname]
      rfl
  | group hopen _ hclose ih =>
      rw [List.forall_mem_cons, List.forall_mem_append, List.forall_mem_singleton, hopen, hclose]
      exact ⟨rfl, ih rfl, rfl⟩
  | argument _ ih => exact ih rfl
  | arguments _ hcomma _ ihValue ihTail =>
      rw [List.forall_mem_append, List.forall_mem_cons, hcomma]
      exact ⟨ihValue rfl, rfl, ihTail rfl⟩
  | noArguments => nofun
  | someArguments _ ih => exact ih rfl
  | _ => cases hflat

/-! ### Their braces -/

/-- How many braces more the tokens open than close. -/
def depth (tokens : List Token) : Int :=
  (tokens.countP fun token => token.kind.isMark .leftBrace) -
    (tokens.countP fun token => token.kind.isMark .rightBrace)

/-- Every brace that opens something opens a block of the grammar. -/
def Enclosing (tokens : List Token) : Prop :=
  ∀ lbrace rest, lbrace :: rest <:+ tokens → lbrace.IsMark .leftBrace → Encloses (lbrace :: rest)

/-- So it does, and all braces are matched. -/
structure Braced (tokens : List Token) : Prop where
  enclosing : Enclosing tokens
  balance : depth tokens = 0

section Braced

variable {token lbrace rbrace : Token} {others : List Token} {body : List Stmt}

theorem depth_nil : depth [] = 0 :=
  rfl

theorem depth_append (tokens others : List Token) :
    depth (tokens ++ others) = depth tokens + depth others := by
  simp only [depth, List.countP_append]
  omega

theorem depth_token (token : Token) (rest : List Token) :
    depth (token :: rest) = depth rest + (if token.kind.isMark .leftBrace then 1 else 0) -
      if token.kind.isMark .rightBrace then 1 else 0 := by
  simp only [depth, List.countP_cons]
  split <;> split <;> omega

theorem depth_leftBrace (h : token.IsMark .leftBrace) (rest : List Token) :
    depth (token :: rest) = depth rest + 1 := by
  rw [depth_token, h]
  exact Int.sub_zero _

theorem depth_rightBrace (h : token.IsMark .rightBrace) (rest : List Token) :
    depth (token :: rest) = depth rest - 1 := by
  rw [depth_token, h]
  exact congrArg (· - 1) (Int.add_zero _)

theorem depth_cons (h : isBrace token.kind = false) (rest : List Token) :
    depth (token :: rest) = depth rest := by
  rw [isBrace, Bool.or_eq_false_iff] at h
  rw [depth_token, h.1, h.2]
  simp

theorem Encloses.append (h : Encloses tokens) (others : List Token) :
    Encloses (tokens ++ others) := by
  obtain ⟨block, behind, n, tree, m, rfl, hderives⟩ := h
  exact ⟨block, behind ++ others, n, tree, m, List.append_assoc _ _ _, hderives⟩

theorem enclosing_nil : Enclosing [] := by
  intro lbrace rest hsuffix _
  cases List.suffix_nil.mp hsuffix

theorem Enclosing.append (h : Enclosing tokens) (hothers : Enclosing others) :
    Enclosing (tokens ++ others) := by
  rintro lbrace rest ⟨before, heq⟩ hbrace
  rcases List.append_eq_append_iff.mp heq with ⟨left, rfl, hleft⟩ | ⟨left, rfl, hothers'⟩
  · cases left with
    | nil => exact hothers lbrace rest (hleft ▸ List.suffix_refl _) hbrace
    | cons first left =>
        obtain ⟨rfl, rfl⟩ := List.cons_eq_cons.mp hleft
        exact (h lbrace left ⟨before, rfl⟩ hbrace).append others
  · exact hothers lbrace rest ⟨left, hothers'.symm⟩ hbrace

theorem Enclosing.cons (h : Enclosing tokens) (htoken : ¬token.IsMark .leftBrace) :
    Enclosing (token :: tokens) := by
  intro lbrace rest hsuffix hbrace
  rcases List.suffix_cons_iff.mp hsuffix with heq | hrest
  · obtain ⟨rfl, rfl⟩ := List.cons_eq_cons.mp heq
    exact absurd hbrace htoken
  · exact h lbrace rest hrest hbrace

theorem Enclosing.suffix (h : Enclosing tokens) (hsuffix : others <:+ tokens) : Enclosing others :=
  fun lbrace rest hrest hbrace => h lbrace rest (hrest.trans hsuffix) hbrace

theorem braced_nil : Braced [] :=
  ⟨enclosing_nil, rfl⟩

theorem Braced.append (h : Braced tokens) (hothers : Braced others) : Braced (tokens ++ others) :=
  ⟨h.enclosing.append hothers.enclosing, by rw [depth_append, h.balance, hothers.balance]; rfl⟩

theorem Braced.cons (h : Braced tokens) (htoken : isBrace token.kind = false) :
    Braced (token :: tokens) := by
  refine ⟨h.enclosing.cons fun hbrace => ?_, by rw [depth_cons htoken, h.balance]⟩
  rw [isBrace, Kind.isMark_iff.mpr hbrace] at htoken
  cases htoken

theorem braced_one (htoken : isBrace token.kind = false) : Braced [token] :=
  braced_nil.cons htoken

/-- A brace, the declarations of the block, and the brace that closes it. -/
theorem Braced.block (h : Braced tokens) (hopen : lbrace.IsMark .leftBrace)
    (hderives : Derives true .declarations n tokens body m) (hclose : rbrace.IsMark .rightBrace) :
    Braced (lbrace :: (tokens ++ [rbrace])) := by
  refine ⟨fun first rest hsuffix hbrace => ?_, ?_⟩
  · rcases List.suffix_cons_iff.mp hsuffix with heq | hrest
    · exact ⟨_, [], n, body, m, heq.trans (List.append_nil _).symm, .block hopen hderives hclose⟩
    · have hlast : Enclosing [rbrace] := enclosing_nil.cons (by simp [hclose])
      exact h.enclosing.append hlast first rest hrest hbrace
  · rw [depth_leftBrace hopen, depth_append, h.balance, depth_rightBrace hclose]
    rfl

/-- Expressions and lists have no braces. -/
theorem braced_flat {symbol : Symbol} {tree : symbol.Tree}
    (h : Derives true symbol n tokens tree m) (hflat : isFlat symbol = true) : Braced tokens := by
  have hinner := derives_inner h hflat
  clear h
  induction tokens with
  | nil => exact braced_nil
  | cons token rest ih =>
      obtain ⟨htoken, hrest⟩ := List.forall_mem_cons.mp hinner
      rw [isInner, Bool.not_eq_true', Bool.or_eq_false_iff] at htoken
      exact (ih hrest).cons htoken.1

theorem derives_braced {symbol : Symbol} {tree : symbol.Tree}
    (h : Derives true symbol n tokens tree m) (hother : isFlat symbol = false) :
    Braced tokens := by
  induction h with
  | program _ hmarker ih => exact (ih rfl).append (braced_one (by rw [hmarker]; rfl))
  | lone hvalue hmarker _ =>
      exact (braced_flat hvalue rfl).append (braced_one (by rw [hmarker]; rfl))
  | nothing => exact braced_nil
  | declarations _ _ ihHead ihTail => exact (ihHead rfl).append (ihTail rfl)
  | function hlead hname hopen hparams hclose _ _ _ ihBlock =>
      have hbehind := (ihBlock rfl).cons (by rw [hclose]; rfl)
      exact ((((braced_flat hparams rfl).append hbehind).cons (by rw [hopen]; rfl)).cons
        (by rw [hname]; rfl)).cons (by rw [hlead]; rfl)
  | var_ _ ih => exact ih rfl
  | statement _ ih => exact ih rfl
  | block hopen hderives hclose ih => exact (ih rfl).block hopen hderives hclose
  | uninitialized hlead hname hend =>
      exact ((braced_one (by rw [hend]; rfl)).cons (by rw [hname]; rfl)).cons (by rw [hlead]; rfl)
  | initialized hlead hname hequal hvalue hend _ =>
      have hbehind := (braced_flat hvalue rfl).append (braced_one (by rw [hend]; rfl))
      exact ((hbehind.cons (by rw [hequal]; rfl)).cons (by rw [hname]; rfl)).cons
        (by rw [hlead]; rfl)
  | expression _ ih => exact ih rfl
  | for_ hlead hopen _ htest hend hstep hclose _ ihInitial _ _ ihInner =>
      have hbody := (ihInner rfl).cons (by rw [hclose]; rfl)
      have hsteps := ((braced_flat hstep rfl).append hbody).cons (by rw [hend]; rfl)
      exact (((ihInitial rfl).append ((braced_flat htest rfl).append hsteps)).cons
        (by rw [hopen]; rfl)).cons (by rw [hlead]; rfl)
  | if_ hlead hopen htest hclose _ _ ihInner =>
      have hbranch := (ihInner rfl).cons (by rw [hclose]; rfl)
      exact (((braced_flat htest rfl).append hbranch).cons (by rw [hopen]; rfl)).cons
        (by rw [hlead]; rfl)
  | ifElse hlead hopen htest hclose _ _ helse _ _ ihInner ihOther =>
      have hbranches := (ihInner rfl).append ((ihOther rfl).cons (by rw [helse]; rfl))
      exact (((braced_flat htest rfl).append (hbranches.cons (by rw [hclose]; rfl))).cons
        (by rw [hopen]; rfl)).cons (by rw [hlead]; rfl)
  | print hlead hvalue hend _ =>
      exact ((braced_flat hvalue rfl).append (braced_one (by rw [hend]; rfl))).cons
        (by rw [hlead]; rfl)
  | return_ hlead hvalue hend _ =>
      exact ((braced_flat hvalue rfl).append (braced_one (by rw [hend]; rfl))).cons
        (by rw [hlead]; rfl)
  | while_ hlead hopen htest hclose _ _ ihInner =>
      have hbody := (ihInner rfl).cons (by rw [hclose]; rfl)
      exact (((braced_flat htest rfl).append hbody).cons (by rw [hopen]; rfl)).cons
        (by rw [hlead]; rfl)
  | blockStatement _ ih => exact ih rfl
  | expressionStatement hvalue hend _ =>
      exact (braced_flat hvalue rfl).append (braced_one (by rw [hend]; rfl))
  | noInitializer hend => exact braced_one (by rw [hend]; rfl)
  | initialVariable _ ih => exact ih rfl
  | initialExpression _ ih => exact ih rfl
  | _ => cases hother

end Braced

end Scriptlet.Recovery
