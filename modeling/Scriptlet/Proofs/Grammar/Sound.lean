/-
What the rules read is derivable: each rule that ends without a fault has taken
a phrase of its symbol, and its result is the tree of that phrase.
-/
import Scriptlet.Proofs.Grammar.Derives
import Scriptlet.Proofs.Grammar.Reads
import Scriptlet.Tree.Reader.Statement

namespace Scriptlet.Reader

open Grammar

/-! ### Expressions -/

section Levels

variable {inner operand : Reader Expr} {level next : Level} {operators : Kind → Bool}

theorem reads_chain (htighter : level.tighter? = some next)
    (hoperators : ∀ kind, operators kind = true → kind ∈ level.operators)
    (hoperand : Reads operand (Derives false (.expr next))) (fuel : Nat) (left : Expr) :
    Reads (chain operators level.node operand fuel left) fun k used value m =>
      ∀ n first, Derives false (.expr level) n first left k →
        Derives false (.expr level) n (first ++ used) value m := by
  induction fuel generalizing left with
  | zero => exact reads_exhausted
  | succ fuel ih =>
      refine reads_accept?_bind (reads_pure ?_) fun sign hsign => ?_
      · intro k n first hleft
        simpa using hleft
      · refine hoperand.bind fun right => (ih (level.node left sign right)).weaken ?_
        intro l used value m hrest k others hright n first hleft
        have hnode := Derives.operator htighter hleft (hoperators _ hsign) hright
        simpa using hrest n _ hnode

theorem reads_level (htighter : level.tighter? = some next)
    (hoperators : ∀ kind, operators kind = true → kind ∈ level.operators)
    (hoperand : Reads operand (Derives false (.expr next))) (bound : Nat) :
    Reads (Reader.level bound operators level.node operand) (Derives false (.expr level)) := by
  refine hoperand.bind fun left =>
    (reads_chain htighter hoperators hoperand bound left).weaken ?_
  intro k others value m hrest n first hleft
  exact hrest n first (.tighter htighter hleft)

/-- A count that passed the limit without a fault is below it. -/
theorem reads_limit_bind {β : Type} {R : Nat → List Token → β → Nat → Prop} {count : Nat}
    {fault : GrammarFault} {next : Unit → Reader β}
    (hnext : Reads (next ()) fun n used value m => count < arityLimit → R n used value m) :
    Reads (limit count fault >>= next) R := by
  unfold limit
  split
  · exact reads_reportHere_bind fault hnext
  · next hcount =>
      intro cursor after value h hfaults
      obtain ⟨hstart, used, hused, hR⟩ := hnext h hfaults
      exact ⟨hstart, used, hused, hR (Nat.lt_of_not_le hcount)⟩

/-- Behind `count` arguments, no more than the limit leaves. -/
theorem reads_arguments (hinner : Reads inner (Derives false (.expr .expression)))
    (fuel count : Nat) :
    Reads (arguments inner fuel count) fun n used values m =>
      count + values.length ≤ arityLimit ∧ Derives false .arguments n used values m := by
  induction fuel generalizing count with
  | zero => exact reads_exhausted
  | succ fuel ih =>
      refine reads_limit_bind (hinner.bind fun value => reads_accept?_bind (reads_pure ?_)
        fun comma hcomma => (ih (count + 1)).bind fun values => reads_pure ?_)
      · intro k n first hfirst hcount
        exact ⟨hcount, by simpa using Derives.argument hfirst⟩
      · rintro m k others ⟨hlimit, htail⟩ n first hfirst hcount
        have hmark : comma.IsMark .comma := Kind.isMark_iff.mp hcomma
        refine ⟨?_, by simpa using Derives.arguments hfirst hmark htail⟩
        rw [List.length_cons]
        omega

theorem reads_argumentList (hinner : Reads inner (Derives false (.expr .expression)))
    (bound : Nat) :
    Reads (argumentList bound inner) fun n used values m =>
      values.length ≤ arityLimit ∧ Derives false .argumentList n used values m := by
  refine reads_looksAt_bind fun closed => ?_
  cases closed with
  | true => exact reads_pure fun n => ⟨Nat.zero_le _, .noArguments⟩
  | false =>
      refine (reads_arguments hinner bound 0).weaken fun n used values m h => ?_
      exact ⟨by simpa using h.1, .someArguments h.2⟩

theorem reads_calls (hinner : Reads inner (Derives false (.expr .expression)))
    (bound rounds : Nat) (callee : Expr) :
    Reads (calls bound inner rounds callee) fun k used value m =>
      ∀ n first, Derives false (.expr .call) n first callee k →
        Derives false (.expr .call) n (first ++ used) value m := by
  induction rounds generalizing callee with
  | zero => exact reads_exhausted
  | succ rounds ih =>
      refine reads_accept?_bind (reads_pure ?_) fun lparen hopen =>
        (reads_argumentList hinner bound).bind fun values =>
          reads_expect_bind fun rparen hclose =>
            (ih (.call callee rparen values)).weaken ?_
      · intro k n first hcallee
        simpa using hcallee
      · rintro l used value m hrest k others ⟨hlimit, harguments⟩ n first hcallee
        have hcall := Derives.call hcallee (Kind.isMark_iff.mp hopen) harguments
          (Kind.isMark_iff.mp hclose) hlimit
        simpa using hrest n _ hcall

/-- A literal is a primary expression. -/
theorem derives_constant {token : Token} {value : Constant} {strict : Bool}
    (h : constant? token.kind = some value) (n : Nat) :
    Derives strict (.expr .primary) n [token] (.constant value) n := by
  unfold constant? at h
  split at h
  · next hkind => exact Option.some.inj h ▸ .false_ hkind
  · next hkind => exact Option.some.inj h ▸ .true_ hkind
  · next hkind => exact Option.some.inj h ▸ .nil_ hkind
  · next number hkind => exact Option.some.inj h ▸ .number hkind
  · next text hkind => exact Option.some.inj h ▸ .string hkind
  · cases h

theorem reads_primary (hinner : Reads inner (Derives false (.expr .expression))) :
    Reads (primary inner) (Derives false (.expr .primary)) := by
  refine reads_accept?_bind ?_ fun token hconstant => ?_
  · refine reads_accept?_bind (reads_accept?_bind (reads_halt _) fun lparen hopen =>
      hinner.bind fun value => reads_expect_bind fun rparen hclose => reads_pure ?_)
      fun name hname => reads_freshId_bind fun n => reads_pure ?_
    · intro m k others hvalue
      exact .group (Kind.isMark_iff.mp hopen) hvalue (Kind.isMark_iff.mp hclose)
    · rintro m rfl
      exact .name (Kind.isIdentifier_iff.mp hname)
  · cases hvalue : constant? token.kind with
    | some value =>
        simp only [hvalue]
        exact reads_pure fun n => derives_constant hvalue n
    | none => simp [hvalue] at hconstant

theorem reads_call (hinner : Reads inner (Derives false (.expr .expression)))
    (bound : Nat) : Reads (call bound inner) (Derives false (.expr .call)) := by
  refine (reads_primary hinner).bind fun callee =>
    (reads_calls hinner bound bound callee).weaken ?_
  intro k others value m hrest n first hcallee
  exact hrest n first (.tighter rfl hcallee)

theorem reads_unary (hoperand : Reads operand (Derives false (.expr .call)))
    (fuel : Nat) : Reads (unary operand fuel) (Derives false (.expr .unary)) := by
  induction fuel with
  | zero => exact reads_exhausted
  | succ fuel ih =>
      refine reads_accept?_bind (hoperand.weaken fun n used value m => .tighter rfl)
        fun sign hsign => ih.bind fun value => reads_pure ?_
      intro k n used hvalue
      have hmark : sign.IsMark .bang ∨ sign.IsMark .minus := by
        simpa [isUnaryOperator, Token.IsMark] using hsign
      simpa using Derives.unary hmark hvalue

theorem reads_disjunction (hinner : Reads inner (Derives false (.expr .expression)))
    (bound : Nat) : Reads (disjunction bound inner) (Derives false (.expr .disjunction)) := by
  have hunary := reads_unary (reads_call hinner bound) bound
  have hfactor : Reads (factor bound inner) (Derives false (.expr .factor)) :=
    reads_level (rfl : Level.factor.tighter? = _)
      (by simp [isFactorOperator, Level.operators]) hunary bound
  have hterm : Reads (term bound inner) (Derives false (.expr .term)) :=
    reads_level (rfl : Level.term.tighter? = _)
      (by simp [isTermOperator, Level.operators]) hfactor bound
  have hcomparison : Reads (comparison bound inner) (Derives false (.expr .comparison)) :=
    reads_level (rfl : Level.comparison.tighter? = _)
      (by simp [isComparisonOperator, Level.operators, or_assoc]) hterm bound
  have hequality : Reads (equality bound inner) (Derives false (.expr .equality)) :=
    reads_level (rfl : Level.equality.tighter? = _)
      (by simp [isEqualityOperator, Level.operators]) hcomparison bound
  have hconjunction : Reads (conjunction bound inner) (Derives false (.expr .conjunction)) :=
    reads_level (rfl : Level.conjunction.tighter? = _)
      (by simp [Level.operators]) hequality bound
  exact reads_level (rfl : Level.disjunction.tighter? = _)
    (by simp [Level.operators]) hconjunction bound

end Levels

/-- A tree that is a variable alone comes from its name alone. -/
theorem derives_variable {strict : Bool} {level : Level} {n m : Nat} {tokens : List Token}
    {id : NodeId} {name : Token}
    (h : Derives strict (.expr level) n tokens (.variable id name) m) :
    tokens = [name] ∧ name.kind = .identifier ∧ m = n + 1 := by
  -- Only the levels above a name alone keep its tree.
  have general : ∀ {symbol : Symbol} {n m : Nat} {tokens : List Token} {tree : symbol.Tree},
      Derives strict symbol n tokens tree m →
        onExpr (fun n tokens value m => ∀ id name, value = .variable id name →
          tokens = [name] ∧ name.kind = .identifier ∧ m = n + 1) symbol n tokens tree m := by
    intro symbol n m tokens tree h
    induction h with
    | tighter htighter hvalue ih => exact ih
    | name hidentifier =>
        intro id name heq
        cases heq
        exact ⟨rfl, hidentifier, rfl⟩
    | @operator n k m level =>
        intro id name heq
        cases level <;> cases heq
    | _ => first | trivial | (intro id name heq; cases heq)
  exact general h id name rfl

/-- Every expression is an assignment in the wide sense of the grammar. -/
theorem derives_assignment {strict : Bool} {n m : Nat} {tokens : List Token} {value : Expr}
    (h : Derives strict (.expr .expression) n tokens value m) :
    Derives strict (.expr .assignment) n tokens value m := by
  cases h with
  | tighter htighter hvalue =>
      cases htighter
      exact hvalue
  | operator htighter hleft hsign hright => cases hsign

theorem reads_assignment {inner : Reader Expr}
    (hinner : Reads inner (Derives false (.expr .expression))) (bound : Nat) :
    Reads (assignment bound inner) (Derives false (.expr .assignment)) := by
  refine (reads_disjunction hinner bound).bind fun target => reads_accept?_bind
    (reads_pure ?_) fun equals hequals => hinner.bind fun value => ?_
  · intro k n first htarget
    simpa using Derives.tighter (rfl : Level.assignment.tighter? = _) htarget
  · unfold assignTo
    split
    · next id name =>
        refine reads_freshId_bind fun m => reads_pure ?_
        rintro l rfl k others hvalue n first htarget
        obtain ⟨rfl, hname, rfl⟩ := derives_variable htarget
        simpa using Derives.assign hname (Kind.isMark_iff.mp hequals) (derives_assignment hvalue)
    · exact reads_report_bind _ (reads_pure (P := fun _ _ _ _ => True) fun n => trivial)

theorem reads_expression (bound : Nat) :
    Reads (expression bound) (Derives false (.expr .expression)) := by
  induction bound with
  | zero => exact reads_exhausted
  | succ bound ih =>
      exact (reads_assignment ih (bound + 1)).weaken fun n used value m => .tighter rfl

/-! ### Statements

The rules of statements start behind the token that they are chosen by. -/

theorem reads_optionalExpression (bound : Nat) (closing : Mark) :
    Reads (optionalExpression bound closing) (Derives false .optionalExpression) := by
  refine reads_looksAt_bind fun closed => ?_
  cases closed with
  | true => exact reads_pure fun n => .noExpression
  | false =>
      refine (reads_expression bound).bind fun value => reads_pure ?_
      intro k n first hvalue
      simpa using Derives.someExpression hvalue

theorem reads_expressionStatement (bound : Nat) :
    Reads (expressionStatement bound) (Derives false .expressionStatement) := by
  refine (reads_expression bound).bind fun value => reads_expect_bind fun semicolon hend =>
    reads_pure ?_
  intro k n first hvalue
  exact .expressionStatement hvalue (Kind.isMark_iff.mp hend)

theorem reads_initialValue (bound : Nat) :
    Reads (initialValue bound) fun n used initial m =>
      ∀ var_ name semicolon : Token, var_.IsKeyword .var_ → name.kind = .identifier →
        semicolon.IsMark .semicolon → Derives false .variableDeclaration n
          (var_ :: name :: (used ++ [semicolon])) (.declare name initial) m := by
  refine reads_accept?_bind (reads_pure ?_) fun equals hequals =>
    (reads_expression bound).map ?_
  · intro n var_ name semicolon hvar hname hend
    exact .uninitialized hvar hname hend
  · intro n used value m hvalue var_ name semicolon hvar hname hend
    exact .initialized hvar hname (Kind.isMark_iff.mp hequals) hvalue hend

theorem reads_variableDeclaration (bound : Nat) {var_ : Token} (hvar : var_.IsKeyword .var_) :
    Reads (variableDeclaration bound) fun n used tree m =>
      Derives false .variableDeclaration n (var_ :: used) tree m := by
  refine reads_expect_bind fun name hname => (reads_initialValue bound).bind fun initial =>
    reads_expect_bind fun semicolon hend => reads_pure ?_
  intro k n first hinitial
  exact hinitial var_ name semicolon hvar (Kind.isIdentifier_iff.mp hname)
    (Kind.isMark_iff.mp hend)

theorem reads_forInitializer (bound : Nat) :
    Reads (forInitializer bound) (Derives false .initializer) := by
  refine reads_accept?_bind (reads_accept?_bind ?_ fun var_ hvar => ?_) fun semicolon hend =>
    reads_pure fun n => .noInitializer (Kind.isMark_iff.mp hend)
  · exact (reads_expressionStatement bound).map fun n used tree m => .initialExpression
  · exact (reads_variableDeclaration bound (Kind.isKeyword_iff.mp hvar)).map
      fun n used tree m => .initialVariable

theorem reads_parameters (fuel count : Nat) :
    Reads (parameters fuel count) fun n used params m =>
      m = n ∧ count + params.length ≤ arityLimit ∧
        Derives false .parameters n used params n := by
  induction fuel generalizing count with
  | zero => exact reads_exhausted
  | succ fuel ih =>
      refine reads_limit_bind (reads_expect_bind fun name hname => reads_accept?_bind
        (reads_pure ?_) fun comma hcomma => (ih (count + 1)).bind fun params => reads_pure ?_)
      · intro n hcount
        exact ⟨rfl, hcount, .parameter (Kind.isIdentifier_iff.mp hname)⟩
      · rintro m n first ⟨rfl, hlimit, htail⟩ hcount
        refine ⟨rfl, ?_, ?_⟩
        · rw [List.length_cons]
          omega
        · simpa using Derives.parameters (Kind.isIdentifier_iff.mp hname)
            (Kind.isMark_iff.mp hcomma) htail

theorem reads_parameterList (bound : Nat) :
    Reads (parameterList bound) fun n used params m =>
      m = n ∧ params.length ≤ arityLimit ∧ Derives false .parameterList n used params n := by
  refine reads_looksAt_bind fun closed => ?_
  cases closed with
  | true => exact reads_pure fun n => ⟨rfl, Nat.zero_le _, .noParameters⟩
  | false =>
      refine (reads_parameters bound 0).weaken fun n used params m h => ?_
      exact ⟨h.1, by simpa using h.2.1, .someParameters h.2.2⟩

section Nested

variable {inner : Reader Stmt} {member : Reader (Option Stmt)}

theorem reads_declarationsUntil (stop : Kind → Bool)
    (hmember : Reads member fun n used result m =>
      ∃ tree ∈ result, Derives false .declaration n used tree m) (fuel : Nat) :
    Reads (declarationsUntil stop member fuel) (Derives false .declarations) := by
  induction fuel with
  | zero => exact reads_exhausted
  | succ fuel ih =>
      refine reads_looksAt_bind fun stopped => reads_atEnd_bind fun ended => ?_
      split
      · exact reads_pure fun n => .nothing
      · refine hmember.bind fun result => ih.bind fun rest => reads_pure ?_
        rintro m k others htail n first ⟨tree, htree, hhead⟩
        have hresult : result = some tree := htree
        simpa [hresult] using Derives.declarations hhead htail

theorem reads_blockBody
    (hmember : Reads member fun n used result m =>
      ∃ tree ∈ result, Derives false .declaration n used tree m) (bound : Nat)
    {lbrace : Token} (hopen : lbrace.IsMark .leftBrace) :
    Reads (blockBody bound member) fun n used body m =>
      Derives false .block n (lbrace :: used) body m := by
  refine (reads_declarationsUntil _ hmember bound).bind fun body =>
    reads_expect_bind fun rbrace hclose => reads_pure ?_
  intro k n first hbody
  exact .block hopen hbody (Kind.isMark_iff.mp hclose)

theorem reads_functionDeclaration
    (hmember : Reads member fun n used result m =>
      ∃ tree ∈ result, Derives false .declaration n used tree m) (bound : Nat)
    {fun_ : Token} (hlead : fun_.IsKeyword .fun_) :
    Reads (functionDeclaration bound member) fun n used tree m =>
      Derives false .declaration n (fun_ :: used) tree m := by
  refine reads_expect_bind fun name hname => reads_expect_bind fun lparen hopen =>
    (reads_parameterList bound).bind fun params => reads_expect_bind fun rparen hclose =>
      reads_expect_bind fun lbrace hbrace =>
        (reads_blockBody hmember bound (Kind.isMark_iff.mp hbrace)).bind fun body =>
          reads_pure ?_
  rintro m k others hbody n first ⟨rfl, hlimit, hparams⟩
  simpa using Derives.function hlead (Kind.isIdentifier_iff.mp hname)
    (Kind.isMark_iff.mp hopen) hparams (Kind.isMark_iff.mp hclose) hlimit hbody

/-- What a rule for nested statements must read. -/
abbrev ReadsStatement (inner : Reader Stmt) : Prop :=
  Reads inner fun n used tree m => ∃ dangling, Derives false (.statement dangling) n used tree m

theorem reads_ifStatement (hinner : ReadsStatement inner) (bound : Nat) {lead : Token}
    (hlead : lead.IsKeyword .if_) :
    Reads (ifStatement bound inner) fun n used tree m =>
      ∃ dangling, Derives false (.statement dangling) n (lead :: used) tree m := by
  refine reads_expect_bind fun lparen hopen => (reads_expression bound).bind fun condition =>
    reads_expect_bind fun rparen hclose => hinner.bind fun whenTrue =>
      reads_accept?_bind (reads_pure ?_) fun else_ helse => hinner.bind fun whenFalse =>
        reads_pure ?_
  · rintro l k trueTokens ⟨_, htrue⟩ n conditionTokens hcondition
    have hif := Derives.if_ hlead (Kind.isMark_iff.mp hopen) hcondition
      (Kind.isMark_iff.mp hclose) htrue
    exact ⟨true, by simpa using hif⟩
  · rintro m l falseTokens ⟨dangling, hfalse⟩ k trueTokens ⟨_, htrue⟩ n conditionTokens hcondition
    have hif := Derives.ifElse hlead (Kind.isMark_iff.mp hopen) hcondition
      (Kind.isMark_iff.mp hclose) htrue (by simp) (Kind.isKeyword_iff.mp helse) hfalse
    exact ⟨dangling, by simpa using hif⟩

theorem reads_whileStatement (hinner : ReadsStatement inner) (bound : Nat) {lead : Token}
    (hlead : lead.IsKeyword .while_) :
    Reads (whileStatement bound inner) fun n used tree m =>
      ∃ dangling, Derives false (.statement dangling) n (lead :: used) tree m := by
  refine reads_expect_bind fun lparen hopen => (reads_expression bound).bind fun condition =>
    reads_expect_bind fun rparen hclose => hinner.bind fun body => reads_pure ?_
  rintro m k bodyTokens ⟨dangling, hbody⟩ n conditionTokens hcondition
  have hwhile := Derives.while_ hlead (Kind.isMark_iff.mp hopen) hcondition
    (Kind.isMark_iff.mp hclose) hbody
  exact ⟨dangling, by simpa using hwhile⟩

theorem reads_forStatement (hinner : ReadsStatement inner) (bound : Nat) {lead : Token}
    (hlead : lead.IsKeyword .for_) :
    Reads (forStatement bound inner) fun n used tree m =>
      ∃ dangling, Derives false (.statement dangling) n (lead :: used) tree m := by
  refine reads_expect_bind fun lparen hopen => (reads_forInitializer bound).bind fun initial =>
    (reads_optionalExpression bound .semicolon).bind fun condition =>
      reads_expect_bind fun semicolon hend =>
        (reads_optionalExpression bound .rightParen).bind fun step =>
          reads_expect_bind fun rparen hclose => hinner.bind fun body => reads_pure ?_
  rintro m s bodyTokens ⟨dangling, hbody⟩ c stepTokens hstep i conditionTokens hcondition n
    initialTokens hinitial
  refine ⟨dangling, ?_⟩
  have hfor := Derives.for_ hlead (Kind.isMark_iff.mp hopen) hinitial hcondition
    (Kind.isMark_iff.mp hend) hstep (Kind.isMark_iff.mp hclose) hbody
  cases step with
  | none => simpa [forLoop, loopRound] using hfor
  | some increment => simpa [forLoop, loopRound] using hfor

theorem reads_printStatement (bound : Nat) {lead : Token} (hlead : lead.IsKeyword .print_) :
    Reads (printStatement bound) fun n used tree m =>
      Derives false (.statement false) n (lead :: used) tree m := by
  refine (reads_expression bound).bind fun value => reads_expect_bind fun semicolon hend =>
    reads_pure ?_
  intro k n first hvalue
  exact .print hlead hvalue (Kind.isMark_iff.mp hend)

theorem reads_returnStatement (bound : Nat) {lead : Token} (hlead : lead.IsKeyword .return_) :
    Reads (returnStatement bound lead) fun n used tree m =>
      Derives false (.statement false) n (lead :: used) tree m := by
  refine (reads_optionalExpression bound .semicolon).bind fun value =>
    reads_expect_bind fun semicolon hend => reads_pure ?_
  intro k n first hvalue
  exact .return_ hlead hvalue (Kind.isMark_iff.mp hend)

theorem reads_statementRule (hinner : ReadsStatement inner)
    (hmember : Reads member fun n used result m =>
      ∃ tree ∈ result, Derives false .declaration n used tree m) (bound : Nat) :
    ReadsStatement (statementRule bound inner member) := by
  refine reads_accept?_bind ?_ fun lead hlead => ?_
  · exact (reads_expressionStatement bound).weaken fun n used tree m h => ⟨false, .expression h⟩
  · dsimp only
    split
    · next hkind => exact reads_forStatement hinner bound hkind
    · next hkind => exact reads_ifStatement hinner bound hkind
    · next hkind =>
        exact (reads_printStatement bound hkind).weaken fun n used tree m h => ⟨false, h⟩
    · next hkind =>
        exact (reads_returnStatement bound hkind).weaken fun n used tree m h => ⟨false, h⟩
    · next hkind => exact reads_whileStatement hinner bound hkind
    · next hfor hif hprint hreturn hwhile =>
        have hbrace : lead.IsMark .leftBrace := by
          unfold leadsStatement at hlead
          split at hlead <;> simp_all [Token.IsMark]
        exact (reads_blockBody hmember bound hbrace).map fun n used body m h =>
          ⟨false, .blockStatement h⟩

theorem reads_declarationRule (hinner : ReadsStatement inner)
    (hmember : Reads member fun n used result m =>
      ∃ tree ∈ result, Derives false .declaration n used tree m) (bound : Nat) :
    Reads (declarationRule bound inner member) (Derives false .declaration) := by
  refine reads_accept?_bind (reads_accept?_bind ?_ fun var_ hvar => ?_) fun fun_ hfun => ?_
  · exact (reads_statementRule hinner hmember bound).weaken
      fun n used tree m ⟨_, h⟩ => .statement h
  · exact (reads_variableDeclaration bound (Kind.isKeyword_iff.mp hvar)).weaken
      fun n used tree m => .var_
  · exact reads_functionDeclaration hmember bound (Kind.isKeyword_iff.mp hfun)

end Nested

theorem reads_statement_declaration (bound : Nat) :
    ReadsStatement (statement bound) ∧
      Reads (declaration bound) fun n used result m =>
        ∃ tree ∈ result, Derives false .declaration n used tree m := by
  induction bound with
  | zero => exact ⟨reads_exhausted, reads_exhausted⟩
  | succ bound ih =>
      exact ⟨reads_statementRule ih.1 ih.2 (bound + 1),
        (reads_declarationRule ih.1 ih.2 (bound + 1)).recover⟩

theorem reads_program (bound : Nat) :
    Reads (program bound) (Derives false .declarations) :=
  reads_declarationsUntil _ (reads_statement_declaration bound).2 bound

end Scriptlet.Reader
