/-
The rules of statements and declarations take the phrases of their symbols.

Only an `else` can continue a statement, and only one that ends in an `if`
without `else`; a strict derivation leaves no other choice to the rule.
-/
import Scriptlet.Proofs.Grammar.Complete.Expression

namespace Scriptlet.Grammar

variable {α : Type} {n k m bound : Nat} {tokens others rest : List Token}

/-- Before this rest the rule takes the tokens and gives the value. -/
def Takes (rule : Reader α) (n : Nat) (tokens : List Token) (value : α) (m : Nat)
    (rest : List Token) : Prop :=
  ∀ (endLine : Nat) (faults : List Diagnostic),
    rule ⟨tokens ++ rest, endLine, n, faults⟩ = .ok value ⟨rest, endLine, m, faults⟩

/-- What the rules of a symbol do with a phrase of it.  Where a rule starts behind
the token that it is chosen by, so does the statement. -/
def CompleteAt : (symbol : Symbol) → Nat → List Token → symbol.Tree → Nat → Prop
  | .program, _, _, _, _ => True
  | .lone, _, _, _, _ => True
  | .declarations, n, tokens, body, m =>
      ∀ (bound fuel : Nat) (stop : Kind → Bool) (rest : List Token),
        (∀ kind, stop kind = true → kind = .mark .rightBrace) →
          (rest = [] ∨ StartsIn stop rest) → (tokens ++ rest).length < bound →
            (tokens ++ rest).length < fuel →
              Takes (Reader.declarationsUntil stop (Reader.declaration bound) fuel) n tokens body
                m rest
  | .declaration, n, tokens, tree, m =>
      ∀ (bound : Nat) (rest : List Token), Stops [.keyword .else_] rest →
        (tokens ++ rest).length < bound →
          Takes (Reader.declaration bound) n tokens (some tree) m rest
  | .statement dangling, n, tokens, tree, m =>
      ∀ (bound : Nat) (rest : List Token), (dangling = true → Stops [.keyword .else_] rest) →
        (tokens ++ rest).length < bound → Takes (Reader.statement bound) n tokens tree m rest
  | .block, n, tokens, body, m =>
      ∃ lbrace others, tokens = lbrace :: others ∧ lbrace.IsMark .leftBrace ∧
        ∀ (bound : Nat) (rest : List Token), (others ++ rest).length < bound →
          Takes (Reader.blockBody (bound + 1) (Reader.declaration bound)) n others body m rest
  | .variableDeclaration, n, tokens, tree, m =>
      ∃ var_ others, tokens = var_ :: others ∧ var_.IsKeyword .var_ ∧
        ∀ (bound : Nat) (rest : List Token), (others ++ rest).length < bound →
          Takes (Reader.variableDeclaration bound) n others tree m rest
  | .expressionStatement, n, tokens, tree, m =>
      ∀ (bound : Nat) (rest : List Token), (tokens ++ rest).length < bound →
        Takes (Reader.expressionStatement bound) n tokens tree m rest
  | .initializer, n, tokens, initial, m =>
      ∀ (bound : Nat) (rest : List Token), (tokens ++ rest).length < bound →
        Takes (Reader.forInitializer bound) n tokens initial m rest
  | .parameters, n, tokens, params, m =>
      ∀ (fuel count : Nat) (rparen : Token) (rest : List Token), rparen.IsMark .rightParen →
        (tokens ++ rparen :: rest).length < fuel → count + params.length ≤ arityLimit →
          Takes (Reader.parameters fuel count) n tokens params m (rparen :: rest)
  | .parameterList, n, tokens, params, m =>
      ∀ (bound : Nat) (rparen : Token) (rest : List Token), rparen.IsMark .rightParen →
        (tokens ++ rparen :: rest).length < bound → params.length ≤ arityLimit →
          Takes (Reader.parameterList bound) n tokens params m (rparen :: rest)
  | .optionalExpression, n, tokens, value, m =>
      ∀ (bound : Nat) (closing : Mark) (token : Token) (rest : List Token),
        token.IsMark closing → (closing = .semicolon ∨ closing = .rightParen) →
          (tokens ++ token :: rest).length < bound →
            Takes (Reader.optionalExpression bound closing) n tokens value m (token :: rest)
  | .expr level, n, tokens, value, m => level.Complete n tokens value m
  | .arguments, n, tokens, values, m => Level.CompleteArguments n tokens values m
  | .argumentList, n, tokens, values, m => Level.CompleteArgumentList n tokens values m

/-! ### Simple statements -/

theorem completeAt_expressionStatement {value : Expr} {semicolon : Token}
    (h : Level.expression.Complete n tokens value m) (hend : semicolon.IsMark .semicolon) :
    CompleteAt .expressionStatement n (tokens ++ [semicolon]) (.expression value) m := by
  intro bound rest hbound endLine faults
  simp only [List.append_assoc, List.singleton_append] at hbound ⊢
  have hvalue := h.nested bound endLine faults hbound (stops_of_mark hend (by simp) rest)
  rw [Reader.expressionStatement, Reader.bind_apply, hvalue]
  simp only [Reader.bind_apply, Reader.expect_of_kind (Kind.isMark_iff.mpr hend),
    Reader.pure_apply]

theorem completeAt_noExpression (n : Nat) : CompleteAt .optionalExpression n [] none n := by
  intro bound closing token rest htoken _ hbound endLine faults
  rw [Reader.optionalExpression, Reader.bind_apply, List.nil_append,
    Reader.looksAt_of_kind (Kind.isMark_iff.mpr htoken)]
  rfl

theorem completeAt_someExpression {value : Expr}
    (h : Level.expression.Complete n tokens value m) (hopens : StartsIn opensExpression tokens) :
    CompleteAt .optionalExpression n tokens (some value) m := by
  intro bound closing token rest htoken hclosing hbound endLine faults
  have hstops : Stops Level.expression.continuing (token :: rest) :=
    stops_of_mark htoken (hclosing.imp_right Or.inl) rest
  have hstart : ∀ first ∈ (tokens ++ token :: rest).head?, first.kind.isMark closing = false := by
    refine (hopens.append (token :: rest)).head_eq_false fun kind hkind => ?_
    obtain ⟨-, -, -, -, hsemicolon, hparen⟩ := opensExpression_cases hkind
    rcases hclosing with rfl | rfl
    · exact hsemicolon
    · exact hparen
  rw [Reader.optionalExpression, Reader.bind_apply, Reader.looksAt_of_head hstart]
  simp only [Bool.false_eq_true, ↓reduceIte, Reader.bind_apply,
    h.nested bound endLine faults hbound hstops, Reader.pure_apply]

theorem completeAt_uninitialized {var_ name semicolon : Token} (hvar : var_.IsKeyword .var_)
    (hname : name.kind = .identifier) (hend : semicolon.IsMark .semicolon) (n : Nat) :
    CompleteAt .variableDeclaration n [var_, name, semicolon] (.declare name none) n := by
  refine ⟨var_, [name, semicolon], rfl, hvar, fun bound rest hbound endLine faults => ?_⟩
  rw [Reader.variableDeclaration, Reader.bind_apply, List.cons_append, List.singleton_append,
    Reader.expect_of_kind (Kind.isIdentifier_iff.mpr hname)]
  simp only [Reader.bind_apply, Reader.initialValue]
  rw [Reader.accept?_of_head (by simp [hend, Kind.isMark])]
  simp only [Reader.pure_apply, Reader.expect_of_kind (Kind.isMark_iff.mpr hend)]

theorem completeAt_initialized {var_ name equals semicolon : Token} {initial : Expr}
    (hvar : var_.IsKeyword .var_) (hname : name.kind = .identifier)
    (hequal : equals.IsMark .equal) (h : Level.expression.Complete n tokens initial m)
    (hend : semicolon.IsMark .semicolon) :
    CompleteAt .variableDeclaration n (var_ :: name :: equals :: (tokens ++ [semicolon]))
      (.declare name (some initial)) m := by
  refine ⟨var_, _, rfl, hvar, fun bound rest hbound endLine faults => ?_⟩
  simp only [List.cons_append, List.append_assoc, List.nil_append, List.length_cons]
    at hbound ⊢
  have hvalue := h.nested bound endLine faults (by omega)
    (stops_of_mark hend (by simp) rest)
  rw [Reader.variableDeclaration, Reader.bind_apply,
    Reader.expect_of_kind (Kind.isIdentifier_iff.mpr hname)]
  simp only [Reader.bind_apply, Reader.initialValue,
    Reader.accept?_of_kind (Kind.isMark_iff.mpr hequal), Reader.map_apply, hvalue,
    Reader.expect_of_kind (Kind.isMark_iff.mpr hend), Reader.pure_apply]

/-! ### The first clause of a loop -/

theorem completeAt_noInitializer {semicolon : Token} (hend : semicolon.IsMark .semicolon)
    (n : Nat) : CompleteAt .initializer n [semicolon] none n := by
  intro bound rest hbound endLine faults
  rw [Reader.forInitializer, Reader.bind_apply, List.singleton_append,
    Reader.accept?_of_kind (Kind.isMark_iff.mpr hend)]
  rfl

theorem completeAt_initialVariable {tree : Stmt}
    (h : CompleteAt .variableDeclaration n tokens tree m) :
    CompleteAt .initializer n tokens (some tree) m := by
  obtain ⟨var_, others, rfl, hvar, hrule⟩ := h
  intro bound rest hbound endLine faults
  have hdeclaration := hrule bound rest (Nat.lt_of_succ_lt hbound) endLine faults
  rw [Reader.forInitializer, Reader.bind_apply, List.cons_append,
    Reader.accept?_of_head (by simp [hvar, Kind.isMark])]
  simp only [Reader.bind_apply, Reader.accept?_of_kind (Kind.isKeyword_iff.mpr hvar),
    Reader.map_apply, hdeclaration]

theorem completeAt_initialExpression {tree : Stmt}
    (h : CompleteAt .expressionStatement n tokens tree m)
    (hopens : StartsIn opensExpression tokens) :
    CompleteAt .initializer n tokens (some tree) m := by
  intro bound rest hbound endLine faults
  have hstart := hopens.append rest
  rw [Reader.forInitializer, Reader.bind_apply,
    Reader.accept?_of_head (hstart.head_eq_false fun kind hkind =>
      (opensExpression_cases hkind).2.2.2.2.1)]
  simp only [Reader.bind_apply]
  rw [Reader.accept?_of_head (hstart.head_eq_false fun kind hkind =>
    (opensExpression_cases hkind).2.2.2.1)]
  simp only [Reader.map_apply, h bound rest hbound endLine faults]

/-! ### Functions and blocks -/

theorem completeAt_parameter {name : Token} (hname : name.kind = .identifier) (n : Nat) :
    CompleteAt .parameters n [name] [name] n := by
  intro fuel count rparen rest hclose hfuel hlimit endLine faults
  obtain ⟨fuel, rfl⟩ := Nat.exists_eq_add_one_of_ne_zero (Nat.ne_zero_of_lt hfuel)
  rw [Reader.parameters, Reader.bind_apply, Level.limit_of_lt hlimit]
  simp only [Reader.bind_apply, List.singleton_append,
    Reader.expect_of_kind (Kind.isIdentifier_iff.mpr hname)]
  rw [Reader.accept?_of_head (by simp [hclose, Kind.isMark])]
  rfl

theorem completeAt_parameters {name comma : Token} {params : List Token}
    (hname : name.kind = .identifier) (hcomma : comma.IsMark .comma)
    (htail : CompleteAt .parameters n tokens params n) :
    CompleteAt .parameters n (name :: comma :: tokens) (name :: params) n := by
  intro fuel count rparen rest hclose hfuel hlimit endLine faults
  obtain ⟨fuel, rfl⟩ := Nat.exists_eq_add_one_of_ne_zero (Nat.ne_zero_of_lt hfuel)
  simp only [List.cons_append, List.length_cons] at hfuel hlimit ⊢
  have hothers := htail fuel (count + 1) rparen rest hclose (by omega) (by omega) endLine faults
  rw [Reader.parameters, Reader.bind_apply, Level.limit_of_lt (by omega)]
  simp only [Reader.bind_apply, Reader.expect_of_kind (Kind.isIdentifier_iff.mpr hname),
    Reader.accept?_of_kind (Kind.isMark_iff.mpr hcomma), hothers, Reader.pure_apply]

theorem completeAt_noParameters (n : Nat) : CompleteAt .parameterList n [] [] n := by
  intro bound rparen rest hclose hbound hlimit endLine faults
  rw [Reader.parameterList, Reader.bind_apply, List.nil_append,
    Reader.looksAt_of_kind (Kind.isMark_iff.mpr hclose)]
  rfl

theorem completeAt_someParameters {params : List Token}
    (h : CompleteAt .parameters n tokens params n) (hopens : StartsIn Kind.isIdentifier tokens) :
    CompleteAt .parameterList n tokens params n := by
  intro bound rparen rest hclose hbound hlimit endLine faults
  have hstart : ∀ token ∈ (tokens ++ rparen :: rest).head?,
      token.kind.isMark .rightParen = false := by
    refine (hopens.append (rparen :: rest)).head_eq_false fun kind hkind => ?_
    rw [Kind.isIdentifier_iff.mp hkind]
    rfl
  rw [Reader.parameterList, Reader.bind_apply, Reader.looksAt_of_head hstart]
  exact h bound 0 rparen rest hclose hbound (by rwa [Nat.zero_add]) endLine faults

theorem completeAt_nothing (n : Nat) : CompleteAt .declarations n [] [] n := by
  intro bound fuel stop rest _ hrest _ hfuel endLine faults
  obtain ⟨fuel, rfl⟩ := Nat.exists_eq_add_one_of_ne_zero (Nat.ne_zero_of_lt hfuel)
  rw [List.nil_append, Reader.declarationsUntil, Reader.bind_apply]
  rcases hrest with rfl | hstop
  · simp [Reader.looksAt, Reader.atEnd]
  · obtain ⟨token, htoken, hkind⟩ := hstop
    cases rest with
    | nil => cases htoken
    | cons first rest =>
        cases htoken
        simp [Reader.looksAt_of_kind hkind, Reader.atEnd]

/-- Nothing behind a declaration in a list can be an `else`. -/
theorem stops_else_of_declarations {strict : Bool} {body : List Stmt} {stop : Kind → Bool}
    (h : Derives strict .declarations n tokens body m)
    (hstop : ∀ kind, stop kind = true → kind = .mark .rightBrace)
    (hrest : rest = [] ∨ StartsIn stop rest) : Stops [.keyword .else_] (tokens ++ rest) := by
  cases h with
  | nothing =>
      rcases hrest with rfl | hrest
      · exact stops_nil
      · refine hrest.stops fun kind hkind => ?_
        simp [hstop kind hkind]
  | declarations hhead _ =>
      have hopens : StartsIn opensDeclaration _ := derives_opens hhead
      rw [List.append_assoc]
      refine (hopens.append _).stops fun kind hkind hmem => ?_
      rw [List.mem_singleton.mp hmem] at hkind
      cases hkind

theorem completeAt_declarations {strict : Bool} {first : Stmt} {body : List Stmt}
    (hopens : StartsIn opensDeclaration tokens) (hhead : CompleteAt .declaration n tokens first k)
    (htail : CompleteAt .declarations k others body m)
    (hderives : Derives strict .declarations k others body m) :
    CompleteAt .declarations n (tokens ++ others) (first :: body) m := by
  intro bound fuel stop rest hstop hrest hbound hfuel endLine faults
  obtain ⟨fuel, rfl⟩ := Nat.exists_eq_add_one_of_ne_zero (Nat.ne_zero_of_lt hfuel)
  rw [List.append_assoc] at hbound hfuel ⊢
  have hlook : ∀ token ∈ (tokens ++ (others ++ rest)).head?, stop token.kind = false := by
    refine (hopens.append (others ++ rest)).head_eq_false fun kind hkind => ?_
    rw [← Bool.not_eq_true]
    intro hbrace
    rw [hstop kind hbrace] at hkind
    cases hkind
  have hlength : 0 < tokens.length := by
    obtain ⟨token, htoken, -⟩ := hopens
    exact List.length_pos_of_mem (List.mem_of_mem_head? htoken)
  have hend : (tokens ++ (others ++ rest)).isEmpty = false :=
    List.isEmpty_eq_false_iff.mpr (List.ne_nil_of_length_pos (by
      rw [List.length_append]
      omega))
  have hfirst := hhead bound (others ++ rest) (stops_else_of_declarations hderives hstop hrest)
    hbound endLine faults
  rw [List.length_append] at hbound hfuel
  have hothers := htail bound fuel stop rest hstop hrest (by omega) (by omega) endLine faults
  rw [Reader.declarationsUntil, Reader.bind_apply, Reader.looksAt_of_head hlook]
  simp only [Reader.bind_apply, Reader.atEnd, hend, Bool.or_self, Bool.false_eq_true,
    ↓reduceIte, hfirst, hothers, Reader.pure_apply, Option.toList_some, List.singleton_append]

theorem completeAt_block {lbrace rbrace : Token} {body : List Stmt}
    (hopen : lbrace.IsMark .leftBrace) (h : CompleteAt .declarations n tokens body m)
    (hclose : rbrace.IsMark .rightBrace) :
    CompleteAt .block n (lbrace :: (tokens ++ [rbrace])) body m := by
  refine ⟨lbrace, _, rfl, hopen, fun bound rest hbound endLine faults => ?_⟩
  rw [List.append_assoc, List.singleton_append] at hbound ⊢
  have hbody := h bound (bound + 1) (·.isMark .rightBrace) (rbrace :: rest)
    (fun kind => Kind.isMark_iff.mp) (Or.inr (startsIn_cons.mpr (Kind.isMark_iff.mpr hclose)))
    hbound (Nat.lt_succ_of_lt hbound) endLine faults
  rw [Reader.blockBody, Reader.bind_apply, hbody]
  simp only [Reader.bind_apply, Reader.expect_of_kind (Kind.isMark_iff.mpr hclose),
    Reader.pure_apply]

/-! ### Statements -/

/-- The bound is not used up before a rule behind the first token is called. -/
theorem takes_statement_of_lead {lead : Token} {bound : Nat} {tree : Stmt}
    (hlead : Reader.leadsStatement lead.kind = true)
    (h : Takes
      (match lead.kind with
        | .keyword .for_ => Reader.forStatement (bound + 1) (Reader.statement bound)
        | .keyword .if_ => Reader.ifStatement (bound + 1) (Reader.statement bound)
        | .keyword .print_ => Reader.printStatement (bound + 1)
        | .keyword .return_ => Reader.returnStatement (bound + 1) lead
        | .keyword .while_ => Reader.whileStatement (bound + 1) (Reader.statement bound)
        | _ => .block <$> Reader.blockBody (bound + 1) (Reader.declaration bound))
      n tokens tree m rest) :
    Takes (Reader.statement (bound + 1)) n (lead :: tokens) tree m rest := by
  intro endLine faults
  rw [List.cons_append, Reader.statement, Reader.statementRule, Reader.bind_apply,
    Reader.accept?_of_kind hlead]
  exact h endLine faults

theorem completeAt_expression {tree : Stmt} (h : CompleteAt .expressionStatement n tokens tree m)
    (hopens : StartsIn opensExpression tokens) :
    CompleteAt (.statement false) n tokens tree m := by
  intro bound rest _ hbound endLine faults
  obtain ⟨bound, rfl⟩ := Nat.exists_eq_add_one_of_ne_zero (Nat.ne_zero_of_lt hbound)
  have hlead := (hopens.append rest).head_eq_false fun kind hkind =>
    (opensExpression_cases hkind).2.1
  rw [Reader.statement, Reader.statementRule, Reader.bind_apply, Reader.accept?_of_head hlead]
  exact h (bound + 1) rest hbound endLine faults

theorem completeAt_print {lead semicolon : Token} {value : Expr} (hlead : lead.IsKeyword .print_)
    (h : Level.expression.Complete n tokens value m) (hend : semicolon.IsMark .semicolon) :
    CompleteAt (.statement false) n (lead :: (tokens ++ [semicolon])) (.print value) m := by
  intro bound rest _ hbound
  obtain ⟨bound, rfl⟩ := Nat.exists_eq_add_one_of_ne_zero (Nat.ne_zero_of_lt hbound)
  refine takes_statement_of_lead (by rw [hlead]; rfl) fun endLine faults => ?_
  simp only [List.cons_append, List.append_assoc, List.nil_append, List.length_cons]
    at hbound ⊢
  have hvalue := h.nested (bound + 1) endLine faults (by omega)
    (stops_of_mark hend (by simp) rest)
  simp only [hlead, Reader.printStatement, Reader.bind_apply, hvalue,
    Reader.expect_of_kind (Kind.isMark_iff.mpr hend), Reader.pure_apply]

theorem completeAt_return {lead semicolon : Token} {value : Option Expr}
    (hlead : lead.IsKeyword .return_) (h : CompleteAt .optionalExpression n tokens value m)
    (hend : semicolon.IsMark .semicolon) :
    CompleteAt (.statement false) n (lead :: (tokens ++ [semicolon])) (.leave lead value) m := by
  intro bound rest _ hbound
  obtain ⟨bound, rfl⟩ := Nat.exists_eq_add_one_of_ne_zero (Nat.ne_zero_of_lt hbound)
  refine takes_statement_of_lead (by rw [hlead]; rfl) fun endLine faults => ?_
  simp only [List.cons_append, List.append_assoc, List.nil_append, List.length_cons]
    at hbound ⊢
  have hvalue := h (bound + 1) .semicolon semicolon rest hend (Or.inl rfl) (by omega) endLine
    faults
  simp only [hlead, Reader.returnStatement, Reader.bind_apply, hvalue,
    Reader.expect_of_kind (Kind.isMark_iff.mpr hend), Reader.pure_apply]

theorem completeAt_blockStatement {body : List Stmt} (h : CompleteAt .block n tokens body m) :
    CompleteAt (.statement false) n tokens (.block body) m := by
  obtain ⟨lbrace, others, rfl, hopen, hrule⟩ := h
  intro bound rest _ hbound
  obtain ⟨bound, rfl⟩ := Nat.exists_eq_add_one_of_ne_zero (Nat.ne_zero_of_lt hbound)
  refine takes_statement_of_lead (by rw [hopen]; rfl) fun endLine faults => ?_
  have hbody := hrule bound rest (Nat.lt_of_succ_lt_succ hbound) endLine faults
  simp only [hopen, Reader.map_apply, hbody]

theorem completeAt_while {lead lparen rparen : Token} {condition : Expr} {body : Stmt}
    {dangling : Bool} (hlead : lead.IsKeyword .while_) (hopen : lparen.IsMark .leftParen)
    (htest : Level.expression.Complete n tokens condition k) (hclose : rparen.IsMark .rightParen)
    (hinner : CompleteAt (.statement dangling) k others body m) :
    CompleteAt (.statement dangling) n (lead :: lparen :: (tokens ++ rparen :: others))
      (.loop condition body) m := by
  intro bound rest hdangling hbound
  obtain ⟨bound, rfl⟩ := Nat.exists_eq_add_one_of_ne_zero (Nat.ne_zero_of_lt hbound)
  refine takes_statement_of_lead (by rw [hlead]; rfl) fun endLine faults => ?_
  simp only [List.cons_append, List.append_assoc, List.length_cons] at hbound ⊢
  have hcondition := htest.nested (bound + 1) endLine faults (by omega)
    (stops_of_mark hclose (by simp) (others ++ rest))
  rw [List.length_append, List.length_cons] at hbound
  have hbody := hinner bound rest hdangling (by omega) endLine faults
  simp only [hlead, Reader.whileStatement, Reader.bind_apply,
    Reader.expect_of_kind (Kind.isMark_iff.mpr hopen), hcondition,
    Reader.expect_of_kind (Kind.isMark_iff.mpr hclose), hbody, Reader.pure_apply]

theorem completeAt_if {lead lparen rparen : Token} {condition : Expr} {whenTrue : Stmt}
    {dangling : Bool} (hlead : lead.IsKeyword .if_) (hopen : lparen.IsMark .leftParen)
    (htest : Level.expression.Complete n tokens condition k) (hclose : rparen.IsMark .rightParen)
    (hinner : CompleteAt (.statement dangling) k others whenTrue m) :
    CompleteAt (.statement true) n (lead :: lparen :: (tokens ++ rparen :: others))
      (.branch condition whenTrue none) m := by
  intro bound rest hdangling hbound
  obtain ⟨bound, rfl⟩ := Nat.exists_eq_add_one_of_ne_zero (Nat.ne_zero_of_lt hbound)
  refine takes_statement_of_lead (by rw [hlead]; rfl) fun endLine faults => ?_
  simp only [List.cons_append, List.append_assoc, List.length_cons] at hbound ⊢
  have hcondition := htest.nested (bound + 1) endLine faults (by omega)
    (stops_of_mark hclose (by simp) (others ++ rest))
  rw [List.length_append, List.length_cons] at hbound
  have hbody := hinner bound rest (fun _ => hdangling rfl) (by omega) endLine faults
  have helse : ∀ token ∈ rest.head?, token.kind.isKeyword .else_ = false := by
    intro token htoken
    rw [← Bool.not_eq_true, Kind.isKeyword_iff]
    exact fun h => hdangling rfl token htoken (List.mem_singleton.mpr h)
  simp only [hlead, Reader.ifStatement, Reader.bind_apply,
    Reader.expect_of_kind (Kind.isMark_iff.mpr hopen), hcondition,
    Reader.expect_of_kind (Kind.isMark_iff.mpr hclose), hbody, Reader.accept?_of_head helse,
    Reader.pure_apply]

/-- An `if` that is closed leaves the `else` behind it to the outer one. -/
theorem completeAt_ifElse {l : Nat} {lead lparen rparen else_ : Token} {condition : Expr}
    {whenTrue whenFalse : Stmt} {dangling : Bool} {alternative : List Token}
    (hlead : lead.IsKeyword .if_) (hopen : lparen.IsMark .leftParen)
    (htest : Level.expression.Complete n tokens condition k) (hclose : rparen.IsMark .rightParen)
    (hinner : CompleteAt (.statement false) k others whenTrue l)
    (helse : else_.IsKeyword .else_)
    (hother : CompleteAt (.statement dangling) l alternative whenFalse m) :
    CompleteAt (.statement dangling) n
      (lead :: lparen :: (tokens ++ rparen :: (others ++ else_ :: alternative)))
      (.branch condition whenTrue (some whenFalse)) m := by
  intro bound rest hdangling hbound
  obtain ⟨bound, rfl⟩ := Nat.exists_eq_add_one_of_ne_zero (Nat.ne_zero_of_lt hbound)
  refine takes_statement_of_lead (by rw [hlead]; rfl) fun endLine faults => ?_
  simp only [List.cons_append, List.append_assoc, List.length_cons] at hbound ⊢
  have hcondition := htest.nested (bound + 1) endLine faults (by omega)
    (stops_of_mark hclose (by simp) (others ++ else_ :: (alternative ++ rest)))
  simp only [List.length_append, List.length_cons] at hbound
  have hwhenTrue := hinner bound (else_ :: (alternative ++ rest)) (fun h => by cases h)
    (by simp only [List.length_append, List.length_cons]; omega) endLine faults
  have hwhenFalse := hother bound rest hdangling
    (by rw [List.length_append]; omega) endLine faults
  simp only [hlead, Reader.ifStatement, Reader.bind_apply,
    Reader.expect_of_kind (Kind.isMark_iff.mpr hopen), hcondition,
    Reader.expect_of_kind (Kind.isMark_iff.mpr hclose), hwhenTrue,
    Reader.accept?_of_kind (Kind.isKeyword_iff.mpr helse), hwhenFalse, Reader.pure_apply]

theorem completeAt_for {i c s : Nat} {lead lparen semicolon rparen : Token}
    {initialTokens conditionTokens stepTokens : List Token} {initial : Option Stmt}
    {condition step : Option Expr} {body : Stmt} {dangling : Bool}
    (hlead : lead.IsKeyword .for_) (hopen : lparen.IsMark .leftParen)
    (hinitial : CompleteAt .initializer n initialTokens initial i)
    (htest : CompleteAt .optionalExpression i conditionTokens condition c)
    (hend : semicolon.IsMark .semicolon)
    (hstep : CompleteAt .optionalExpression c stepTokens step s)
    (hclose : rparen.IsMark .rightParen)
    (hinner : CompleteAt (.statement dangling) s others body m) :
    CompleteAt (.statement dangling) n
      (lead :: lparen :: (initialTokens ++ (conditionTokens ++ semicolon ::
        (stepTokens ++ rparen :: others))))
      (.block (initial.toList ++
        [.loop (condition.getD (.constant (.bool true))) (loopRound body step)])) m := by
  intro bound rest hdangling hbound
  obtain ⟨bound, rfl⟩ := Nat.exists_eq_add_one_of_ne_zero (Nat.ne_zero_of_lt hbound)
  refine takes_statement_of_lead (by rw [hlead]; rfl) fun endLine faults => ?_
  simp only [List.cons_append, List.append_assoc, List.length_cons] at hbound ⊢
  have hfirst := hinitial (bound + 1)
    (conditionTokens ++ semicolon :: (stepTokens ++ rparen :: (others ++ rest))) (by omega)
    endLine faults
  rw [List.length_append] at hbound
  have hcondition := htest (bound + 1) .semicolon semicolon
    (stepTokens ++ rparen :: (others ++ rest)) hend (Or.inl rfl) (by omega) endLine faults
  rw [List.length_append, List.length_cons] at hbound
  have hincrement := hstep (bound + 1) .rightParen rparen (others ++ rest) hclose (Or.inr rfl)
    (by omega) endLine faults
  rw [List.length_append, List.length_cons] at hbound
  have hbody := hinner bound rest hdangling (by omega) endLine faults
  have hround : Reader.forLoop initial condition step body = .block (initial.toList ++
      [.loop (condition.getD (.constant (.bool true))) (loopRound body step)]) := by
    cases step <;> rfl
  simp only [hlead, Reader.forStatement, Reader.bind_apply,
    Reader.expect_of_kind (Kind.isMark_iff.mpr hopen), hfirst, hcondition,
    Reader.expect_of_kind (Kind.isMark_iff.mpr hend), hincrement,
    Reader.expect_of_kind (Kind.isMark_iff.mpr hclose), hbody, Reader.pure_apply, hround]

/-! ### Declarations -/

theorem takes_declaration {bound : Nat} {tree : Stmt}
    (h : Takes (Reader.declarationRule (bound + 1) (Reader.statement bound)
      (Reader.declaration bound)) n tokens tree m rest) :
    Takes (Reader.declaration (bound + 1)) n tokens (some tree) m rest := by
  intro endLine faults
  rw [Reader.declaration, Reader.recover, h endLine faults]

theorem completeAt_function {fun_ name lparen rparen : Token} {params : List Token}
    {body : List Stmt} (hlead : fun_.IsKeyword .fun_) (hname : name.kind = .identifier)
    (hopen : lparen.IsMark .leftParen) (hparams : CompleteAt .parameterList n tokens params n)
    (hclose : rparen.IsMark .rightParen) (hlimit : params.length ≤ arityLimit)
    (hblock : CompleteAt .block n others body m) :
    CompleteAt .declaration n
      (fun_ :: name :: lparen :: (tokens ++ rparen :: others)) (.function name params body) m := by
  obtain ⟨lbrace, bodyTokens, rfl, hbrace, hrule⟩ := hblock
  intro bound rest _ hbound
  obtain ⟨bound, rfl⟩ := Nat.exists_eq_add_one_of_ne_zero (Nat.ne_zero_of_lt hbound)
  refine takes_declaration fun endLine faults => ?_
  simp only [List.cons_append, List.append_assoc, List.length_cons] at hbound ⊢
  have hlist := hparams (bound + 1) rparen (lbrace :: (bodyTokens ++ rest)) hclose (by omega)
    hlimit endLine faults
  simp only [List.length_append, List.length_cons] at hbound
  have hbody := hrule bound rest (by rw [List.length_append]; omega) endLine faults
  rw [Reader.declarationRule, Reader.bind_apply,
    Reader.accept?_of_kind (Kind.isKeyword_iff.mpr hlead)]
  simp only [Reader.functionDeclaration, Reader.bind_apply,
    Reader.expect_of_kind (Kind.isIdentifier_iff.mpr hname),
    Reader.expect_of_kind (Kind.isMark_iff.mpr hopen), hlist,
    Reader.expect_of_kind (Kind.isMark_iff.mpr hclose),
    Reader.expect_of_kind (Kind.isMark_iff.mpr hbrace), hbody, Reader.pure_apply]

theorem completeAt_var {tree : Stmt} (h : CompleteAt .variableDeclaration n tokens tree m) :
    CompleteAt .declaration n tokens tree m := by
  obtain ⟨var_, others, rfl, hlead, hrule⟩ := h
  intro bound rest _ hbound
  obtain ⟨bound, rfl⟩ := Nat.exists_eq_add_one_of_ne_zero (Nat.ne_zero_of_lt hbound)
  refine takes_declaration fun endLine faults => ?_
  have hdeclaration := hrule (bound + 1) rest (Nat.lt_of_succ_lt hbound) endLine faults
  rw [List.cons_append, Reader.declarationRule, Reader.bind_apply,
    Reader.accept?_of_head (by simp [hlead, Kind.isKeyword])]
  simp only [Reader.bind_apply, Reader.accept?_of_kind (Kind.isKeyword_iff.mpr hlead),
    hdeclaration]

/-- A statement is read as a declaration just as well. -/
theorem takes_declaration_of_statement {bound : Nat} {tree : Stmt}
    (hopens : StartsIn opensStatement tokens)
    (h : Takes (Reader.statement (bound + 1)) n tokens tree m rest) :
    Takes (Reader.declaration (bound + 1)) n tokens (some tree) m rest := by
  refine takes_declaration fun endLine faults => ?_
  have hstart := hopens.append rest
  have hrule := h endLine faults
  rw [Reader.declarationRule, Reader.bind_apply, Reader.accept?_of_head
    (hstart.head_eq_false fun kind hkind => (opensStatement_cases hkind).2.1)]
  simp only [Reader.bind_apply]
  rw [Reader.accept?_of_head
    (hstart.head_eq_false fun kind hkind => (opensStatement_cases hkind).2.2)]
  rwa [Reader.statement] at hrule

theorem completeAt_statement {tree : Stmt} {dangling : Bool}
    (h : CompleteAt (.statement dangling) n tokens tree m)
    (hopens : StartsIn opensStatement tokens) : CompleteAt .declaration n tokens tree m := by
  intro bound rest helse hbound
  obtain ⟨bound, rfl⟩ := Nat.exists_eq_add_one_of_ne_zero (Nat.ne_zero_of_lt hbound)
  exact takes_declaration_of_statement hopens (h (bound + 1) rest (fun _ => helse) hbound)

/-- A rule of a symbol takes the phrases that have a strict derivation from it. -/
theorem derives_complete {symbol : Symbol} {tree : symbol.Tree}
    (h : Derives true symbol n tokens tree m) : CompleteAt symbol n tokens tree m := by
  induction h with
  | program _ _ _ => trivial
  | lone _ _ _ => trivial
  | nothing => exact completeAt_nothing _
  | declarations hhead htail ihHead ihTail =>
      exact completeAt_declarations (derives_opens hhead) ihHead ihTail htail
  | function hlead hname hopen _ hclose hlimit _ ihParams ihBlock =>
      exact completeAt_function hlead hname hopen ihParams hclose hlimit ihBlock
  | var_ _ ih => exact completeAt_var ih
  | statement hstatement ih => exact completeAt_statement ih (derives_opens hstatement)
  | block hopen _ hclose ih => exact completeAt_block hopen ih hclose
  | uninitialized hlead hname hend => exact completeAt_uninitialized hlead hname hend _
  | initialized hlead hname hequal _ hend ih =>
      exact completeAt_initialized hlead hname hequal ih hend
  | expression hstatement ih => exact completeAt_expression ih (derives_opens hstatement)
  | for_ hlead hopen _ _ hend _ hclose _ ihInitial ihTest ihStep ihInner =>
      exact completeAt_for hlead hopen ihInitial ihTest hend ihStep hclose ihInner
  | if_ hlead hopen _ hclose _ ihTest ihInner =>
      exact completeAt_if hlead hopen ihTest hclose ihInner
  | ifElse hlead hopen _ hclose _ hnearest helse _ ihTest ihInner ihOther =>
      cases hnearest rfl
      exact completeAt_ifElse hlead hopen ihTest hclose ihInner helse ihOther
  | print hlead _ hend ih => exact completeAt_print hlead ih hend
  | return_ hlead _ hend ih => exact completeAt_return hlead ih hend
  | while_ hlead hopen _ hclose _ ihTest ihInner =>
      exact completeAt_while hlead hopen ihTest hclose ihInner
  | blockStatement _ ih => exact completeAt_blockStatement ih
  | expressionStatement _ hend ih => exact completeAt_expressionStatement ih hend
  | noInitializer hend => exact completeAt_noInitializer hend _
  | initialVariable _ ih => exact completeAt_initialVariable ih
  | initialExpression hstatement ih =>
      exact completeAt_initialExpression ih (derives_opens hstatement)
  | parameter hname => exact completeAt_parameter hname _
  | parameters hname hcomma _ ih => exact completeAt_parameters hname hcomma ih
  | noParameters => exact completeAt_noParameters _
  | someParameters hparams ih => exact completeAt_someParameters ih (derives_opens hparams)
  | noExpression => exact completeAt_noExpression _
  | someExpression hvalue ih => exact completeAt_someExpression ih (derives_opens hvalue)
  | tighter htighter hvalue ih => exact Level.complete_tighter htighter ih (derives_opens hvalue)
  | assign hname hequal hvalue ih =>
      exact Level.complete_assign hname hequal
        (Level.complete_tighter rfl ih (derives_opens hvalue))
  | operator htighter _ hsign _ ihLeft ihRight =>
      exact Level.complete_operator htighter ihLeft hsign ihRight
  | unary hsign _ ih => exact Level.complete_unary hsign ih
  | call _ hopen _ hclose hlimit ihCallee ihArguments =>
      exact Level.complete_call ihCallee hopen ihArguments hclose hlimit
  | number hliteral => exact Level.complete_literal (by rw [hliteral]; rfl) _
  | string hliteral => exact Level.complete_literal (by rw [hliteral]; rfl) _
  | true_ hword => exact Level.complete_literal (by rw [hword]; rfl) _
  | false_ hword => exact Level.complete_literal (by rw [hword]; rfl) _
  | nil_ hword => exact Level.complete_literal (by rw [hword]; rfl) _
  | name hname => exact Level.complete_name hname _
  | group hopen _ hclose ih => exact Level.complete_group hopen ih hclose
  | argument _ ih => exact Level.completeArguments_one ih
  | arguments _ hcomma _ ihValue ihTail => exact Level.completeArguments_more ihValue hcomma ihTail
  | noArguments => exact Level.completeArgumentList_none _
  | someArguments harguments ih =>
      exact Level.completeArgumentList_some ih (derives_opens harguments)

end Scriptlet.Grammar
