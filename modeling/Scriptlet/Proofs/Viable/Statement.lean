/-
The rules for statements and declarations, each against its line of the grammar.

What stands behind a statement may begin with `else`, but only if an `else` with a statement could
be taken as part of the statement just as well.  That is what makes it right to leave an `else` to
the nearest `if`.
-/
import Scriptlet.Proofs.Reading.Spends
import Scriptlet.Proofs.Viable.Expression

namespace Scriptlet.Viable

open Reader Computability

variable {α : Type} {C : Language Terminal → Prop} {K L : Language Terminal} {bound : Nat}

/-- An `else` that stands behind a statement may be taken for the statement's own. -/
def Rejoins (K : Language Terminal) : Prop :=
  ∀ w, .keyword .else_ :: w ∈ K → w ∈ language (.name .statement) * K

/-- No word begins with anything else than one of the terminals. -/
def StopsAt (terminals : List Terminal) (K : Language Terminal) : Prop :=
  ∀ w ∈ K, ∀ t, w.head? = some t → t ∈ terminals

theorem Opens.stopsAt {terminals : List Terminal} (h : Opens terminals K) :
    StopsAt terminals K := by
  intro w hw t hhead
  obtain ⟨t', ht', hhead'⟩ := h w hw
  obtain rfl := Option.some.inj (hhead.symm.trans hhead')
  exact ht'

theorem StopsAt.avoids {terminals others : List Terminal} (h : StopsAt terminals K)
    (hnone : ∀ t ∈ others, t ∉ terminals) : Avoids others K :=
  fun w hw t ht hhead => hnone t ht (h w hw t hhead)

theorem Avoids.rejoins (h : Avoids [.keyword .else_] K) : Rejoins K :=
  fun _ hw => absurd rfl (h _ hw _ (List.mem_singleton_self _))

/-- Behind the first branch of an `if`, its own `else` comes before any other. -/
theorem Rejoins.branch (h : Rejoins K) :
    Rejoins (((lead [.keyword .else_] fun _ => language (.name .statement)) + 1) * K) := by
  intro w hw
  rw [add_mul, one_mul, lead_mul, Language.mem_add, cons_mem_lead] at hw
  have hbehind : w ∈ language (.name .statement) * K := hw.elim And.right (h w)
  obtain ⟨v, hv, u, hu, rfl⟩ := Language.mem_mul.mp hbehind
  apply Language.append_mem_mul hv
  rw [add_mul, one_mul]
  exact Or.inr hu

/-! ### Expressions in statements -/

/-- An expression and the token that has to be behind it. -/
theorem predicts_expression_expect {t : Terminal} {kind : Kind → Bool} {fault : GrammarFault}
    {next : Expr → Token → Reader α} (hkind : Tells kind [t]) (hgrave : fault.isMild = false)
    (hnot : ∀ u ∈ continuing, u ∉ [t]) (hnext : ∀ value token, Predicts (next value token) L C) :
    Predicts (expression bound >>= fun value => expect kind fault >>= next value)
      (language (.name .expression) * lead [t] fun _ => L) C := by
  apply (predicts_expression bound).bind
  · exact fun value => Predicts.expect hkind hgrave (hnext value)
  · exact fun K _ => ((opens_lead _).mul K).avoids hnot

theorem predicts_optionalExpression {closing : Mark} (hhead : .mark closing ∉ expressionHeads)
    (hnot : ∀ u ∈ continuing, u ∉ [Terminal.mark closing]) :
    Predicts (optionalExpression bound closing) (language (.name .expression) + 1)
      (Opens [.mark closing]) := by
  have hsome : Predicts (some <$> expression bound) (language (.name .expression))
      (Opens [.mark closing]) :=
    ((predicts_expression bound).map some).mono fun K hK => hK.avoids hnot
  exact hsome.unless (tells_mark closing) none (opens_name .expression) hhead

/-- An optional expression and the token that has to be behind it. -/
theorem predicts_optionalExpression_expect {closing : Mark} {fault : GrammarFault}
    {next : Option Expr → Token → Reader α} (hgrave : fault.isMild = false)
    (hhead : .mark closing ∉ expressionHeads)
    (hnot : ∀ u ∈ continuing, u ∉ [Terminal.mark closing])
    (hnext : ∀ value token, Predicts (next value token) L C) :
    Predicts
      (optionalExpression bound closing >>= fun value =>
        expect (·.isMark closing) fault >>= next value)
      ((language (.name .expression) + 1) * lead [.mark closing] fun _ => L) C := by
  apply (predicts_optionalExpression hhead hnot).bind
  · exact fun value => Predicts.expect (tells_mark closing) hgrave (hnext value)
  · exact fun K _ => (opens_lead _).mul K

theorem predicts_expressionStatement (bound : Nat) :
    Predicts (expressionStatement bound) (language (.name .expressionStatement)) C := by
  rw [language_name, rule, language_mul, language_oneOf]
  exact predicts_expression_expect (tells_mark .semicolon) rfl (by decide)
    fun value _ => predicts_pure _

/-- What stands behind `var`. -/
def behindVar : Language Terminal :=
  lead [.identifier] fun _ =>
    ((lead [.mark .equal] fun _ => language (.name .expression)) + 1) *
      lead [.mark .semicolon] fun _ => 1

theorem language_variableDeclaration :
    language (.name .variableDeclaration) = lead [.keyword .var_] fun _ => behindVar := by
  rw [language_name]
  simp only [rule, language_mul, language_maybe, language_oneOf, lead_mul, one_mul, behindVar]

theorem predicts_initialValue (bound : Nat) :
    Predicts (initialValue bound)
      ((lead [.mark .equal] fun _ => language (.name .expression)) + 1)
      (Opens [.mark .semicolon]) := by
  apply Predicts.orNothing (tells_mark .equal)
  · exact fun equals _ =>
      ((predicts_expression bound).map some).mono fun K hK => hK.avoids (by decide)
  · exact predicts_pure none
  · exact fun K hK => hK.avoids (by decide)

theorem predicts_variableDeclaration (bound : Nat) :
    Predicts (variableDeclaration bound) behindVar C := by
  apply Predicts.expect tells_identifier rfl
  intro name
  apply (predicts_initialValue bound).bind
  · exact fun initial =>
      Predicts.expect (tells_mark .semicolon) rfl fun _ => predicts_pure _
  · exact fun K _ => (opens_lead _).mul K

/-! ### Blocks and functions -/

section Members

variable {member : Reader (Option Stmt)}

/-- The reader stops where the word ends or goes on with one of the terminals, and only there. -/
theorem stops_goesOn {stop : Kind → Bool} {terminals : List Terminal}
    (hstop : Tells stop terminals) (cursor : Cursor) :
    (cursor.rest.head?.all (fun token => stop token.kind) = true ∧
        ∀ w, GoesOn cursor.rest w → ∀ t, w.head? = some t → t ∈ terminals) ∨
      ¬cursor.rest.head?.all (fun token => stop token.kind) = true ∧
        ∀ w, GoesOn cursor.rest w → ∃ t, w.head? = some t ∧ t ∉ terminals := by
  cases hrest : cursor.rest with
  | nil =>
      refine Or.inl ⟨rfl, fun w hw t hhead => ?_⟩
      cases hw.symm.trans hhead
  | cons token rest =>
      by_cases hk : stop token.kind = true
      · refine Or.inl ⟨hk, fun w hw t hhead => ?_⟩
        obtain rfl := Option.some.inj (hw.symm.trans hhead)
        exact (hstop _).mp hk
      · exact Or.inr ⟨hk, fun w hw => ⟨_, hw, fun hmem => hk ((hstop _).mpr hmem)⟩⟩

/-- Declarations are read as long as one may begin. -/
theorem Predicts.declarationsUntil {stop : Kind → Bool} {terminals : List Terminal}
    (h : Predicts member (language (.name .declaration)) Rejoins) (hstop : Tells stop terminals)
    (hnot : ∀ t ∈ .keyword .else_ :: terminals, t ∉ declarationHeads)
    (helse : ∀ t ∈ [.keyword .else_], t ∉ terminals) (rounds : Nat) :
    Predicts (declarationsUntil stop member rounds) (language (.name .declaration))∗
      (StopsAt terminals) := by
  have hopens := opens_name .declaration
  have hunfold := Language.one_add_self_mul_kstar_eq_kstar (language (.name .declaration))
  induction rounds with
  | zero => exact predicts_exhausted ⟨[], Language.nil_mem_kstar _⟩
  | succ rounds ih =>
      refine ⟨⟨[], Language.nil_mem_kstar _⟩, fun cursor => ?_⟩
      rw [Reading.declarationsUntil_apply]
      rcases stops_goesOn hstop cursor with ⟨hends, hgoesOn⟩ | ⟨hends, hgoesOn⟩
      · rw [if_pos hends]
        apply ((predicts_pure []).predicted cursor).among
        · rintro _ rfl
          exact Language.nil_mem_kstar _
        · refine fun K hK => ⟨hK, fun w hw hmem => ?_⟩
          rw [← hunfold, add_mul, Language.mem_add, mul_assoc] at hmem
          -- Another declaration cannot begin with a token to stop at.
          refine hmem.resolve_right fun hmember => ?_
          obtain ⟨t, ht, hhead⟩ := hopens.mul _ w hmember
          exact hnot t (List.mem_cons_of_mem _ (hgoesOn w hw t hhead)) ht
      · rw [if_neg hends]
        have hmore : Predicts (member >>= fun first =>
            Reader.declarationsUntil stop member rounds >>= fun rest =>
              pure (first.toList ++ rest))
            (language (.name .declaration) * (language (.name .declaration))∗)
            (StopsAt terminals) := by
          apply h.bind
          · exact fun first => ih.andThen fun rest => predicts_pure _
          · intro K hK
            refine Avoids.rejoins ((hK.avoids helse).many hopens ?_)
            exact fun t ht => hnot t (List.mem_cons.mpr (Or.inl (List.mem_singleton.mp ht)))
        apply (hmore.predicted cursor).among
        · intro w hw
          rw [← hunfold]
          exact Or.inr hw
        · refine fun K hK => ⟨hK, fun w hw hmem => ?_⟩
          rw [← hunfold, add_mul, one_mul, Language.mem_add] at hmem
          -- What stands behind cannot begin with any other token.
          refine hmem.resolve_left fun hbehind => ?_
          obtain ⟨t, hhead, ht⟩ := hgoesOn w hw
          exact ht (hK w hbehind t hhead)

/-- What stands behind the opening brace of a block. -/
def behindBrace : Language Terminal :=
  (language (.name .declaration))∗ * lead [.mark .rightBrace] fun _ => 1

theorem Predicts.blockBody (h : Predicts member (language (.name .declaration)) Rejoins)
    (bound : Nat) : Predicts (blockBody bound member) behindBrace C := by
  apply (h.declarationsUntil (tells_mark .rightBrace) (by decide) (by decide) bound).bind
  · exact fun body => Predicts.expect (tells_mark .rightBrace) rfl fun _ => predicts_pure body
  · exact fun K _ => ((opens_lead _).mul K).stopsAt

theorem predicts_parameters (rounds count : Nat) :
    Predicts (parameters rounds count) (language (.name .parameters))
      (Opens [.mark .rightParen]) := by
  have hrule : language (.name .parameters) =
      lead [.identifier] fun _ =>
        (lead [.mark .comma] fun _ => language (.name .parameters)) + 1 := by
    have hlist := language_name .parameters
    rw [rule, language_list] at hlist
    conv_lhs => rw [hlist, kstar_lead, ← hlist, language_oneOf, lead_mul]
    simp only [one_mul]
  induction rounds generalizing count with
  | zero =>
      refine predicts_exhausted ⟨[.identifier], ?_⟩
      rw [hrule]
      exact cons_mem_lead.mpr ⟨List.mem_singleton_self _, Or.inr rfl⟩
  | succ rounds ih =>
      rw [hrule]
      apply (predicts_limit count rfl).after
      intro _
      apply Predicts.expect tells_identifier rfl
      intro param
      apply Predicts.orNothing (tells_mark .comma)
      · exact fun comma _ => (ih _).andThen fun _ => predicts_pure _
      · exact predicts_pure _
      · exact fun K hK => hK.avoids (by decide)

theorem predicts_parameterList (bound : Nat) :
    Predicts (parameterList bound) (language (.name .parameters) + 1)
      (Opens [.mark .rightParen]) :=
  (predicts_parameters bound 0).unless (tells_mark .rightParen) [] (opens_name .parameters)
    (by decide)

/-- What stands behind `fun`. -/
def behindFun : Language Terminal :=
  lead [.identifier] fun _ => lead [.mark .leftParen] fun _ =>
    (language (.name .parameters) + 1) * lead [.mark .rightParen] fun _ =>
      lead [.mark .leftBrace] fun _ => behindBrace

theorem language_block :
    language (.name .block) = lead [.mark .leftBrace] fun _ => behindBrace := by
  rw [language_name]
  simp only [rule, language_mul, language_many, language_oneOf, lead_mul, one_mul, behindBrace]

theorem language_functionDeclaration :
    language (.name .functionDeclaration) = lead [.keyword .fun_] fun _ => behindFun := by
  rw [language_name]
  simp only [rule, language_mul, language_maybe, language_oneOf, lead_mul, one_mul, mul_assoc,
    language_block, behindFun]

theorem Predicts.functionDeclaration
    (h : Predicts member (language (.name .declaration)) Rejoins) (bound : Nat) :
    Predicts (functionDeclaration bound member) behindFun C := by
  apply Predicts.expect tells_identifier rfl
  intro name
  apply Predicts.expect (tells_mark .leftParen) rfl
  intro _
  apply (predicts_parameterList bound).bind
  · intro params
    apply Predicts.expect (tells_mark .rightParen) rfl
    intro _
    apply Predicts.expect (tells_mark .leftBrace) rfl
    exact fun _ => (h.blockBody bound).andThen fun body => predicts_pure _
  · exact fun K _ => (opens_lead _).mul K

end Members

/-! ### Statements -/

section Statements

variable {inner : Reader Stmt} {member : Reader (Option Stmt)}

/-- What stands behind `if`. -/
def behindIf : Language Terminal :=
  lead [.mark .leftParen] fun _ => language (.name .expression) * lead [.mark .rightParen] fun _ =>
    language (.name .statement) *
      ((lead [.keyword .else_] fun _ => language (.name .statement)) + 1)

theorem Predicts.ifStatement (h : Predicts inner (language (.name .statement)) Rejoins)
    (bound : Nat) : Predicts (ifStatement bound inner) behindIf Rejoins := by
  apply Predicts.expect (tells_mark .leftParen) rfl
  intro _
  apply predicts_expression_expect (tells_mark .rightParen) rfl (by decide)
  intro condition _
  apply h.bind
  · intro whenTrue
    apply Predicts.accept (tells_keyword .else_)
    · exact fun _ _ => h.andThen fun whenFalse => predicts_pure _
    · exact predicts_pure _
    · -- Whatever `else` is seen is taken, which is what the condition allows.
      intro K hK t ht w hw
      obtain rfl := List.mem_singleton.mp ht
      rw [one_mul] at hw
      exact hK w hw
  · exact fun K hK => hK.branch

/-- What stands behind `while`. -/
def behindWhile : Language Terminal :=
  lead [.mark .leftParen] fun _ => language (.name .expression) * lead [.mark .rightParen] fun _ =>
    language (.name .statement)

theorem Predicts.whileStatement (h : Predicts inner (language (.name .statement)) Rejoins)
    (bound : Nat) : Predicts (whileStatement bound inner) behindWhile Rejoins := by
  apply Predicts.expect (tells_mark .leftParen) rfl
  intro _
  apply predicts_expression_expect (tells_mark .rightParen) rfl (by decide)
  exact fun condition _ => h.andThen fun body => predicts_pure _

/-- The first clause of a `for`. -/
def initializers : Language Terminal :=
  (lead [.mark .semicolon] fun _ => 1) +
    ((lead [.keyword .var_] fun _ => behindVar) + language (.name .expressionStatement))

theorem predicts_forInitializer (bound : Nat) :
    Predicts (forInitializer bound) initializers C := by
  apply Predicts.orElse (tells_mark .semicolon)
  · exact fun _ _ => predicts_pure none
  · apply Predicts.orElse (tells_keyword .var_)
    · exact fun _ _ => (predicts_variableDeclaration bound).map some
    · exact (predicts_expressionStatement bound).map some
    · exact opens_name .expressionStatement
    · decide
  · exact (opens_lead _).add (opens_name .expressionStatement)
  · decide

/-- What stands behind `for`. -/
def behindFor : Language Terminal :=
  lead [.mark .leftParen] fun _ =>
    initializers * ((language (.name .expression) + 1) * lead [.mark .semicolon] fun _ =>
      (language (.name .expression) + 1) * lead [.mark .rightParen] fun _ =>
        language (.name .statement))

theorem Predicts.forStatement (h : Predicts inner (language (.name .statement)) Rejoins)
    (bound : Nat) : Predicts (forStatement bound inner) behindFor Rejoins := by
  apply Predicts.expect (tells_mark .leftParen) rfl
  intro _
  apply (predicts_forInitializer (C := fun _ => True) bound).bind
  · intro initial
    apply predicts_optionalExpression_expect rfl (by decide) (by decide)
    intro condition _
    apply predicts_optionalExpression_expect rfl (by decide) (by decide)
    exact fun increment _ => h.andThen fun body => predicts_pure _
  · exact fun _ _ => trivial

/-- What stands behind the terminal that leads a statement. -/
def behindLead : Terminal → Language Terminal
  | .keyword .for_ => behindFor
  | .keyword .if_ => behindIf
  | .keyword .print_ => language (.name .expression) * lead [.mark .semicolon] fun _ => 1
  | .keyword .return_ => (language (.name .expression) + 1) * lead [.mark .semicolon] fun _ => 1
  | .keyword .while_ => behindWhile
  | _ => behindBrace

def leads : List Terminal :=
  [.keyword .for_, .keyword .if_, .keyword .print_, .keyword .return_, .keyword .while_,
    .mark .leftBrace]

theorem tells_leads : Tells leadsStatement leads := by
  intro k
  cases k with
  | mark mark => cases mark <;> simp [leadsStatement, terminal, leads]
  | keyword keyword => cases keyword <;> simp [leadsStatement, terminal, leads]
  | _ => simp [leadsStatement, terminal, leads]

/-- A line of the grammar that begins with its own lead. -/
theorem language_led {name : Name} {t : Terminal}
    (h : language (rule name) = lead [t] fun _ => behindLead t) :
    language (.name name) = lead [t] behindLead := by
  rw [language_name, h]
  exact lead_congr fun _ hmem => congrArg behindLead (List.mem_singleton.mp hmem).symm

/-- Every line of the grammar for a statement, but the one for expressions, begins with its lead. -/
theorem language_statement :
    language (.name .statement) =
      lead leads behindLead + language (.name .expressionStatement) := by
  have hinitial : (lead [.keyword .var_] fun _ => behindVar) +
      language (.name .expressionStatement) + (lead [.mark .semicolon] fun _ => 1) =
        initializers := add_comm _ _
  have hfor : language (.name .forStatement) = lead [.keyword .for_] behindLead := by
    apply language_led
    simp only [rule, language_mul, language_add, language_maybe, language_oneOf, lead_mul, one_mul,
      mul_assoc, language_variableDeclaration, hinitial, behindLead, behindFor]
  have hif : language (.name .ifStatement) = lead [.keyword .if_] behindLead := by
    apply language_led
    simp only [rule, language_mul, language_maybe, language_oneOf, lead_mul, one_mul, mul_assoc,
      behindLead, behindIf]
  have hprint : language (.name .printStatement) = lead [.keyword .print_] behindLead := by
    apply language_led
    simp only [rule, language_mul, language_oneOf, lead_mul, one_mul, behindLead]
  have hreturn : language (.name .returnStatement) = lead [.keyword .return_] behindLead := by
    apply language_led
    simp only [rule, language_mul, language_maybe, language_oneOf, lead_mul, one_mul, behindLead]
  have hwhile : language (.name .whileStatement) = lead [.keyword .while_] behindLead := by
    apply language_led
    simp only [rule, language_mul, language_oneOf, lead_mul, one_mul, mul_assoc, behindLead,
      behindWhile]
  have hblock : language (.name .block) = lead [.mark .leftBrace] behindLead :=
    language_led ((language_name .block).symm.trans language_block)
  have hleads : leads = [.keyword .for_] ++ ([.keyword .if_] ++ ([.keyword .print_] ++
      ([.keyword .return_] ++ ([.keyword .while_] ++ [.mark .leftBrace])))) := rfl
  rw [language_name, add_comm (lead leads behindLead), hleads]
  simp only [rule, language_add, lead_append, add_assoc, hfor, hif, hprint, hreturn, hwhile, hblock]

theorem Predicts.statementRule (hinner : Predicts inner (language (.name .statement)) Rejoins)
    (hmember : Predicts member (language (.name .declaration)) Rejoins) (bound : Nat) :
    Predicts (statementRule bound inner member) (language (.name .statement)) Rejoins := by
  rw [language_statement]
  apply Predicts.orElse tells_leads
  · intro token htoken
    rcases Grammar.leadsStatement_cases htoken with h | h | h | h | h | h
    · simp only [h]
      exact hinner.forStatement bound
    · simp only [h]
      exact hinner.ifStatement bound
    · simp only [h]
      exact predicts_expression_expect (tells_mark .semicolon) rfl (by decide)
        fun value _ => predicts_pure _
    · simp only [h]
      exact predicts_optionalExpression_expect rfl (by decide) (by decide)
        fun value _ => predicts_pure _
    · simp only [h]
      exact hinner.whileStatement bound
    · simp only [h]
      exact (hmember.blockBody bound).map _
  · exact predicts_expressionStatement bound
  · exact opens_name .expressionStatement
  · decide

theorem Predicts.declarationRule (hinner : Predicts inner (language (.name .statement)) Rejoins)
    (hmember : Predicts member (language (.name .declaration)) Rejoins) (bound : Nat) :
    Predicts (declarationRule bound inner member) (language (.name .declaration)) Rejoins := by
  rw [language_name]
  simp only [rule, language_add, language_functionDeclaration, language_variableDeclaration,
    add_assoc]
  apply Predicts.orElse (tells_keyword .fun_)
  · exact fun _ _ => hmember.functionDeclaration bound
  · apply Predicts.orElse (tells_keyword .var_)
    · exact fun _ _ => predicts_variableDeclaration bound
    · exact hinner.statementRule hmember bound
    · exact opens_name .statement
    · decide
  · exact (opens_lead _).add (opens_name .statement)
  · decide

/-- A name with a semicolon is a statement, so there is one. -/
theorem identifier_mem_statement :
    [.identifier, .mark .semicolon] ∈ language (.name .statement) :=
  .name (.one (.one (.one (.one (.one (.one (.name
    (.sequence identifier_mem_expression (.oneOf (List.mem_singleton_self _))))))))))

theorem predicts_statement_declaration (bound : Nat) :
    Predicts (statement bound) (language (.name .statement)) Rejoins ∧
      Predicts (declaration bound) (language (.name .declaration)) Rejoins := by
  induction bound with
  | zero =>
      exact ⟨predicts_exhausted ⟨_, identifier_mem_statement⟩,
        predicts_exhausted ⟨_, .name (.other identifier_mem_statement)⟩⟩
  | succ bound ih =>
      exact ⟨ih.1.statementRule ih.2 (bound + 1), (ih.1.declarationRule ih.2 (bound + 1)).recover⟩

/-- Nothing may stand behind a program. -/
theorem predicts_program (bound : Nat) :
    Predicts (program bound) (language (.name .declaration))∗ (StopsAt []) :=
  (predicts_statement_declaration bound).2.declarationsUntil (fun _ => by simp) (by decide)
    (by decide) bound

end Statements

end Scriptlet.Viable
