/-
The rules for expressions, each against its line of the grammar.

An expression ends where the next token could not go on with it, so what stands behind one must not
begin with an operator, an opening parenthesis or an equals sign.
-/
import Scriptlet.Proofs.Viable.Predicts

namespace Scriptlet.Viable

open Reader Computability

variable {inner operand : Reader Expr} {C : Language Terminal → Prop}

/-- The terminals with which an expression goes on, the tightest last. -/
def continuing : List Terminal :=
  [.mark .equal] ++ ([.keyword .or_] ++ ([.keyword .and_] ++
    ([.mark .bangEqual, .mark .equalEqual] ++
      ([.mark .greater, .mark .greaterEqual, .mark .less, .mark .lessEqual] ++
        ([.mark .minus, .mark .plus] ++ ([.mark .slash, .mark .star] ++ [.mark .leftParen]))))))

theorem tells_unaryOperator : Tells isUnaryOperator [.mark .bang, .mark .minus] :=
  (tells_mark .bang).or (tells_mark .minus)

theorem tells_factorOperator : Tells isFactorOperator [.mark .slash, .mark .star] :=
  (tells_mark .slash).or (tells_mark .star)

theorem tells_termOperator : Tells isTermOperator [.mark .minus, .mark .plus] :=
  (tells_mark .minus).or (tells_mark .plus)

theorem tells_comparisonOperator : Tells isComparisonOperator
    [.mark .greater, .mark .greaterEqual, .mark .less, .mark .lessEqual] :=
  (((tells_mark .greater).or (tells_mark .greaterEqual)).or (tells_mark .less)).or
    (tells_mark .lessEqual)

theorem tells_equalityOperator : Tells isEqualityOperator [.mark .bangEqual, .mark .equalEqual] :=
  (tells_mark .bangEqual).or (tells_mark .equalEqual)

theorem tells_constant : Tells (fun kind => (constant? kind).isSome)
    [.number, .string, .keyword .true_, .keyword .false_, .keyword .nil_] := by
  intro k
  cases k with
  | keyword keyword => cases keyword <;> simp [constant?, terminal]
  | _ => simp [constant?, terminal]

theorem predicts_limit (count : Nat) {fault : GrammarFault} (hmild : fault.isMild = true) :
    Predicts (limit count fault) 1 C := by
  rw [limit]
  split
  · exact predicts_report fun cursor => (cursor.isMild_diagnose fault).trans hmild
  · exact predicts_pure ()

section Levels

variable {operators : Kind → Bool} {signs behind : List Terminal} {L : Language Terminal}
  {node : Expr → Token → Expr → Expr}

theorem Predicts.chain (h : Predicts operand L (Avoids behind)) (hsigns : Tells operators signs)
    (hnot : ∀ t ∈ behind, t ∉ signs) (rounds : Nat) (left : Expr) :
    Predicts (chain operators node operand rounds left) (lead signs fun _ => L)∗
      (Avoids (signs ++ behind)) := by
  induction rounds generalizing left with
  | zero => exact predicts_exhausted ⟨[], Language.nil_mem_kstar _⟩
  | succ rounds ih =>
      rw [kstar_lead]
      apply Predicts.orNothing hsigns
      · intro operator _
        apply h.bind (fun right => ih _)
        -- Behind an operand comes another operator of the level, or what stands behind them all.
        intro K hK
        exact (hK.mono (List.subset_append_right _ _)).many (opens_lead _) hnot
      · exact predicts_pure left
      · exact fun K hK => hK.mono (List.subset_append_left _ _)

/-- The rule of a level whose operands are the phrases of the next tighter one. -/
theorem Predicts.level {name tighter : Name} (hrule : rule name = .level tighter signs)
    (h : Predicts operand (language (.name tighter)) (Avoids behind))
    (hsigns : Tells operators signs) (hnot : ∀ t ∈ behind, t ∉ signs) (bound : Nat) :
    Predicts (level bound operators node operand) (language (.name name))
      (Avoids (signs ++ behind)) := by
  rw [language_name, hrule, language_level]
  apply h.bind fun left => h.chain hsigns hnot bound left
  intro K hK
  exact (hK.mono (List.subset_append_right _ _)).many (opens_lead _) hnot

end Levels

section Calls

theorem Predicts.arguments (h : Predicts inner (language (.name .expression)) (Avoids continuing))
    (rounds count : Nat) :
    Predicts (arguments inner rounds count) (language (.name .arguments))
      (Opens [.mark .rightParen]) := by
  have hrule := language_name .arguments
  rw [rule, language_list] at hrule
  induction rounds generalizing count with
  | zero =>
      obtain ⟨w, hw⟩ := h.phrase
      rw [hrule]
      exact predicts_exhausted ⟨w ++ [], Language.append_mem_mul hw (Language.nil_mem_kstar _)⟩
  | succ rounds ih =>
      rw [hrule, kstar_lead, ← hrule]
      apply (predicts_limit count rfl).after
      intro _
      apply h.bind
      · intro argument
        apply Predicts.orNothing (tells_mark .comma)
        · exact fun comma _ => (ih _).andThen fun _ => predicts_pure _
        · exact predicts_pure _
        · exact fun K hK => hK.avoids (by decide)
      · exact fun K hK => (hK.avoids (by decide)).maybe (opens_lead _) (by decide)

theorem Predicts.argumentList
    (h : Predicts inner (language (.name .expression)) (Avoids continuing)) (bound : Nat) :
    Predicts (argumentList bound inner) (language (.name .arguments) + 1)
      (Opens [.mark .rightParen]) :=
  (h.arguments bound 0).unless (tells_mark .rightParen) [] (opens_name .arguments) (by decide)

/-- `( "(" arguments? ")" )*` -/
theorem Predicts.calls (h : Predicts inner (language (.name .expression)) (Avoids continuing))
    (bound rounds : Nat) (callee : Expr) :
    Predicts (calls bound inner rounds callee)
      (lead [.mark .leftParen] fun _ =>
        (language (.name .arguments) + 1) * lead [.mark .rightParen] fun _ => 1)∗
      (Avoids [.mark .leftParen]) := by
  induction rounds generalizing callee with
  | zero => exact predicts_exhausted ⟨[], Language.nil_mem_kstar _⟩
  | succ rounds ih =>
      rw [kstar_lead]
      apply Predicts.orNothing (tells_mark .leftParen)
      · intro paren _
        rw [mul_assoc, lead_mul]
        simp only [one_mul]
        apply (h.argumentList bound).bind
        · intro arguments
          exact Predicts.expect (tells_mark .rightParen) rfl fun paren => ih _
        · exact fun K _ => (opens_lead _).mul K
      · exact predicts_pure callee
      · exact fun K hK => hK

theorem Predicts.primary (h : Predicts inner (language (.name .expression)) (Avoids continuing)) :
    Predicts (primary inner) (language (.name .primary)) C := by
  rw [language_name]
  simp only [rule, language_add, language_mul, language_oneOf, lead_mul, one_mul, add_assoc]
  have hgroup : ∃ w, w ∈ lead [.mark .leftParen] fun _ =>
      language (.name .expression) * lead [.mark .rightParen] fun _ => 1 := by
    obtain ⟨w, hw⟩ := h.phrase
    obtain ⟨v, hv⟩ : ∃ v, v ∈ lead [.mark .rightParen] fun _ => (1 : Language Terminal) :=
      exists_mem_lead ⟨[], rfl⟩
    exact exists_mem_lead ⟨w ++ v, Language.append_mem_mul hw hv⟩
  apply Predicts.orElse tells_constant
  · intro token hconstant
    obtain ⟨value, hvalue⟩ := Option.isSome_iff_exists.mp hconstant
    simp only [hvalue]
    exact predicts_pure _
  · apply Predicts.orElse tells_identifier
    · exact fun name _ => predicts_freshId.andThen fun _ => predicts_pure _
    · apply Predicts.demand (tells_mark .leftParen) _ hgroup
      · intro paren _
        apply h.bind
        · exact fun value => (predicts_expect (tells_mark .rightParen) rfl).andThen
            fun _ => predicts_pure _
        · exact fun K _ => ((opens_lead _).mul K).avoids (by decide)
      · rfl
      · rfl
    · exact opens_lead _
    · decide
  · exact (opens_lead _).add (opens_lead _)
  · decide

theorem Predicts.call (h : Predicts inner (language (.name .expression)) (Avoids continuing))
    (bound : Nat) :
    Predicts (call bound inner) (language (.name .call)) (Avoids [.mark .leftParen]) := by
  rw [language_name]
  simp only [rule, language_mul, language_many, language_maybe, language_oneOf, lead_mul, one_mul]
  apply (h.primary (C := fun _ => True)).bind fun callee => h.calls bound bound callee
  exact fun _ _ => trivial

theorem Predicts.unary (h : Predicts operand (language (.name .call)) C) (rounds : Nat) :
    Predicts (unary operand rounds) (language (.name .unary)) C := by
  have hrule : language (.name .unary) =
      (lead [.mark .bang, .mark .minus] fun _ => language (.name .unary)) +
        language (.name .call) := by
    conv_lhs => rw [language_name]
    simp only [rule, language_add, language_mul, language_oneOf, lead_mul, one_mul]
  obtain ⟨w, hw⟩ := h.phrase
  induction rounds with
  | zero => exact predicts_exhausted ⟨w, hrule ▸ Or.inr hw⟩
  | succ rounds ih =>
      rw [hrule]
      apply Predicts.orElse tells_unaryOperator
      · exact fun operator _ => ih.andThen fun _ => predicts_pure _
      · exact h
      · exact opens_name .call
      · decide

end Calls

theorem Predicts.disjunction
    (h : Predicts inner (language (.name .expression)) (Avoids continuing)) (bound : Nat) :
    Predicts (disjunction bound inner) (language (.name .disjunction))
      (Avoids continuing.tail) := by
  have hunary := (h.call bound).unary bound
  have hfactor : Predicts (factor bound inner) (language (.name .factor)) _ :=
    hunary.level rfl tells_factorOperator (by decide) bound
  have hterm : Predicts (term bound inner) (language (.name .term)) _ :=
    hfactor.level rfl tells_termOperator (by decide) bound
  have hcomparison : Predicts (comparison bound inner) (language (.name .comparison)) _ :=
    hterm.level rfl tells_comparisonOperator (by decide) bound
  have hequality : Predicts (equality bound inner) (language (.name .equality)) _ :=
    hcomparison.level rfl tells_equalityOperator (by decide) bound
  have hconjunction : Predicts (conjunction bound inner) (language (.name .conjunction)) _ :=
    hequality.level rfl (tells_keyword .and_) (by decide) bound
  exact hconjunction.level rfl (tells_keyword .or_) (by decide) bound

theorem predicts_assignTo (target : Expr) (equals : Token) (value : Expr) :
    Predicts (assignTo target equals value) 1 C := by
  cases target with
  | «variable» _ name => exact predicts_freshId.andThen fun _ => predicts_pure _
  | _ => exact (predicts_report fun _ => rfl).andThen fun _ => predicts_pure _

theorem language_expression : language (.name .expression) =
    language (.name .disjunction) *
      ((lead [.mark .equal] fun _ => language (.name .expression)) + 1) := by
  have hassignment : language (.name .expression) = language (.name .assignment) :=
    language_name .expression
  conv_lhs => rw [hassignment, language_name]
  simp only [rule, language_mul, language_maybe, language_oneOf, lead_mul, one_mul, hassignment]

/-- `disjunction ( "=" assignment )?`, the second part for any target. -/
theorem Predicts.assignment (h : Predicts inner (language (.name .expression)) (Avoids continuing))
    (bound : Nat) :
    Predicts (assignment bound inner) (language (.name .expression)) (Avoids continuing) := by
  rw [language_expression]
  apply (h.disjunction bound).bind
  · intro target
    apply Predicts.orNothing (tells_mark .equal)
    · exact fun equals _ => h.andThen fun value => predicts_assignTo target equals value
    · exact predicts_pure target
    · exact fun K hK => hK.mono (by decide)
  · exact fun K hK => (hK.mono (List.tail_subset _)).maybe (opens_lead _) (by decide)

theorem Matches.alone {name tighter : Name} {form : Form} {w : List Terminal}
    (h : Matches (.name tighter) w) (hrule : rule name = .name tighter * .many form) :
    Matches (.name name) w := by
  have hwhole := Matches.sequence h (@Matches.nothing form)
  rw [List.append_nil] at hwhole
  exact .name (hrule ▸ hwhole)

/-- A name is an expression, so there is one. -/
theorem identifier_mem_expression : [.identifier] ∈ language (.name .expression) := by
  have hprimary : Matches (.name .primary) [.identifier] :=
    .name (.one (.other (.oneOf (List.mem_singleton_self _))))
  have hcall : Matches (.name .call) [.identifier] := hprimary.alone rfl
  have hunary : Matches (.name .unary) [.identifier] := .name (.other hcall)
  have hfactor : Matches (.name .factor) [.identifier] := hunary.alone rfl
  have hterm : Matches (.name .term) [.identifier] := hfactor.alone rfl
  have hcomparison : Matches (.name .comparison) [.identifier] := hterm.alone rfl
  have hequality : Matches (.name .equality) [.identifier] := hcomparison.alone rfl
  have hconjunction : Matches (.name .conjunction) [.identifier] := hequality.alone rfl
  have hdisjunction : Matches (.name .disjunction) [.identifier] := hconjunction.alone rfl
  exact .name (.name (.sequence hdisjunction .absent))

theorem predicts_expression (bound : Nat) :
    Predicts (expression bound) (language (.name .expression)) (Avoids continuing) := by
  induction bound with
  | zero => exact predicts_exhausted ⟨_, identifier_mem_expression⟩
  | succ bound ih => exact ih.assignment (bound + 1)

end Scriptlet.Viable
