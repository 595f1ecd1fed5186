/-
What is derivable is read: a rule that stands before a phrase of its symbol
takes exactly that phrase and gives its tree, if what follows cannot continue
it.

A left-associative level is read in rounds, so for these the statement says how
far the rounds have come by the end of the phrase and leaves them running.
-/
import Scriptlet.Proofs.Grammar.Boundary

namespace Scriptlet

namespace Reader

variable {kind : Kind → Bool} {token : Token} {rest : List Token} {endLine n : Nat}
  {faults : List Diagnostic}

theorem accept?_of_kind (h : kind token.kind = true) :
    accept? kind ⟨token :: rest, endLine, n, faults⟩ =
      .ok (some token) ⟨rest, endLine, n, faults⟩ := by
  simp [accept?, h]

theorem accept?_of_head (h : ∀ token ∈ rest.head?, kind token.kind = false) :
    accept? kind ⟨rest, endLine, n, faults⟩ = .ok none ⟨rest, endLine, n, faults⟩ := by
  cases rest with
  | nil => rfl
  | cons token rest => simp [accept?, h token rfl]

theorem expect_of_kind {fault : GrammarFault} (h : kind token.kind = true) :
    expect kind fault ⟨token :: rest, endLine, n, faults⟩ =
      .ok token ⟨rest, endLine, n, faults⟩ := by
  simp [expect, accept?_of_kind h]

theorem looksAt_of_kind (h : kind token.kind = true) :
    looksAt kind ⟨token :: rest, endLine, n, faults⟩ =
      .ok true ⟨token :: rest, endLine, n, faults⟩ := by
  simp [looksAt, h]

theorem looksAt_of_head (h : ∀ token ∈ rest.head?, kind token.kind = false) :
    looksAt kind ⟨rest, endLine, n, faults⟩ = .ok false ⟨rest, endLine, n, faults⟩ := by
  cases rest with
  | nil => rfl
  | cons token rest => simp [looksAt, h token rfl]

end Reader

namespace Grammar

namespace Level

/-- The rule that reads phrases of the level, nested at most `bound` deep.  Signs
before an operand are counted apart. -/
def rule (bound signs : Nat) : Level → Reader Expr
  | expression => Reader.expression (bound + 1)
  | assignment => Reader.assignment (bound + 1) (Reader.expression bound)
  | disjunction => Reader.disjunction (bound + 1) (Reader.expression bound)
  | conjunction => Reader.conjunction (bound + 1) (Reader.expression bound)
  | equality => Reader.equality (bound + 1) (Reader.expression bound)
  | comparison => Reader.comparison (bound + 1) (Reader.expression bound)
  | term => Reader.term (bound + 1) (Reader.expression bound)
  | factor => Reader.factor (bound + 1) (Reader.expression bound)
  | unary => Reader.unary (Reader.call (bound + 1) (Reader.expression bound)) signs
  | call => Reader.call (bound + 1) (Reader.expression bound)
  | primary => Reader.primary (Reader.expression bound)

/-- The test for the operators of a level. -/
def isOperator : Level → Kind → Bool
  | disjunction => (·.isKeyword .or_)
  | conjunction => (·.isKeyword .and_)
  | equality => Reader.isEqualityOperator
  | comparison => Reader.isComparisonOperator
  | term => Reader.isTermOperator
  | factor => Reader.isFactorOperator
  | _ => fun _ => false

theorem isOperator_iff (level : Level) (kind : Kind) :
    level.isOperator kind = true ↔ kind ∈ level.operators := by
  cases level <;> simp [isOperator, operators, Reader.isEqualityOperator,
    Reader.isComparisonOperator, Reader.isTermOperator, Reader.isFactorOperator, or_assoc]

/-- The level is read in rounds. -/
def InRounds (level : Level) : Prop :=
  level.operators ≠ [] ∨ level = .call

/-- What the rule does from the end of a phrase on: further rounds, if it has
them. -/
def resume (bound left : Nat) (value : Expr) (level : Level) : Reader Expr :=
  match level with
  | call => Reader.calls (bound + 1) (Reader.expression bound) left value
  | level =>
      match level.operators, level.tighter? with
      | _ :: _, some next =>
          Reader.chain level.isOperator level.node (next.rule bound (bound + 1)) left value
      | _, _ => return value

variable {level next : Level} {bound left signs n m k endLine : Nat} {value : Expr}
  {tokens others rest : List Token} {faults : List Diagnostic}

theorem resume_eq_chain {sign : Kind} (htighter : level.tighter? = some next)
    (hsign : sign ∈ level.operators) :
    level.resume bound left value =
      Reader.chain level.isOperator level.node (next.rule bound (bound + 1)) left value := by
  cases level <;> first | (cases htighter; rfl) | cases hsign

theorem rule_eq_bind (hrounds : level.InRounds) (htighter : level.tighter? = some next) :
    level.rule bound signs =
      next.rule bound (bound + 1) >>= fun first => level.resume bound (bound + 1) first := by
  cases level <;> cases htighter <;>
    first | rfl | (rcases hrounds with h | h <;> first | exact absurd rfl h | cases h)

theorem inside_eq_continuing (hrounds : level.InRounds) (htighter : level.tighter? = some next) :
    level.inside = next.continuing := by
  cases level <;> cases htighter <;>
    first | rfl | (rcases hrounds with h | h <;> first | exact absurd rfl h | cases h)

/-- Behind a phrase that nothing continues there are no more rounds. -/
theorem resume_stop (hrest : Stops level.continuing rest) (hleft : 0 < left) :
    level.resume bound left value ⟨rest, endLine, n, faults⟩ =
      .ok value ⟨rest, endLine, n, faults⟩ := by
  obtain ⟨left, rfl⟩ := Nat.exists_eq_add_one_of_ne_zero (Nat.ne_of_gt hleft)
  have hchain : ∀ operand : Reader Expr,
      Reader.chain level.isOperator level.node operand (left + 1) value
        ⟨rest, endLine, n, faults⟩ = .ok value ⟨rest, endLine, n, faults⟩ := by
    intro operand
    have hoperator : ∀ token ∈ rest.head?, level.isOperator token.kind = false := by
      intro token htoken
      rw [← Bool.not_eq_true, isOperator_iff]
      exact fun h => hrest token htoken (level.operators_subset h)
    simp [Reader.chain, Reader.accept?_of_head hoperator]
  have hcalls : .mark .leftParen ∈ level.continuing → ∀ inner : Reader Expr,
      Reader.calls (bound + 1) inner (left + 1) value ⟨rest, endLine, n, faults⟩ =
        .ok value ⟨rest, endLine, n, faults⟩ := by
    intro hmem inner
    have hparen : ∀ token ∈ rest.head?, token.kind.isMark .leftParen = false := by
      intro token htoken
      rw [← Bool.not_eq_true, Kind.isMark_iff]
      exact fun h => hrest token htoken (h ▸ hmem)
    simp [Reader.calls, Reader.accept?_of_head hparen]
  cases level with
  | disjunction | conjunction | equality | comparison | term | factor => exact hchain _
  | call => exact hcalls (List.mem_singleton_self _) _
  | expression | assignment | unary | primary => rfl

/-- The rule has come to the end of the phrase. -/
def Complete (level : Level) (n : Nat) (tokens : List Token) (value : Expr) (m : Nat) : Prop :=
  ∀ (bound signs : Nat) (rest : List Token) (endLine : Nat) (faults : List Diagnostic),
    (tokens ++ rest).length ≤ bound → (tokens ++ rest).length < signs →
      Stops level.inside rest →
        ∃ left, rest.length < left ∧
          level.rule bound signs ⟨tokens ++ rest, endLine, n, faults⟩ =
            level.resume bound left value ⟨rest, endLine, m, faults⟩

theorem Complete.run (h : level.Complete n tokens value m) (bound signs endLine : Nat)
    (faults : List Diagnostic) (hbound : (tokens ++ rest).length ≤ bound)
    (hsigns : (tokens ++ rest).length < signs)
    (hrest : Stops level.continuing rest) :
    level.rule bound signs ⟨tokens ++ rest, endLine, n, faults⟩ =
      .ok value ⟨rest, endLine, m, faults⟩ := by
  obtain ⟨left, hleft, hrule⟩ :=
    h bound signs rest endLine faults hbound hsigns (hrest.mono level.inside_subset)
  rw [hrule, resume_stop hrest (Nat.zero_lt_of_lt hleft)]

/-- A rule that is not read in rounds has to be followed to its end. -/
theorem complete_of_run (hrounds : ¬ level.InRounds)
    (h : ∀ (bound signs : Nat) (rest : List Token) (endLine : Nat) (faults : List Diagnostic),
      (tokens ++ rest).length ≤ bound → (tokens ++ rest).length < signs →
        Stops level.continuing rest →
          level.rule bound signs ⟨tokens ++ rest, endLine, n, faults⟩ =
            .ok value ⟨rest, endLine, m, faults⟩) :
    level.Complete n tokens value m := by
  intro bound signs rest endLine faults hbound hsigns hrest
  refine ⟨rest.length + 1, Nat.lt_succ_self _, ?_⟩
  have hstops : Stops level.continuing rest := by
    rw [InRounds] at hrounds
    cases level with
    | expression | assignment | unary | primary => exact hrest
    | _ => simp [operators] at hrounds
  rw [h bound signs rest endLine faults hbound hsigns hstops,
    resume_stop hstops (Nat.succ_pos _)]

theorem complete_operator {sign : Token} {first right : Expr}
    (htighter : level.tighter? = some next) (hfirst : level.Complete n tokens first k)
    (hsign : sign.kind ∈ level.operators) (hright : next.Complete k others right m) :
    level.Complete n (tokens ++ sign :: others) (level.node first sign right) m := by
  intro bound signs rest endLine faults hbound hsigns hrest
  have hrounds : level.InRounds := Or.inl (List.ne_nil_of_mem hsign)
  rw [inside_eq_continuing hrounds htighter] at hrest
  simp only [List.append_assoc, List.cons_append] at hbound hsigns ⊢
  obtain ⟨left, hlength, hrule⟩ := hfirst bound signs (sign :: (others ++ rest)) endLine faults
    hbound hsigns (stops_cons.mpr (level.operators_not_mem_inside hsign))
  obtain ⟨left, rfl⟩ := Nat.exists_eq_add_one_of_ne_zero (Nat.ne_zero_of_lt hlength)
  simp only [List.length_cons, List.length_append] at hlength hbound
  refine ⟨left, by omega, ?_⟩
  have hothers : (others ++ rest).length ≤ bound := by
    rw [List.length_append]
    omega
  have hoperand := hright.run bound (bound + 1) endLine faults hothers
    (Nat.lt_succ_of_le hothers) hrest
  rw [hrule, resume_eq_chain htighter hsign, resume_eq_chain htighter hsign, Reader.chain,
    Reader.bind_apply, Reader.accept?_of_kind ((level.isOperator_iff _).mpr hsign)]
  simp only [Reader.bind_apply, hoperand]

theorem complete_tighter (htighter : level.tighter? = some next)
    (h : next.Complete n tokens value m) (hopens : Opens (.expr next) tokens) :
    level.Complete n tokens value m := by
  by_cases hrounds : level.InRounds
  · intro bound signs rest endLine faults hbound hsigns hrest
    rw [inside_eq_continuing hrounds htighter] at hrest
    refine ⟨bound + 1, ?_, ?_⟩
    · rw [List.length_append] at hbound
      omega
    · rw [rule_eq_bind hrounds htighter, Reader.bind_apply,
        h.run bound (bound + 1) endLine faults hbound (Nat.lt_succ_of_le hbound) hrest]
  · refine complete_of_run hrounds fun bound signs rest endLine faults hbound hsigns hrest => ?_
    cases level with
    | expression =>
        cases htighter
        exact h.run bound signs endLine faults hbound hsigns hrest
    | assignment =>
        cases htighter
        have hequal : ∀ token ∈ rest.head?, token.kind.isMark .equal = false := by
          intro token htoken
          rw [← Bool.not_eq_true, Kind.isMark_iff]
          exact fun h => hrest token htoken (h ▸ List.mem_cons_self)
        have hrun := h.run bound signs endLine faults hbound hsigns
          (hrest.mono (List.subset_cons_self _ _))
        show Reader.assignment _ _ _ = _
        rw [Reader.assignment, Reader.bind_apply, show Reader.disjunction _ _ _ = _ from hrun]
        simp [Reader.accept?_of_head hequal]
    | unary =>
        cases htighter
        obtain ⟨signs, rfl⟩ := Nat.exists_eq_add_one_of_ne_zero (Nat.ne_zero_of_lt hsigns)
        have hsign := (StartsIn.append hopens rest).head_eq_false
          fun kind => opensOperand_not_sign
        have hrun := h.run bound (bound + 1) endLine faults hbound (Nat.lt_succ_of_le hbound)
          hrest
        show Reader.unary _ _ _ = _
        rw [Reader.unary, Reader.bind_apply, Reader.accept?_of_head hsign]
        exact hrun
    | primary => cases htighter
    | call => exact absurd (Or.inr rfl) hrounds
    | _ => exact absurd (Or.inl (List.cons_ne_nil _ _)) hrounds

theorem complete_unary {sign : Token} (hsign : sign.IsMark .bang ∨ sign.IsMark .minus)
    (h : unary.Complete n tokens value m) :
    unary.Complete n (sign :: tokens) (.unary sign value) m := by
  refine complete_of_run (by simp [InRounds, operators])
    fun bound signs rest endLine faults hbound hsigns hrest => ?_
  obtain ⟨signs, rfl⟩ := Nat.exists_eq_add_one_of_ne_zero (Nat.ne_zero_of_lt hsigns)
  have hkind : Reader.isUnaryOperator sign.kind = true := by
    rcases hsign with hsign | hsign <;> rw [hsign] <;> rfl
  have hrun := h.run bound signs endLine faults (Nat.le_of_succ_le hbound)
    (Nat.lt_of_succ_lt_succ hsigns) hrest
  show Reader.unary _ _ _ = _
  rw [List.cons_append, Reader.unary, Reader.bind_apply, Reader.accept?_of_kind hkind]
  simp only [Reader.bind_apply, show Reader.unary _ _ _ = _ from hrun, Reader.pure_apply]

/-- The nested rule reads a complete expression. -/
theorem Complete.nested (h : expression.Complete n tokens value m) (bound endLine : Nat)
    (faults : List Diagnostic) (hbound : (tokens ++ rest).length < bound)
    (hrest : Stops expression.continuing rest) :
    Reader.expression bound ⟨tokens ++ rest, endLine, n, faults⟩ =
      .ok value ⟨rest, endLine, m, faults⟩ := by
  obtain ⟨bound, rfl⟩ := Nat.exists_eq_add_one_of_ne_zero (Nat.ne_zero_of_lt hbound)
  exact h.run bound (bound + 1) endLine faults (Nat.le_of_lt_succ hbound) hbound hrest

theorem complete_literal {token : Token} {constant : Constant}
    (h : Reader.constant? token.kind = some constant) (n : Nat) :
    primary.Complete n [token] (.constant constant) n := by
  refine complete_of_run (by simp [InRounds, operators])
    fun bound signs rest endLine faults hbound hsigns hrest => ?_
  have hkind : (Reader.constant? token.kind).isSome = true := by rw [h]; rfl
  show Reader.primary _ _ = _
  rw [List.singleton_append, Reader.primary, Reader.bind_apply,
    show Reader.accept? _ _ = _ from Reader.accept?_of_kind hkind]
  simp [h]

theorem complete_name {token : Token} (h : token.kind = .identifier) (n : Nat) :
    primary.Complete n [token] (.variable (.ofCount n) token) (n + 1) := by
  refine complete_of_run (by simp [InRounds, operators])
    fun bound signs rest endLine faults hbound hsigns hrest => ?_
  show Reader.primary _ _ = _
  simp [Reader.primary, Reader.accept?, h, Reader.constant?, Kind.isIdentifier, Reader.freshId]

theorem complete_group {lparen rparen : Token} (hopen : lparen.IsMark .leftParen)
    (h : expression.Complete n tokens value m) (hclose : rparen.IsMark .rightParen) :
    primary.Complete n (lparen :: (tokens ++ [rparen])) (.group value) m := by
  refine complete_of_run (by simp [InRounds, operators])
    fun bound signs rest endLine faults hbound hsigns hrest => ?_
  simp only [List.cons_append, List.append_assoc, List.nil_append] at hbound ⊢
  have hinner := h.nested _ endLine faults hbound (stops_of_mark hclose (by simp) rest)
  show Reader.primary _ _ = _
  rw [Reader.primary, Reader.bind_apply, Reader.accept?_of_head (by simp [hopen, Reader.constant?])]
  simp only [Reader.bind_apply]
  rw [Reader.accept?_of_head (by simp [hopen, Kind.isIdentifier])]
  simp only [Reader.bind_apply]
  rw [Reader.accept?_of_kind (Kind.isMark_iff.mpr hopen)]
  simp only [Reader.bind_apply, hinner, Reader.expect_of_kind (Kind.isMark_iff.mpr hclose),
    Reader.pure_apply]

/-- The rule for arguments reads these ones, behind `count` others. -/
def CompleteArguments (n : Nat) (tokens : List Token) (values : List Expr) (m : Nat) : Prop :=
  ∀ (bound fuel count : Nat) (rparen : Token) (rest : List Token) (endLine : Nat)
    (faults : List Diagnostic), rparen.IsMark .rightParen →
      (tokens ++ rparen :: rest).length < bound → (tokens ++ rparen :: rest).length < fuel →
        count + values.length ≤ arityLimit →
          Reader.arguments (Reader.expression bound) fuel count
              ⟨tokens ++ rparen :: rest, endLine, n, faults⟩ =
            .ok values ⟨rparen :: rest, endLine, m, faults⟩

theorem limit_of_lt {count : Nat} {fault : GrammarFault} {cursor : Cursor}
    (h : count < arityLimit) : Reader.limit count fault cursor = .ok () cursor := by
  have hnot : ¬ Reader.maxArity ≤ count := Nat.not_le_of_lt h
  rw [Reader.limit, if_neg hnot]
  rfl

theorem completeArguments_one (h : expression.Complete n tokens value m) :
    CompleteArguments n tokens [value] m := by
  intro bound fuel count rparen rest endLine faults hclose hbound hfuel hlimit
  obtain ⟨fuel, rfl⟩ := Nat.exists_eq_add_one_of_ne_zero (Nat.ne_zero_of_lt hfuel)
  have hinner := h.nested _ endLine faults hbound (stops_of_mark hclose (by simp) rest)
  rw [Reader.arguments, Reader.bind_apply, limit_of_lt hlimit]
  simp only [Reader.bind_apply, hinner]
  rw [Reader.accept?_of_head (by simp [hclose, Kind.isMark])]
  rfl

theorem completeArguments_more {comma : Token} {values : List Expr}
    (h : expression.Complete n tokens value k) (hcomma : comma.IsMark .comma)
    (htail : CompleteArguments k others values m) :
    CompleteArguments n (tokens ++ comma :: others) (value :: values) m := by
  intro bound fuel count rparen rest endLine faults hclose hbound hfuel hlimit
  obtain ⟨fuel, rfl⟩ := Nat.exists_eq_add_one_of_ne_zero (Nat.ne_zero_of_lt hfuel)
  simp only [List.append_assoc, List.cons_append] at hbound hfuel ⊢
  have hinner := h.nested _ endLine faults hbound
    (stops_of_mark hcomma (by simp) (others ++ rparen :: rest))
  simp only [List.length_append, List.length_cons] at hbound hfuel hlimit
  have hothers := htail bound fuel (count + 1) rparen rest endLine faults hclose
    (by simp only [List.length_append, List.length_cons]; omega)
    (by simp only [List.length_append, List.length_cons]; omega) (by omega)
  rw [Reader.arguments, Reader.bind_apply, limit_of_lt (by omega)]
  simp only [Reader.bind_apply, hinner, Reader.accept?_of_kind (Kind.isMark_iff.mpr hcomma),
    hothers, Reader.pure_apply]

/-- The rule for an argument list reads this one. -/
def CompleteArgumentList (n : Nat) (tokens : List Token) (values : List Expr) (m : Nat) : Prop :=
  ∀ (bound : Nat) (rparen : Token) (rest : List Token) (endLine : Nat)
    (faults : List Diagnostic), rparen.IsMark .rightParen →
      (tokens ++ rparen :: rest).length < bound → values.length ≤ arityLimit →
        Reader.argumentList (bound + 1) (Reader.expression bound)
            ⟨tokens ++ rparen :: rest, endLine, n, faults⟩ =
          .ok values ⟨rparen :: rest, endLine, m, faults⟩

theorem completeArgumentList_none (n : Nat) : CompleteArgumentList n [] [] n := by
  intro bound rparen rest endLine faults hclose hbound hlimit
  rw [Reader.argumentList, Reader.bind_apply, List.nil_append,
    Reader.looksAt_of_kind (Kind.isMark_iff.mpr hclose)]
  rfl

theorem completeArgumentList_some {values : List Expr} (h : CompleteArguments n tokens values m)
    (hopens : StartsIn opensExpression tokens) : CompleteArgumentList n tokens values m := by
  intro bound rparen rest endLine faults hclose hbound hlimit
  have hstart := (hopens.append (rparen :: rest)).head_eq_false
    fun kind hkind => (opensExpression_cases hkind).2.2.2.2.2
  rw [Reader.argumentList, Reader.bind_apply, Reader.looksAt_of_head hstart]
  exact h bound (bound + 1) 0 rparen rest endLine faults hclose hbound
    (Nat.lt_succ_of_lt hbound) (by rwa [Nat.zero_add])

theorem complete_call {lparen rparen : Token} {callee : Expr} {arguments : List Expr}
    (hcallee : call.Complete n tokens callee k) (hopen : lparen.IsMark .leftParen)
    (harguments : CompleteArgumentList k others arguments m)
    (hclose : rparen.IsMark .rightParen) (hlimit : arguments.length ≤ arityLimit) :
    call.Complete n (tokens ++ lparen :: (others ++ [rparen])) (.call callee rparen arguments)
      m := by
  intro bound signs rest endLine faults hbound hsigns hrest
  simp only [List.append_assoc, List.cons_append, List.nil_append] at hbound hsigns ⊢
  obtain ⟨left, hlength, hrule⟩ := hcallee bound signs (lparen :: (others ++ rparen :: rest))
    endLine faults hbound hsigns (stops_cons.mpr List.not_mem_nil)
  obtain ⟨left, rfl⟩ := Nat.exists_eq_add_one_of_ne_zero (Nat.ne_zero_of_lt hlength)
  simp only [List.length_cons, List.length_append] at hlength hbound
  refine ⟨left, by omega, ?_⟩
  have hlist := harguments bound rparen rest endLine faults hclose
    (by simp only [List.length_append, List.length_cons]; omega) hlimit
  rw [hrule]
  show Reader.calls _ _ _ _ _ = Reader.calls _ _ _ _ _
  rw [Reader.calls, Reader.bind_apply, Reader.accept?_of_kind (Kind.isMark_iff.mpr hopen)]
  simp only [Reader.bind_apply, hlist, Reader.expect_of_kind (Kind.isMark_iff.mpr hclose)]

/-- A name alone is a complete phrase at every level. -/
theorem complete_target {name : Token} (h : name.kind = .identifier) (n : Nat) :
    disjunction.Complete n [name] (.variable (.ofCount n) name) (n + 1) := by
  have hopens : StartsIn opensOperand [name] := startsIn_cons.mpr (by rw [h]; rfl)
  have hsigned := hopens.mono fun kind => opensOperand_imp_opensExpression
  have hcall : call.Complete n [name] (.variable (.ofCount n) name) (n + 1) :=
    complete_tighter rfl (complete_name h n) hopens
  have hunary : unary.Complete n [name] (.variable (.ofCount n) name) (n + 1) :=
    complete_tighter rfl hcall hopens
  have hfactor : factor.Complete n [name] (.variable (.ofCount n) name) (n + 1) :=
    complete_tighter rfl hunary hsigned
  have hterm : term.Complete n [name] (.variable (.ofCount n) name) (n + 1) :=
    complete_tighter rfl hfactor hsigned
  have hcomparison : comparison.Complete n [name] (.variable (.ofCount n) name) (n + 1) :=
    complete_tighter rfl hterm hsigned
  have hequality : equality.Complete n [name] (.variable (.ofCount n) name) (n + 1) :=
    complete_tighter rfl hcomparison hsigned
  have hconjunction : conjunction.Complete n [name] (.variable (.ofCount n) name) (n + 1) :=
    complete_tighter rfl hequality hsigned
  exact complete_tighter rfl hconjunction hsigned

theorem complete_assign {name equals : Token} (hname : name.kind = .identifier)
    (hequal : equals.IsMark .equal) (h : expression.Complete (n + 1) tokens value m) :
    assignment.Complete n (name :: equals :: tokens) (.assign (.ofCount m) name value)
      (m + 1) := by
  refine complete_of_run (by simp [InRounds, operators])
    fun bound signs rest endLine faults hbound hsigns hrest => ?_
  simp only [List.cons_append, List.length_cons] at hbound hsigns
  have hends : Stops disjunction.continuing (equals :: (tokens ++ rest)) := by
    rw [stops_cons, hequal]
    simp [continuing, continuing.disjunctionKinds, continuing.conjunctionKinds,
      continuing.equalityKinds, continuing.comparisonKinds, continuing.termKinds,
      continuing.factorKinds, continuing.callKinds, operators]
  have htarget : Reader.disjunction (bound + 1) (Reader.expression bound)
      ⟨name :: equals :: (tokens ++ rest), endLine, n, faults⟩ =
        .ok (.variable (.ofCount n) name) ⟨equals :: (tokens ++ rest), endLine, n + 1, faults⟩ :=
    (complete_target hname n).run bound signs endLine faults
      (by simpa only [List.singleton_append, List.length_cons] using hbound)
      (by simpa only [List.singleton_append, List.length_cons] using hsigns) hends
  have hinner := h.nested bound endLine faults (by omega) hrest
  show Reader.assignment _ _ _ = _
  rw [Reader.assignment, Reader.bind_apply, List.cons_append, List.cons_append, htarget]
  simp only [Reader.bind_apply, Reader.accept?_of_kind (Kind.isMark_iff.mpr hequal), hinner]
  rfl

end Level

end Grammar

end Scriptlet
