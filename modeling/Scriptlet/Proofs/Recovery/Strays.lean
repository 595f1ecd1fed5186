/-
No equals sign of a program is stray, and none becomes so far from a token that is missing.

Whether it is shows in the two tokens before it.  So where a token is missing, only the next two
may become stray, and not both: the first one of them would have to be the name that the second one
assigns to.  If the token is a brace that closes a block, it is neither, for behind that brace
there was no equals sign, and a name behind it was an operand of nothing.
-/
import Scriptlet.Proofs.Recovery.Mild

namespace Scriptlet.Recovery

open Grammar

/-- A stray equals sign, or a brace that closes something where an operand is to come. -/
def awry (before : List Token) (token : Token) : Bool :=
  strayEqual before token || token.kind.isMark .rightBrace && signed before

/-- The levels whose phrases may be operands of a sign. -/
def isOperandLevel : Level → Bool
  | .expression => false
  | .assignment => false
  | _ => true

/-- The symbols whose phrases may be operands of a sign. -/
def isOperand : Symbol → Bool
  | .expr level => isOperandLevel level
  | _ => false

/-- Nothing in the tokens is awry, behind a sign only if they are its operand, and they do not end
in a sign. -/
structure Orderly (operand : Bool) (tokens : List Token) : Prop where
  calm : ∀ before, (operand = false → signed before = false) →
    countAlong awry before tokens = 0
  ends : ∀ before, (tokens = [] → signed before = false) →
    signed (tokens.reverse ++ before) = false

/-- Kinds of tokens that can stand anywhere, and behind which no operand need come. -/
def isCalm (kind : Kind) : Bool :=
  !(isSign kind || kind.isMark .equal || kind.isMark .rightBrace)

section Orderly

variable {operand : Bool} {tokens others : List Token} {token name equals sign rbrace : Token}

theorem awry_of_isCalm (h : isCalm token.kind = true) (before : List Token) :
    awry before token = false := by
  simp only [isCalm, Bool.not_eq_true', Bool.or_eq_false_iff] at h
  simp [awry, strayEqual, h]

theorem signed_of_isCalm (h : isCalm token.kind = true) (before : List Token) :
    signed (token :: before) = false := by
  simp only [isCalm, Bool.not_eq_true', Bool.or_eq_false_iff] at h
  simp [signed, h]

theorem Orderly.loose (h : Orderly operand tokens) : Orderly false tokens :=
  ⟨fun before hbefore => h.calm before fun _ => hbefore rfl, h.ends⟩

theorem orderly_nil : Orderly false [] :=
  ⟨fun _ _ => rfl, fun _ hbefore => hbefore rfl⟩

theorem orderly_one (h : isCalm token.kind = true) : Orderly true [token] := by
  refine ⟨fun before _ => ?_, fun before _ => signed_of_isCalm h before⟩
  simp [countAlong, awry_of_isCalm h]

theorem Orderly.append (h : Orderly operand tokens) (hsome : operand = true → tokens ≠ [])
    (hothers : Orderly false others) : Orderly operand (tokens ++ others) := by
  refine ⟨fun before hbefore => ?_, fun before hbefore => ?_⟩
  · have hends := h.ends before fun hnone => hbefore
      (Bool.eq_false_iff.mpr fun hoperand => hsome hoperand hnone)
    rw [countAlong_append, h.calm before hbefore, hothers.calm _ fun _ => hends]
  · rw [List.reverse_append, List.append_assoc]
    refine hothers.ends _ fun hnone => h.ends before fun hempty => hbefore ?_
    rw [hempty, hnone]
    rfl

/-- Phrases one behind the other, none of them an operand. -/
theorem Orderly.andThen (h : Orderly false tokens) (hothers : Orderly false others) :
    Orderly false (tokens ++ others) :=
  h.append (fun hoperand => absurd hoperand Bool.false_ne_true) hothers

theorem Orderly.cons (h : Orderly false tokens) (htoken : isCalm token.kind = true) :
    Orderly true (token :: tokens) :=
  (orderly_one htoken).append (fun _ => List.cons_ne_nil _ _) h

/-- A calm token behind others. -/
theorem Orderly.closed (h : Orderly false tokens) (htoken : isCalm token.kind = true) :
    Orderly false (tokens ++ [token]) :=
  h.andThen (orderly_one htoken).loose

/-- The name is an operand of nothing. -/
theorem Orderly.assigned (h : Orderly false tokens) (hname : name.kind = .identifier)
    (hequal : equals.IsMark .equal) : Orderly false (name :: equals :: tokens) := by
  have hcalm : isCalm name.kind = true := by rw [hname]; rfl
  have hequals : Orderly false [name, equals] := by
    refine ⟨fun before hbefore => ?_, fun before _ => ?_⟩
    · have hawry : awry (name :: before) equals = false := by
        simp [awry, strayEqual, hname, hequal, hbefore rfl, Kind.isMark, Kind.isIdentifier]
      simp [countAlong, awry_of_isCalm hcalm, hawry]
    · show signed (equals :: name :: before) = false
      simp [signed, hequal, isSign, Reader.isUnaryOperator, Reader.isFactorOperator,
        Reader.isTermOperator, Reader.isComparisonOperator, Reader.isEqualityOperator,
        Kind.isMark, Kind.isKeyword]
  exact hequals.andThen h

/-- What stands in a block does not end in a sign. -/
theorem Orderly.braced {lbrace : Token} (h : Orderly false tokens)
    (hopen : lbrace.IsMark .leftBrace) (hclose : rbrace.IsMark .rightBrace) :
    Orderly false (lbrace :: (tokens ++ [rbrace])) := by
  have hbrace : Orderly false [rbrace] := by
    refine ⟨fun before hbefore => ?_, fun before _ => ?_⟩
    · have hawry : awry before rbrace = false := by
        simp [awry, strayEqual, hclose, hbefore rfl, Kind.isMark]
      simp [countAlong, hawry]
    · show signed (rbrace :: before) = false
      simp [signed, hclose, isSign, Reader.isUnaryOperator, Reader.isFactorOperator,
        Reader.isTermOperator, Reader.isComparisonOperator, Reader.isEqualityOperator,
        Kind.isMark, Kind.isKeyword]
  exact ((h.andThen hbrace).cons (by rw [hopen]; rfl)).loose

/-- A sign and its operand. -/
theorem Orderly.behindSign (h : Orderly true tokens) (hsome : tokens ≠ [])
    (hsign : isSign sign.kind = true) : Orderly true (sign :: tokens) := by
  have hawry : ∀ before, awry before sign = false := by
    intro before
    have hequal : sign.kind.isMark .equal = false := by
      rw [← Bool.not_eq_true, Kind.isMark_iff]
      intro hkind
      rw [hkind] at hsign
      cases hsign
    have hbrace : sign.kind.isMark .rightBrace = false := by
      rw [← Bool.not_eq_true, Kind.isMark_iff]
      intro hkind
      rw [hkind] at hsign
      cases hsign
    simp [awry, strayEqual, hequal, hbrace]
  refine ⟨fun before _ => ?_, fun before _ => ?_⟩
  · have hcalm := h.calm (sign :: before) fun hoperand => Bool.noConfusion hoperand
    simp [countAlong, hawry, hcalm]
  · rw [List.reverse_cons, List.append_assoc]
    exact h.ends _ fun hnone => absurd hnone hsome

end Orderly

theorem isSign_of_operators {level : Level} {kind : Kind} (h : kind ∈ level.operators) :
    isSign kind = true ∧ isOperandLevel level = true := by
  cases level <;> simp only [Level.operators, List.not_mem_nil, List.mem_cons, or_false] at h <;>
    rcases h with rfl | rfl | rfl | rfl <;> exact ⟨rfl, rfl⟩

theorem isOperandLevel_tighter {level next : Level} (h : level.tighter? = some next)
    (hlevel : isOperandLevel level = true) : isOperandLevel next = true := by
  cases level <;> cases h <;> first | rfl | cases hlevel

theorem ne_nil_of_opens {level : Level} {n m : Nat} {tokens : List Token} {value : Expr}
    (h : Derives true (.expr level) n tokens value m) : tokens ≠ [] := by
  obtain ⟨token, htoken, -⟩ := (derives_opens h).expression
  rintro rfl
  cases htoken

theorem derives_orderly {symbol : Symbol} {n m : Nat} {tokens : List Token} {tree : symbol.Tree}
    (h : Derives true symbol n tokens tree m) : Orderly (isOperand symbol) tokens := by
  induction h with
  | program _ hmarker ih => exact ih.closed (by rw [hmarker]; rfl)
  | lone _ hmarker ih => exact ih.closed (by rw [hmarker]; rfl)
  | nothing => exact orderly_nil
  | declarations _ _ ihHead ihTail => exact ihHead.andThen ihTail
  | function hlead hname hopen _ hclose _ _ ihParams ihBlock =>
      exact ((((ihParams.andThen (ihBlock.cons (by rw [hclose]; rfl)).loose).cons
        (by rw [hopen]; rfl)).loose.cons (by rw [hname]; rfl)).loose.cons
          (by rw [hlead]; rfl)).loose
  | var_ _ ih => exact ih
  | statement _ ih => exact ih
  | block hopen _ hclose ih => exact ih.braced hopen hclose
  | uninitialized hlead hname hend =>
      exact (((orderly_one (by rw [hend]; rfl)).loose.cons (by rw [hname]; rfl)).loose.cons
        (by rw [hlead]; rfl)).loose
  | initialized hlead hname hequal _ hend ih =>
      exact (((ih.closed (by rw [hend]; rfl)).assigned hname hequal).cons
        (by rw [hlead]; rfl)).loose
  | expression _ ih => exact ih
  | for_ hlead hopen _ _ hend _ hclose _ ihInitial ihTest ihStep ihInner =>
      exact (((ihInitial.andThen (ihTest.andThen ((ihStep.append nofun
        (ihInner.cons (by rw [hclose]; rfl)).loose).cons (by rw [hend]; rfl)).loose)).cons
          (by rw [hopen]; rfl)).loose.cons (by rw [hlead]; rfl)).loose
  | if_ hlead hopen _ hclose _ ihTest ihInner =>
      exact (((ihTest.andThen (ihInner.cons (by rw [hclose]; rfl)).loose).cons
        (by rw [hopen]; rfl)).loose.cons (by rw [hlead]; rfl)).loose
  | ifElse hlead hopen _ hclose _ _ helse _ ihTest ihInner ihOther =>
      exact (((ihTest.andThen ((ihInner.append nofun
        (ihOther.cons (by rw [helse]; rfl)).loose).cons (by rw [hclose]; rfl)).loose).cons
          (by rw [hopen]; rfl)).loose.cons (by rw [hlead]; rfl)).loose
  | print hlead _ hend ih =>
      exact ((ih.closed (by rw [hend]; rfl)).cons (by rw [hlead]; rfl)).loose
  | return_ hlead _ hend ih =>
      exact ((ih.closed (by rw [hend]; rfl)).cons (by rw [hlead]; rfl)).loose
  | while_ hlead hopen _ hclose _ ihTest ihInner =>
      exact (((ihTest.andThen (ihInner.cons (by rw [hclose]; rfl)).loose).cons
        (by rw [hopen]; rfl)).loose.cons (by rw [hlead]; rfl)).loose
  | blockStatement _ ih => exact ih
  | expressionStatement _ hend ih => exact ih.closed (by rw [hend]; rfl)
  | noInitializer hend => exact (orderly_one (by rw [hend]; rfl)).loose
  | initialVariable _ ih => exact ih
  | initialExpression _ ih => exact ih
  | parameter hname => exact (orderly_one (by rw [hname]; rfl)).loose
  | parameters hname hcomma _ ih =>
      exact ((ih.cons (by rw [hcomma]; rfl)).loose.cons (by rw [hname]; rfl)).loose
  | noParameters => exact orderly_nil
  | someParameters _ ih => exact ih
  | noExpression => exact orderly_nil
  | someExpression _ ih => exact ih
  | @tighter _ _ level next _ _ htighter _ ih =>
      cases hlevel : isOperandLevel level with
      | false => rw [isOperand, hlevel]; exact ih.loose
      | true =>
          have hnext := isOperandLevel_tighter htighter hlevel
          rw [isOperand, hnext] at ih
          rwa [isOperand, hlevel]
  | assign hname hequal _ ih => exact ih.assigned hname hequal
  | @operator _ _ _ level next _ _ _ _ _ htighter hleft hsign hright ihLeft ihRight =>
      obtain ⟨hsign, hlevel⟩ := isSign_of_operators hsign
      rw [isOperand, isOperandLevel_tighter htighter hlevel] at ihRight
      exact ihLeft.append (fun _ => ne_nil_of_opens hleft)
        (ihRight.behindSign (ne_nil_of_opens hright) hsign).loose
  | unary hsign hoperand ih =>
      exact ih.behindSign (ne_nil_of_opens hoperand) (by rcases hsign with h | h <;> rw [h] <;> rfl)
  | call hcallee hopen _ hclose _ ihCallee ihArguments =>
      exact ihCallee.append (fun _ => ne_nil_of_opens hcallee)
        ((ihArguments.closed (by rw [hclose]; rfl)).cons (by rw [hopen]; rfl)).loose
  | number hliteral => exact orderly_one (by rw [hliteral]; rfl)
  | string hliteral => exact orderly_one (by rw [hliteral]; rfl)
  | true_ hword => exact orderly_one (by rw [hword]; rfl)
  | false_ hword => exact orderly_one (by rw [hword]; rfl)
  | nil_ hword => exact orderly_one (by rw [hword]; rfl)
  | name hname => exact orderly_one (by rw [hname]; rfl)
  | group hopen _ hclose ih => exact (ih.closed (by rw [hclose]; rfl)).cons (by rw [hopen]; rfl)
  | argument _ ih => exact ih
  | arguments _ hcomma _ ihValue ihTail =>
      exact ihValue.andThen (ihTail.cons (by rw [hcomma]; rfl)).loose
  | noArguments => exact orderly_nil
  | someArguments _ ih => exact ih

/-! ### One token less -/

section Missing

variable {before behind tokens : List Token} {missing : Token}

theorem strayEqual_le_awry (before tokens : List Token) :
    countAlong strayEqual before tokens ≤ countAlong awry before tokens := by
  induction tokens generalizing before with
  | nil => exact Nat.le_refl _
  | cons token tokens ih =>
      have hone : (if strayEqual before token then 1 else 0) ≤
          if awry before token then 1 else 0 := by
        unfold awry
        cases strayEqual before token <;> simp
      exact Nat.add_le_add hone (ih _)

/-- Only the two tokens before matter. -/
theorem strayEqual_far (last name : Token) (before others tokens : List Token) :
    countAlong strayEqual (last :: name :: before) tokens =
      countAlong strayEqual (last :: name :: others) tokens := by
  induction tokens generalizing last name before others with
  | nil => rfl
  | cons token tokens ih => exact congrArg _ (ih token last _ _)

theorem isIdentifier_eq_false {token : Token} {mark : Mark} (h : token.IsMark mark) :
    token.kind.isIdentifier = false := by
  rw [h]
  rfl

/-- Not both are stray, since the second one was not before. -/
theorem strays_of_two {first second : Token}
    (hsecond : strayEqual (first :: missing :: before) second = false) :
    (if strayEqual before first then 1 else 0) +
      (if strayEqual (first :: before) second then 1 else 0) ≤ 1 := by
  by_cases hequal : first.kind.isMark .equal = true
  · have hname : first.kind.isIdentifier = false :=
      isIdentifier_eq_false (Kind.isMark_iff.mp hequal)
    have hnone : strayEqual (first :: before) second = false := by
      simpa [strayEqual, hname] using hsecond
    rw [hnone, if_neg Bool.false_ne_true]
    split <;> omega
  · have hnone : strayEqual before first = false := by simp [strayEqual, hequal]
    rw [hnone, if_neg Bool.false_ne_true]
    split <;> omega

/-- Behind a brace that closes a block there was no equals sign. -/
theorem not_stray_of_rightBrace {first : Token} (hbrace : missing.IsMark .rightBrace)
    (hfirst : strayEqual (missing :: before) first = false) : strayEqual before first = false := by
  have hequal : first.kind.isMark .equal = false := by
    simpa [strayEqual, isIdentifier_eq_false hbrace] using hfirst
  simp [strayEqual, hequal]

/-- And a name there was no operand. -/
theorem not_stray_of_rightBrace_name {first second : Token} (hbrace : missing.IsMark .rightBrace)
    (hmissing : awry before missing = false)
    (hsecond : strayEqual (first :: missing :: before) second = false) :
    strayEqual (first :: before) second = false := by
  have hsigned : signed before = false := by
    simp only [awry, Bool.or_eq_false_iff, Kind.isMark_iff.mpr hbrace, Bool.true_and] at hmissing
    exact hmissing.2
  cases hequal : second.kind.isMark .equal with
  | false => simp [strayEqual, hequal]
  | true =>
      have hname : first.kind.isIdentifier = true := by
        simp only [strayEqual, hequal, Bool.true_and, Bool.or_eq_false_iff,
          Bool.not_eq_false'] at hsecond
        exact hsecond.1
      simp [strayEqual, hname, hsigned]

/-- Where a token is missing at most one equals sign becomes stray, and none if that token closed a
block. -/
theorem strays_of_missing (h : countAlong awry [] (before ++ missing :: behind) = 0) :
    countAlong strayEqual [] (before ++ behind) ≤
      if missing.kind.isMark .rightBrace then 0 else 1 := by
  rw [countAlong_append, Nat.add_eq_zero_iff, countAlong, Nat.add_eq_zero_iff] at h
  obtain ⟨hbefore, hmissing, hbehind⟩ := h
  have hfront := strayEqual_le_awry [] before
  rw [hbefore] at hfront
  rw [countAlong_append, Nat.le_zero.mp hfront, Nat.zero_add]
  generalize before.reverse ++ [] = last at hmissing hbehind ⊢
  have hmissing : awry last missing = false := by simpa using hmissing
  have hstrays := strayEqual_le_awry (missing :: last) behind
  rw [hbehind, Nat.le_zero] at hstrays
  cases behind with
  | nil => exact Nat.zero_le _
  | cons first behind =>
  rw [countAlong, Nat.add_eq_zero_iff] at hstrays
  obtain ⟨hfirst, hstrays⟩ := hstrays
  have hfirst : strayEqual (missing :: last) first = false := by simpa using hfirst
  cases behind with
  | nil =>
      by_cases hbrace : missing.IsMark .rightBrace
      · simp [countAlong, not_stray_of_rightBrace hbrace hfirst]
      · rw [if_neg (mt Kind.isMark_iff.mp hbrace), countAlong, countAlong, Nat.add_zero]
        split <;> omega
  | cons second behind =>
  rw [countAlong, Nat.add_eq_zero_iff] at hstrays
  obtain ⟨hsecond, hstrays⟩ := hstrays
  have hsecond : strayEqual (first :: missing :: last) second = false := by simpa using hsecond
  rw [countAlong, countAlong, strayEqual_far second first last (missing :: last), hstrays,
    Nat.add_zero]
  by_cases hbrace : missing.IsMark .rightBrace
  · simp [not_stray_of_rightBrace hbrace hfirst,
      not_stray_of_rightBrace_name hbrace hmissing hsecond]
  · rw [if_neg (mt Kind.isMark_iff.mp hbrace)]
    exact strays_of_two hsecond

end Missing

end Scriptlet.Recovery
