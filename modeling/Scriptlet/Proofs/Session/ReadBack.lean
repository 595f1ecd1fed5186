/-
What is printed can be read back.

The text of a value that is neither a function nor a number out of range is an expression, a
string's text between quotes.  It is one lexeme, or a minus sign and a numeral, and evaluating it
gives the value again and does nothing else.
-/
import Scriptlet.Proofs.Decimal.ReadsBack
import Scriptlet.Proofs.Session.Steps
import Scriptlet.Proofs.Source.Respaced

namespace Scriptlet

/-! ### The tokens -/

namespace Source

section Lone

variable {kind : Kind} {lexeme : String}

/-- A minus sign is a token of its own, whatever stands behind it. -/
theorem scan_negated (h : Spells kind lexeme.toList) :
    ∃ sign token marker : Token, sign.IsMark .minus ∧ token.kind = kind ∧
      marker.kind = .endOfInput ∧ scan ("-" ++ lexeme) = ⟨[sign, token, marker], []⟩ := by
  have hstart : ("-" ++ lexeme).toList = '-' :: lexeme.toList := String.toList_append
  have hsign : nextPiece '-' lexeme.toList = (.lexeme (.mark .minus) ['-'], lexeme.toList) := rfl
  have hline : 1 + Piece.newlines (.lexeme (.mark .minus) ['-']) = 1 := rfl
  refine ⟨⟨.mark .minus, "-", 1⟩, ⟨kind, lexeme, 1 + newlines lexeme⟩,
    endToken (1 + newlines lexeme), rfl, rfl, rfl, ?_⟩
  unfold scan items
  rw [hstart, pieces_cons, hsign, number_cons, hline, number_lone h]
  rfl

end Lone

end Source

/-! ### The tree -/

namespace Session

open Grammar

section Literal

variable {kind : Kind} {lexeme : String} {constant : Constant}

theorem readSource_of_derives {source : String} {tokens : List Token} {marker : Token}
    {expr : Expr} {n m : Nat} (hscan : Source.scan source = ⟨tokens ++ [marker], []⟩)
    (hmarker : marker.kind = .endOfInput)
    (h : Derives true (.expr .expression) n tokens expr m) :
    readSource Reader.wholeExpression n source = (.ok expr, m) := by
  have hlone : Derives true .lone n (Source.scan source).tokens expr m := by
    rw [hscan]
    exact .lone h hmarker
  have hparse := (parse_lone_iff (Source.scan_endsOnce source) expr).mpr hlone
  exact readSource_eq_ok_iff.mpr ⟨congrArg Source.Scanned.faults hscan, hparse⟩

/-- The text of a literal is read as the constant. -/
theorem readSource_literal (h : Source.Spells kind lexeme.toList)
    (hconstant : Reader.constant? kind = some constant) (n : Nat) :
    readSource Reader.wholeExpression n lexeme = (.ok (.constant constant), n) := by
  have hprimary : Derives true (.expr .primary) n [⟨kind, lexeme, 1 + Source.newlines lexeme⟩]
      (.constant constant) n := Reader.derives_constant hconstant n
  exact readSource_of_derives (Source.scan_lexeme h) rfl
    hprimary.unary_of_primary.expression_of_unary

/-- A minus sign before it makes it an operand. -/
theorem readSource_negated (h : Source.Spells kind lexeme.toList)
    (hconstant : Reader.constant? kind = some constant) (n : Nat) :
    ∃ sign : Token, sign.IsMark .minus ∧
      readSource Reader.wholeExpression n ("-" ++ lexeme) =
        (.ok (.unary sign (.constant constant)), n) := by
  obtain ⟨sign, token, marker, hsign, rfl, hmarker, hscan⟩ := Source.scan_negated h
  have hprimary : Derives true (.expr .primary) n [token] (.constant constant) n :=
    Reader.derives_constant hconstant n
  have hunary := Derives.unary (Or.inr hsign) hprimary.unary_of_primary
  exact ⟨sign, hsign, readSource_of_derives hscan hmarker hunary.expression_of_unary⟩

end Literal

end Session

/-! ### The text of a number -/

namespace Decimal

section Text

variable {x : Float} {value : Binary}

theorem printFormat_positional : printFormat.Positional :=
  ⟨Or.inl rfl, fun _ => rfl, rfl⟩

/-- The sign of a printed number stands before the text of its magnitude. -/
theorem printFormat_write (h : Reading.ofFloat x = .finite value) :
    printFormat.write x = (if value.negative then "-" else "") ++ printFormat.write x.abs := by
  have hmagnitude : printFormat.magnitude { value with negative := false } =
      printFormat.magnitude value := rfl
  have habs : printFormat.write x.abs = printFormat.magnitude value := by
    rw [NumberFormat.write, ofFloat_abs h]
    simp only [Bool.false_and, Bool.false_eq_true, if_false, String.empty_append, hmagnitude]
  rw [habs, NumberFormat.write, h]
  simp [printFormat]

end Text

end Decimal

/-! ### The value -/

namespace ValueIn

variable {Place : Type}

/-- The expression that stands for a value: what is printed, a string's text between quotes. -/
def source : ValueIn Place → String
  | string text => "\"" ++ text ++ "\""
  | value => value.text

/-- Neither a function, nor a number out of range, nor a string with a quote in it. -/
def IsPlain : ValueIn Place → Prop
  | nil => True
  | bool _ => True
  | number value => value.isFinite = true
  | string text => '"' ∉ text.toList
  | closure _ => False
  | host _ => False

end ValueIn

namespace Session

theorem evaluate_of_read {session : Session} {source : String} {expr : Expr} {m : Nat}
    (hread : readSource Reader.wholeExpression session.issued source = (.ok expr, m))
    (bound : Nat) :
    session.evaluate bound source = act ⟨session.machine, m⟩ (Eval.evaluate bound expr) := by
  unfold evaluate readExpression read
  rw [hread]

section Evaluate

variable {kind : Kind} {lexeme : String} {constant : Constant}

theorem evaluate_literal (h : Source.Spells kind lexeme.toList)
    (hconstant : Reader.constant? kind = some constant) (session : Session) (bound : Nat) :
    session.evaluate (bound + 1) lexeme = (.ok (.ofConstant constant), session) := by
  rw [evaluate_of_read (readSource_literal h hconstant session.issued)]
  rfl

theorem evaluate_negated {number : Float} (h : Source.Spells (.number number) lexeme.toList)
    (session : Session) (bound : Nat) :
    session.evaluate (bound + 2) ("-" ++ lexeme) = (.ok (.number (-number)), session) := by
  obtain ⟨sign, hsign, hread⟩ := readSource_negated h rfl session.issued
  have hvalue : Operator.unary sign (.number number : Value) = .ok (.number (-number)) := by
    unfold Operator.unary
    rw [hsign]
  rw [evaluate_of_read hread, act, Eval.evaluate]
  simp only [Eval.evaluate, Eval.bind_apply, Eval.pure_apply, ValueIn.ofConstant, hvalue]
  rfl

/-- The sign of a number is an operator, and its magnitude is read as a literal. -/
theorem evaluate_number {x : Float} (hfinite : x.isFinite = true) (session : Session)
    (bound : Nat) :
    session.evaluate (bound + 2) (printFormat.write x) = (.ok (.number x), session) := by
  obtain ⟨value, hreading⟩ := Decimal.exists_reading hfinite
  have hspells := Decimal.spells_write Decimal.printFormat_positional
    (Decimal.ofFloat_abs hreading) rfl
  rw [Decimal.printFormat_write hreading]
  cases hsign : value.negative with
  | false =>
      rw [if_neg Bool.false_ne_true, String.empty_append, evaluate_literal hspells rfl,
        Decimal.abs_of_nonnegative hreading hsign]
      rfl
  | true =>
      rw [if_pos rfl, evaluate_negated hspells, Decimal.neg_abs_of_negative hreading hsign]

/-- In any session, the expression that stands for a value gives that very value, a number bit for
bit, and the session stays as it is. -/
theorem evaluate_source {value : Value} (hplain : value.IsPlain) (session : Session)
    (bound : Nat) :
    session.evaluate (bound + 2) value.source = (.ok value, session) := by
  cases value with
  | nil => exact evaluate_literal (.keyword .nil_) rfl session (bound + 1)
  | bool truth =>
      cases truth with
      | true => exact evaluate_literal (.keyword .true_) rfl session (bound + 1)
      | false => exact evaluate_literal (.keyword .false_) rfl session (bound + 1)
  | number x => exact evaluate_number hplain session bound
  | string text =>
      have hspells : Source.Spells (.string text) ("\"" ++ text ++ "\"").toList := by
        have hquoted := Source.Spells.string hplain
        rw [String.ofList_toList] at hquoted
        rw [String.toList_append, String.toList_append]
        exact hquoted
      exact evaluate_literal hspells rfl session (bound + 1)
  | closure _ | host _ => exact hplain.elim

/-- Minus a tenth, of which the text shows one digit and the sign. -/
def minusTenth : Float :=
  .ofBits 0xBFB999999999999A

theorem evaluate_source_minusTenth :
    (ValueIn.number minusTenth : Value).source = "-0.1" ∧
      (Session.initial .unlimited 0).evaluate 2 "-0.1" =
        (.ok (.number minusTenth), Session.initial .unlimited 0) := by
  have hsource : (ValueIn.number minusTenth : Value).source = "-0.1" := by decide +kernel
  have hplain : (ValueIn.number minusTenth : Value).IsPlain := by
    change minusTenth.isFinite = true
    decide +kernel
  exact ⟨hsource, hsource ▸ evaluate_source hplain _ 0⟩

end Evaluate

end Session

end Scriptlet
