/-
The text of a number: digits, with at most one point among them.

A numeral is cut off a source as one lexeme, and what it stands for depends on its digits and on
where the point is.  Whatever is written without powers of ten is a numeral.
-/
import Mathlib
import Scriptlet.Decimal.NumberFormat
import Scriptlet.Proofs.Source.Turns

namespace Scriptlet.Decimal

open Source

/-- The text is made of the digits of the number, so many of them behind a point. -/
inductive Numeral : List Char → Nat → Nat → Prop
  | mk {whole fraction : List Char} (hsome : whole ≠ [])
      (hwhole : ∀ d ∈ whole, d.isDigit = true) (hfraction : ∀ d ∈ fraction, d.isDigit = true) :
      Numeral (whole ++ pointed fraction) (Nat.ofDigitChars 10 (whole ++ fraction) 0)
        fraction.length

theorem decimalValue_eq (whole fraction : List Char) :
    decimalValue whole fraction =
      Float.ofScientific (Nat.ofDigitChars 10 (whole ++ fraction) 0) true fraction.length := by
  rw [Nat.ofDigitChars_eq_foldl]
  rfl

section Numeral

variable {text : List Char} {number places : Nat}

theorem Numeral.spells (h : Numeral text number places) :
    Spells (.number (.ofScientific number true places)) text := by
  cases h with
  | @mk whole fraction hsome hwhole hfraction =>
      rw [← decimalValue_eq]
      cases fraction with
      | nil =>
          rw [pointed, List.append_nil]
          exact .whole hsome hwhole
      | cons first more => exact .fraction hsome hwhole (List.cons_ne_nil _ _) hfraction

theorem Numeral.numberOf {text : String} (h : Numeral text.toList number places) :
    numberOf text = .ofScientific number true places := by
  rw [← String.ofList_toList (s := text)]
  generalize text.toList = text at h
  cases h with
  | @mk whole fraction hsome hwhole hfraction =>
      rw [numberOf_eq hwhole (by cases fraction <;> rfl), drop_pointed, decimalValue_eq]

end Numeral

theorem isDigit_toDigits (n : Nat) : ∀ d ∈ Nat.toDigits 10 n, d.isDigit = true :=
  fun _ hd => Nat.isDigit_of_mem_toDigits (by decide) (by decide) hd

theorem isDigit_replicate (count : Nat) : ∀ d ∈ List.replicate count '0', d.isDigit = true := by
  intro d hd
  rw [List.eq_of_mem_replicate hd]
  rfl

/-! ### What is written -/

section Written

variable {whole fraction : List Char} {number places : Nat}

theorem numeral_whole (hsome : whole ≠ []) (hdigits : ∀ d ∈ whole, d.isDigit = true)
    (hnumber : Nat.ofDigitChars 10 whole 0 = number) : Numeral whole number 0 := by
  have h := Numeral.mk hsome hdigits (List.forall_mem_nil (fun d : Char => d.isDigit = true))
  rw [List.append_nil, hnumber, pointed, List.append_nil] at h
  exact h

theorem numeral_pointed (hsome : whole ≠ []) (hdigits : ∀ d ∈ whole ++ fraction, d.isDigit = true)
    (hnumber : Nat.ofDigitChars 10 (whole ++ fraction) 0 = number)
    (hplaces : fraction.length = places) (hpositive : 0 < places) :
    Numeral (whole ++ '.' :: fraction) number places := by
  obtain ⟨hwhole, hfraction⟩ := List.forall_mem_append.mp hdigits
  have h := Numeral.mk hsome hwhole hfraction
  rw [hnumber, hplaces] at h
  cases fraction with
  | nil =>
      rw [← hplaces] at hpositive
      cases hpositive
  | cons first more => exact h

/-- The digits of a whole number, as they are or with a zero behind the point. -/
theorem numeral_toString {tail : String} (htail : tail = "" ∨ tail = ".0") (n : Nat) :
    ∃ places, Numeral (toString n ++ tail).toList (n * 10 ^ places) places := by
  have hvalue : Nat.ofDigitChars 10 (Nat.toDigits 10 n) 0 = n := Nat.ofDigitChars_ten_toDigits
  rw [String.toList_append, Nat.toString_eq_repr, Nat.toList_repr]
  rcases htail with rfl | rfl
  · refine ⟨0, ?_⟩
    rw [String.toList_empty, List.append_nil, Nat.pow_zero, Nat.mul_one]
    exact numeral_whole Nat.toDigits_ne_nil (isDigit_toDigits n) hvalue
  · have hdigits : ∀ d ∈ Nat.toDigits 10 n ++ ['0'], d.isDigit = true :=
      List.forall_mem_append.mpr ⟨isDigit_toDigits n, isDigit_replicate 1⟩
    refine ⟨1, numeral_pointed Nat.toDigits_ne_nil hdigits ?_ rfl Nat.one_pos⟩
    rw [Nat.ofDigitChars_append, hvalue, Nat.pow_one, Nat.mul_comm]
    rfl

section Digits

variable {digits : List Char} {value : Nat}

theorem numeral_scaled (hsome : digits ≠ []) (hdigits : ∀ d ∈ digits, d.isDigit = true)
    (hvalue : Nat.ofDigitChars 10 digits 0 = value) (count : Nat) :
    Numeral (digits ++ List.replicate count '0') (value * 10 ^ count) 0 := by
  refine numeral_whole (List.append_ne_nil_of_left_ne_nil hsome _) ?_ ?_
  · exact List.forall_mem_append.mpr ⟨hdigits, isDigit_replicate count⟩
  · rw [Nat.ofDigitChars_append, hvalue, Nat.ofDigitChars_replicate_zero, Nat.mul_comm]

/-- A point among the digits. -/
theorem numeral_split (hdigits : ∀ d ∈ digits, d.isDigit = true)
    (hvalue : Nat.ofDigitChars 10 digits 0 = value) (hpositive : 0 < places)
    (hshort : places < digits.length) :
    Numeral (digits.take (digits.length - places) ++ '.' :: digits.drop (digits.length - places))
      value places := by
  refine numeral_pointed ?_ ?_ ?_ ?_ hpositive
  · rw [ne_eq, List.take_eq_nil_iff, ← List.length_eq_zero_iff]
    omega
  · rwa [List.take_append_drop]
  · rw [List.take_append_drop, hvalue]
  · rw [List.length_drop]
    omega

/-- A point before all digits, and zeros where there are too few of them. -/
theorem numeral_padded (hdigits : ∀ d ∈ digits, d.isDigit = true)
    (hvalue : Nat.ofDigitChars 10 digits 0 = value) (hpositive : 0 < places)
    (hlong : digits.length ≤ places) :
    Numeral (['0'] ++ '.' :: (List.replicate (places - digits.length) '0' ++ digits))
      value places := by
  have hfill := isDigit_replicate (places - digits.length)
  refine numeral_pointed (List.cons_ne_nil '0' []) ?_ ?_ ?_ hpositive
  · exact List.forall_mem_append.mpr
      ⟨isDigit_replicate 1, List.forall_mem_append.mpr ⟨hfill, hdigits⟩⟩
  · rw [← List.append_assoc, Nat.ofDigitChars_append, Nat.ofDigitChars_append,
      Nat.ofDigitChars_replicate_zero]
    exact hvalue
  · rw [List.length_append, List.length_replicate]
    omega

end Digits

/-- Digits in positional notation. -/
theorem Digits.numeral_plainText (d : Digits) :
    Numeral (d.plainText "").toList (d.digits * 10 ^ d.exponent.toNat) (-d.exponent).toNat := by
  have hsome : Nat.toDigits 10 d.digits ≠ [] := Nat.toDigits_ne_nil
  have hdigits := isDigit_toDigits d.digits
  have hvalue : Nat.ofDigitChars 10 (Nat.toDigits 10 d.digits) 0 = d.digits :=
    Nat.ofDigitChars_ten_toDigits
  unfold Digits.plainText
  dsimp only
  split
  · next hwhole =>
      rw [String.append_empty, String.toList_append, String.toList_ofList, zeros,
        String.toList_ofList, Int.toNat_eq_zero.mpr (by omega : -d.exponent ≤ 0)]
      exact numeral_scaled hsome hdigits hvalue _
  · next hfraction =>
      have hscale : d.digits * 10 ^ d.exponent.toNat = d.digits := by
        rw [Int.toNat_eq_zero.mpr (by omega : d.exponent ≤ 0), Nat.pow_zero, Nat.mul_one]
      rw [hscale]
      generalize hplaces : (-d.exponent).toNat = places
      have hpositive : 0 < places := by omega
      split
      · next hshort =>
          have hpoint : ".".toList = ['.'] := rfl
          simp only [String.toList_append, String.toList_ofList]
          rw [List.append_assoc, hpoint, List.singleton_append]
          exact numeral_split hdigits hvalue hpositive hshort
      · next hlong =>
          have hlead : "0.".toList = ['0', '.'] := rfl
          simp only [zeros, String.toList_append, String.toList_ofList]
          rw [hlead, List.append_assoc, List.cons_append, List.cons_append, List.nil_append]
          exact numeral_padded hdigits hvalue hpositive (Nat.le_of_not_lt hlong)

/-- Nothing is written with a power of ten, and at most a zero stands behind the point of a
whole number. -/
structure NumberFormat.Positional (format : NumberFormat) : Prop where
  exactTail : format.exactTail = "" ∨ format.exactTail = ".0"
  plain : ∀ lead, format.plain lead = true
  plainTail : format.plainTail = ""

/-- The text of a magnitude is a numeral: of the magnitude itself if that is written with all its
digits, and else of its shortest digits. -/
theorem NumberFormat.Positional.numeral {format : NumberFormat} (h : format.Positional)
    (x : Binary) :
    (∃ n places, x.whole? = some n ∧
      Numeral (format.magnitude x).toList (n * 10 ^ places) places) ∨
    Numeral (format.magnitude x).toList
      ((x.shortest format.tie).digits * 10 ^ (x.shortest format.tie).exponent.toNat)
      (-(x.shortest format.tie).exponent).toNat := by
  unfold NumberFormat.magnitude
  split
  · next n hwhole =>
      obtain ⟨places, hnumeral⟩ := numeral_toString h.exactTail n
      exact Or.inl ⟨n, places, (Option.filter_eq_some_iff.mp hwhole).1, hnumeral⟩
  · dsimp only
    rw [if_pos (h.plain _), h.plainTail]
    exact Or.inr (Digits.numeral_plainText _)

end Written

end Scriptlet.Decimal
