/-
Which double a number is rounded to.

Arithmetic rounds a number after it has cut its significand down to the bits that fit, with one
bit for the half behind them and one for the rest.  Such a significand says where the number is,
and each bit that is cut off keeps that true.  So a number in the interval of a double is rounded
to that double, also where it lies below the least significand of a binade and has to be rounded
up into it.
-/
import Mathlib
import Scriptlet.Decimal.Binary

namespace Scriptlet.Decimal

open Float.Model (Format totalExponent)
open Float.Model.UnpackedFloat

/-! ### Significands with bits behind them -/

/-- The significand in halves. -/
def halves (rough : ExtendedMantissa) : ℕ :=
  2 * rough.mantissa + rough.roundBit.toNat

/-- The number lies at a half of the significand, or behind it if there is a rest. -/
structure Represents (rough : ExtendedMantissa) (v : ℚ) : Prop where
  lower : (halves rough : ℚ) ≤ 2 * v
  upper : 2 * v < halves rough + 1
  exact_iff : rough.stickyBit = false ↔ 2 * v = halves rough

section Represents

variable {rough : ExtendedMantissa} {v : ℚ}

theorem represents_of_eq (hrest : rough.stickyBit = false) (h : 2 * v = halves rough) :
    Represents rough v :=
  ⟨h.ge, h.trans_lt (lt_add_one _), iff_of_true hrest h⟩

theorem represents_of_lt (hrest : rough.stickyBit = true) (hlower : (halves rough : ℚ) < 2 * v)
    (hupper : 2 * v < halves rough + 1) : Represents rough v :=
  ⟨hlower.le, hupper, iff_of_false (fun h => Bool.noConfusion (hrest.symm.trans h)) hlower.ne'⟩

theorem represents_exact (mantissa : ℕ) :
    Represents (.ofMantissaAndAccuracy mantissa .exact) mantissa := by
  refine represents_of_eq rfl ?_
  rw [halves]
  simp [ExtendedMantissa.ofMantissaAndAccuracy]

theorem Represents.bounds (h : Represents rough v) :
    (rough.mantissa : ℚ) ≤ v ∧ v < rough.mantissa + 1 := by
  obtain ⟨hlower, hupper, -⟩ := h
  have hbit : (rough.roundBit.toNat : ℚ) ≤ 1 := by exact_mod_cast Bool.toNat_le _
  have hzero : (0 : ℚ) ≤ rough.roundBit.toNat := Nat.cast_nonneg _
  rw [halves] at hlower hupper
  push_cast at hlower hupper
  constructor <;> linarith

@[simp] theorem mantissa_ofMantissaAndAccuracy (mantissa : ℕ) (accuracy : Accuracy) :
    (ExtendedMantissa.ofMantissaAndAccuracy mantissa accuracy).mantissa = mantissa := by
  unfold ExtendedMantissa.ofMantissaAndAccuracy
  split <;> rfl

/-- To cut off one more bit is to halve the number. -/
theorem Represents.shiftRightOne (h : Represents rough v) :
    Represents rough.shiftRightOne (v / 2) := by
  obtain ⟨hmantissa, hmantissa'⟩ := h.bounds
  have hhalves : halves rough.shiftRightOne = rough.mantissa := by
    unfold halves ExtendedMantissa.shiftRightOne
    rcases Nat.mod_two_eq_zero_or_one rough.mantissa with hbit | hbit <;>
      simp only [hbit] <;> simp <;> omega
  have hhalf : 2 * (v / 2) = v := by ring
  refine ⟨?_, ?_, ?_⟩
  · rwa [hhalves, hhalf]
  · rwa [hhalves, hhalf]
  · rw [hhalves, hhalf]
    change (rough.roundBit || rough.stickyBit) = false ↔ _
    obtain ⟨hlower, hupper, hexact⟩ := h
    rw [Bool.or_eq_false_iff, hexact]
    rw [halves] at hlower hexact ⊢
    push_cast at hlower hexact ⊢
    cases hbit : rough.roundBit
    · rw [Bool.toNat_false, Nat.cast_zero, add_zero]
      constructor
      · rintro ⟨-, h⟩
        linarith
      · intro h
        exact ⟨rfl, by linarith⟩
    · rw [hbit, Bool.toNat_true, Nat.cast_one] at hlower
      refine iff_of_false (fun h => Bool.noConfusion h.1) fun h => ?_
      linarith

theorem Represents.shiftRight (h : Represents rough v) (count : ℕ) :
    Represents (rough >>> count) (v / 2 ^ count) := by
  change Represents (count.repeat ExtendedMantissa.shiftRightOne rough) _
  induction count with
  | zero => simpa [Nat.repeat] using h
  | succ count ih =>
      rw [Nat.repeat, pow_succ, ← div_div]
      exact ih.shiftRightOne

/-- The number is rounded to the significand: it is at most half a unit away, and less if the
significand is odd. -/
def RoundsTo (mantissa : ℕ) (v : ℚ) : Prop :=
  (mantissa : ℚ) - 1 / 2 ≤ v ∧ v ≤ mantissa + 1 / 2 ∧
    (mantissa % 2 = 1 → (mantissa : ℚ) - 1 / 2 < v ∧ v < mantissa + 1 / 2)

theorem Represents.roundedMantissa_eq (h : Represents rough v) {mantissa : ℕ}
    (hrounds : RoundsTo mantissa v) : rough.roundedMantissa = mantissa := by
  obtain ⟨hlower, hupper, hexact⟩ := h
  obtain ⟨hbelow, habove, hodd⟩ := hrounds
  have hleast : 2 * mantissa < halves rough + 2 := by
    exact_mod_cast (by linarith : (2 * mantissa : ℚ) < halves rough + 2)
  have hmost : halves rough ≤ 2 * mantissa + 1 := by
    exact_mod_cast (by linarith : (halves rough : ℚ) ≤ 2 * mantissa + 1)
  obtain ⟨cut, half, rest⟩ := rough
  cases half with
  | false =>
      have hcut : cut = mantissa := by
        simp only [halves, Bool.toNat_false] at hleast hmost
        omega
      cases rest <;> exact hcut
  | true =>
      simp only [halves, Bool.toNat_true] at hleast hmost hlower hexact
      push_cast at hlower hexact
      cases rest with
      | false =>
          -- halfway between two significands, of which the even one is taken
          have hmiddle : 2 * v = 2 * cut + 1 := hexact.mp rfl
          have heven : mantissa % 2 ≠ 1 := by
            intro h
            obtain ⟨hbelow, habove⟩ := hodd h
            rcases (by omega : cut = mantissa ∨ cut + 1 = mantissa) with rfl | rfl
            · linarith
            · push_cast at hbelow
              linarith
          change cut + cut % 2 = mantissa
          omega
      | true =>
          have hbehind : 2 * v ≠ 2 * cut + 1 := fun h => Bool.noConfusion (hexact.mpr h)
          have hne : cut ≠ mantissa := by
            rintro rfl
            exact hbehind (le_antisymm (by linarith) hlower)
          change cut + 1 = mantissa
          omega

end Represents

/-! ### The interval of a double -/

/-- The significand has at most 53 bits, and fewer only at the least exponent. -/
structure Binary.Canonical (x : Binary) : Prop where
  bounded : x.significand < 2 ^ 53
  least : -1074 ≤ x.exponent
  normal : -1074 < x.exponent → 2 ^ 52 ≤ x.significand

/-- The numbers that are rounded to the double: those at most half a unit away, or a quarter of a
unit where the doubles below are twice as dense. -/
structure Binary.Takes (x : Binary) (v : ℚ) : Prop where
  rounds : RoundsTo x.significand (v / 2 ^ x.exponent)
  narrow : x.narrowBelow = true → (x.significand : ℚ) - 1 / 4 ≤ v / 2 ^ x.exponent

theorem targetExponent_eq (total : ℤ) :
    Format.binary64.targetExponent total = max (total - 53) (-1074) := rfl

section Shift

variable {mantissa : ℕ} {exponent : ℤ} {accuracy : Accuracy} {v : ℚ}

theorem represents_shiftToExponent {target : ℤ} (hle : exponent ≤ target)
    (h : Represents (.ofMantissaAndAccuracy mantissa accuracy) (v / 2 ^ exponent)) :
    Represents (shiftToExponent mantissa exponent accuracy target).1 (v / 2 ^ target) ∧
      (shiftToExponent mantissa exponent accuracy target).2 = target := by
  have hcount : exponent + ((target - exponent).toNat : ℤ) = target := by omega
  have hscale : v / 2 ^ target = v / 2 ^ exponent / 2 ^ (target - exponent).toNat := by
    rw [div_div, ← zpow_natCast, ← zpow_add₀ (by norm_num : (2 : ℚ) ≠ 0), hcount]
  refine ⟨?_, hcount⟩
  rw [hscale]
  exact h.shiftRight _

/-- A significand that fits is not cut. -/
theorem shiftToTargetExponent_of_fits (hfits : mantissa < 2 ^ 53) (hleast : -1074 ≤ exponent) :
    shiftToTargetExponent Format.binary64 mantissa exponent .exact =
      (.ofMantissaAndAccuracy mantissa .exact, exponent) := by
  have hbits : mantissa.log2 ≤ 52 := by
    rcases Nat.eq_zero_or_pos mantissa with rfl | hpos
    · decide
    · exact Nat.lt_succ_iff.mp ((Nat.log2_lt hpos.ne').mpr hfits)
  have hcount : (Format.binary64.targetExponent (totalExponent mantissa exponent) -
      exponent).toNat = 0 := by
    rw [targetExponent_eq, totalExponent]
    omega
  unfold shiftToTargetExponent shiftToExponent
  dsimp only
  rw [hcount]
  exact Prod.ext rfl (add_zero _)

/-- The significand behind the greatest one that fits belongs to the next binade. -/
theorem shiftToTargetExponent_of_carry (hleast : -1074 ≤ exponent) :
    (shiftToTargetExponent Format.binary64 (2 ^ 53) exponent .exact).1.mantissa = 2 ^ 52 ∧
      (shiftToTargetExponent Format.binary64 (2 ^ 53) exponent .exact).2 = exponent + 1 := by
  have hcount : (Format.binary64.targetExponent (totalExponent (2 ^ 53) exponent) -
      exponent).toNat = 1 := by
    rw [targetExponent_eq, totalExponent, Nat.log2_two_pow]
    omega
  unfold shiftToTargetExponent shiftToExponent
  dsimp only
  rw [hcount]
  exact ⟨rfl, rfl⟩

end Shift

section Rounded

variable {x : Binary} {v : ℚ} {mantissa : ℕ} {exponent : ℤ} {accuracy : Accuracy}

theorem two_zpow_pos (exponent : ℤ) : (0 : ℚ) < 2 ^ exponent :=
  zpow_pos (by norm_num) exponent

/-- The number lies below the binade of the double. -/
def Binary.Underneath (x : Binary) (v : ℚ) : Prop :=
  x.narrowBelow = true ∧ v < 2 ^ (52 + x.exponent)

theorem Binary.Takes.lt (hx : x.Canonical) (h : x.Takes v) : v < 2 ^ (53 + x.exponent) := by
  have hscale := two_zpow_pos x.exponent
  have hmost : (x.significand : ℚ) + 1 ≤ 2 ^ 53 := by exact_mod_cast hx.bounded
  rw [zpow_add₀ (by norm_num), ← div_lt_iff₀ hscale]
  have habove := h.rounds.2.1
  norm_num at hmost ⊢
  linarith

theorem Binary.Takes.le (hpos : 0 < x.significand) (h : x.Takes v) : 2 ^ (x.exponent - 1) ≤ v := by
  have hscale := two_zpow_pos x.exponent
  have hleast : (1 : ℚ) ≤ x.significand := by exact_mod_cast hpos
  have hbelow := h.rounds.1
  rw [sub_eq_add_neg, add_comm, zpow_add₀ (by norm_num), ← le_div_iff₀ hscale]
  norm_num
  linarith

/-- A number that a normal double takes lies in the double's binade, or little below it. -/
theorem Binary.Takes.normal (hx : x.Canonical) (h : x.Takes v) (hnormal : -1074 < x.exponent) :
    2 ^ (52 + x.exponent) ≤ v ∨ (x.Underneath v ∧ 2 ^ (51 + x.exponent) ≤ v) := by
  have hscale := two_zpow_pos x.exponent
  have hleast := hx.normal hnormal
  rcases le_or_gt (2 ^ (52 + x.exponent)) v with hin | hbelow
  · exact Or.inl hin
  · have hscaled : v / 2 ^ x.exponent < 2 ^ 52 := by
      rw [div_lt_iff₀ hscale]
      rwa [zpow_add₀ (by norm_num)] at hbelow
    have hrounds := h.rounds.1
    have hmost : x.significand < 2 ^ 52 + 1 := by
      exact_mod_cast (by linarith : (x.significand : ℚ) < 2 ^ 52 + 1)
    have hnarrow : x.narrowBelow = true := by
      have hsame : x.significand = Nat.pow 2 52 := by
        change x.significand = 2 ^ 52
        omega
      simp [Binary.narrowBelow, hsame, hnormal]
    refine Or.inr ⟨⟨hnarrow, hbelow⟩, ?_⟩
    have hquarter := h.narrow hnarrow
    have hsignificand : (2 ^ 52 : ℚ) ≤ x.significand := by exact_mod_cast hleast
    have hlower : (2 ^ 51 : ℚ) ≤ 2 ^ 52 - 1 / 4 := by norm_num
    rw [zpow_add₀ (by norm_num), ← le_div_iff₀ hscale]
    exact hlower.trans (by linarith)

/-- The significand tells the binade of the number. -/
theorem Represents.lt_binade
    (h : Represents (.ofMantissaAndAccuracy mantissa accuracy) (v / 2 ^ exponent)) :
    v < 2 ^ (totalExponent mantissa exponent) := by
  have hupper := h.bounds.2
  rw [mantissa_ofMantissaAndAccuracy] at hupper
  have hnext : (mantissa : ℚ) + 1 ≤ 2 ^ ((mantissa.log2 : ℤ) + 1) := by
    exact_mod_cast Nat.lt_log2_self
  rw [totalExponent, zpow_add₀ (by norm_num), ← div_lt_iff₀ (two_zpow_pos exponent)]
  exact hupper.trans_le hnext

theorem Represents.binade_le
    (h : Represents (.ofMantissaAndAccuracy mantissa accuracy) (v / 2 ^ exponent))
    (hpos : mantissa ≠ 0) : 2 ^ (totalExponent mantissa exponent - 1) ≤ v := by
  have hlower := h.bounds.1
  rw [mantissa_ofMantissaAndAccuracy] at hlower
  have hlog : (2 : ℚ) ^ (mantissa.log2 : ℤ) ≤ mantissa := by
    exact_mod_cast Nat.log2_self_le hpos
  have hbits : totalExponent mantissa exponent - 1 = mantissa.log2 + exponent := by
    rw [totalExponent]
    ring
  rw [hbits, zpow_add₀ (by norm_num), ← le_div_iff₀ (two_zpow_pos exponent)]
  exact hlog.trans hlower

theorem lt_of_two_zpow {a b : ℤ} (h : (2 : ℚ) ^ a < 2 ^ b) : a < b :=
  (zpow_lt_zpow_iff_right₀ (by norm_num)).mp h

/-- The exponent that the number is cut to is that of the double, or the one before if the number
lies below the double's binade. -/
theorem targetExponent_cases (hx : x.Canonical) (hpos : 0 < x.significand) (htakes : x.Takes v)
    (hrough : Represents (.ofMantissaAndAccuracy mantissa accuracy) (v / 2 ^ exponent))
    (hle : exponent ≤ Format.binary64.targetExponent (totalExponent mantissa exponent)) :
    (Format.binary64.targetExponent (totalExponent mantissa exponent) = x.exponent) ∨
      (Format.binary64.targetExponent (totalExponent mantissa exponent) = x.exponent - 1 ∧
        x.Underneath v) := by
  have hleast := hx.least
  by_cases hzero : mantissa = 0
  · -- nothing is left of the significand, so the number lies below all normal doubles
    have hsmall : v < 2 ^ exponent := by
      have hupper := hrough.bounds.2
      rwa [mantissa_ofMantissaAndAccuracy, hzero, Nat.cast_zero, zero_add,
        div_lt_one (two_zpow_pos exponent)] at hupper
    have hexponent := lt_of_two_zpow ((htakes.le hpos).trans_lt hsmall)
    have hlog : mantissa.log2 = 0 := by rw [hzero]; decide
    rw [targetExponent_eq, totalExponent, hlog] at hle ⊢
    left
    omega
  · have hlower := hrough.binade_le hzero
    have hbelow := lt_of_two_zpow (hlower.trans_lt (htakes.lt hx))
    rw [targetExponent_eq] at hle ⊢
    by_cases hnormal : -1074 < x.exponent
    · rcases htakes.normal hx hnormal with hin | ⟨hunder, hin⟩
      · have habove := lt_of_two_zpow (hin.trans_lt hrough.lt_binade)
        left
        omega
      · have habove := lt_of_two_zpow (hin.trans_lt hrough.lt_binade)
        have hexponent := lt_of_two_zpow (hlower.trans_lt hunder.2)
        right
        refine ⟨?_, hunder⟩
        omega
    · left
      omega

/-- Below the binade of a double, the numbers that it takes are rounded up to the binade. -/
theorem Binary.Takes.roundsTo_carry (htakes : x.Takes v) (hunder : x.Underneath v) :
    x.significand = 2 ^ 52 ∧ -1074 < x.exponent ∧ RoundsTo (2 ^ 53) (v / 2 ^ (x.exponent - 1)) := by
  obtain ⟨hnarrow, hbelow⟩ := hunder
  have hscale := two_zpow_pos x.exponent
  have hquarter := htakes.narrow hnarrow
  simp only [Binary.narrowBelow, Bool.and_eq_true, beq_iff_eq, decide_eq_true_eq] at hnarrow
  obtain ⟨hsame, hnormal⟩ := hnarrow
  have hsame : x.significand = 2 ^ 52 := hsame
  have htwice : v / 2 ^ (x.exponent - 1) = 2 * (v / 2 ^ x.exponent) := by
    rw [zpow_sub₀ (by norm_num), zpow_one]
    field_simp
  have hscaled : v / 2 ^ x.exponent < 2 ^ 52 := by
    rw [div_lt_iff₀ hscale]
    rwa [zpow_add₀ (by norm_num)] at hbelow
  refine ⟨hsame, hnormal, ?_⟩
  rw [hsame] at hquarter
  rw [htwice]
  push_cast at hquarter
  refine ⟨?_, ?_, fun hodd => absurd hodd (by decide)⟩
  · push_cast
    linarith
  · push_cast
    linarith

/-- Rounding cuts twice, the second time for a carry. -/
theorem roundWithAccuracy_of_shifts {rounded significand : ℕ} {cut final : ℤ} (sign : Sign)
    (hrounded :
      (shiftToTargetExponent Format.binary64 mantissa exponent accuracy).1.roundedMantissa =
        rounded)
    (hcut : (shiftToTargetExponent Format.binary64 mantissa exponent accuracy).2 = cut)
    (hsignificand : (shiftToTargetExponent Format.binary64 rounded cut .exact).1.mantissa =
      significand)
    (hfinal : (shiftToTargetExponent Format.binary64 rounded cut .exact).2 = final)
    (hpos : 0 < significand) :
    roundWithAccuracy Format.binary64 sign mantissa exponent accuracy =
      .finite sign significand final hpos := by
  subst hrounded hcut hsignificand hfinal
  exact dif_neg hpos.ne'

/-- A number that a double takes is rounded to it, if the significand has bits enough. -/
theorem roundWithAccuracy_eq (hx : x.Canonical) (hpos : 0 < x.significand) (htakes : x.Takes v)
    (hrough : Represents (.ofMantissaAndAccuracy mantissa accuracy) (v / 2 ^ exponent))
    (hle : exponent ≤ Format.binary64.targetExponent (totalExponent mantissa exponent))
    (sign : Sign) :
    roundWithAccuracy Format.binary64 sign mantissa exponent accuracy =
      .finite sign x.significand x.exponent hpos := by
  obtain ⟨hcut, hexponent⟩ := represents_shiftToExponent hle hrough
  rcases targetExponent_cases hx hpos htakes hrough hle with htarget | ⟨htarget, hunder⟩
  · rw [htarget] at hcut hexponent
    have hshift : shiftToTargetExponent Format.binary64 mantissa exponent accuracy =
        shiftToExponent mantissa exponent accuracy x.exponent := htarget ▸ rfl
    have hrounded := hcut.roundedMantissa_eq htakes.rounds
    have hfits := shiftToTargetExponent_of_fits hx.bounded hx.least
    rw [← hshift] at hrounded hexponent
    refine roundWithAccuracy_of_shifts sign hrounded hexponent ?_ ?_ hpos
    · rw [hfits, mantissa_ofMantissaAndAccuracy]
    · rw [hfits]
  · obtain ⟨hsame, hnormal, hcarry⟩ := htakes.roundsTo_carry hunder
    rw [htarget] at hcut hexponent
    have hshift : shiftToTargetExponent Format.binary64 mantissa exponent accuracy =
        shiftToExponent mantissa exponent accuracy (x.exponent - 1) := htarget ▸ rfl
    have hrounded := hcut.roundedMantissa_eq hcarry
    obtain ⟨hsignificand, hfinal⟩ :=
      shiftToTargetExponent_of_carry (by omega : -1074 ≤ x.exponent - 1)
    rw [← hshift] at hrounded hexponent
    rw [sub_add_cancel] at hfinal
    exact roundWithAccuracy_of_shifts sign hrounded hexponent (hsignificand.trans hsame.symm)
      hfinal hpos

end Rounded

end Scriptlet.Decimal
