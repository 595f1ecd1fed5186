/-
Decimals are read to the nearest double.

A decimal is read by one division of two doubles if both are exact, and else by one division or
multiplication of whole numbers.  Either way the result is rounded once, so that a decimal in the
interval of a double is read as that double.
-/
import Scriptlet.Proofs.Decimal.Rounding
import Scriptlet.Proofs.Decimal.Signs

namespace Scriptlet.Decimal

open Float.Model (Format UnpackedFloat totalExponent)
open Float.Model.UnpackedFloat

/-! ### Quotients -/

section Quotient

variable {x : Binary} {numerator denominator : ℕ}

/-- A fraction below one, by how it compares with a half. -/
theorem represents_part {rest : ℕ} (hrest : rest < denominator) (quotient : ℕ) :
    Represents (.ofMantissaAndAccuracy quotient (accuracyOfFraction rest denominator))
      (quotient + rest / denominator : ℚ) := by
  have hden : (0 : ℚ) < denominator := by exact_mod_cast Nat.zero_lt_of_lt hrest
  have hless : (rest : ℚ) / denominator < 1 := by
    rw [div_lt_one hden]
    exact_mod_cast hrest
  unfold accuracyOfFraction
  split
  · next hzero =>
      rw [hzero, Nat.cast_zero, zero_div, add_zero]
      exact represents_exact quotient
  · next hsome =>
      have hmore : (0 : ℚ) < rest / denominator :=
        div_pos (by exact_mod_cast Nat.pos_of_ne_zero hsome) hden
      have hdouble : 2 * ((rest : ℚ) / denominator) = (2 * rest : ℕ) / denominator := by
        push_cast
        ring
      cases hhalf : compare (2 * rest) denominator with
      | lt =>
          have hbelow : ((2 * rest : ℕ) : ℚ) / denominator < 1 := by
            rw [div_lt_one hden]
            exact_mod_cast Nat.compare_eq_lt.mp hhalf
          refine represents_of_lt rfl ?_ ?_
          all_goals
            simp only [halves, ExtendedMantissa.ofMantissaAndAccuracy, Bool.toNat_false]
            push_cast at hbelow hdouble ⊢
            linarith
      | eq =>
          have hmiddle : ((2 * rest : ℕ) : ℚ) / denominator = 1 := by
            rw [Nat.compare_eq_eq.mp hhalf, div_self hden.ne']
          refine represents_of_eq rfl ?_
          simp only [halves, ExtendedMantissa.ofMantissaAndAccuracy, Bool.toNat_true]
          push_cast at hmiddle hdouble ⊢
          linarith
      | gt =>
          have habove : 1 < ((2 * rest : ℕ) : ℚ) / denominator := by
            rw [one_lt_div hden]
            exact_mod_cast Nat.compare_eq_gt.mp hhalf
          refine represents_of_lt rfl ?_ ?_
          all_goals
            simp only [halves, ExtendedMantissa.ofMantissaAndAccuracy, Bool.toNat_true]
            push_cast at habove hdouble ⊢
            linarith

/-- A quotient, with what its remainder tells. -/
theorem represents_quotient (hpos : 0 < denominator) :
    Represents (.ofMantissaAndAccuracy (numerator / denominator)
      (accuracyOfFraction (numerator % denominator) denominator))
      (numerator / denominator : ℚ) := by
  have hden : (0 : ℚ) < denominator := by exact_mod_cast hpos
  have hparts : (numerator : ℚ) / denominator =
      (numerator / denominator : ℕ) + (numerator % denominator : ℕ) / denominator := by
    rw [eq_comm, ← mul_right_cancel_iff_of_pos hden, add_mul, div_mul_cancel₀ _ hden.ne',
      div_mul_cancel₀ _ hden.ne']
    exact_mod_cast Nat.div_add_mod' numerator denominator
  rw [hparts]
  exact represents_part (Nat.mod_lt _ hpos) _

variable {m₁ m₂ : ℕ} {e₁ e₂ : ℤ}

/-- The binade in which a quotient lies at least. -/
theorem binade_quotient (h₁ : 0 < m₁) (h₂ : 0 < m₂) :
    (2 : ℚ) ^ (totalExponent m₁ e₁ - totalExponent m₂ e₂ - 1) < m₁ * 2 ^ e₁ / (m₂ * 2 ^ e₂) := by
  have hleast : (2 : ℚ) ^ (m₁.log2 : ℤ) ≤ m₁ := by exact_mod_cast Nat.log2_self_le h₁.ne'
  have hmost : (m₂ : ℚ) < 2 ^ ((m₂.log2 : ℤ) + 1) := by exact_mod_cast Nat.lt_log2_self
  have hdivisor : (0 : ℚ) < m₂ * 2 ^ e₂ :=
    mul_pos (by exact_mod_cast h₂) (two_zpow_pos e₂)
  rw [lt_div_iff₀ hdivisor]
  have hbits : totalExponent m₁ e₁ - totalExponent m₂ e₂ - 1 + ((m₂.log2 : ℤ) + 1) + e₂ =
      m₁.log2 + e₁ := by
    rw [totalExponent, totalExponent]
    ring
  calc (2 : ℚ) ^ (totalExponent m₁ e₁ - totalExponent m₂ e₂ - 1) * (m₂ * 2 ^ e₂)
      < 2 ^ (totalExponent m₁ e₁ - totalExponent m₂ e₂ - 1) *
          (2 ^ ((m₂.log2 : ℤ) + 1) * 2 ^ e₂) := by
        have hscale := two_zpow_pos e₂
        have hfront := two_zpow_pos (totalExponent m₁ e₁ - totalExponent m₂ e₂ - 1)
        gcongr
    _ = 2 ^ (m₁.log2 : ℤ) * 2 ^ e₁ := by
        rw [← zpow_add₀ (by norm_num), ← zpow_add₀ (by norm_num), ← zpow_add₀ (by norm_num),
          ← add_assoc, hbits]
    _ ≤ m₁ * 2 ^ e₁ := by
        have hscale := two_zpow_pos e₁
        gcongr

/-- A quotient that a double takes is rounded to it. -/
theorem div_eq (hx : x.Canonical) (hpos : 0 < x.significand) (h₁ : 0 < m₁) (h₂ : 0 < m₂)
    (htakes : x.Takes (m₁ * 2 ^ e₁ / (m₂ * 2 ^ e₂))) :
    div Format.binary64 (.finite .positive m₁ e₁ h₁) (.finite .positive m₂ e₂ h₂) =
      .finite .positive x.significand x.exponent hpos := by
  generalize hcut : min (e₁ - e₂)
    (Format.binary64.targetExponent (totalExponent m₁ e₁ - totalExponent m₂ e₂)) = cut
  generalize hcount : (e₁ - e₂ - cut).toNat = count
  have hcore : divCore Format.binary64 m₁ e₁ m₂ e₂ =
      (m₁ <<< count / m₂, cut, accuracyOfFraction (m₁ <<< count % m₂) m₂) := by
    rw [← hcount, ← hcut]
    rfl
  have hscaled : ((m₁ <<< count : ℕ) : ℚ) / m₂ = m₁ * 2 ^ e₁ / (m₂ * 2 ^ e₂) / 2 ^ cut := by
    have hexponent : e₁ = count + e₂ + cut := by omega
    rw [hexponent, zpow_add₀ (by norm_num), zpow_add₀ (by norm_num), zpow_natCast,
      Nat.shiftLeft_eq]
    push_cast
    field_simp
  have hrough : Represents (.ofMantissaAndAccuracy (m₁ <<< count / m₂)
      (accuracyOfFraction (m₁ <<< count % m₂) m₂)) (((m₁ <<< count : ℕ) : ℚ) / m₂) :=
    represents_quotient h₂
  rw [hscaled] at hrough
  have hbits := lt_of_two_zpow ((binade_quotient h₁ h₂).trans hrough.lt_binade)
  have hle : cut ≤ Format.binary64.targetExponent (totalExponent (m₁ <<< count / m₂) cut) := by
    rw [targetExponent_eq] at hcut ⊢
    omega
  rw [div, hcore]
  exact roundWithAccuracy_eq hx hpos htakes hrough hle _

end Quotient

/-! ### Decimals by whole numbers -/

section Whole

variable {x : Binary} {number places : ℕ}

/-- A decimal that a double takes has not more places than arithmetic looks at. -/
theorem places_le (hx : x.Canonical) (hpos : 0 < x.significand)
    (htakes : x.Takes (number / 10 ^ places)) : 0 < number ∧ places ≤ 2048 + number.log2 := by
  have hten : (0 : ℚ) < 10 ^ places := by positivity
  have hleast := hx.least
  have hlower := htakes.le hpos
  rw [le_div_iff₀ hten] at hlower
  have hnumber : 0 < number := by
    have hpositive : (0 : ℚ) < number := lt_of_lt_of_le (by positivity) hlower
    exact_mod_cast hpositive
  have height : (2 : ℚ) ^ (3 * places : ℤ) ≤ 10 ^ places := by
    rw [zpow_mul, zpow_natCast]
    gcongr
    norm_num
  have hmost : (number : ℚ) < 2 ^ ((number.log2 : ℤ) + 1) := by exact_mod_cast Nat.lt_log2_self
  have hbits : (2 : ℚ) ^ (x.exponent - 1 + 3 * places) < 2 ^ ((number.log2 : ℤ) + 1) := by
    refine lt_of_le_of_lt ?_ hmost
    refine le_trans ?_ hlower
    rw [zpow_add₀ (by norm_num)]
    gcongr
  have hexponents := lt_of_two_zpow hbits
  exact ⟨hnumber, by omega⟩

theorem ofScientific_whole (hx : x.Canonical) (hpos : 0 < x.significand) (hnumber : 0 < number)
    (htakes : x.Takes number) (hwide : 0 < number <<< 53) :
    mul Format.binary64 (.finite .positive (number <<< 53) (-53) hwide)
        (.finite .positive (10 ^ 0) 0 (Nat.pow_pos (by decide))) =
      .finite .positive x.significand x.exponent hpos := by
  have hshift : number <<< 53 * 10 ^ 0 = number * 2 ^ 53 := by
    rw [Nat.shiftLeft_eq, Nat.pow_zero, Nat.mul_one]
  have hrough : Represents (.ofMantissaAndAccuracy (number * 2 ^ 53) .exact)
      ((number : ℚ) / 2 ^ (-53 : ℤ)) := by
    have hvalue : (number : ℚ) / 2 ^ (-53 : ℤ) = ((number * 2 ^ 53 : ℕ) : ℚ) := by
      rw [zpow_neg, div_inv_eq_mul]
      push_cast
      rfl
    rw [hvalue]
    exact represents_exact _
  have hlog : 53 ≤ (number * 2 ^ 53).log2 :=
    (Nat.le_log2 (by omega)).mpr (Nat.le_mul_of_pos_left _ hnumber)
  have hle : -53 ≤ Format.binary64.targetExponent (totalExponent (number * 2 ^ 53) (-53)) := by
    rw [targetExponent_eq, totalExponent]
    omega
  rw [mul, hshift]
  exact roundWithAccuracy_eq hx hpos htakes hrough hle _

/-- A decimal that a double takes is read as that double. -/
theorem ofScientific_eq (hx : x.Canonical) (hpos : 0 < x.significand)
    (htakes : x.Takes (number / 10 ^ places)) :
    Float.Model.UnpackedFloat.ofScientific Format.binary64 number (Int.negOfNat places) =
      .finite .positive x.significand x.exponent hpos := by
  obtain ⟨hnumber, hplaces⟩ := places_le hx hpos htakes
  rw [Int.negOfNat_eq, Int.ofNat_eq_natCast]
  unfold Float.Model.UnpackedFloat.ofScientific
  have hbits : (2 : ℤ) ^ Format.binary64.exponentBits = 2048 := rfl
  rw [dif_neg hnumber.ne', hbits, if_neg (by omega), if_neg (by omega)]
  split
  · next hwhole =>
      have hzero : places = 0 := by omega
      subst hzero
      rw [pow_zero, div_one] at htakes
      exact ofScientific_whole hx hpos hnumber htakes _
  · next hfraction =>
      have hten : (-(-(places : ℤ))).toNat = places := by omega
      have hvalue : (number : ℚ) / 10 ^ places =
          number * 2 ^ (0 : ℤ) / ((10 ^ places : ℕ) * 2 ^ (0 : ℤ)) := by
        rw [zpow_zero, mul_one, mul_one, Nat.cast_pow, Nat.cast_ofNat]
      rw [hvalue] at htakes
      simp only [hten]
      exact div_eq hx hpos hnumber _ htakes

end Whole

/-! ### Doubles -/

section Packed

variable {significand : ℕ} {exponent : ℤ}

theorem pack_normal (hpos : 0 < significand) (hlog : significand.log2 = 52)
    (hgreatest : exponent ≤ 971) :
    pack Format.binary64 (.finite .positive significand exponent hpos) =
      packComponents Format.binary64 .positive (BitVec.ofNat 11 (exponent + 1023 + 52).toNat)
        (BitVec.ofNat 52 significand) := by
  unfold pack
  dsimp only
  rw [if_neg, if_pos]
  · rfl
  · rw [hlog]
    rfl
  · change ¬ 2 ^ 11 ≤ (exponent + 1023 + 52).toNat + 1
    omega

/-- The leading bit is left out, and comes back. -/
theorem toNat_append_ofNat (hleast : 2 ^ 52 ≤ significand) (hbounded : significand < 2 ^ 53) :
    (1#1 ++ BitVec.ofNat 52 significand).toNat = significand := by
  have hfraction : (BitVec.ofNat 52 significand).toNat = significand % 2 ^ 52 :=
    BitVec.toNat_ofNat _ _
  rw [BitVec.toNat_append, ← Nat.shiftLeft_add_eq_or_of_lt (BitVec.isLt _), hfraction]
  change 1 <<< 52 + _ = _
  omega

/-- A normal number is packed without loss. -/
theorem unpack_pack_normal (hpos : 0 < significand) (hleast : 2 ^ 52 ≤ significand)
    (hbounded : significand < 2 ^ 53) (hnormal : -1074 ≤ exponent) (hgreatest : exponent ≤ 971) :
    unpack Format.binary64
        (pack Format.binary64 (.finite .positive significand exponent hpos)) =
      .finite .positive significand exponent hpos := by
  have hlog : significand.log2 = 52 :=
    (Nat.log2_eq_iff (by omega)).mpr ⟨hleast, hbounded⟩
  rw [pack_normal hpos hlog hgreatest]
  generalize hbiased : (exponent + 1023 + 52).toNat = biased
  have hscale : (BitVec.ofNat 11 biased).toNat = biased := by
    rw [BitVec.toNat_ofNat]
    omega
  have hspecial : BitVec.ofNat 11 biased ≠ -1#11 := by
    rw [ne_eq, ← BitVec.toNat_inj, hscale]
    change biased ≠ 2047
    omega
  have hsubnormal : BitVec.ofNat 11 biased ≠ 0#11 := by
    rw [ne_eq, ← BitVec.toNat_inj, hscale]
    change biased ≠ 0
    omega
  have hexponent : ((BitVec.ofNat 11 biased).toNat : ℤ) - (1023 + 52) = exponent := by
    rw [hscale]
    omega
  unfold unpack
  simp only [unpackExponent_packComponents, unpackMantissa_packComponents,
    unpackSign_packComponents, Sign.ofBitVec_toBitVec]
  rw [if_neg hspecial, if_neg hsubnormal]
  simp only [toNat_append_ofNat hleast hbounded]
  exact congrArg (fun exponent => UnpackedFloat.finite .positive significand exponent hpos)
    hexponent

theorem Binary.takes_self (x : Binary) : x.Takes (x.significand * 2 ^ x.exponent) := by
  have hscaled : (x.significand * 2 ^ x.exponent : ℚ) / 2 ^ x.exponent = x.significand :=
    mul_div_cancel_right₀ _ (two_zpow_pos x.exponent).ne'
  refine ⟨?_, fun _ => ?_⟩
  · rw [hscaled]
    refine ⟨?_, ?_, fun _ => ⟨?_, ?_⟩⟩ <;> linarith
  · rw [hscaled]
    linarith

section Whole

variable {number : ℕ}

theorem le_shifted (hpos : 0 < number) (hlog : number.log2 ≤ 52) :
    2 ^ 52 ≤ number * 2 ^ (52 - number.log2) := by
  calc 2 ^ 52 = 2 ^ number.log2 * 2 ^ (52 - number.log2) := by
        rw [← Nat.pow_add, Nat.add_sub_cancel' hlog]
    _ ≤ number * 2 ^ (52 - number.log2) := Nat.mul_le_mul_right _ (Nat.log2_self_le hpos.ne')

theorem shifted_lt (hlog : number.log2 ≤ 52) : number * 2 ^ (52 - number.log2) < 2 ^ 53 := by
  calc number * 2 ^ (52 - number.log2) < 2 ^ (number.log2 + 1) * 2 ^ (52 - number.log2) :=
        Nat.mul_lt_mul_of_pos_right Nat.lt_log2_self (Nat.pow_pos (by decide))
    _ = 2 ^ 53 := by
        rw [← Nat.pow_add]
        congr 1
        omega

/-- All 53 bits are used. -/
theorem ofNat_eq_round (hpos : 0 < number) (hlog : number.log2 ≤ 52) :
    ofNat Format.binary64 number =
      roundWithAccuracy Format.binary64 .positive (number * 2 ^ (52 - number.log2))
        (-((52 - number.log2 : ℕ) : ℤ)) .exact := by
  have hsign : compare (number : ℤ) 0 = .gt := compare_gt_iff_gt.mpr (by omega)
  have htarget : Format.binary64.targetExponent (totalExponent number 0) =
      -((52 - number.log2 : ℕ) : ℤ) := by
    rw [targetExponent_eq, totalExponent]
    omega
  rw [ofNat, ofInt, Float.Model.UnpackedFloat.normalize, hsign]
  dsimp only
  unfold Float.Model.UnpackedFloat.round
  simp only [decreaseExponent, Int.toNat_natCast, htarget, Nat.shiftLeft_eq, sub_neg_eq_add,
    zero_add, zero_sub]

/-- A whole number of at most 53 bits is a double. -/
theorem unpack_toFloat (hpos : 0 < number) (hbounded : number < 2 ^ 53) :
    ∃ (significand : ℕ) (exponent : ℤ) (h : 0 < significand),
      number.toUInt64.toFloat.toModel.unpack = .finite .positive significand exponent h ∧
        (significand * 2 ^ exponent : ℚ) = number := by
  have hlog : number.log2 ≤ 52 := Nat.lt_succ_iff.mp ((Nat.log2_lt hpos.ne').mpr hbounded)
  have hleast := le_shifted hpos hlog
  have hmost := shifted_lt hlog
  have hround := ofNat_eq_round hpos hlog
  have hcount : 52 - number.log2 ≤ 52 := Nat.sub_le _ _
  generalize 52 - number.log2 = count at hleast hmost hround hcount
  have hexponent : -1074 ≤ -(count : ℤ) ∧ -(count : ℤ) ≤ 971 := by omega
  have hcanonical : Binary.Canonical ⟨false, number * 2 ^ count, -count⟩ :=
    ⟨hmost, hexponent.1, fun _ => hleast⟩
  have hsignificand : 0 < number * 2 ^ count := by omega
  have htakes := Binary.takes_self ⟨false, number * 2 ^ count, -count⟩
  have hrough : Represents (.ofMantissaAndAccuracy (number * 2 ^ count) .exact)
      (((number * 2 ^ count : ℕ) * 2 ^ (-count : ℤ) : ℚ) / 2 ^ (-count : ℤ)) := by
    rw [mul_div_cancel_right₀ _ (two_zpow_pos (-count)).ne']
    exact represents_exact _
  have hle : -(count : ℤ) ≤
      Format.binary64.targetExponent (totalExponent (number * 2 ^ count) (-count)) := by
    have hbits := (Nat.le_log2 hsignificand.ne').mpr hleast
    rw [targetExponent_eq, totalExponent]
    omega
  have hrounded := roundWithAccuracy_eq hcanonical hsignificand htakes hrough hle .positive
  have hword : number.toUInt64.toNat = number :=
    UInt64.toNat_ofNat_of_lt' (hbounded.trans (by decide))
  refine ⟨number * 2 ^ count, -count, hsignificand, ?_, ?_⟩
  · change unpack Format.binary64 (pack Format.binary64 (ofNat Format.binary64 _)) = _
    rw [hword, hround, hrounded]
    exact unpack_pack_normal hsignificand hleast hmost hexponent.1 hexponent.2
  · rw [zpow_neg, zpow_natCast]
    push_cast
    field_simp

end Whole

end Packed

section Read

variable {x : Float} {value : Binary} {number places : ℕ}

/-- Only what a double can be is read from its bits. -/
theorem canonical_of_reading (h : Reading.ofFloat x = .finite value) : value.Canonical := by
  unfold Reading.ofFloat Reading.ofBits at h
  have hfraction : x.toBits.toNat % Nat.pow 2 52 < 2 ^ 52 := Nat.mod_lt _ (by decide)
  dsimp only at h
  split at h
  · split at h <;> cases h
  · split at h
    · cases h
      exact ⟨hfraction.trans (by decide), le_rfl, fun hnormal => absurd hnormal (lt_irrefl _)⟩
    · next hscale =>
        cases h
        refine ⟨?_, ?_, fun _ => Nat.le_add_right _ _⟩
        · calc Nat.pow 2 52 + x.toBits.toNat % Nat.pow 2 52
              < 2 ^ 52 + 2 ^ 52 := Nat.add_lt_add_left hfraction _
            _ = 2 ^ 53 := by decide
        · change -1074 ≤ ((x.toBits.toNat / Nat.pow 2 52 % Nat.pow 2 11 : ℕ) : ℤ) - 1075
          omega

theorem unpack_of_reading (h : Reading.ofFloat x = .finite value) (hsign : value.negative = false)
    (hpos : 0 < value.significand) :
    x.toModel.unpack = .finite .positive value.significand value.exponent hpos := by
  obtain ⟨sign, hx, rfl⟩ | ⟨sign, significand, exponent, hsome, hx, rfl⟩ := unpack_cases h
  · exact absurd hpos (lt_irrefl 0)
  · cases sign with
    | positive => exact hx
    | negative => cases hsign

/-- Whether a double in the table is the power of ten. -/
def isPower (places : Fin 23) : Bool :=
  match (Float.exactlyRepresentablePowersOfTen[places.val]).toModel.unpack with
  | .finite .positive significand exponent _ =>
      decide (-52 ≤ exponent) &&
        significand * 2 ^ (exponent + 52).toNat == 10 ^ places.val * 2 ^ 52
  | _ => false

/-- The powers of ten in the table are exact. -/
theorem unpack_power (h : places < 23) :
    ∃ (significand : ℕ) (exponent : ℤ) (hpos : 0 < significand),
      (Float.exactlyRepresentablePowersOfTen[places]).toModel.unpack =
          .finite .positive significand exponent hpos ∧
        (significand * 2 ^ exponent : ℚ) = 10 ^ places := by
  have hall : ∀ places, isPower places = true := by decide +kernel
  have hpower := hall ⟨places, h⟩
  unfold isPower at hpower
  split at hpower
  · next significand exponent hpos hparts =>
      rw [Bool.and_eq_true, decide_eq_true_eq, beq_iff_eq] at hpower
      obtain ⟨hleast, hvalue⟩ := hpower
      refine ⟨significand, exponent, hpos, hparts, ?_⟩
      have hscaled : (significand * 2 ^ (exponent + 52).toNat : ℚ) = 10 ^ places * 2 ^ 52 := by
        exact_mod_cast hvalue
      have hcount : ((exponent + 52).toNat : ℤ) = exponent + 52 := by omega
      rw [← zpow_natCast, hcount, zpow_add₀ (by norm_num), ← mul_assoc] at hscaled
      exact mul_right_cancel₀ (by norm_num) hscaled
  · cases hpower

/-- A decimal in the interval of a double is read as the double. -/
theorem ofScientific_of_takes (hx : Reading.ofFloat x = .finite value)
    (hsign : value.negative = false) (hpos : 0 < value.significand)
    (htakes : value.Takes (number / 10 ^ places)) :
    Float.ofScientific number true places = x := by
  have hcanonical := canonical_of_reading hx
  have hparts := unpack_of_reading hx hsign hpos
  have hpacked : Float.ofModel (.pack (.finite .positive value.significand value.exponent hpos)) =
      x := by
    rw [← hparts]
    exact Float.ofBits_toBits x
  unfold Float.ofScientific
  split
  · next hexact =>
      obtain ⟨m₁, e₁, h₁, hnumber, hvalue⟩ :=
        unpack_toFloat (places_le hcanonical hpos htakes).1 hexact.1
      obtain ⟨m₂, e₂, h₂, hpower, hten⟩ := unpack_power (by omega : places < 23)
      rw [← hvalue, ← hten] at htakes
      have hquotient := div_eq hcanonical hpos h₁ h₂ htakes
      rw [← hnumber, ← hpower] at hquotient
      rw [← hpacked, ← hquotient]
      rfl
  · rw [← hpacked, ← ofScientific_eq hcanonical hpos htakes]
    rfl

end Read

end Scriptlet.Decimal
