/-
What is written about a double is read as that double.

The test by which shortest digits are chosen is the interval of the numbers that are rounded to
the double.  On the finest grid that is tried, a neighbour of the double is nearer than any end of
the interval, so that some grid has a point for it.
-/
import Scriptlet.Proofs.Decimal.Numerals
import Scriptlet.Proofs.Decimal.Scientific

namespace Scriptlet.Decimal

/-! ### The test for a decimal -/

section Admits

variable {x : Binary} {point : ℕ} {exponent : ℤ}

/-- A power as the fraction of whole numbers by which it is computed. -/
theorem zpow_eq_div (base : ℕ) (exponent : ℤ) :
    (base : ℚ) ^ exponent =
      (if 0 ≤ exponent then base ^ exponent.toNat else 1 : ℕ) /
        (if 0 ≤ exponent then 1 else base ^ (-exponent).toNat : ℕ) := by
  split
  · next hpositive =>
      have hcount : ((exponent.toNat : ℕ) : ℤ) = exponent := by omega
      rw [Nat.cast_one, div_one, Nat.cast_pow, ← zpow_natCast, hcount]
  · next hnegative =>
      have hcount : (((-exponent).toNat : ℕ) : ℤ) = -exponent := by omega
      rw [Nat.cast_one, Nat.cast_pow, ← zpow_natCast, hcount, zpow_neg, one_div, inv_inv]

theorem ratio_eq (x : Binary) :
    ∃ up down : ℕ, x.ratio = (x.significand * up, down) ∧ 0 < up ∧ 0 < down ∧
      (2 : ℚ) ^ x.exponent = up / down := by
  refine ⟨_, _, ?_, ?_, ?_, zpow_eq_div 2 x.exponent⟩
  · unfold Binary.ratio
    split <;> simp
  · split <;> positivity
  · split <;> positivity

theorem power_eq (exponent : ℤ) :
    ∃ up down : ℕ, (if 0 ≤ exponent then (Nat.pow 10 exponent.toNat, 1)
        else (1, Nat.pow 10 (-exponent).toNat)) = (up, down) ∧ 0 < up ∧ 0 < down ∧
      (10 : ℚ) ^ exponent = up / down := by
  refine ⟨_, _, ?_, ?_, ?_, zpow_eq_div 10 exponent⟩
  · split <;> rfl
  · split <;> positivity
  · split <;> positivity

theorem takes_iff {v : ℚ} :
    x.Takes v ↔ RoundsTo x.significand (v / 2 ^ x.exponent) ∧
      (x.narrowBelow = true → (x.significand : ℚ) - 1 / 4 ≤ v / 2 ^ x.exponent) :=
  ⟨fun h => ⟨h.rounds, h.narrow⟩, fun h => ⟨h.1, h.2⟩⟩

/-- The least significand of a binade is even. -/
theorem not_narrowBelow_of_odd (hodd : x.significand % 2 = 1) : ¬ x.narrowBelow = true := by
  intro hnarrow
  simp only [Binary.narrowBelow, Bool.and_eq_true, beq_iff_eq] at hnarrow
  rw [hnarrow.1] at hodd
  exact absurd hodd (by decide)

section Quarters

variable {unit candidate : ℕ} {scaled : ℚ}

theorem quarters_le_iff (hunit : (0 : ℚ) < unit) (hcandidate : (candidate : ℚ) = 4 * scaled * unit)
    (quarters : ℕ) : quarters * unit ≤ candidate ↔ (quarters : ℚ) / 4 ≤ scaled := by
  rw [← @Nat.cast_le ℚ, hcandidate, Nat.cast_mul, mul_le_mul_iff_left₀ hunit,
    div_le_iff₀' (by norm_num)]

theorem le_quarters_iff (hunit : (0 : ℚ) < unit) (hcandidate : (candidate : ℚ) = 4 * scaled * unit)
    (quarters : ℕ) : candidate ≤ quarters * unit ↔ scaled ≤ (quarters : ℚ) / 4 := by
  rw [← @Nat.cast_le ℚ, hcandidate, Nat.cast_mul, mul_le_mul_iff_left₀ hunit,
    le_div_iff₀' (by norm_num)]

/-- The interval of a double, its ends counted in quarters of the last place. -/
theorem rounds_iff_quarters (hpos : 0 < x.significand) :
    (if x.significand % 2 = 0 then
      ((4 * x.significand - if x.narrowBelow = true then 1 else 2 : ℕ) : ℚ) / 4 ≤ scaled ∧
        scaled ≤ ((4 * x.significand + 2 : ℕ) : ℚ) / 4
    else
      ((4 * x.significand - if x.narrowBelow = true then 1 else 2 : ℕ) : ℚ) / 4 < scaled ∧
        scaled < ((4 * x.significand + 2 : ℕ) : ℚ) / 4) ↔
    RoundsTo x.significand scaled ∧
      (x.narrowBelow = true → (x.significand : ℚ) - 1 / 4 ≤ scaled) := by
  have hquarter : ((4 * x.significand - 1 : ℕ) : ℚ) / 4 = x.significand - 1 / 4 := by
    rw [Nat.cast_sub (by omega)]
    push_cast
    ring
  have hhalf : ((4 * x.significand - 2 : ℕ) : ℚ) / 4 = x.significand - 1 / 2 := by
    rw [Nat.cast_sub (by omega)]
    push_cast
    ring
  have habove : ((4 * x.significand + 2 : ℕ) : ℚ) / 4 = x.significand + 1 / 2 := by
    push_cast
    ring
  rw [RoundsTo, habove]
  rcases Nat.mod_two_eq_zero_or_one x.significand with heven | hodd
  · have hnone : ¬ x.significand % 2 = 1 := by omega
    rw [if_pos heven]
    cases hnarrow : x.narrowBelow with
    | false =>
        rw [if_neg Bool.false_ne_true, hhalf]
        exact ⟨fun h => ⟨⟨h.1, h.2, fun hodd => absurd hodd hnone⟩,
            fun hnarrow => absurd hnarrow Bool.false_ne_true⟩,
          fun h => ⟨h.1.1, h.1.2.1⟩⟩
    | true =>
        rw [if_pos rfl, hquarter]
        refine ⟨fun h => ⟨⟨?_, h.2, fun hodd => absurd hodd hnone⟩, fun _ => h.1⟩,
          fun h => ⟨h.2 rfl, h.1.2.1⟩⟩
        linarith [h.1]
  · have hwide := not_narrowBelow_of_odd hodd
    rw [if_neg (by omega), if_neg hwide, hhalf]
    exact ⟨fun h => ⟨⟨h.1.le, h.2.le, fun _ => h⟩, fun hnarrow => absurd hnarrow hwide⟩,
      fun h => h.1.2.2 hodd⟩

end Quarters

/-- A decimal passes the test exactly if the double takes it. -/
theorem admits_iff (hpos : 0 < x.significand) :
    x.admits point exponent = true ↔ x.Takes (point * 10 ^ exponent) := by
  obtain ⟨up, down, hratio, hup, hdown, hscale⟩ := ratio_eq x
  obtain ⟨tenUp, tenDown, hpower, htenUp, htenDown, hten⟩ := power_eq exponent
  generalize hscaled : (point * 10 ^ exponent : ℚ) / 2 ^ x.exponent = scaled
  have hunit : (0 : ℚ) < (up * tenDown : ℕ) := by positivity
  have hcandidate : ((4 * point * tenUp * down : ℕ) : ℚ) = 4 * scaled * (up * tenDown : ℕ) := by
    rw [← hscaled, hten, hscale]
    push_cast
    field_simp
  have htarget : 4 * (x.significand * up) * tenDown = 4 * x.significand * (up * tenDown) := by ring
  have hquarter : x.significand * up / x.significand * tenDown = up * tenDown := by
    rw [Nat.mul_div_cancel_left _ hpos]
  unfold Binary.admits
  rw [hratio, hpower]
  dsimp only
  rw [htarget, hquarter]
  generalize up * tenDown = unit at hunit hcandidate
  generalize 4 * point * tenUp * down = candidate at hcandidate
  have hlow : 4 * x.significand * unit - (if x.narrowBelow = true then unit else 2 * unit) =
      (4 * x.significand - if x.narrowBelow = true then 1 else 2) * unit := by
    split <;> rw [Nat.sub_mul]
    rw [Nat.one_mul]
  have hhigh : 4 * x.significand * unit + 2 * unit = (4 * x.significand + 2) * unit := by ring
  rw [takes_iff, hscaled, ← rounds_iff_quarters hpos, hlow, hhigh]
  split
  · rw [Bool.and_eq_true, decide_eq_true_eq, decide_eq_true_eq, quarters_le_iff hunit hcandidate,
      le_quarters_iff hunit hcandidate]
  · rw [Bool.and_eq_true, decide_eq_true_eq, decide_eq_true_eq, ← not_le, ← not_le,
      quarters_le_iff hunit hcandidate, le_quarters_iff hunit hcandidate, not_le, not_le]

end Admits

/-! ### The finest grid -/

section Grid

variable {x : Binary} {exponent : ℤ}

/-- The magnitude of a double. -/
def Binary.size (x : Binary) : ℚ :=
  x.significand * 2 ^ x.exponent

theorem ratio_div (x : Binary) : (x.ratio.1 : ℚ) / x.ratio.2 = x.size := by
  obtain ⟨up, down, hratio, -, -, hscale⟩ := ratio_eq x
  rw [hratio, Binary.size, hscale]
  push_cast
  ring

theorem lt_ten_pow_digitCount (n : ℕ) : n < 10 ^ digitCount n := by
  unfold digitCount
  split
  · next hzero => simp [hzero]
  · exact (Nat.length_toDigits_le_iff (by decide) Nat.length_toDigits_pos).mp le_rfl

theorem ten_pow_digitCount_le {n : ℕ} (hpos : 0 < n) :
    ∃ digits : ℕ, digitCount n = digits + 1 ∧ 10 ^ digits ≤ n := by
  have hsome : 0 < digitCount n := by
    rw [digitCount, if_neg hpos.ne']
    exact Nat.length_toDigits_pos
  obtain ⟨digits, hdigits⟩ := Nat.exists_eq_add_one_of_ne_zero hsome.ne'
  refine ⟨digits, hdigits, ?_⟩
  rcases Nat.eq_zero_or_pos digits with rfl | hmore
  · exact hpos
  · by_contra hless
    have hlength := (Nat.length_toDigits_le_iff (by decide : 1 < 10) hmore).mpr (not_le.mp hless)
    rw [digitCount, if_neg hpos.ne'] at hdigits
    omega

/-- The leading digit of a fraction is not zero. -/
theorem ten_zpow_leadingExponent_le {numerator denominator : ℕ} (hnumerator : 0 < numerator)
    (hdenominator : 0 < denominator) :
    (10 : ℚ) ^ leadingExponent numerator denominator ≤ numerator / denominator := by
  have hden : (0 : ℚ) < denominator := by exact_mod_cast hdenominator
  unfold leadingExponent
  split
  · next hle =>
      obtain ⟨digits, hdigits, hlower⟩ := ten_pow_digitCount_le (Nat.div_pos hle hdenominator)
      have hquotient : 10 ^ digits * denominator ≤ numerator :=
        (Nat.le_div_iff_mul_le hdenominator).mp hlower
      rw [hdigits, Nat.cast_add, Nat.cast_one, add_sub_cancel_right, zpow_natCast,
        le_div_iff₀ hden]
      exact_mod_cast hquotient
  · next hlt =>
      generalize hcount : digitCount ((denominator - 1) / numerator) = count
      have hupper := lt_ten_pow_digitCount ((denominator - 1) / numerator)
      rw [hcount, Nat.div_lt_iff_lt_mul hnumerator] at hupper
      have hten : (0 : ℚ) < 10 ^ count := by positivity
      rw [zpow_neg, zpow_natCast, le_div_iff₀ hden, inv_mul_le_iff₀ hten]
      exact_mod_cast (by omega : denominator ≤ 10 ^ count * numerator)

/-- What is as near as half a unit in the seventeenth digit is taken. -/
theorem takes_of_near (hx : x.Canonical) {v : ℚ}
    (hbelow : x.size - v ≤ x.size / (2 * 10 ^ 16)) (habove : v - x.size ≤ x.size / (2 * 10 ^ 16)) :
    x.Takes v := by
  have hscale := two_zpow_pos x.exponent
  have hmost : (x.significand : ℚ) + 1 ≤ 2 ^ 53 := by exact_mod_cast hx.bounded
  have hscaled : v = v / 2 ^ x.exponent * 2 ^ x.exponent := (div_mul_cancel₀ v hscale.ne').symm
  generalize v / 2 ^ x.exponent = scaled at hscaled
  have hlower : (x.significand : ℚ) - scaled ≤ x.significand / (2 * 10 ^ 16) := by
    rw [Binary.size, hscaled, ← sub_mul, mul_div_right_comm] at hbelow
    exact le_of_mul_le_mul_right hbelow hscale
  have hupper : scaled - (x.significand : ℚ) ≤ x.significand / (2 * 10 ^ 16) := by
    rw [Binary.size, hscaled, ← sub_mul, mul_div_right_comm] at habove
    exact le_of_mul_le_mul_right habove hscale
  rw [takes_iff, hscaled, mul_div_cancel_right₀ _ hscale.ne']
  refine ⟨⟨?_, ?_, fun _ => ⟨?_, ?_⟩⟩, fun hnarrow => ?_⟩
  · linarith
  · linarith
  · linarith
  · linarith
  · simp only [Binary.narrowBelow, Bool.and_eq_true, beq_iff_eq] at hnarrow
    have hleast : (x.significand : ℚ) = 2 ^ 52 := by exact_mod_cast hnarrow.1
    rw [hleast] at hlower ⊢
    linarith

/-- On such a grid, one of the two neighbours of the double is taken. -/
theorem takes_neighbour (hx : x.Canonical) (hfine : (10 : ℚ) ^ exponent * 10 ^ 16 ≤ x.size)
    {below : ℕ} (hbelow : (below : ℚ) * 10 ^ exponent ≤ x.size)
    (habove : x.size < (below + 1 : ℕ) * 10 ^ exponent) :
    x.Takes (below * 10 ^ exponent) ∨ x.Takes ((below + 1 : ℕ) * 10 ^ exponent) := by
  have hstep : (10 : ℚ) ^ exponent / 2 ≤ x.size / (2 * 10 ^ 16) := by
    rw [le_div_iff₀ (by norm_num)]
    linarith
  push_cast at habove ⊢
  rcases le_total (x.size - below * 10 ^ exponent) (10 ^ exponent / 2) with hnear | hfar
  · left
    exact takes_of_near hx (hnear.trans hstep) (by linarith)
  · right
    exact takes_of_near hx (by linarith) (by linarith)

/-- The two neighbours are tried, the nearer one first. -/
theorem nearestOn?_eq_some {tie : Tie} {d : Digits} (h : x.nearestOn? tie exponent = some d) :
    d.exponent = exponent ∧ x.admits d.digits exponent = true := by
  unfold Binary.nearestOn? at h
  dsimp only at h
  split_ifs at h <;> cases h <;> exact ⟨rfl, ‹_›⟩

/-- The double in units of the grid. -/
theorem scaled_eq (x : Binary) (exponent : ℤ) :
    ∃ numerator denominator : ℕ,
      (if 0 ≤ exponent then (x.ratio.1, x.ratio.2 * Nat.pow 10 exponent.toNat)
        else (x.ratio.1 * Nat.pow 10 (-exponent).toNat, x.ratio.2)) = (numerator, denominator) ∧
      0 < denominator ∧ (numerator : ℚ) / denominator = x.size / 10 ^ exponent := by
  obtain ⟨up, down, hratio, -, hdown, -⟩ := ratio_eq x
  have hsize := ratio_div x
  have hten := zpow_eq_div 10 exponent
  rw [hratio] at hsize ⊢
  push_cast at hten
  rw [← hsize, hten]
  split
  · refine ⟨_, _, rfl, Nat.mul_pos hdown (Nat.pow_pos (by decide)), ?_⟩
    simp only [Nat.pow_eq]
    push_cast
    field_simp
  · refine ⟨_, _, rfl, hdown, ?_⟩
    simp only [Nat.pow_eq]
    push_cast
    field_simp

theorem nearestOn?_isSome (tie : Tie) (hx : x.Canonical) (hpos : 0 < x.significand)
    (hfine : (10 : ℚ) ^ exponent * 10 ^ 16 ≤ x.size) :
    (x.nearestOn? tie exponent).isSome = true := by
  obtain ⟨numerator, denominator, hscaled, hdenominator, hvalue⟩ := scaled_eq x exponent
  have hten : (0 : ℚ) < 10 ^ exponent := by positivity
  have hden : (0 : ℚ) < denominator := by exact_mod_cast hdenominator
  have hbelow : ((numerator / denominator : ℕ) : ℚ) * 10 ^ exponent ≤ x.size := by
    rw [← le_div_iff₀ hten, ← hvalue, le_div_iff₀ hden]
    exact_mod_cast Nat.div_mul_le_self numerator denominator
  have habove : x.size < (numerator / denominator + 1 : ℕ) * 10 ^ exponent := by
    rw [← div_lt_iff₀ hten, ← hvalue, div_lt_iff₀ hden]
    have hnext := Nat.lt_mul_div_succ numerator hdenominator
    rw [Nat.mul_comm] at hnext
    exact_mod_cast hnext
  have htakes := takes_neighbour hx hfine hbelow habove
  rw [← admits_iff hpos, ← admits_iff hpos] at htakes
  unfold Binary.nearestOn?
  dsimp only
  rw [hscaled]
  dsimp only
  generalize numerator / denominator = below at htakes
  rcases htakes with hadmits | hadmits <;> split_ifs <;> simp_all

end Grid

/-- The shortest digits make up a decimal that the double takes. -/
theorem shortest_takes {x : Binary} (hx : x.Canonical) (hpos : 0 < x.significand) (tie : Tie) :
    x.Takes ((x.shortest tie).digits * 10 ^ (x.shortest tie).exponent) := by
  obtain ⟨up, down, hratio, hup, hdown, -⟩ := ratio_eq x
  have hlead : (10 : ℚ) ^ leadingExponent x.ratio.1 x.ratio.2 ≤ x.size := by
    rw [← ratio_div x, hratio]
    exact ten_zpow_leadingExponent_le (Nat.mul_pos hpos hup) hdown
  have hfine : (10 : ℚ) ^ (leadingExponent x.ratio.1 x.ratio.2 - (16 : ℕ)) * 10 ^ 16 ≤ x.size := by
    rwa [zpow_sub₀ (by norm_num), zpow_natCast, div_mul_cancel₀ _ (by norm_num)]
  have hsome := nearestOn?_isSome tie hx hpos hfine
  unfold Binary.shortest
  rw [if_neg hpos.ne']
  dsimp only
  split
  · next d hfound =>
      obtain ⟨exponent, -, hnearest⟩ := List.exists_of_findSome?_eq_some hfound
      obtain ⟨rfl, hadmits⟩ := nearestOn?_eq_some hnearest
      have htakes := (admits_iff hpos).mp hadmits
      split
      · next hten =>
          have hcarry : ((1 : ℕ) : ℚ) * 10 ^ (d.exponent + 1) = d.digits * 10 ^ d.exponent := by
            rw [hten, zpow_add₀ (by norm_num)]
            push_cast
            ring
          rw [hcarry]
          exact htakes
      · exact htakes
  · next hnone =>
      rw [List.findSome?_eq_none_iff] at hnone
      have hlast := hnone _ (List.mem_map.mpr ⟨16, List.mem_range.mpr (by decide), rfl⟩)
      rw [hlast] at hsome
      cases hsome

/-! ### The text of a double -/

section Text

variable {x : Float} {value : Binary} {format : NumberFormat}

/-- A magnitude that is a whole number is that number. -/
theorem whole?_eq_some {n : ℕ} (h : value.whole? = some n) : (n : ℚ) = value.size := by
  obtain ⟨up, down, hratio, -, hdown, -⟩ := ratio_eq value
  have hsize := ratio_div value
  unfold Binary.whole? at h
  rw [hratio] at h hsize
  dsimp only at h hsize
  split at h
  · next hrest =>
      cases h
      rw [← hsize, Nat.cast_div (Nat.dvd_of_mod_eq_zero hrest) (by exact_mod_cast hdown.ne')]
  · cases h

theorem eq_zero_of_reading (hx : Reading.ofFloat x = .finite value)
    (hsign : value.negative = false) (hzero : value.significand = 0) : x = .ofBits 0 := by
  obtain ⟨sign, hparts, rfl⟩ | ⟨sign, significand, exponent, hpos, -, rfl⟩ := unpack_cases hx
  · cases sign with
    | positive => exact eq_of_unpack hparts
    | negative => cases hsign
  · exact absurd hpos hzero.not_gt

theorem ofScientific_zero (places : ℕ) : Float.ofScientific 0 true places = .ofBits 0 := by
  have hexact : ∀ places : Fin 23, Float.ofScientific 0 true places = .ofBits 0 := by
    decide +kernel
  by_cases hplaces : places < 23
  · exact hexact ⟨places, hplaces⟩
  · unfold Float.ofScientific
    rw [dif_neg (by omega)]
    rfl

/-- What is written about a magnitude in positional notation reads back. -/
theorem numberOf_magnitude (hformat : format.Positional) (hx : Reading.ofFloat x = .finite value)
    (hsign : value.negative = false) :
    Source.numberOf (format.magnitude value) = x := by
  have hnumeral := hformat.numeral value
  rcases Nat.eq_zero_or_pos value.significand with hzero | hpos
  · rw [eq_zero_of_reading hx hsign hzero]
    rcases hnumeral with ⟨n, places, hwhole, hnumeral⟩ | hnumeral
    · have hn : (n : ℚ) = 0 := by
        rw [whole?_eq_some hwhole, Binary.size, hzero, Nat.cast_zero, zero_mul]
      have hn : n = 0 := by exact_mod_cast hn
      rw [hnumeral.numberOf, hn, Nat.zero_mul, ofScientific_zero]
    · have hshortest : value.shortest format.tie = ⟨0, 0⟩ := if_pos hzero
      rw [hshortest, Nat.zero_mul] at hnumeral
      rw [hnumeral.numberOf, ofScientific_zero]
  · rcases hnumeral with ⟨n, places, hwhole, hnumeral⟩ | hnumeral
    · have hvalue : ((n * 10 ^ places : ℕ) : ℚ) / 10 ^ places = value.size := by
        rw [← whole?_eq_some hwhole]
        push_cast
        exact mul_div_cancel_right₀ _ (by positivity)
      rw [hnumeral.numberOf]
      exact ofScientific_of_takes hx hsign hpos (hvalue ▸ value.takes_self)
    · have htakes := shortest_takes (canonical_of_reading hx) hpos format.tie
      generalize value.shortest format.tie = d at hnumeral htakes
      have hvalue : ((d.digits * 10 ^ d.exponent.toNat : ℕ) : ℚ) / 10 ^ (-d.exponent).toNat =
          d.digits * 10 ^ d.exponent := by
        have hexponent : (d.exponent.toNat : ℤ) - ((-d.exponent).toNat : ℤ) = d.exponent := by
          omega
        have hten : (10 : ℚ) ^ d.exponent =
            10 ^ d.exponent.toNat / 10 ^ (-d.exponent).toNat := by
          rw [← zpow_natCast, ← zpow_natCast, ← zpow_sub₀ (by norm_num), hexponent]
        rw [hten]
        push_cast
        ring
      rw [hnumeral.numberOf]
      exact ofScientific_of_takes hx hsign hpos (hvalue ▸ htakes)

/-- What is written about a number without a sign is one lexeme, which stands for the number. -/
theorem spells_write (hformat : format.Positional) (hx : Reading.ofFloat x = .finite value)
    (hsign : value.negative = false) : Source.Spells (.number x) (format.write x).toList := by
  have hwrite : format.write x = format.magnitude value := by
    rw [NumberFormat.write, hx]
    simp only [hsign, Bool.false_and, Bool.false_eq_true, if_false, String.empty_append]
  rw [hwrite, ← numberOf_magnitude hformat hx hsign]
  rcases hformat.numeral value with ⟨n, places, -, hnumeral⟩ | hnumeral
  · exact hnumeral.numberOf ▸ hnumeral.spells
  · exact hnumeral.numberOf ▸ hnumeral.spells

end Text

end Scriptlet.Decimal
