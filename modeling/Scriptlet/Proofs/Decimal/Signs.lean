/-
The reading of a double and the arithmetic on doubles agree.

Arithmetic takes the bits of a double apart in its own way.  What it finds is what is read from
the bits, so that to negate a double, or to take its magnitude, changes the sign that is read and
nothing else.
-/
import Mathlib
import Scriptlet.Decimal.Binary

namespace Scriptlet.Decimal

open Float.Model (Format UnpackedFloat)
open Float.Model.UnpackedFloat

/-- What is read from the bits, by the parts that arithmetic goes by. -/
def Reading.ofUnpacked : UnpackedFloat → Reading
  | .notANumber => .notANumber
  | .infinity sign => .infinite (sign == .negative)
  | .zero sign => .finite ⟨sign == .negative, 0, -1074⟩
  | .finite sign significand exponent _ => .finite ⟨sign == .negative, significand, exponent⟩

section Bits

variable (bits : BitVec Format.binary64.numBits)

theorem toNat_unpackExponent :
    (unpackExponent bits).toNat = bits.toNat / 2 ^ 52 % 2 ^ 11 := by
  rw [unpackExponent_def, BitVec.extractLsb'_toNat, Nat.shiftRight_eq_div_pow]

theorem toNat_unpackMantissa : (unpackMantissa bits).toNat = bits.toNat % 2 ^ 52 := by
  rw [unpackMantissa_def, BitVec.extractLsb'_toNat, Nat.shiftRight_zero]

theorem sign_eq_negative :
    (Sign.ofBitVec (unpackSign bits) == .negative) = decide (2 ^ 63 ≤ bits.toNat) := by
  have hbit : (unpackSign bits).toNat = bits.toNat / 2 ^ 63 % 2 := by
    rw [unpackSign_def, BitVec.extractLsb'_toNat, Nat.shiftRight_eq_div_pow]
    rfl
  have hbound : bits.toNat < 2 ^ 64 := bits.isLt
  unfold Sign.ofBitVec
  split
  · next h =>
      have hzero : bits.toNat / 2 ^ 63 % 2 = 0 := by rw [← hbit, h]; rfl
      exact (decide_eq_false (by omega)).symm
  · next h =>
      have hone : bits.toNat / 2 ^ 63 % 2 ≠ 0 := by
        rw [← hbit]
        exact fun hzero => h (BitVec.eq_of_toNat_eq hzero)
      exact (decide_eq_true (by omega)).symm

theorem unpackExponent_eq_iff (exponent : BitVec Format.binary64.exponentBits) :
    unpackExponent bits = exponent ↔ bits.toNat / 2 ^ 52 % 2 ^ 11 = exponent.toNat := by
  rw [← toNat_unpackExponent, BitVec.toNat_inj]

theorem unpackMantissa_eq_zero_iff :
    unpackMantissa bits = 0#_ ↔ bits.toNat % 2 ^ 52 = 0 := by
  rw [← toNat_unpackMantissa, ← BitVec.toNat_inj]
  rfl

/-- The leading bit is the one that is left out. -/
theorem toNat_append_mantissa :
    (1#1 ++ unpackMantissa bits).toNat = 2 ^ 52 + bits.toNat % 2 ^ 52 := by
  rw [BitVec.toNat_append, ← Nat.shiftLeft_add_eq_or_of_lt (BitVec.isLt _), toNat_unpackMantissa]
  rfl

/-- The bits are read as arithmetic takes them apart. -/
theorem ofBits_eq_unpack :
    Reading.ofBits (.ofBitVec bits) = .ofUnpacked (unpack Format.binary64 bits) := by
  have hword : (UInt64.ofBitVec bits).toNat = bits.toNat := rfl
  have hspecial : unpackExponent bits = -1#_ ↔ bits.toNat / 2 ^ 52 % 2 ^ 11 = 2047 :=
    unpackExponent_eq_iff bits (-1#_)
  have hsubnormal : unpackExponent bits = 0#_ ↔ bits.toNat / 2 ^ 52 % 2 ^ 11 = 0 :=
    unpackExponent_eq_iff bits 0#_
  have hzero := unpackMantissa_eq_zero_iff bits
  unfold Reading.ofBits
  simp only [hword, Nat.pow_eq, ← sign_eq_negative bits]
  fun_cases unpack with
  | case1 _ _ _ _ hexponent hmantissa =>
      rw [if_pos (hspecial.mp hexponent), if_pos (hzero.mp hmantissa)]
      rfl
  | case2 _ _ hexponent hmantissa =>
      rw [if_pos (hspecial.mp hexponent), if_neg (hzero.not.mp hmantissa)]
      rfl
  | case3 _ _ _ _ hnormal hexponent hmantissa =>
      rw [if_neg (hspecial.not.mp hnormal), if_pos (hsubnormal.mp hexponent), hzero.mp hmantissa]
      rfl
  | case4 _ scale exponent _ _ hnormal hexponent hmantissa =>
      have hleast : exponent + 1 = -1074 := by
        change (scale.toNat : Int) - 1075 + 1 = -1074
        rw [hexponent]
        rfl
      rw [if_neg (hspecial.not.mp hnormal), if_pos (hsubnormal.mp hexponent),
        ← toNat_unpackMantissa, ← hleast]
      rfl
  | case5 _ _ _ _ _ hnormal hexponent =>
      rw [if_neg (hspecial.not.mp hnormal), if_neg (hsubnormal.not.mp hexponent),
        ← toNat_append_mantissa, ← toNat_unpackExponent]
      rfl

end Bits

theorem Reading.ofFloat_eq (x : Float) : Reading.ofFloat x = .ofUnpacked x.toModel.unpack :=
  ofBits_eq_unpack _

/-! ### Signs -/

/-- The same number with the given sign. -/
def withSign (sign : Sign) : UnpackedFloat → UnpackedFloat
  | .notANumber => .notANumber
  | .infinity _ => .infinity sign
  | .zero _ => .zero sign
  | .finite _ significand exponent hpos => .finite sign significand exponent hpos

section Signs

variable {bits : BitVec Format.binary64.numBits} {x : Float} {value : Binary}

theorem unpack_packComponents (sign : Sign) :
    unpack Format.binary64
        (packComponents Format.binary64 sign (unpackExponent bits) (unpackMantissa bits)) =
      withSign sign (unpack Format.binary64 bits) := by
  unfold unpack
  simp only [unpackExponent_packComponents, unpackMantissa_packComponents,
    unpackSign_packComponents, Sign.ofBitVec_toBitVec]
  split_ifs
  all_goals rfl

/-- To pack a number with another sign changes the bit of the sign. -/
theorem unpack_pack_withSign (hnumber : unpack Format.binary64 bits ≠ .notANumber)
    (sign : Sign) :
    unpack Format.binary64 (pack Format.binary64 (withSign sign (unpack Format.binary64 bits))) =
      withSign sign (unpack Format.binary64 bits) := by
  have hbits : ¬ isNaNBits (packComponents Format.binary64 sign (unpackExponent bits)
      (unpackMantissa bits)) = true := by
    intro hnan
    simp only [isNaNBits, unpackExponent_packComponents, unpackMantissa_packComponents,
      decide_eq_true_eq] at hnan
    refine hnumber ?_
    simp only [unpack, if_pos hnan.1, if_neg hnan.2]
  rw [← unpack_packComponents, pack_unpack, if_neg hbits]

/-- A double is known by its parts. -/
theorem eq_of_unpack {y : Float} (h : x.toModel.unpack = y.toModel.unpack) : x = y :=
  Float.toBits_inj.mp (UInt64.toBitVec_inj.mp
    ((unpack_inj_of_valid x.toModel.valid y.toModel.valid).mp h))

theorem unpack_abs (hnumber : x.toModel.unpack ≠ .notANumber) :
    x.abs.toModel.unpack = withSign .positive x.toModel.unpack := by
  have habs : x.toModel.unpack.abs = withSign .positive x.toModel.unpack := by
    cases x.toModel.unpack <;> rfl
  exact (congrArg (fun number => unpack Format.binary64 (pack Format.binary64 number)) habs).trans
    (unpack_pack_withSign hnumber .positive)

theorem unpack_neg {sign : Sign} (hnumber : x.toModel.unpack ≠ .notANumber)
    (hsign : withSign sign x.toModel.unpack = x.toModel.unpack) :
    (-x).toModel.unpack = withSign (-sign) x.toModel.unpack := by
  have hneg : x.toModel.unpack.neg = withSign (-sign) x.toModel.unpack := by
    rw [← hsign]
    cases x.toModel.unpack <;> rfl
  exact (congrArg (fun number => unpack Format.binary64 (pack Format.binary64 number)) hneg).trans
    (unpack_pack_withSign hnumber (-sign))

theorem exists_reading (h : x.isFinite = true) : ∃ value, Reading.ofFloat x = .finite value := by
  have hparts : x.toModel.unpack.isFinite = true := h
  rw [Reading.ofFloat_eq]
  cases hx : x.toModel.unpack with
  | notANumber | infinity _ =>
      rw [hx] at hparts
      cases hparts
  | zero _ => exact ⟨_, rfl⟩
  | finite _ _ _ _ => exact ⟨_, rfl⟩

theorem unpack_cases (h : Reading.ofFloat x = .finite value) :
    (∃ sign, x.toModel.unpack = .zero sign ∧ value = ⟨sign == .negative, 0, -1074⟩) ∨
      ∃ sign significand exponent hpos,
        x.toModel.unpack = .finite sign significand exponent hpos ∧
          value = ⟨sign == .negative, significand, exponent⟩ := by
  rw [Reading.ofFloat_eq] at h
  cases hx : x.toModel.unpack with
  | notANumber | infinity _ =>
      rw [hx] at h
      cases h
  | zero sign =>
      rw [hx] at h
      cases h
      exact Or.inl ⟨sign, rfl, rfl⟩
  | finite sign significand exponent hpos =>
      rw [hx] at h
      cases h
      exact Or.inr ⟨sign, significand, exponent, hpos, rfl, rfl⟩

/-- The parts of a finite number, and its sign among them. -/
theorem parts_of_reading (h : Reading.ofFloat x = .finite value) :
    x.toModel.unpack ≠ .notANumber ∧
      ∀ sign, Reading.ofUnpacked (withSign sign x.toModel.unpack) =
          .finite { value with negative := sign == .negative } ∧
        (withSign sign x.toModel.unpack = x.toModel.unpack ↔
          value.negative = (sign == .negative)) := by
  obtain ⟨own, hx, rfl⟩ | ⟨own, significand, exponent, hpos, hx, rfl⟩ := unpack_cases h
  all_goals
    rw [hx]
    refine ⟨nofun, fun sign => ⟨rfl, ?_⟩⟩
    cases sign <;> cases own <;> simp [withSign]

theorem ofFloat_abs (h : Reading.ofFloat x = .finite value) :
    Reading.ofFloat x.abs = .finite { value with negative := false } := by
  obtain ⟨hnumber, hparts⟩ := parts_of_reading h
  rw [Reading.ofFloat_eq, unpack_abs hnumber]
  exact (hparts .positive).1

theorem abs_of_nonnegative (h : Reading.ofFloat x = .finite value)
    (hsign : value.negative = false) : x.abs = x := by
  obtain ⟨hnumber, hparts⟩ := parts_of_reading h
  refine eq_of_unpack ?_
  rw [unpack_abs hnumber]
  exact (hparts .positive).2.mpr hsign

/-- A negative number, negative zero included, is the negation of its magnitude. -/
theorem neg_abs_of_negative (h : Reading.ofFloat x = .finite value)
    (hsign : value.negative = true) : -x.abs = x := by
  obtain ⟨hnumber, hparts⟩ := parts_of_reading h
  obtain ⟨hnumber', hparts'⟩ := parts_of_reading (ofFloat_abs h)
  refine eq_of_unpack ?_
  rw [unpack_neg hnumber' ((hparts' .positive).2.mpr rfl), unpack_abs hnumber]
  have hown := (hparts .negative).2.mpr hsign
  rw [← hown]
  cases x.toModel.unpack <;> rfl

end Signs

end Scriptlet.Decimal
