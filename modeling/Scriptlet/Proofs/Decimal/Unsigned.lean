/-
What digits stand for is never negative: none of the operations that read a decimal gives a number
with a sign from numbers without one.
-/
import Scriptlet.Proofs.Decimal.Scientific

namespace Scriptlet.Decimal

open Float.Model (Format UnpackedFloat)
open Float.Model.UnpackedFloat

/-- The number, if it is one, has no minus sign. -/
def Unsigned (number : UnpackedFloat) : Prop :=
  withSign .positive number = number

section Unsigned

variable {a b : UnpackedFloat}

theorem unsigned_roundWithAccuracy (mantissa : ℕ) (exponent : ℤ) (accuracy : Accuracy) :
    Unsigned (roundWithAccuracy Format.binary64 .positive mantissa exponent accuracy) := by
  unfold roundWithAccuracy
  dsimp only
  split
  · rfl
  · rfl

theorem unsigned_ofNat (number : ℕ) : Unsigned (ofNat Format.binary64 number) := by
  have hsign : ¬ (number : ℤ) < 0 := by omega
  unfold ofNat ofInt Float.Model.UnpackedFloat.normalize Float.Model.UnpackedFloat.round
  cases hcompare : compare (number : ℤ) 0 with
  | lt => exact absurd (compare_lt_iff_lt.mp hcompare) hsign
  | eq => rfl
  | gt => exact unsigned_roundWithAccuracy _ _ _

theorem Unsigned.div (ha : Unsigned a) (hb : Unsigned b) : Unsigned (div Format.binary64 a b) := by
  unfold Unsigned at ha hb
  rw [← ha, ← hb]
  cases a <;> cases b
  all_goals first | rfl | exact unsigned_roundWithAccuracy _ _ _

theorem Unsigned.mul (ha : Unsigned a) (hb : Unsigned b) : Unsigned (mul Format.binary64 a b) := by
  unfold Unsigned at ha hb
  rw [← ha, ← hb]
  cases a <;> cases b
  all_goals first | rfl | exact unsigned_roundWithAccuracy _ _ _

theorem unsigned_ofScientific (number : ℕ) (exponent : ℤ) :
    Unsigned (ofScientific Format.binary64 number exponent) := by
  unfold ofScientific
  split_ifs
  · rfl
  · rfl
  · rfl
  · exact Unsigned.mul rfl rfl
  · exact Unsigned.div rfl rfl

theorem unsigned_unpack_packComponents (exponent : BitVec Format.binary64.exponentBits)
    (mantissa : BitVec Format.binary64.mantissaBitsWithoutImplicit) :
    Unsigned (unpack Format.binary64
      (packComponents Format.binary64 .positive exponent mantissa)) := by
  unfold unpack
  simp only [unpackExponent_packComponents, unpackMantissa_packComponents,
    unpackSign_packComponents, Sign.ofBitVec_toBitVec]
  split_ifs
  all_goals rfl

/-- To pack a number keeps its sign. -/
theorem Unsigned.unpack_pack (h : Unsigned a) :
    Unsigned (unpack Format.binary64 (pack Format.binary64 a)) := by
  unfold Unsigned at h
  rw [← h]
  cases a with
  | notANumber | infinity _ | zero _ => exact unsigned_unpack_packComponents _ _
  | finite _ _ _ _ =>
      unfold withSign pack
      dsimp only
      split_ifs
      all_goals exact unsigned_unpack_packComponents _ _

end Unsigned

section Read

variable {x : Float} {value : Binary}

theorem unsigned_toFloat (number : UInt64) : Unsigned number.toFloat.toModel.unpack :=
  (unsigned_ofNat number.toNat).unpack_pack

theorem Unsigned.nonnegative (h : Unsigned x.toModel.unpack)
    (hx : Reading.ofFloat x = .finite value) : value.negative = false :=
  ((parts_of_reading hx).2 .positive).2.mp h

/-- A number with some of its digits behind a point is not negative. -/
theorem unsigned_decimal (number places : ℕ) :
    Unsigned (Float.ofScientific number true places).toModel.unpack := by
  unfold Float.ofScientific
  split
  · next hexact =>
      have hplaces : places < 23 := by omega
      obtain ⟨significand, exponent, hpos, hpower, -⟩ := unpack_power hplaces
      have hten : Unsigned (Float.exactlyRepresentablePowersOfTen[places]).toModel.unpack := by
        rw [hpower]
        rfl
      exact ((unsigned_toFloat _).div hten).unpack_pack
  · exact (unsigned_ofScientific _ _).unpack_pack

end Read

end Scriptlet.Decimal
