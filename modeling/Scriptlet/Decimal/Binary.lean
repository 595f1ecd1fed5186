/-
What the 64 bits of a double say: not a number, an infinity, or a whole number
times a power of two.  Everything that is written about a number is computed
from this reading in exact arithmetic.
-/

namespace Scriptlet.Decimal

/-- The number `significand * 2 ^ exponent`, or its negative. -/
structure Binary where
  negative : Bool
  significand : Nat
  exponent : Int
deriving DecidableEq, Repr

/-- What a double stands for. -/
inductive Reading where
  | notANumber
  | infinite (negative : Bool)
  | finite (value : Binary)
deriving DecidableEq, Repr

/-- The eleven exponent bits tell subnormal numbers (all zero), the infinities
and the results that are no number (all one), and the numbers whose leading
significant bit is left out. -/
def Reading.ofBits (bits : UInt64) : Reading :=
  let word := bits.toNat
  let negative := decide (Nat.pow 2 63 ≤ word)
  let scale : Nat := word / Nat.pow 2 52 % Nat.pow 2 11
  let fraction : Nat := word % Nat.pow 2 52
  if scale = 2047 then
    if fraction = 0 then .infinite negative else .notANumber
  else if scale = 0 then .finite ⟨negative, fraction, -1074⟩
  else .finite ⟨negative, Nat.pow 2 52 + fraction, (scale : Int) - 1075⟩

def Reading.ofFloat (x : Float) : Reading :=
  .ofBits x.toBits

namespace Binary

/-- The magnitude as a fraction of two whole numbers. -/
def ratio (x : Binary) : Nat × Nat :=
  if 0 ≤ x.exponent then (x.significand * Nat.pow 2 x.exponent.toNat, 1)
  else (x.significand, Nat.pow 2 (-x.exponent).toNat)

/-- The magnitude, if it is a whole number. -/
def whole? (x : Binary) : Option Nat :=
  let (numerator, denominator) := x.ratio
  if numerator % denominator = 0 then some (numerator / denominator) else none

/-- Half the distance to the next smaller double is a quarter of the unit in
place of a half: the significand is the least of its binade, and the binade
below is twice as dense. -/
def narrowBelow (x : Binary) : Bool :=
  x.significand == Nat.pow 2 52 && decide (-1074 < x.exponent)

end Binary

end Scriptlet.Decimal
