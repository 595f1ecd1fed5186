/-
The shortest decimal that reads back as a given double.

A decimal reads back as the double when it lies in the interval of numbers that
round to it; the ends belong to the interval exactly when the significand is
even.  Grids of one, two, ... seventeen digits are tried in turn.  A point of a
grid lies in the interval only if one of the double's two neighbours on that
grid does, so the first grid with such a neighbour gives the fewest digits.
-/
import Scriptlet.Decimal.Binary

namespace Scriptlet.Decimal

/-- Which of two equally near decimals is taken. -/
inductive Tie where
  | up
  | toEven
deriving DecidableEq, Repr

/-- The number `digits * 10 ^ exponent`. -/
structure Digits where
  digits : Nat
  exponent : Int
deriving DecidableEq, Repr

/-- The least `k` with `n < 10 ^ k`. -/
def digitCount (n : Nat) : Nat :=
  if n = 0 then 0 else (Nat.toDigits 10 n).length

/-- The `e` with `10 ^ e ≤ numerator / denominator < 10 ^ (e + 1)`, for a
positive fraction. -/
def leadingExponent (numerator denominator : Nat) : Int :=
  if denominator ≤ numerator then (digitCount (numerator / denominator) : Int) - 1
  else -(digitCount ((denominator - 1) / numerator) : Int)

/-- Whether `point * 10 ^ exponent` rounds to `x`, decided by comparing four
times both sides as whole numbers. -/
def Binary.admits (x : Binary) (point : Nat) (exponent : Int) : Bool :=
  let (numerator, denominator) := x.ratio
  let (upNum, upDen) := if 0 ≤ exponent then (Nat.pow 10 exponent.toNat, 1)
    else (1, Nat.pow 10 (-exponent).toNat)
  -- four times the value, in units of `1 / (denominator * upDen)`
  let target := 4 * numerator * upDen
  let candidate := 4 * point * upNum * denominator
  -- a quarter of the distance between neighbouring significands
  let quarter := numerator / x.significand * upDen
  let low := target - (if x.narrowBelow then quarter else 2 * quarter)
  let high := target + 2 * quarter
  if x.significand % 2 = 0 then low ≤ candidate && candidate ≤ high
  else low < candidate && candidate < high

/-- The better of the two neighbours of `x` on the grid of multiples of
`10 ^ exponent`, if one of them rounds to `x`. -/
def Binary.nearestOn? (x : Binary) (tie : Tie) (exponent : Int) : Option Digits :=
  let (numerator, denominator) := x.ratio
  let (scaledNum, scaledDen) :=
    if 0 ≤ exponent then (numerator, denominator * Nat.pow 10 exponent.toNat)
    else (numerator * Nat.pow 10 (-exponent).toNat, denominator)
  let below := scaledNum / scaledDen
  let above := below + 1
  let twiceRest := 2 * (scaledNum % scaledDen)
  let belowFirst : Bool :=
    if twiceRest = scaledDen then
      match tie with
      | .up => false
      | .toEven => below % 2 == 0
    else twiceRest < scaledDen
  let pick := fun first second =>
    if x.admits first exponent then some ⟨first, exponent⟩
    else if x.admits second exponent then some ⟨second, exponent⟩
    else none
  if belowFirst then pick below above else pick above below

/-- The fewest digits that read back, the nearest to the value among those.
Zero is the digit zero.  Only the first grid can give a trailing zero, when
nine and a bit is rounded up to ten. -/
def Binary.shortest (x : Binary) (tie : Tie) : Digits :=
  if x.significand = 0 then ⟨0, 0⟩
  else
    let lead := leadingExponent x.ratio.1 x.ratio.2
    let grids := (List.range 17).map fun (count : Nat) => lead - (count : Int)
    match grids.findSome? (x.nearestOn? tie) with
    | some d => if d.digits = 10 then ⟨1, d.exponent + 1⟩ else d
    | none => ⟨0, 0⟩

end Scriptlet.Decimal
