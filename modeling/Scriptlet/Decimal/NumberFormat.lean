/-
How a number becomes text.  The places where numbers are written differ in few
decisions: which whole numbers get all their digits, what is added behind a
number without a point, where powers of ten take over, and the words for what
is not finite.  A `NumberFormat` records them; `write` is the same for all.
-/
import Scriptlet.Decimal.Shortest

namespace Scriptlet.Decimal

structure NumberFormat where
  /-- The whole numbers, by magnitude, that are written with all their digits. -/
  exact : Nat → Bool
  /-- What stands behind the digits of such a whole number. -/
  exactTail : String
  /-- Whether negative zero shows its sign. -/
  signedZero : Bool
  /-- The exponents of the leading digit for which no power of ten is written. -/
  plain : Int → Bool
  /-- What stands behind shortest digits that need no point. -/
  plainTail : String
  /-- Which of two equally near shortest decimals is taken. -/
  tie : Tie
  infinity : String
  negativeInfinity : String
  notANumber : String

def zeros (count : Nat) : String :=
  String.ofList (List.replicate count '0')

/-- Digits in positional notation; `tail` follows a number that needs no point. -/
def Digits.plainText (d : Digits) (tail : String) : String :=
  let ds := Nat.toDigits 10 d.digits
  if 0 ≤ d.exponent then String.ofList ds ++ zeros d.exponent.toNat ++ tail
  else
    let places := (-d.exponent).toNat
    if places < ds.length then
      String.ofList (ds.take (ds.length - places)) ++ "." ++
        String.ofList (ds.drop (ds.length - places))
    else "0." ++ zeros (places - ds.length) ++ String.ofList ds

/-- One digit, the others behind a point, and a signed power of ten. -/
def Digits.powerText (d : Digits) : String :=
  let ds := Nat.toDigits 10 d.digits
  let exponent := d.exponent + (ds.length : Int) - 1
  let fraction := if ds.length ≤ 1 then "" else "." ++ String.ofList ds.tail
  let sign := if exponent < 0 then "-" else "+"
  String.ofList (ds.take 1) ++ fraction ++ "e" ++ sign ++ toString exponent.natAbs

/-- The exponent of the leading digit. -/
def Digits.lead (d : Digits) : Int :=
  d.exponent + ((Nat.toDigits 10 d.digits).length : Int) - 1

namespace NumberFormat

def magnitude (format : NumberFormat) (x : Binary) : String :=
  match x.whole?.filter format.exact with
  | some n => toString n ++ format.exactTail
  | none =>
      let d := x.shortest format.tie
      if format.plain d.lead then d.plainText format.plainTail else d.powerText

def write (format : NumberFormat) (x : Float) : String :=
  match Reading.ofFloat x with
  | .notANumber => format.notANumber
  | .infinite false => format.infinity
  | .infinite true => format.negativeInfinity
  | .finite value =>
      let signed := value.negative && (value.significand != 0 || format.signedZero)
      (if signed then "-" else "") ++ format.magnitude value

end NumberFormat

end Scriptlet.Decimal
