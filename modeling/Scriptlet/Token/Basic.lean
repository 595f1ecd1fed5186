/-
Tokens, and the line of text that shows one in a token listing.
-/
import Scriptlet.Decimal.NumberFormat
import Scriptlet.Token.Kind

namespace Scriptlet

/-- A lexeme with its kind and the line on which it ends. -/
structure Token where
  kind : Kind
  lexeme : String
  line : Nat

/-- The value that a literal token carries. -/
inductive Literal where
  | text (text : String)
  | number (value : Float)

/-- A literal number echoes its value: a whole number below `2 ^ 63` ends in
`.0` and has no negative zero, any other shows its shortest digits, always in
positional notation. -/
def literalFormat : Decimal.NumberFormat where
  exact n := decide (n < Nat.pow 2 63)
  exactTail := ".0"
  signedZero := false
  plain _ := true
  plainTail := ""
  tie := .up
  infinity := "inf"
  negativeInfinity := "-inf"
  notANumber := "NaN"

namespace Token

def literal? (token : Token) : Option Literal :=
  match token.kind with
  | .string text => some (.text text)
  | .number value => some (.number value)
  | _ => none

/-- Whether two tokens look the same: kind, lexeme and line agree, whatever the
values of literals are. -/
def same (a b : Token) : Bool :=
  a.kind.same b.kind && a.lexeme == b.lexeme && a.line == b.line

/-- The listing line: kind, lexeme and literal value. -/
def listing (token : Token) : String :=
  let value :=
    match token.literal? with
    | some (.text text) => text
    | some (.number value) => literalFormat.write value
    | none => "null"
  token.kind.name ++ " " ++ token.lexeme ++ " " ++ value

end Token

end Scriptlet
