/-
The tokens and lexical faults of a source text.  Every token and every fault
stands on the line where its piece ends.
-/
import Scriptlet.Diagnostic
import Scriptlet.Source.Piece

namespace Scriptlet.Source

/-- What a piece gives to the reader of the text. -/
inductive Item where
  | token (token : Token)
  | fault (diagnostic : Diagnostic)

/-- The item of a piece that ends on the given line; blanks and comments give
none. -/
def item? (line : Nat) : Piece → Option Item
  | .lexeme kind chars => some (.token ⟨kind, String.ofList chars, line⟩)
  | .blank _ => none
  | .comment _ => none
  | .stray char => some (.fault (.lexical line (.unexpected char)))
  | .openString _ => some (.fault (.lexical line .unterminatedString))

/-- The items of the pieces from the given line on, and the line after them. -/
def number (line : Nat) : List Piece → List Item × Nat
  | [] => ([], line)
  | piece :: rest =>
      let here := line + piece.newlines
      let (items, last) := number here rest
      match item? here piece with
      | some item => (item :: items, last)
      | none => (items, last)

/-- The token that marks the end of the text. -/
def endToken (line : Nat) : Token :=
  ⟨.endOfInput, "", line⟩

/-- Everything found in a text, in order; the end marker comes last. -/
def items (source : String) : List Item :=
  let (found, last) := number 1 (pieces source.toList)
  found ++ [.token (endToken last)]

def Item.token? : Item → Option Token
  | .token found => some found
  | .fault _ => none

def Item.fault? : Item → Option Diagnostic
  | .token _ => none
  | .fault found => some found

/-- The tokens of a text and its lexical faults. -/
structure Scanned where
  tokens : List Token
  faults : List Diagnostic

def scan (source : String) : Scanned :=
  let found := items source
  ⟨found.filterMap Item.token?, found.filterMap Item.fault?⟩

end Scriptlet.Source
