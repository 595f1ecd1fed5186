/-
Source text is cut, from left to right, into pieces: lexemes, single blanks,
comments, characters that begin nothing, and at most one string that is never
closed.  A piece keeps its characters, so no character is lost or used twice,
and the rest behind a piece is shorter than before.
-/
import Scriptlet.Token.Kind

namespace Scriptlet

/-- One piece of source text. -/
inductive Piece where
  | lexeme (kind : Kind) (chars : List Char)
  | blank (char : Char)
  /-- From the two slashes up to the end of the line. -/
  | comment (chars : List Char)
  /-- A character that begins no lexeme. -/
  | stray (char : Char)
  /-- A quote without partner and everything behind it. -/
  | openString (chars : List Char)

namespace Piece

def chars : Piece → List Char
  | lexeme _ chars => chars
  | blank char => [char]
  | comment chars => chars
  | stray char => [char]
  | openString chars => chars

/-- The piece's share of the line count. -/
def newlines (piece : Piece) : Nat :=
  piece.chars.count '\n'

end Piece

namespace Source

def isBlank (c : Char) : Bool :=
  c == ' ' || c == '\r' || c == '\t' || c == '\n'

/-- Identifiers are made of the letters, digits and underscore of ASCII. -/
def isWordStart (c : Char) : Bool :=
  c.isAlpha || c == '_'

def isWordPart (c : Char) : Bool :=
  c.isAlphanum || c == '_'

/-- Reserved words are whole words. -/
def wordKind (chars : List Char) : Kind :=
  match Keyword.ofSpelling? (String.ofList chars) with
  | some keyword => .keyword keyword
  | none => .identifier

def digitValue (c : Char) : Nat :=
  c.toNat - '0'.toNat

def ofDigits (digits : List Char) : Nat :=
  digits.foldl (fun value digit => 10 * value + digitValue digit) 0

/-- The double nearest to the decimal. -/
def decimalValue (whole fraction : List Char) : Float :=
  Float.ofScientific (ofDigits (whole ++ fraction)) true fraction.length

/-- A point belongs to a number only if a digit follows it. -/
def fractionOf (rest : List Char) : List Char :=
  match rest with
  | '.' :: digit :: more => if digit.isDigit then digit :: more.takeWhile Char.isDigit else []
  | _ => []

/-- The longest number that starts with the digit `c`. -/
def numberPiece (c : Char) (rest : List Char) : Piece × List Char :=
  let whole := c :: rest.takeWhile Char.isDigit
  let behind := rest.dropWhile Char.isDigit
  match fractionOf behind with
  | [] => (.lexeme (.number (decimalValue whole [])) whole, behind)
  | fraction =>
      (.lexeme (.number (decimalValue whole fraction)) (whole ++ '.' :: fraction),
        behind.drop (fraction.length + 1))

/-- The longest word that starts with `c`. -/
def wordPiece (c : Char) (rest : List Char) : Piece × List Char :=
  let word := c :: rest.takeWhile isWordPart
  (.lexeme (wordKind word) word, rest.dropWhile isWordPart)

/-- The text up to the next quote; it may run over several lines. -/
def stringPiece (rest : List Char) : Piece × List Char :=
  let text := rest.takeWhile (· != '"')
  match rest.dropWhile (· != '"') with
  | [] => (.openString ('"' :: text), [])
  | quote :: behind =>
      (.lexeme (.string (String.ofList text)) ('"' :: text ++ [quote]), behind)

/-- The mark spelled by the character and an equals sign behind it. -/
def doubleMark? : Char → Option Mark
  | '!' => some .bangEqual
  | '=' => some .equalEqual
  | '<' => some .lessEqual
  | '>' => some .greaterEqual
  | _ => none

/-- The mark spelled by the character alone. -/
def singleMark? : Char → Option Mark
  | '(' => some .leftParen
  | ')' => some .rightParen
  | '{' => some .leftBrace
  | '}' => some .rightBrace
  | ',' => some .comma
  | '.' => some .dot
  | '-' => some .minus
  | '+' => some .plus
  | ';' => some .semicolon
  | '/' => some .slash
  | '*' => some .star
  | '!' => some .bang
  | '=' => some .equal
  | '>' => some .greater
  | '<' => some .less
  | _ => none

/-- A mark of two characters wins over the one it begins with. -/
def markPiece (c : Char) (rest : List Char) : Piece × List Char :=
  match doubleMark? c, rest with
  | some mark, '=' :: behind => (.lexeme (.mark mark) [c, '='], behind)
  | _, _ =>
      match singleMark? c with
      | some mark => (.lexeme (.mark mark) [c], rest)
      | none => (.stray c, rest)

/-- Two slashes begin a comment, one is a mark. -/
def slashPiece (rest : List Char) : Piece × List Char :=
  match rest with
  | '/' :: behind =>
      (.comment ('/' :: '/' :: behind.takeWhile (· != '\n')), behind.dropWhile (· != '\n'))
  | _ => markPiece '/' rest

/-- Cut off the first piece of a text that starts with `c`. -/
def nextPiece (c : Char) (rest : List Char) : Piece × List Char :=
  if isBlank c then (.blank c, rest)
  else if c = '"' then stringPiece rest
  else if c.isDigit then numberPiece c rest
  else if isWordStart c then wordPiece c rest
  else if c = '/' then slashPiece rest
  else markPiece c rest

/-- The rule cut a text that starts with `c` in two: its piece starts with `c`,
and the piece and what is behind it make up the text. -/
def Cuts (c : Char) (rest : List Char) (cut : Piece × List Char) : Prop :=
  ∃ more, cut.1.chars = c :: more ∧ more ++ cut.2 = rest

theorem Cuts.chars_append {c : Char} {rest : List Char} {cut : Piece × List Char}
    (h : Cuts c rest cut) : cut.1.chars ++ cut.2 = c :: rest := by
  obtain ⟨more, hchars, hrest⟩ := h
  rw [hchars, List.cons_append, hrest]

theorem Cuts.length_le {c : Char} {rest : List Char} {cut : Piece × List Char}
    (h : Cuts c rest cut) : cut.2.length ≤ rest.length := by
  obtain ⟨more, _, hrest⟩ := h
  rw [← hrest, List.length_append]
  exact Nat.le_add_left _ _

theorem cuts_blank (c : Char) (rest : List Char) : Cuts c rest (.blank c, rest) :=
  ⟨[], rfl, rfl⟩

theorem cuts_markPiece (c : Char) (rest : List Char) : Cuts c rest (markPiece c rest) := by
  unfold markPiece
  split
  · exact ⟨['='], rfl, rfl⟩
  · split
    · exact ⟨[], rfl, rfl⟩
    · exact ⟨[], rfl, rfl⟩

theorem cuts_slashPiece (rest : List Char) : Cuts '/' rest (slashPiece rest) := by
  unfold slashPiece
  split
  · next behind =>
      refine ⟨'/' :: behind.takeWhile (· != '\n'), rfl, ?_⟩
      rw [List.cons_append, List.takeWhile_append_dropWhile]
  · exact cuts_markPiece '/' rest

theorem cuts_stringPiece (rest : List Char) : Cuts '"' rest (stringPiece rest) := by
  have h := List.takeWhile_append_dropWhile (p := (· != '"')) (l := rest)
  dsimp only [stringPiece]
  split
  · next heq =>
      rw [heq] at h
      exact ⟨_, rfl, h⟩
  · next quote behind heq =>
      rw [heq] at h
      refine ⟨rest.takeWhile (· != '"') ++ [quote], by simp [Piece.chars], ?_⟩
      rw [List.append_assoc]
      exact h

theorem cuts_wordPiece (c : Char) (rest : List Char) : Cuts c rest (wordPiece c rest) :=
  ⟨rest.takeWhile isWordPart, rfl, List.takeWhile_append_dropWhile⟩

/-- The fraction's digits stand behind a point. -/
theorem fractionOf_append_drop {rest : List Char} (h : fractionOf rest ≠ []) :
    '.' :: fractionOf rest ++ rest.drop ((fractionOf rest).length + 1) = rest := by
  unfold fractionOf at h ⊢
  split at h
  · next digit more =>
      by_cases hdigit : digit.isDigit
      · have hmore := List.takeWhile_append_dropWhile (p := Char.isDigit) (l := more)
        have hdrop : (more.takeWhile Char.isDigit ++ more.dropWhile Char.isDigit).drop
            (more.takeWhile Char.isDigit).length = more.dropWhile Char.isDigit :=
          List.drop_left
        rw [hmore] at hdrop
        simp [hdigit, hdrop, hmore]
      · simp [hdigit] at h
  · exact absurd rfl h

theorem cuts_numberPiece (c : Char) (rest : List Char) : Cuts c rest (numberPiece c rest) := by
  have hwhole := List.takeWhile_append_dropWhile (p := Char.isDigit) (l := rest)
  dsimp only [numberPiece]
  split
  · exact ⟨_, rfl, hwhole⟩
  · next fraction hfraction =>
      refine ⟨rest.takeWhile Char.isDigit ++ '.' :: fractionOf (rest.dropWhile Char.isDigit),
        rfl, ?_⟩
      rw [List.append_assoc, fractionOf_append_drop hfraction]
      exact hwhole

/-- A piece takes at least the character it starts with, and nothing is lost. -/
theorem cuts_nextPiece (c : Char) (rest : List Char) : Cuts c rest (nextPiece c rest) := by
  unfold nextPiece
  split
  · exact cuts_blank c rest
  · split
    · next h => exact h ▸ cuts_stringPiece rest
    · split
      · exact cuts_numberPiece c rest
      · split
        · exact cuts_wordPiece c rest
        · split
          · next h => exact h ▸ cuts_slashPiece rest
          · exact cuts_markPiece c rest

/-- The pieces of a text, in order. -/
def pieces : List Char → List Piece
  | [] => []
  | c :: rest =>
      let next := nextPiece c rest
      next.1 :: pieces next.2
termination_by chars => chars.length
decreasing_by
  exact Nat.lt_succ_of_le (cuts_nextPiece c rest).length_le

end Source

end Scriptlet
