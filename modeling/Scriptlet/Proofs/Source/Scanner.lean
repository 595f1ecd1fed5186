/-
The scanner as a walk over the bytes of a text.

It takes bytes one at a time, may look at two bytes ahead, and cuts lexemes out of the text by
their offsets.  To take a byte that is not there, or to cut inside a character, would be the end
of it: then the walk gives nothing at all.  Every other definition here is one of its steps.
-/
import Scriptlet.Proofs.Source.Bytes
import Scriptlet.Source.Scan

namespace Scriptlet.Source

def bytes (source : String) : List UInt8 :=
  source.toByteArray.data.toList

/-- A byte of ASCII as its character.  All other bytes are beyond ASCII here, too. -/
def glyph (byte : UInt8) : Char :=
  Char.ofNat byte.toNat

/-- The text between two offsets, if they do not lie inside characters. -/
def slice? (source : String) (start stop : Nat) : Option String :=
  if start ≤ stop ∧ String.Pos.Raw.isValid source ⟨start⟩ ∧
      String.Pos.Raw.isValid source ⟨stop⟩ then
    String.fromUTF8? (source.toByteArray.extract start stop)
  else none

/-- The number that digits, or digits with a point between them, stand for. -/
def numberOf (text : String) : Float :=
  decimalValue (text.toList.takeWhile Char.isDigit) ((text.toList.dropWhile Char.isDigit).drop 1)

/-- Where the scanner is. -/
structure Scanner where
  /-- Where the piece began. -/
  start : Nat
  /-- The first byte that has not been taken. -/
  curr : Nat
  line : Nat

/-- What a piece leaves to be given: a kind of token, nothing, or a fault. -/
abbrev Outcome := Except Diagnostic (Option Kind)

namespace Scanner

variable (source : String) (scanner : Scanner)

def atEnd : Bool :=
  (bytes source).length ≤ scanner.curr

def forward : Scanner :=
  { scanner with curr := scanner.curr + 1 }

def advance? : Option (Char × Scanner) :=
  (bytes source)[scanner.curr]?.map fun byte => (glyph byte, scanner.forward)

/-- A byte that has not been taken.  Behind the end there are zeros. -/
def ahead (distance : Nat) : Char :=
  glyph ((bytes source).getD (scanner.curr + distance) 0)

def meets (expected : Char) : Bool :=
  !scanner.atEnd source && scanner.ahead source 0 == expected

/-- Take bytes as long as the next one is such. -/
def takeWhile? (p : Char → Bool) (scanner : Scanner) : Option Scanner :=
  if p (scanner.ahead source 0) then
    if scanner.curr < (bytes source).length then takeWhile? p scanner.forward else none
  else some scanner
termination_by (bytes source).length - scanner.curr
decreasing_by
  dsimp only [forward]
  omega

/-- Go on to the next quote, or to the end of the text, and count the lines. -/
def toQuote (scanner : Scanner) : Scanner :=
  if scanner.curr < (bytes source).length ∧ scanner.ahead source 0 ≠ '"' then
    toQuote { scanner.forward with
      line := if scanner.ahead source 0 = '\n' then scanner.line + 1 else scanner.line }
  else scanner
termination_by (bytes source).length - scanner.curr
decreasing_by
  dsimp only [forward]
  omega

/-- Go on to the next line feed, or to the end of the text. -/
def toLineFeed : Scanner :=
  match ((bytes source).drop scanner.curr).findIdx? (· == lineFeed) with
  | some position => { scanner with curr := scanner.curr + position }
  | none => { scanner with curr := (bytes source).length }

/-- The quote has been taken. -/
def scanString? : Option (Outcome × Scanner) :=
  let stopped := scanner.toQuote source
  if stopped.atEnd source then
    some (.error (.lexical stopped.line .unterminatedString), stopped)
  else do
    let closed := stopped.forward
    let text ← slice? source (closed.start + 1) (closed.curr - 1)
    return (.ok (some (.string text)), closed)

/-- Take a point if a digit follows it, and all digits behind it. -/
def takeFraction? : Option Scanner :=
  if scanner.ahead source 0 == '.' && (scanner.ahead source 1).isDigit then
    scanner.forward.takeWhile? source Char.isDigit
  else some scanner

/-- The first digit has been taken. -/
def scanNumber? : Option (Outcome × Scanner) := do
  let whole ← scanner.takeWhile? source Char.isDigit
  let last ← whole.takeFraction? source
  let text ← slice? source last.start last.curr
  return (.ok (some (.number (numberOf text))), last)

/-- The first letter has been taken. -/
def scanWord? : Option (Outcome × Scanner) := do
  let last ← scanner.takeWhile? source isWordPart
  let text ← slice? source last.start last.curr
  return (.ok (some (wordKind text.toList)), last)

/-- A byte that begins nothing has been taken; the whole character is passed over. -/
def scanStray? : Option (Outcome × Scanner) := do
  let rest ← slice? source scanner.start (bytes source).length
  let char := rest.toList.headD '\uFFFD'
  return (.error (.lexical scanner.line (.unexpected char)),
    { scanner with curr := scanner.start + char.utf8Size })

/-- The first byte of a mark has been taken. -/
def scanMark? (c : Char) : Option (Outcome × Scanner) :=
  match doubleMark? c, singleMark? c with
  | some double, some single =>
      if scanner.meets source '=' then some (.ok (some (.mark double)), scanner.forward)
      else some (.ok (some (.mark single)), scanner)
  | none, some single => some (.ok (some (.mark single)), scanner)
  | _, none => scanner.scanStray? source

/-- Take one piece. -/
def scanPiece? : Option (Outcome × Scanner) := do
  let (c, next) ← scanner.advance? source
  if c == '\n' then return (.ok none, { next with line := next.line + 1 })
  else if isBlank c then return (.ok none, next)
  else if c == '"' then next.scanString? source
  else if c.isDigit then next.scanNumber? source
  else if isWordStart c then next.scanWord? source
  else if c == '/' && next.meets source '/' then return (.ok none, next.forward.toLineFeed source)
  else next.scanMark? source c

/-- What one turn of the scanner comes to. -/
inductive Turn where
  | over
  | silent (next : Scanner)
  | gives (item : Item) (next : Scanner)

/-- Behind the last byte the end is told once, and then no more. -/
def turn? : Option Turn :=
  if (bytes source).length < scanner.curr then some .over
  else if scanner.curr = (bytes source).length then
    some (.gives (.token (endToken scanner.line)) scanner.forward)
  else do
    let (outcome, next) ← { scanner with start := scanner.curr }.scanPiece? source
    match outcome with
    | .error fault => return .gives (.fault fault) next
    | .ok none => return .silent next
    | .ok (some kind) =>
        let lexeme ← slice? source next.start next.curr
        return .gives (.token ⟨kind, lexeme, next.line⟩) next

/-- Everything that is given, in at most so many turns. -/
def drain? : Nat → Scanner → Option (List Item)
  | 0, _ => none
  | bound + 1, scanner => do
      match ← scanner.turn? source with
      | .over => return []
      | .silent next => drain? bound next
      | .gives item next => return item :: (← drain? bound next)

end Scanner

/-! ### Bytes of ASCII and other bytes -/

section Glyphs

variable {c d : Char} {byte : UInt8} {p : Char → Bool} {beyond : Bool}

theorem glyph_val (byte : UInt8) : (glyph byte).val.toNat = byte.toNat := by
  have hvalid : byte.toNat.isValidChar := Or.inl (Nat.lt_trans byte.toNat_lt (by decide))
  rw [glyph, Char.ofNat, dif_pos hvalid]
  rfl

theorem glyph_of_ascii (h : c.val.toNat ≤ 127) : glyph (UInt8.ofNat c.val.toNat) = c := by
  refine Char.ext (UInt32.toNat_inj.mp ?_)
  exact (glyph_val _).trans (UInt8.toNat_ofNat_of_lt' (Nat.lt_of_le_of_lt h (by decide)))

/-- The predicate says the same about all characters beyond ASCII. -/
def Uniform (p : Char → Bool) (beyond : Bool) : Prop :=
  ∀ c : Char, 127 < c.val → p c = beyond

/-- Then it says about every byte of a character what it says about the character. -/
theorem Uniform.glyph_eq (hp : Uniform p beyond) (h : byte ∈ String.utf8EncodeChar c) :
    p (glyph byte) = p c := by
  by_cases hascii : c.val.toNat ≤ 127
  · rw [encode_of_ascii hascii, List.mem_singleton] at h
    rw [h, glyph_of_ascii hascii]
  · have hbyte : 127 < (glyph byte).val.toNat := by
      rw [glyph_val]
      exact high_of_encode (Nat.not_le.mp hascii) h
    rw [hp c (Nat.not_le.mp hascii), hp _ hbyte]

theorem ne_of_beyond (hd : d.val ≤ 127) (hc : 127 < c.val) : c ≠ d := by
  rintro rfl
  exact absurd hd (UInt32.not_le.mpr hc)

theorem uniform_beq (hd : d.val ≤ 127) : Uniform (· == d) false :=
  fun _ hc => beq_false_of_ne (ne_of_beyond hd hc)

theorem uniform_bne (hd : d.val ≤ 127) : Uniform (· != d) true :=
  fun _ hc => bne_iff_ne.mpr (ne_of_beyond hd hc)

theorem uniform_isDigit : Uniform Char.isDigit false := by
  intro c hc
  unfold Char.isDigit
  grind

theorem uniform_isAlpha : Uniform Char.isAlpha false := by
  intro c hc
  unfold Char.isAlpha Char.isUpper Char.isLower
  grind

theorem uniform_isWordStart : Uniform isWordStart false := fun c hc =>
  Bool.or_eq_false_iff.mpr ⟨uniform_isAlpha c hc, uniform_beq (by decide) c hc⟩

theorem uniform_isWordPart : Uniform isWordPart false := fun c hc =>
  Bool.or_eq_false_iff.mpr ⟨Bool.or_eq_false_iff.mpr ⟨uniform_isAlpha c hc, uniform_isDigit c hc⟩,
    uniform_beq (by decide) c hc⟩

theorem uniform_isBlank : Uniform isBlank false := by
  intro c hc
  simp only [isBlank, Bool.or_eq_false_iff]
  exact ⟨⟨⟨uniform_beq (by decide) c hc, uniform_beq (by decide) c hc⟩,
    uniform_beq (by decide) c hc⟩, uniform_beq (by decide) c hc⟩

/-- No mark begins with a character beyond ASCII. -/
theorem marks_of_beyond (hc : 127 < c.val) : doubleMark? c = none ∧ singleMark? c = none := by
  constructor
  · unfold doubleMark?
    split
    all_goals first | rfl | exact absurd hc (by decide)
  · unfold singleMark?
    split
    all_goals first | rfl | exact absurd hc (by decide)

theorem nextPiece_of_beyond (hc : 127 < c.val) (rest : List Char) :
    nextPiece c rest = (.stray c, rest) := by
  obtain ⟨hdouble, hsingle⟩ := marks_of_beyond hc
  simp only [nextPiece, uniform_isBlank c hc, uniform_isDigit c hc, uniform_isWordStart c hc,
    ne_of_beyond (d := '"') (by decide) hc, ne_of_beyond (d := '/') (by decide) hc, markPiece,
    hdouble, hsingle, if_false, Bool.false_eq_true]

end Glyphs

end Scriptlet.Source
