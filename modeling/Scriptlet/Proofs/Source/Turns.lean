/-
Every turn of the scanner takes one piece of the text, from whichever character it begins at.

So the walk over the bytes never goes wrong, and finds what the pieces of the text give.
-/
import Scriptlet.Proofs.Source.Parts

namespace Scriptlet.Source

variable {source : String} {before behind text rest : List Char} {c : Char} {line : Nat}
  {p : Char → Bool}

/-- What a piece leaves to be given, on the line where it ends. -/
def outcomeOf (line : Nat) : Piece → Outcome
  | .lexeme kind _ => .ok (some kind)
  | .blank _ | .comment _ => .ok none
  | .stray char => .error (.lexical line (.unexpected char))
  | .openString _ => .error (.lexical line .unterminatedString)

/-- The scanner took the piece that begins here. -/
def PieceTaken (before : List Char) (line : Nat) (piece : Piece)
    (taken : Option (Outcome × Scanner)) : Prop :=
  taken = some (outcomeOf (line + piece.newlines) piece,
    spot (bytesOf before).length (before ++ piece.chars) (line + piece.newlines))

/-- A piece that stays on its line. -/
theorem takes_of_line {piece : Piece} (h : '\n' ∉ piece.chars) (before : List Char) (line : Nat) :
    PieceTaken before line piece (some (outcomeOf line piece,
      spot (bytesOf before).length (before ++ piece.chars) line)) := by
  have hlines : piece.newlines = 0 := List.count_eq_zero.mpr h
  rw [PieceTaken, hlines, Nat.add_zero]

theorem not_mem_of_forall {chars : List Char} {d : Char} (hp : p d = false)
    (h : ∀ c ∈ chars, p c = true) : d ∉ chars := by
  intro hmem
  rw [h d hmem] at hp
  cases hp

/-! ### Words and strings -/

theorem Parts.takes_word (h : Parts source before (c :: rest)) (hc : isWordStart c = true) :
    PieceTaken before line (wordPiece c rest).1
      ((spot (bytesOf before).length (before ++ [c]) line).scanWord? source) := by
  have hloop := h.next.takeWhile? uniform_isWordPart rfl (bytesOf before).length line
  have hcut : Parts source before ((wordPiece c rest).1.chars ++ (wordPiece c rest).2) := by
    rw [(cuts_wordPiece c rest).chars_append]
    exact h
  have hslice : slice? source (bytesOf before).length
      (bytesOf (before ++ c :: rest.takeWhile isWordPart)).length = _ := hcut.slice
  have hchars : ∀ d ∈ c :: rest.takeWhile isWordPart, isWordPart d = true :=
    List.forall_mem_cons.mpr ⟨isWordPart_of_start hc, mem_takeWhile⟩
  have hline : '\n' ∉ (wordPiece c rest).1.chars := not_mem_of_forall (p := isWordPart) rfl hchars
  refine Eq.trans ?_ (takes_of_line hline before line)
  rw [List.append_assoc] at hloop
  rw [Scanner.scanWord?, hloop]
  show (slice? source (bytesOf before).length
    (bytesOf (before ++ c :: rest.takeWhile isWordPart)).length >>= _) = _
  rw [hslice]
  show some (_, _) = some (_, _)
  rw [String.toList_ofList]
  rfl

theorem Parts.takes_string (h : Parts source before ('"' :: rest)) :
    PieceTaken before line (stringPiece rest).1
      ((spot (bytesOf before).length (before ++ ['"']) line).scanString? source) := by
  have hsplit := List.takeWhile_append_dropWhile (p := (· != '"')) (l := rest)
  have hinside : Parts source (before ++ ['"'])
      (rest.takeWhile (· != '"') ++ rest.dropWhile (· != '"')) := by
    rw [hsplit]
    exact h.next
  have hends := head_dropWhile_ne '"' rest
  have hloop := hinside.toQuote (not_mem_takeWhile_ne '"' rest) hends (bytesOf before).length line
  have hend := hinside.append.atEnd (bytesOf before).length
    (line + (rest.takeWhile (· != '"')).count '\n')
  unfold Scanner.scanString?
  dsimp only
  rw [hloop, hend]
  rcases hends with hopen | hclosed
  · have hpiece : (stringPiece rest).1 = .openString ('"' :: rest.takeWhile (· != '"')) := by
      simp only [stringPiece, hopen]
    have hlines : Piece.newlines (.openString ('"' :: rest.takeWhile (· != '"'))) =
        (rest.takeWhile (· != '"')).count '\n' := List.count_cons_of_ne (by decide)
    rw [hopen, PieceTaken, hpiece, hlines, List.append_assoc]
    rfl
  · obtain ⟨behind, hbehind⟩ := List.head?_eq_some_iff.mp hclosed
    have hpiece : (stringPiece rest).1 =
        .lexeme (.string (String.ofList (rest.takeWhile (· != '"'))))
          ('"' :: rest.takeWhile (· != '"') ++ ['"']) := by
      simp only [stringPiece, hbehind]
    have hlines : ('"' :: rest.takeWhile (· != '"') ++ ['"']).count '\n' =
        (rest.takeWhile (· != '"')).count '\n' := by
      rw [List.count_append, List.count_cons_of_ne (by decide)]
      rfl
    have hslice := hinside.slice
    rw [length_bytesOf_snoc (by decide)] at hslice
    rw [hbehind, PieceTaken, hpiece, Piece.newlines, Piece.chars, hlines,
      forward_spot (c := '"') (by decide)]
    show (slice? source ((bytesOf before).length + 1) ((bytesOf _).length - 1) >>= _) = _
    rw [length_bytesOf_snoc (by decide), Nat.add_sub_cancel, hslice]
    show some (_, spot _ _ _) = some (_, spot _ _ _)
    rw [List.append_assoc, List.append_assoc]
    rfl

/-! ### Numbers -/

theorem numberOf_eq {digits rest : List Char} (hdigits : ∀ d ∈ digits, d.isDigit = true)
    (hrest : rest.head?.any Char.isDigit = false) :
    numberOf (String.ofList (digits ++ rest)) = decimalValue digits (rest.drop 1) := by
  have hstop : rest.takeWhile Char.isDigit = [] ∧ rest.dropWhile Char.isDigit = rest := by
    cases rest with
    | nil => exact ⟨rfl, rfl⟩
    | cons d more =>
        have hd : ¬ d.isDigit = true := Bool.eq_false_iff.mp hrest
        exact ⟨List.takeWhile_cons_of_neg hd, List.dropWhile_cons_of_neg hd⟩
  rw [numberOf, String.toList_ofList, List.takeWhile_append_of_pos hdigits,
    List.dropWhile_append_of_pos hdigits, hstop.1, hstop.2, List.append_nil]

/-- What is behind a point is a fraction as far as there are digits. -/
theorem fractionOf_point (rest : List Char) :
    fractionOf ('.' :: rest) = rest.takeWhile Char.isDigit := by
  cases rest with
  | nil => rfl
  | cons d more =>
      by_cases hd : d.isDigit = true
      · rw [List.takeWhile_cons_of_pos hd, fractionOf, if_pos hd]
      · rw [List.takeWhile_cons_of_neg hd, fractionOf, if_neg hd]

/-- The fraction of a number with its point. -/
def pointed : List Char → List Char
  | [] => []
  | first :: fraction => '.' :: first :: fraction

theorem numberPiece_fst (c : Char) (rest : List Char) :
    (numberPiece c rest).1 =
      .lexeme (.number (decimalValue (c :: rest.takeWhile Char.isDigit)
          (fractionOf (rest.dropWhile Char.isDigit))))
        (c :: rest.takeWhile Char.isDigit ++
          pointed (fractionOf (rest.dropWhile Char.isDigit))) := by
  dsimp only [numberPiece]
  cases fractionOf (rest.dropWhile Char.isDigit) with
  | nil => exact congrArg (Piece.lexeme _) (List.append_nil _).symm
  | cons first fraction => rfl

/-- The scanner goes on behind a point where a fraction is. -/
theorem Parts.takeFraction? (h : Parts source before behind) (start line : Nat) :
    (spot start before line).takeFraction? source =
      some (spot start (before ++ pointed (fractionOf behind)) line) := by
  rw [Scanner.takeFraction?, h.ahead_any (uniform_beq (d := '.') (by decide)) rfl]
  by_cases hpoint : behind.head? = some '.'
  · obtain ⟨more, rfl⟩ := List.head?_eq_some_iff.mp hpoint
    have hdigit : ((spot start before line).ahead source 1).isDigit =
        more.head?.any Char.isDigit := by
      show ((spot start before line).forward.ahead source 0).isDigit = _
      rw [forward_spot (c := '.') (by decide)]
      exact h.next.ahead_any uniform_isDigit rfl start line
    rw [hdigit, fractionOf_point, forward_spot (c := '.') (by decide),
      h.next.takeWhile? uniform_isDigit rfl, List.append_assoc]
    cases more with
    | nil => simp [pointed]
    | cons d tail =>
        by_cases hd : d.isDigit = true
        · rw [List.takeWhile_cons_of_pos hd]
          exact if_pos hd
        · rw [List.takeWhile_cons_of_neg hd, pointed, List.append_nil before]
          exact if_neg hd
  · have hnone : fractionOf behind = [] ∧ ¬ behind.head?.any (· == '.') = true := by
      cases behind with
      | nil => exact ⟨rfl, Bool.false_ne_true⟩
      | cons d tail =>
          have hd : d ≠ '.' := fun heq => hpoint (congrArg some heq)
          exact ⟨fractionOf_of_ne hd tail, fun heq => hd (beq_iff_eq.mp heq)⟩
    rw [hnone.1, Bool.eq_false_iff.mpr hnone.2, pointed, List.append_nil]
    rfl

theorem mem_fractionOf {chars : List Char} : ∀ d ∈ fractionOf chars, d.isDigit = true := by
  unfold fractionOf
  split
  · split
    · next digit more hdigit => exact List.forall_mem_cons.mpr ⟨hdigit, mem_takeWhile⟩
    · exact nofun
  · exact nofun

theorem drop_pointed (fraction : List Char) : (pointed fraction).drop 1 = fraction := by
  cases fraction <;> rfl

theorem not_mem_pointed {fraction : List Char} {d : Char} (hd : (d == '.' || d.isDigit) = false)
    (h : ∀ c ∈ fraction, c.isDigit = true) : d ∉ pointed fraction := by
  obtain ⟨hpoint, hdigit⟩ := Bool.or_eq_false_iff.mp hd
  cases fraction with
  | nil => exact List.not_mem_nil
  | cons first more =>
      exact List.not_mem_cons_of_ne_of_not_mem (ne_of_beq_false hpoint) (not_mem_of_forall hdigit h)

theorem Parts.takes_number (h : Parts source before (c :: rest)) (hc : c.isDigit = true) :
    PieceTaken before line (numberPiece c rest).1
      ((spot (bytesOf before).length (before ++ [c]) line).scanNumber? source) := by
  have hloop := h.next.takeWhile? uniform_isDigit rfl (bytesOf before).length line
  have hwhole : Parts source (before ++ [c] ++ rest.takeWhile Char.isDigit)
      (rest.dropWhile Char.isDigit) := by
    refine Parts.append ?_
    rw [List.takeWhile_append_dropWhile]
    exact h.next
  have hpoint := hwhole.takeFraction? (bytesOf before).length line
  have hcut : Parts source before ((numberPiece c rest).1.chars ++ (numberPiece c rest).2) := by
    rw [(cuts_numberPiece c rest).chars_append]
    exact h
  have hslice := hcut.slice
  rw [numberPiece_fst] at hslice ⊢
  rw [Piece.chars] at hslice
  have hdigits : ∀ d ∈ c :: rest.takeWhile Char.isDigit, d.isDigit = true :=
    List.forall_mem_cons.mpr ⟨hc, mem_takeWhile⟩
  have hfraction : ∀ d ∈ fractionOf (rest.dropWhile Char.isDigit), d.isDigit = true :=
    mem_fractionOf
  generalize fractionOf (rest.dropWhile Char.isDigit) = fraction at *
  generalize rest.takeWhile Char.isDigit = digits at *
  have hline : '\n' ∉ Piece.chars (.lexeme (.number (decimalValue (c :: digits) fraction))
      (c :: digits ++ pointed fraction)) :=
    List.not_mem_append (not_mem_of_forall rfl hdigits) (not_mem_pointed rfl hfraction)
  have hnumber : numberOf (String.ofList (c :: digits ++ pointed fraction)) =
      decimalValue (c :: digits) fraction := by
    rw [numberOf_eq hdigits (by cases fraction <;> rfl), drop_pointed]
  rw [List.append_assoc] at hloop hpoint
  rw [List.append_assoc before] at hpoint
  unfold Scanner.scanNumber?
  rw [hloop]
  show (Scanner.takeFraction? source _ >>= _) = _
  rw [hpoint]
  refine Eq.trans ?_ (takes_of_line hline before line)
  show (slice? source (bytesOf before).length
    (bytesOf (before ++ (c :: digits ++ pointed fraction))).length >>= _) = _
  rw [hslice]
  show some _ = some _
  rw [hnumber]
  rfl

/-! ### Marks, comments and stray characters -/

theorem Parts.takes_stray (h : Parts source before (c :: rest)) (curr : Nat) (hc : c ≠ '\n') :
    PieceTaken before line (.stray c)
      ((⟨(bytesOf before).length, curr, line⟩ : Scanner).scanStray? source) := by
  have htext : Parts source before (c :: rest ++ []) := by
    rw [List.append_nil]
    exact h
  have hslice := htext.slice
  rw [bytesOf_append, List.length_append, ← h.length_eq] at hslice
  have hone : '\n' ∉ Piece.chars (.stray c) := fun hmem => hc (List.mem_singleton.mp hmem).symm
  unfold Scanner.scanStray?
  dsimp only
  rw [hslice]
  refine Eq.trans ?_ (takes_of_line hone before line)
  show some _ = some _
  rw [String.toList_ofList, Piece.chars, spot, bytesOf_append, List.length_append, bytesOf_cons,
    List.length_append, String.length_utf8EncodeChar]
  rfl

theorem single_of_double {double : Mark} (h : doubleMark? c = some double) :
    ∃ single, singleMark? c = some single := by
  unfold doubleMark? at h
  split at h
  · exact ⟨.bang, rfl⟩
  · exact ⟨.equal, rfl⟩
  · exact ⟨.less, rfl⟩
  · exact ⟨.greater, rfl⟩
  · cases h

theorem Parts.takes_mark (h : Parts source before (c :: rest)) (hc : c.val ≤ 127)
    (hfeed : c ≠ '\n') :
    PieceTaken before line (markPiece c rest).1
      ((spot (bytesOf before).length (before ++ [c]) line).scanMark? source c) := by
  have hmeets := h.next.meets (show '='.val ≤ 127 by decide) (bytesOf before).length line
  have hline : ∀ mark, '\n' ∉ Piece.chars (.lexeme (.mark mark) [c]) :=
    fun _ hmem => hfeed (List.mem_singleton.mp hmem).symm
  unfold Scanner.scanMark?
  rw [hmeets]
  cases hdouble : doubleMark? c with
  | none =>
      cases hsingle : singleMark? c with
      | none =>
          have hpiece : markPiece c rest = (.stray c, rest) := by
            simp only [markPiece, hdouble, hsingle]
          rw [hpiece]
          exact h.takes_stray _ hfeed
      | some single =>
          have hpiece : markPiece c rest = (.lexeme (.mark single) [c], rest) := by
            simp only [markPiece, hdouble, hsingle]
          rw [hpiece]
          exact takes_of_line (hline single) before line
  | some double =>
      obtain ⟨single, hsingle⟩ := single_of_double hdouble
      rw [hsingle]
      by_cases hequal : rest.head?.any (· == '=') = true
      · obtain ⟨behind, rfl⟩ : ∃ behind, rest = '=' :: behind := by
          cases rest with
          | nil => cases hequal
          | cons d more => exact ⟨more, congrArg (· :: more) (beq_iff_eq.mp hequal)⟩
        have hpiece : markPiece c ('=' :: behind) = (.lexeme (.mark double) [c, '='], behind) := by
          simp only [markPiece, hdouble]
        have hboth : '\n' ∉ Piece.chars (.lexeme (.mark double) [c, '=']) := by
          rintro (_ | ⟨_, _ | ⟨_, hmem⟩⟩)
          · exact hfeed rfl
          · cases hmem
        rw [hpiece]
        dsimp only
        rw [if_pos hequal, forward_spot (c := '=') (by decide), List.append_assoc]
        exact takes_of_line hboth before line
      · have hpiece : markPiece c rest = (.lexeme (.mark single) [c], rest) := by
          unfold markPiece
          split
          · next hrest => exact absurd rfl hequal
          · rw [hsingle]
        rw [hpiece]
        dsimp only
        rw [if_neg hequal]
        exact takes_of_line (hline single) before line

theorem Parts.takes_comment (h : Parts source before ('/' :: '/' :: rest)) :
    PieceTaken before line (slashPiece ('/' :: rest)).1 (some (.ok none,
      (spot (bytesOf before).length (before ++ ['/']) line).forward.toLineFeed source)) := by
  have hinside : Parts source (before ++ ['/'] ++ ['/'])
      (rest.takeWhile (· != '\n') ++ rest.dropWhile (· != '\n')) := by
    rw [List.takeWhile_append_dropWhile]
    exact h.next.next
  have hnot := not_mem_takeWhile_ne '\n' rest
  have hline : '\n' ∉ (slashPiece ('/' :: rest)).1.chars := by
    rintro (_ | ⟨_, _ | ⟨_, hmem⟩⟩)
    exact hnot hmem
  rw [forward_spot (c := '/') (by decide),
    hinside.toLineFeed hnot (head_dropWhile_ne '\n' rest), List.append_assoc, List.append_assoc]
  exact takes_of_line hline before line

/-! ### One piece -/

/-- The first byte is the character, or is beyond ASCII like the character. -/
theorem Parts.advance? (h : Parts source before (c :: rest)) (start line : Nat) :
    ∃ front, (spot start before line).advance? source =
        some (front, (spot start before line).forward) ∧
      (c.val ≤ 127 ∧ front = c ∨ 127 < c.val ∧ 127 < front.val) := by
  obtain ⟨byte, hmem, hbyte⟩ := h.byte?
  refine ⟨glyph byte, by rw [Scanner.advance?, spot, hbyte]; rfl, ?_⟩
  by_cases hc : c.val.toNat ≤ 127
  · refine Or.inl ⟨hc, ?_⟩
    rw [encode_of_ascii hc, List.mem_singleton] at hmem
    rw [hmem, glyph_of_ascii hc]
  · refine Or.inr ⟨Nat.not_le.mp hc, ?_⟩
    have hhigh := high_of_encode (Nat.not_le.mp hc) hmem
    rw [← glyph_val] at hhigh
    exact hhigh

/-- What the scanner does once it has taken a byte. -/
theorem scanPiece?_of_advance {scanner next : Scanner}
    (h : scanner.advance? source = some (c, next)) :
    scanner.scanPiece? source =
      if c == '\n' then some (.ok none, { next with line := next.line + 1 })
      else if isBlank c then some (.ok none, next)
      else if c == '"' then next.scanString? source
      else if c.isDigit then next.scanNumber? source
      else if isWordStart c then next.scanWord? source
      else if c == '/' && next.meets source '/' then
        some (.ok none, next.forward.toLineFeed source)
      else next.scanMark? source c := by
  rw [Scanner.scanPiece?, h]
  rfl

theorem Parts.takes_ascii (h : Parts source before (c :: rest)) (hc : c.val ≤ 127)
    (hadvance : (spot (bytesOf before).length before line).advance? source =
      some (c, spot (bytesOf before).length (before ++ [c]) line)) :
    PieceTaken before line (nextPiece c rest).1
      ((spot (bytesOf before).length before line).scanPiece? source) := by
  rw [scanPiece?_of_advance hadvance, nextPiece]
  by_cases hfeed : c = '\n'
  · subst hfeed
    rfl
  rw [if_neg (fun heq => hfeed (beq_iff_eq.mp heq))]
  by_cases hblank : isBlank c = true
  · have hline : '\n' ∉ Piece.chars (.blank c) :=
      fun hmem => hfeed (List.mem_singleton.mp hmem).symm
    rw [if_pos hblank, if_pos hblank]
    exact takes_of_line hline before line
  rw [if_neg hblank, if_neg hblank]
  by_cases hquote : c = '"'
  · subst hquote
    exact h.takes_string
  rw [if_neg hquote, if_neg (fun heq => hquote (beq_iff_eq.mp heq))]
  by_cases hdigit : c.isDigit = true
  · rw [if_pos hdigit, if_pos hdigit]
    exact h.takes_number hdigit
  rw [if_neg hdigit, if_neg hdigit]
  by_cases hword : isWordStart c = true
  · rw [if_pos hword, if_pos hword]
    exact h.takes_word hword
  rw [if_neg hword, if_neg hword, h.next.meets (by decide)]
  by_cases hslash : c = '/'
  · subst hslash
    rw [if_pos rfl]
    by_cases hsecond : rest.head? = some '/'
    · obtain ⟨behind, rfl⟩ := List.head?_eq_some_iff.mp hsecond
      exact h.takes_comment
    · have hmeets : ¬ ('/' == '/' && rest.head?.any (· == '/')) = true := by
        cases rest with
        | nil => exact Bool.false_ne_true
        | cons d more => exact fun heq => hsecond (congrArg some (beq_iff_eq.mp heq))
      rw [if_neg hmeets, slashPiece_single hsecond]
      exact h.takes_mark hc hfeed
  · rw [if_neg hslash, if_neg]
    · exact h.takes_mark hc hfeed
    · intro heq
      exact hslash (beq_iff_eq.mp (Bool.and_eq_true_iff.mp heq).1)

theorem Parts.takes_beyond {front : Char} (h : Parts source before (c :: rest)) (hc : 127 < c.val)
    (hfront : 127 < front.val)
    (hadvance : (spot (bytesOf before).length before line).advance? source =
      some (front, (spot (bytesOf before).length before line).forward)) :
    PieceTaken before line (nextPiece c rest).1
      ((spot (bytesOf before).length before line).scanPiece? source) := by
  obtain ⟨hdouble, hsingle⟩ := marks_of_beyond hfront
  have hfeed : front ≠ '\n' := ne_of_beyond (by decide) hfront
  rw [nextPiece_of_beyond hc, scanPiece?_of_advance hadvance]
  simp only [beq_iff_eq, hfeed, uniform_isBlank front hfront, uniform_isDigit front hfront,
    uniform_isWordStart front hfront, ne_of_beyond (d := '"') (by decide) hfront,
    ne_of_beyond (d := '/') (by decide) hfront, Bool.and_eq_true, false_and, if_false,
    Bool.false_eq_true]
  rw [Scanner.scanMark?, hdouble, hsingle]
  exact h.takes_stray _ (ne_of_beyond (by decide) hc)

/-- The scanner takes the piece that begins where it is. -/
theorem Parts.takes (h : Parts source before (c :: rest)) (line : Nat) :
    PieceTaken before line (nextPiece c rest).1
      ((spot (bytesOf before).length before line).scanPiece? source) := by
  obtain ⟨front, hadvance, ⟨hc, rfl⟩ | ⟨hc, hfront⟩⟩ := h.advance? (bytesOf before).length line
  · rw [forward_spot hc] at hadvance
    exact h.takes_ascii hc hadvance
  · exact h.takes_beyond hc hfront hadvance

theorem Parts.length_le (h : Parts source before behind) :
    (bytesOf before).length ≤ (bytes source).length := by
  rw [h.length_eq]
  exact Nat.le_add_right _ _

/-! ### Turns -/

/-- One turn takes one piece. -/
theorem Parts.turn? (h : Parts source before (c :: rest)) (start line : Nat) :
    (spot start before line).turn? source =
      some (match item? (line + (nextPiece c rest).1.newlines) (nextPiece c rest).1 with
        | some item => .gives item (spot (bytesOf before).length
            (before ++ (nextPiece c rest).1.chars) (line + (nextPiece c rest).1.newlines))
        | none => .silent (spot (bytesOf before).length
            (before ++ (nextPiece c rest).1.chars) (line + (nextPiece c rest).1.newlines))) := by
  have htakes := h.takes line
  have hcut : Parts source before ((nextPiece c rest).1.chars ++ (nextPiece c rest).2) := by
    rw [(cuts_nextPiece c rest).chars_append]
    exact h
  have hslice := hcut.slice
  have hpast : ¬ (bytes source).length < (spot start before line).curr :=
    Nat.not_lt.mpr h.length_le
  have hend : (spot start before line).curr ≠ (bytes source).length := Nat.ne_of_lt h.lt_length
  rw [Scanner.turn?, if_neg hpast, if_neg hend]
  show (Scanner.scanPiece? source (spot (bytesOf before).length before line) >>= _) = _
  rw [htakes]
  generalize (nextPiece c rest).1 = piece at *
  cases piece with
  | blank _ | comment _ | stray _ | openString _ => rfl
  | lexeme kind chars =>
      show (slice? source (bytesOf before).length (bytesOf (before ++ chars)).length >>= _) = _
      rw [Piece.chars] at hslice
      rw [hslice]
      rfl

/-- At the end the scanner says so, and says nothing in the next turn. -/
theorem Parts.drain?_end (h : Parts source before []) (start line bound : Nat) :
    (spot start before line).drain? source (bound + 2) = some [.token (endToken line)] := by
  have hlength : (spot start before line).curr = (bytes source).length := h.length_eq.symm
  have hlast : (spot start before line).turn? source =
      some (.gives (.token (endToken line)) (spot start before line).forward) := by
    rw [Scanner.turn?, if_neg (hlength ▸ Nat.lt_irrefl _), if_pos hlength]
    rfl
  have hover : (spot start before line).forward.turn? source = some .over := by
    rw [Scanner.turn?, if_pos]
    exact hlength ▸ Nat.lt_succ_self _
  rw [Scanner.drain?, hlast]
  show (Scanner.drain? source (bound + 1) _ >>= _) = _
  rw [Scanner.drain?, hover]
  rfl

/-- The scanner gives what the pieces give.  The induction is on the pieces that are left. -/
theorem drain?_pieces (source : String) (chars : List Char) :
    ∀ before, Parts source before chars → ∀ start line bound, (pieces chars).length + 2 ≤ bound →
      (spot start before line).drain? source bound =
        some ((number line (pieces chars)).1 ++
          [.token (endToken (number line (pieces chars)).2)]) := by
  fun_induction pieces chars with
  | case1 =>
      intro before h start line bound hbound
      obtain ⟨bound, rfl⟩ := Nat.exists_eq_add_of_le' hbound
      exact h.drain?_end start line bound
  | case2 c rest next ih =>
      intro before h start line bound hbound
      obtain ⟨bound, rfl⟩ := Nat.exists_eq_add_of_le' hbound
      have hcut : Parts source before (next.1.chars ++ next.2) := by
        rw [(cuts_nextPiece c rest).chars_append]
        exact h
      have hrest := ih _ hcut.append (bytesOf before).length (line + next.1.newlines)
        (bound + ((pieces next.2).length + 2)) (Nat.le_add_left _ _)
      have hbounds : bound + ((next.1 :: pieces next.2).length + 2) =
          bound + ((pieces next.2).length + 2) + 1 := by
        rw [List.length_cons]
        omega
      rw [hbounds, Scanner.drain?, h.turn?, number_cons]
      cases item? (line + next.1.newlines) next.1 with
      | none => exact hrest
      | some item =>
          show (Scanner.drain? source _ _ >>= _) = _
          rw [hrest]
          rfl

theorem length_pieces_le (chars : List Char) : (pieces chars).length ≤ (bytesOf chars).length := by
  fun_induction pieces chars with
  | case1 => exact Nat.le_refl _
  | case2 c rest next ih =>
      obtain ⟨more, hchars, hrest⟩ := cuts_nextPiece c rest
      have hpos := List.length_pos_iff.mpr (encode_ne_nil c)
      have hsize : (bytesOf (c :: rest)).length = (String.utf8EncodeChar c).length +
          ((bytesOf more).length + (bytesOf next.2).length) := by
        rw [bytesOf_cons, List.length_append, ← hrest, bytesOf_append, List.length_append]
      rw [List.length_cons, hsize]
      omega

/-- The walk over the bytes finds what the pieces give, with two turns more than bytes: the end,
and nothing behind it. -/
theorem drain?_items (source : String) (spare : Nat) :
    (⟨0, 0, 1⟩ : Scanner).drain? source (source.utf8ByteSize + 2 + spare) =
      some (items source) := by
  have hsource : Parts source [] source.toList := String.ofList_toList.symm
  have hsize : source.utf8ByteSize = (bytesOf source.toList).length := by
    rw [← size_ofList, String.ofList_toList]
  have hturns := length_pieces_le source.toList
  exact drain?_pieces source source.toList [] hsource 0 1 _ (by omega)

/-- The scanner takes a text apart from its first byte to its last and ends with its only end
marker.  Whatever the text is, it takes no byte that is not there and cuts inside no character.
It needs no more turns than there are bytes, but for two: the end, and nothing behind it. -/
theorem scanner_tiles (source : String) :
    ∃ tiles, Tiles source 0 tiles ∧
      (∀ token, Item.token token ∈ tiles.filterMap (Tile.item? source) →
        token.kind ≠ .endOfInput) ∧
      items source = tiles.filterMap (Tile.item? source) ++
        [.token (endToken (lineAt source source.utf8ByteSize))] ∧
      ∀ spare, (⟨0, 0, 1⟩ : Scanner).drain? source (source.utf8ByteSize + 2 + spare) =
        some (items source) := by
  obtain ⟨tiles, htiles, hitems, hends⟩ := items_tile source
  exact ⟨tiles, htiles, hends, hitems, drain?_items source⟩

end Scriptlet.Source
