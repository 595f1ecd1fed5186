/-
Two texts on lines of their own are scanned as each of them alone, but for the count
of lines: no piece goes on behind the end of a line, except a comment up to the line
feed and a string that is not closed.
-/
import Scriptlet.Proofs.Source.Lexemes

namespace Scriptlet.Source

/-- The characters that end a line. -/
def IsEnding (ending : List Char) : Prop :=
  ending = ['\n'] ∨ ending = ['\r', '\n']

/-- Neither a stray character nor a string without end. -/
def Readable : Piece → Prop
  | .stray _ => False
  | .openString _ => False
  | _ => True

section Prefixes

variable {p : Char → Bool} {chars tail : List Char}

theorem takeWhile_append_of (h : chars.dropWhile p ≠ [] ∨ tail.takeWhile p = []) :
    (chars ++ tail).takeWhile p = chars.takeWhile p := by
  induction chars with
  | nil =>
      rcases h with h | h
      · exact absurd rfl h
      · exact h
  | cons c rest ih =>
      cases hc : p c with
      | false => simp [hc]
      | true =>
          have hrest := ih (by simpa [List.dropWhile_cons, hc] using h)
          simp [hc, hrest]

theorem dropWhile_append_of (h : chars.dropWhile p ≠ [] ∨ tail.takeWhile p = []) :
    (chars ++ tail).dropWhile p = chars.dropWhile p ++ tail := by
  have hwhole := List.takeWhile_append_dropWhile (p := p) (l := chars ++ tail)
  have hchars := List.takeWhile_append_dropWhile (p := p) (l := chars)
  rw [takeWhile_append_of h] at hwhole
  have hsame : chars.takeWhile p ++ (chars ++ tail).dropWhile p =
      chars.takeWhile p ++ (chars.dropWhile p ++ tail) := by
    rw [hwhole, ← List.append_assoc, hchars]
  exact List.append_cancel_left hsame

end Prefixes

theorem fractionOf_of_ne {c : Char} (h : c ≠ '.') (rest : List Char) :
    fractionOf (c :: rest) = [] := by
  unfold fractionOf
  split
  · next heq => exact absurd (List.cons.inj heq).1 h
  · rfl

theorem markPiece_double {c : Char} {mark : Mark} (h : doubleMark? c = some mark)
    (behind : List Char) :
    markPiece c ('=' :: behind) = (.lexeme (.mark mark) [c, '='], behind) := by
  simp [markPiece, h]

theorem markPiece_single {c : Char} {rest : List Char}
    (h : doubleMark? c = none ∨ rest.head? ≠ some '=') :
    markPiece c rest =
      ((singleMark? c).elim (.stray c) fun mark => .lexeme (.mark mark) [c], rest) := by
  unfold markPiece
  split
  · next hdouble =>
      rcases h with h | h
      · rw [h] at hdouble
        cases hdouble
      · exact absurd rfl h
  · cases singleMark? c with
    | some mark => rfl
    | none => rfl

theorem slashPiece_single {rest : List Char} (h : rest.head? ≠ some '/') :
    slashPiece rest = markPiece '/' rest := by
  unfold slashPiece
  split
  · exact absurd rfl h
  · rfl

theorem newlines_comment (behind : List Char) :
    (Piece.comment ('/' :: '/' :: behind.takeWhile (· != '\n'))).newlines = 0 := by
  apply List.count_eq_zero.mpr
  simp only [Piece.chars, List.mem_cons, not_or]
  refine ⟨by decide, by decide, fun h => ?_⟩
  exact absurd (List.all_eq_true.mp List.all_takeWhile _ h) (by decide)

section Cut

variable {ending : List Char} (hending : IsEnding ending) (more : List Char)

include hending

theorem takeWhile_digits_ending : (ending ++ more).takeWhile Char.isDigit = [] := by
  rcases hending with rfl | rfl <;> rfl

theorem takeWhile_word_ending : (ending ++ more).takeWhile isWordPart = [] := by
  rcases hending with rfl | rfl <;> rfl

theorem dropWhile_comment_ending :
    (ending ++ more).dropWhile (· != '\n') = '\n' :: more := by
  rcases hending with rfl | rfl <;> rfl

variable {more}

theorem fractionOf_append (rest : List Char) :
    fractionOf (rest ++ (ending ++ more)) = fractionOf rest := by
  have hstop : fractionOf (ending ++ more) = [] ∧ fractionOf ('.' :: (ending ++ more)) = [] := by
    rcases hending with rfl | rfl <;> exact ⟨rfl, rfl⟩
  cases rest with
  | nil => exact hstop.1
  | cons c behind =>
      by_cases hpoint : c = '.'
      · subst hpoint
        cases behind with
        | nil => exact hstop.2
        | cons digit digits =>
            simp only [fractionOf, List.cons_append,
              takeWhile_append_of (Or.inr (takeWhile_digits_ending hending more))]
      · rw [fractionOf_of_ne hpoint, List.cons_append, fractionOf_of_ne hpoint]

/-- The cut of a longer text: the piece means the same, and the rest is longer by the
same, unless the piece takes the carriage return of an ending with it. -/
structure Prolongs (ending more : List Char) (cut cut' : Piece × List Char) : Prop where
  item : ∀ line, item? line cut'.1 = item? line cut.1
  newlines : cut'.1.newlines = cut.1.newlines
  rest : cut'.2 = cut.2 ++ (ending ++ more) ∨ cut.2 = [] ∧ cut'.2 = '\n' :: more

omit hending in
theorem prolongs_same {piece : Piece} {behind : List Char} :
    Prolongs ending more (piece, behind) (piece, behind ++ (ending ++ more)) :=
  ⟨fun _ => rfl, rfl, Or.inl rfl⟩

theorem prolongs_numberPiece (c : Char) (rest : List Char) :
    Prolongs ending more (numberPiece c rest) (numberPiece c (rest ++ (ending ++ more))) := by
  have hdigits := Or.inr (a := rest.dropWhile Char.isDigit ≠ [])
    (takeWhile_digits_ending hending more)
  dsimp only [numberPiece]
  rw [takeWhile_append_of hdigits, dropWhile_append_of hdigits, fractionOf_append hending]
  cases hfraction : fractionOf (rest.dropWhile Char.isDigit) with
  | nil => exact prolongs_same
  | cons digit digits =>
      have hwhole := fractionOf_append_drop (by rw [hfraction]; exact List.cons_ne_nil _ _)
      have hlength : (digit :: digits).length + 1 ≤ (rest.dropWhile Char.isDigit).length := by
        rw [← hwhole, hfraction, List.length_append]
        exact Nat.le_add_right _ _
      dsimp only
      rw [List.drop_append_of_le_length hlength]
      exact prolongs_same

theorem prolongs_wordPiece (c : Char) (rest : List Char) :
    Prolongs ending more (wordPiece c rest) (wordPiece c (rest ++ (ending ++ more))) := by
  have hword := Or.inr (a := rest.dropWhile isWordPart ≠ [])
    (takeWhile_word_ending hending more)
  dsimp only [wordPiece]
  rw [takeWhile_append_of hword, dropWhile_append_of hword]
  exact prolongs_same

omit hending in
theorem prolongs_stringPiece {rest : List Char} (h : Readable (stringPiece rest).1) :
    Prolongs ending more (stringPiece rest) (stringPiece (rest ++ (ending ++ more))) := by
  dsimp only [stringPiece] at h ⊢
  cases hbehind : rest.dropWhile (· != '"') with
  | nil =>
      rw [hbehind] at h
      exact h.elim
  | cons quote behind =>
      have hclosed : rest.dropWhile (· != '"') ≠ [] ∨ (ending ++ more).takeWhile (· != '"') = [] :=
        Or.inl (by rw [hbehind]; exact List.cons_ne_nil _ _)
      rw [takeWhile_append_of hclosed, dropWhile_append_of hclosed, hbehind]
      exact prolongs_same

theorem prolongs_markPiece (c : Char) (rest : List Char) :
    Prolongs ending more (markPiece c rest) (markPiece c (rest ++ (ending ++ more))) := by
  have hstop : (ending ++ more).head? ≠ some '=' := by
    rcases hending with rfl | rfl <;> exact nofun
  cases hdouble : doubleMark? c with
  | none =>
      rw [markPiece_single (Or.inl hdouble), markPiece_single (Or.inl hdouble)]
      exact prolongs_same
  | some mark =>
      cases rest with
      | nil =>
          rw [List.nil_append, markPiece_single (Or.inr hstop),
            markPiece_single (Or.inr (by decide))]
          exact prolongs_same
      | cons d behind =>
          by_cases hequal : d = '='
          · subst hequal
            rw [List.cons_append, markPiece_double hdouble, markPiece_double hdouble]
            exact prolongs_same
          · have hne : (d :: behind).head? ≠ some '=' := fun h => hequal (Option.some.inj h)
            have hlong : (d :: behind ++ (ending ++ more)).head? ≠ some '=' := hne
            rw [markPiece_single (Or.inr hne), markPiece_single (Or.inr hlong)]
            exact prolongs_same

theorem prolongs_slashPiece (rest : List Char) :
    Prolongs ending more (slashPiece rest) (slashPiece (rest ++ (ending ++ more))) := by
  cases rest with
  | nil =>
      have hstop : (ending ++ more).head? ≠ some '/' := by
        rcases hending with rfl | rfl <;> exact nofun
      rw [List.nil_append, slashPiece_single hstop, slashPiece_single (by decide)]
      exact prolongs_markPiece hending '/' []
  | cons d behind =>
      by_cases hslash : d = '/'
      · subst hslash
        refine ⟨fun _ => rfl, ?_, ?_⟩
        · exact (newlines_comment _).trans (newlines_comment _).symm
        · show (behind ++ (ending ++ more)).dropWhile (· != '\n') = _ ∨
            _ ∧ (behind ++ (ending ++ more)).dropWhile (· != '\n') = _
          rw [List.dropWhile_append, dropWhile_comment_ending hending more]
          by_cases hlast : behind.dropWhile (· != '\n') = []
          · exact Or.inr ⟨hlast, if_pos (List.isEmpty_iff.mpr hlast)⟩
          · exact Or.inl (if_neg fun h => hlast (List.isEmpty_iff.mp h))
      · have hne : (d :: behind).head? ≠ some '/' := fun h => hslash (Option.some.inj h)
        have hlong : (d :: behind ++ (ending ++ more)).head? ≠ some '/' := hne
        rw [slashPiece_single hne, slashPiece_single hlong]
        exact prolongs_markPiece hending '/' (d :: behind)

/-- A readable piece is not changed by the lines behind it. -/
theorem prolongs_nextPiece {c : Char} {rest : List Char} (h : Readable (nextPiece c rest).1) :
    Prolongs ending more (nextPiece c rest) (nextPiece c (rest ++ (ending ++ more))) := by
  unfold nextPiece at h ⊢
  by_cases hblank : isBlank c = true
  · simp only [if_pos hblank]
    exact prolongs_same
  simp only [if_neg hblank] at h ⊢
  by_cases hquote : c = '"'
  · simp only [if_pos hquote] at h ⊢
    exact prolongs_stringPiece h
  simp only [if_neg hquote]
  split
  · exact prolongs_numberPiece hending c rest
  · split
    · exact prolongs_wordPiece hending c rest
    · split
      · exact prolongs_slashPiece hending rest
      · exact prolongs_markPiece hending c rest

end Cut

section Number

/-- A token so many lines further down. -/
def moved (lines : Nat) (token : Token) : Token :=
  { token with line := token.line + lines }

theorem number_cons (line : Nat) (piece : Piece) (rest : List Piece) :
    number line (piece :: rest) =
      ((item? (line + piece.newlines) piece).toList ++ (number (line + piece.newlines) rest).1,
        (number (line + piece.newlines) rest).2) := by
  simp only [number]
  cases item? (line + piece.newlines) piece with
  | none => rfl
  | some item => rfl

theorem pieces_cons (c : Char) (rest : List Char) :
    pieces (c :: rest) = (nextPiece c rest).1 :: pieces (nextPiece c rest).2 := by
  rw [pieces]

/-- The end of a line counts as one line, and gives nothing else. -/
theorem number_newline (line : Nat) (more : List Char) :
    number line (pieces ('\n' :: more)) = number (line + 1) (pieces more) := by
  rw [pieces_cons, number_cons]
  rfl

theorem number_ending {ending : List Char} (hending : IsEnding ending) (line : Nat)
    (more : List Char) :
    number line (pieces (ending ++ more)) = number (line + 1) (pieces more) := by
  rcases hending with rfl | rfl
  · exact number_newline line more
  · rw [List.cons_append, pieces_cons, number_cons]
    exact number_newline line more

/-- A line of its own goes on where the text before it ended. -/
theorem number_joined {ending : List Char} (hending : IsEnding ending) {chars : List Char}
    (hreadable : ∀ piece ∈ pieces chars, Readable piece) (line : Nat) (more : List Char) :
    number line (pieces (chars ++ (ending ++ more))) =
      ((number line (pieces chars)).1 ++
          (number ((number line (pieces chars)).2 + 1) (pieces more)).1,
        (number ((number line (pieces chars)).2 + 1) (pieces more)).2) := by
  fun_induction pieces chars generalizing line with
  | case1 => exact number_ending hending line more
  | case2 c rest next ih =>
      have hprolongs : Prolongs ending more (nextPiece c rest)
          (nextPiece c (rest ++ (ending ++ more))) :=
        prolongs_nextPiece hending (hreadable _ List.mem_cons_self)
      have hrest := ih (fun piece hpiece => hreadable piece (List.mem_cons_of_mem _ hpiece))
        (line + next.1.newlines)
      have hbehind : number (line + next.1.newlines)
          (pieces (nextPiece c (rest ++ (ending ++ more))).2) =
            number (line + next.1.newlines) (pieces (next.2 ++ (ending ++ more))) := by
        rcases hprolongs.rest with hbehind | ⟨hlast, hbehind⟩
        · rw [hbehind]
        · rw [hbehind, show next.2 = [] from hlast, List.nil_append, number_newline,
            number_ending hending]
      rw [List.cons_append, pieces_cons, number_cons, number_cons, hprolongs.item,
        hprolongs.newlines]
      rw [hbehind, hrest, List.append_assoc]

theorem number_last (line : Nat) (chars : List Char) :
    (number line (pieces chars)).2 = line + chars.count '\n' := by
  fun_induction pieces chars generalizing line with
  | case1 => rfl
  | case2 c rest next ih =>
      rw [number_cons, ih, Nat.add_assoc, Piece.newlines, ← List.count_append,
        (cuts_nextPiece c rest).chars_append]

/-- Pieces further down give the same tokens, further down. -/
theorem number_moved (line lines : Nat) (all : List Piece) :
    (number (line + lines) all).1.filterMap Item.token? =
        ((number line all).1.filterMap Item.token?).map (moved lines) ∧
      (number (line + lines) all).2 = (number line all).2 + lines := by
  induction all generalizing line with
  | nil => exact ⟨rfl, rfl⟩
  | cons piece rest ih =>
      obtain ⟨htokens, hlast⟩ := ih (line + piece.newlines)
      rw [number_cons, number_cons, Nat.add_right_comm]
      refine ⟨?_, hlast⟩
      rw [List.filterMap_append, List.filterMap_append, List.map_append, htokens]
      cases piece <;> rfl

theorem number_faults_iff (line : Nat) (all : List Piece) :
    (number line all).1.filterMap Item.fault? = [] ↔ ∀ piece ∈ all, Readable piece := by
  induction all generalizing line with
  | nil => exact iff_of_true rfl nofun
  | cons piece rest ih =>
      rw [number_cons, List.filterMap_append, List.append_eq_nil_iff, ih, List.forall_mem_cons]
      refine and_congr_left fun _ => ?_
      cases piece with
      | lexeme _ _ | blank _ | comment _ => exact iff_of_true rfl trivial
      | stray _ | openString _ => exact iff_of_false (List.cons_ne_nil _ _) id

end Number

/-- The tokens of a text before the end marker. -/
def body (source : String) : List Token :=
  (number 1 (pieces source.toList)).1.filterMap Item.token?

/-- The lines of a text that have an end. -/
def newlines (source : String) : Nat :=
  source.toList.count '\n'

theorem scan_tokens (source : String) :
    (scan source).tokens = body source ++ [endToken (number 1 (pieces source.toList)).2] := by
  simp [scan, items, body, Item.token?]

theorem scan_faults (source : String) :
    (scan source).faults = (number 1 (pieces source.toList)).1.filterMap Item.fault? := by
  simp [scan, items, Item.fault?]

theorem scan_faults_iff (source : String) :
    (scan source).faults = [] ↔ ∀ piece ∈ pieces source.toList, Readable piece := by
  rw [scan_faults, number_faults_iff]

/-- A text behind a line that can be read gives what it gives alone, on later lines. -/
theorem scan_joined {first second ending : String} (hending : IsEnding ending.toList)
    (hfirst : (scan first).faults = []) (hsecond : (scan second).faults = []) :
    (scan (first ++ ending ++ second)).faults = [] ∧
      (scan (first ++ ending ++ second)).tokens =
        body first ++ (scan second).tokens.map (moved (newlines first + 1)) := by
  have hreadable := (scan_faults_iff first).mp hfirst
  have hnumber := number_joined hending hreadable 1 second.toList
  have hchars : (first ++ ending ++ second).toList =
      first.toList ++ (ending.toList ++ second.toList) := by
    simp
  have hline : (number 1 (pieces first.toList)).2 + 1 = 1 + (newlines first + 1) := by
    rw [number_last, Nat.add_assoc, newlines]
  obtain ⟨htokens, hlast⟩ := number_moved 1 (newlines first + 1) (pieces second.toList)
  rw [← hchars, hline] at hnumber
  constructor
  · rw [scan_faults, hnumber, List.filterMap_append, ← scan_faults, hfirst, List.nil_append,
      number_faults_iff]
    exact (scan_faults_iff second).mp hsecond
  · rw [scan_tokens, scan_tokens, body, hnumber, List.filterMap_append, htokens, hlast,
      List.map_append, List.append_assoc]
    rfl

/-- A text on later lines: behind so many that are empty. -/
def below (lines : Nat) (source : String) : String :=
  String.ofList (List.replicate lines '\n' ++ source.toList)

theorem below_zero (source : String) : below 0 source = source := by
  rw [below, List.replicate_zero, List.nil_append, String.ofList_toList]

theorem below_below (lines more : Nat) (source : String) :
    below lines (below more source) = below (lines + more) source := by
  rw [below, below, below, String.toList_ofList, ← List.append_assoc,
    List.replicate_append_replicate]

theorem number_below (line lines : Nat) (chars : List Char) :
    number line (pieces (List.replicate lines '\n' ++ chars)) =
      number (line + lines) (pieces chars) := by
  induction lines generalizing line with
  | zero => rfl
  | succ lines ih =>
      rw [List.replicate_succ, List.cons_append, number_newline, ih, Nat.add_right_comm]
      rfl

/-- On later lines, a text gives what it gives on the first ones. -/
theorem scan_below (lines : Nat) (source : String) :
    ((scan (below lines source)).faults = [] ↔ (scan source).faults = []) ∧
      (scan (below lines source)).tokens = (scan source).tokens.map (moved lines) := by
  have hnumber : number 1 (pieces (below lines source).toList) =
      number (1 + lines) (pieces source.toList) := by
    rw [below, String.toList_ofList, number_below]
  constructor
  · rw [scan_faults, hnumber, number_faults_iff, scan_faults_iff]
  · obtain ⟨htokens, hlast⟩ := number_moved 1 lines (pieces source.toList)
    rw [scan_tokens, scan_tokens, body, hnumber, htokens, hlast, List.map_append]
    rfl

theorem line_pos {source : String} {token : Token} (h : token ∈ (scan source).tokens) :
    0 < token.line := by
  obtain ⟨htokens, hlast⟩ := number_moved 0 1 (pieces source.toList)
  rw [Nat.zero_add] at htokens hlast
  rw [scan_tokens, body, htokens, hlast] at h
  rcases List.mem_append.mp h with h | h
  · obtain ⟨other, -, rfl⟩ := List.mem_map.mp h
    exact Nat.succ_pos _
  · cases List.mem_singleton.mp h
    exact Nat.succ_pos _

theorem lt_line_of_below {lines : Nat} {source : String} {token : Token}
    (h : token ∈ (scan (below lines source)).tokens) : lines < token.line := by
  rw [(scan_below lines source).2] at h
  obtain ⟨other, hother, rfl⟩ := List.mem_map.mp h
  exact Nat.lt_add_of_pos_left (line_pos hother)

end Scriptlet.Source
