/-
What is cut off a text whose beginning is spelled out.

A rule that cuts off a piece takes characters as long as they belong to it.  So a word, a number,
a string or a mark is cut off whole when what stands behind it cannot belong to it, and whatever
stands behind it, the piece that is cut off is never shorter.
-/
import Scriptlet.Proofs.Source.Shapes

namespace Scriptlet.Source

/-- The text does not begin with such a character. -/
def Stops (p : Char → Bool) : List Char → Prop
  | [] => True
  | c :: _ => p c = false

section Stops

variable {p : Char → Bool} {chars taken : List Char}

theorem takeWhile_stops (htaken : ∀ d ∈ taken, p d = true) (h : Stops p chars) :
    (taken ++ chars).takeWhile p = taken := by
  rw [List.takeWhile_append_of_pos htaken]
  cases chars with
  | nil => exact List.append_nil _
  | cons c rest =>
      have hc : p c = false := h
      rw [List.takeWhile_cons, hc, if_neg Bool.false_ne_true, List.append_nil]

theorem dropWhile_stops (htaken : ∀ d ∈ taken, p d = true) (h : Stops p chars) :
    (taken ++ chars).dropWhile p = chars := by
  rw [List.dropWhile_append_of_pos htaken]
  cases chars with
  | nil => rfl
  | cons c rest =>
      have hc : p c = false := h
      rw [List.dropWhile_cons, hc, if_neg Bool.false_ne_true]

theorem stops_dropWhile (p : Char → Bool) (chars : List Char) : Stops p (chars.dropWhile p) := by
  induction chars with
  | nil => trivial
  | cons c rest ih =>
      rw [List.dropWhile_cons]
      split
      · exact ih
      · next hc => exact Bool.eq_false_iff.mpr hc

theorem not_isDigit_of_start {c : Char} (h : isWordStart c = true) : c.isDigit = false := by
  unfold isWordStart Char.isAlpha Char.isUpper Char.isLower at h
  unfold Char.isDigit
  simp only [Bool.or_eq_true, Bool.and_eq_true, decide_eq_true_eq, beq_iff_eq] at h
  simp only [Bool.and_eq_false_iff, decide_eq_false_iff_not]
  rcases h with (hupper | hlower) | rfl
  · grind
  · grind
  · decide

theorem ne_of_start {c d : Char} (h : isWordStart c = true) (hd : isWordStart d = false) :
    c ≠ d := by
  rintro rfl
  exact Bool.false_ne_true (hd.symm.trans h)

/-- No blank is such a character. -/
def BlankFree (p : Char → Bool) : Prop :=
  ∀ c, isBlank c = true → p c = false

theorem blankFree_of (hspace : p ' ' = false) (hreturn : p '\r' = false) (htab : p '\t' = false)
    (hfeed : p '\n' = false) : BlankFree p := by
  intro c hc
  have hmem := isBlank_iff.mp hc
  simp only [List.mem_cons, List.not_mem_nil, or_false] at hmem
  rcases hmem with rfl | rfl | rfl | rfl
  · exact hspace
  · exact hreturn
  · exact htab
  · exact hfeed

theorem blankFree_isWordStart : BlankFree isWordStart :=
  blankFree_of rfl rfl rfl rfl

theorem blankFree_isWordPart : BlankFree isWordPart :=
  blankFree_of rfl rfl rfl rfl

theorem blankFree_isDigit : BlankFree Char.isDigit :=
  blankFree_of rfl rfl rfl rfl

theorem BlankFree.not_isBlank (hp : BlankFree p) {c : Char} (h : p c = true) :
    ¬ isBlank c = true := by
  intro hblank
  rw [hp c hblank] at h
  cases h

end Stops

/-! ### What each rule cuts off -/

section Rules

variable {c : Char} {behind : List Char}

theorem wordPiece_append {word : List Char} (hword : ∀ d ∈ word, isWordPart d = true)
    (hstops : Stops isWordPart behind) :
    wordPiece c (word ++ behind) = (.lexeme (wordKind (c :: word)) (c :: word), behind) := by
  simp only [wordPiece, takeWhile_stops hword hstops, dropWhile_stops hword hstops]

theorem numberPiece_whole {digits : List Char} (hdigits : ∀ d ∈ digits, d.isDigit = true)
    (hstops : Stops Char.isDigit behind) (hnone : fractionOf behind = []) :
    numberPiece c (digits ++ behind) =
      (.lexeme (.number (decimalValue (c :: digits) [])) (c :: digits), behind) := by
  simp only [numberPiece, takeWhile_stops hdigits hstops, dropWhile_stops hdigits hstops, hnone]

theorem numberPiece_fraction {digits fraction : List Char} {first : Char}
    (hdigits : ∀ d ∈ digits, d.isDigit = true) (hfirst : first.isDigit = true)
    (hfraction : ∀ d ∈ fraction, d.isDigit = true) (hstops : Stops Char.isDigit behind) :
    numberPiece c (digits ++ '.' :: first :: (fraction ++ behind)) =
      (.lexeme (.number (decimalValue (c :: digits) (first :: fraction)))
        (c :: digits ++ '.' :: first :: fraction), behind) := by
  have hpoint : Stops Char.isDigit ('.' :: first :: (fraction ++ behind)) := rfl
  have hbehind : fractionOf ('.' :: first :: (fraction ++ behind)) = first :: fraction := by
    simp only [fractionOf, hfirst, if_true, takeWhile_stops hfraction hstops]
  have hdrop : ('.' :: first :: (fraction ++ behind)).drop ((first :: fraction).length + 1) =
      behind := by
    simp
  simp only [numberPiece, takeWhile_stops hdigits hpoint, dropWhile_stops hdigits hpoint, hbehind,
    hdrop]

theorem stringPiece_closed {text : List Char} (htext : ∀ d ∈ text, (d != '"') = true) :
    stringPiece (text ++ '"' :: behind) =
      (.lexeme (.string (String.ofList text)) ('"' :: text ++ ['"']), behind) := by
  have hquote : Stops (· != '"') ('"' :: behind) := rfl
  simp only [stringPiece, takeWhile_stops htext hquote, dropWhile_stops htext hquote]

theorem slashPiece_comment {text : List Char} (htext : ∀ d ∈ text, (d != '\n') = true)
    (hstops : Stops (· != '\n') behind) :
    slashPiece ('/' :: (text ++ behind)) = (.comment ('/' :: '/' :: text), behind) := by
  simp only [slashPiece, takeWhile_stops htext hstops, dropWhile_stops htext hstops]

theorem fractionOf_cons {chars fraction : List Char} {first : Char}
    (h : fractionOf chars = first :: fraction) :
    ∃ behind, chars = '.' :: first :: (fraction ++ behind) ∧ first.isDigit = true ∧
      (∀ d ∈ fraction, d.isDigit = true) ∧ Stops Char.isDigit behind := by
  unfold fractionOf at h
  split at h
  · next digit more =>
      split at h
      · next hdigit =>
          cases h
          exact ⟨more.dropWhile Char.isDigit, by rw [List.takeWhile_append_dropWhile], hdigit,
            mem_takeWhile, stops_dropWhile _ _⟩
      · cases h
  · cases h

theorem chars_single (c : Char) :
    ((singleMark? c).elim (.stray c) fun mark => Piece.lexeme (.mark mark) [c]).chars = [c] := by
  cases singleMark? c with
  | none => rfl
  | some mark => rfl

theorem nextPiece_word (hstart : isWordStart c = true) : 
    nextPiece c behind = wordPiece c behind := by
  have hblank := blankFree_isWordStart.not_isBlank hstart
  unfold nextPiece
  rw [if_neg hblank, if_neg (ne_of_start hstart rfl),
    if_neg (Bool.eq_false_iff.mp (not_isDigit_of_start hstart)), if_pos hstart]

theorem nextPiece_digit (hdigit : c.isDigit = true) :
    nextPiece c behind = numberPiece c behind := by
  have hblank := blankFree_isDigit.not_isBlank hdigit
  have hquote : c ≠ '"' := by
    rintro rfl
    cases hdigit
  unfold nextPiece
  rw [if_neg hblank, if_neg hquote, if_pos hdigit]

theorem nextPiece_mark {mark : Mark} (h : singleMark? c = some mark) :
    nextPiece c behind = if c = '/' then slashPiece behind else markPiece c behind := by
  unfold singleMark? at h
  split at h
  all_goals first | rfl | cases h

end Rules

theorem wordKind_identifier {chars : List Char} (h : Spells .identifier chars) :
    wordKind chars = .identifier := by
  unfold wordKind
  cases hword : Keyword.ofSpelling? (String.ofList chars) with
  | none => rfl
  | some keyword =>
      cases h with
      | identifier _ _ hfree =>
          have hspelling := List.find?_some hword
          rw [beq_iff_eq] at hspelling
          exact absurd (by rw [hspelling, String.toList_ofList]) (hfree keyword)

theorem pieces_nil : pieces [] = [] := by
  rw [pieces]

/-- Only a lexeme gives a token. -/
theorem item?_eq_token {line : Nat} {piece : Piece} {token : Token}
    (h : item? line piece = some (.token token)) :
    ∃ kind chars, piece = .lexeme kind chars ∧ token = ⟨kind, String.ofList chars, line⟩ := by
  cases piece with
  | lexeme kind chars =>
      cases h
      exact ⟨kind, chars, rfl, rfl⟩
  | blank _ | comment _ | stray _ | openString _ => cases h

/-! ### Spelled lexemes -/

/-- Lexemes by the character they start with. -/
inductive Headed : Kind → Char → List Char → Prop
  | single {c : Char} {mark : Mark} (h : singleMark? c = some mark) : Headed (.mark mark) c []
  | double {c : Char} {mark : Mark} (h : doubleMark? c = some mark) : Headed (.mark mark) c ['=']
  | word {c : Char} {more : List Char} (hstart : isWordStart c = true)
      (hmore : ∀ d ∈ more, isWordPart d = true) : Headed (wordKind (c :: more)) c more
  | string {text : List Char} (htext : ∀ d ∈ text, (d != '"') = true) :
      Headed (.string (String.ofList text)) '"' (text ++ ['"'])
  | whole {c : Char} {digits : List Char} (hc : c.isDigit = true)
      (hdigits : ∀ d ∈ digits, d.isDigit = true) :
      Headed (.number (decimalValue (c :: digits) [])) c digits
  | fraction {c first : Char} {digits fraction : List Char} (hc : c.isDigit = true)
      (hdigits : ∀ d ∈ digits, d.isDigit = true) (hfirst : first.isDigit = true)
      (hfraction : ∀ d ∈ fraction, d.isDigit = true) :
      Headed (.number (decimalValue (c :: digits) (first :: fraction))) c
        (digits ++ '.' :: first :: fraction)

section Spelled

variable {kind : Kind} {chars behind : List Char}

theorem headed_mark (mark : Mark) :
    ∃ c more, mark.spelling.toList = c :: more ∧ Headed (.mark mark) c more := by
  cases mark
  all_goals first
    | exact ⟨_, _, rfl, .single rfl⟩
    | exact ⟨_, _, rfl, .double rfl⟩

theorem headed_keyword (keyword : Keyword) :
    ∃ c more, keyword.spelling.toList = c :: more ∧ Headed (.keyword keyword) c more := by
  have hkind : wordKind keyword.spelling.toList = .keyword keyword := by cases keyword <;> rfl
  have hparts : keyword.spelling.toList.all isWordPart = true := by cases keyword <;> rfl
  cases hspelling : keyword.spelling.toList with
  | nil => cases keyword <;> cases hspelling
  | cons c more =>
      rw [hspelling] at hkind hparts
      rw [← hkind]
      exact ⟨c, more, rfl, .word (wordStart_of_spelling hspelling)
        (List.forall_mem_cons.mp (List.all_eq_true.mp hparts)).2⟩

theorem forall_ne_of_not_mem {stop : Char} (h : stop ∉ chars) : ∀ d ∈ chars, (d != stop) = true :=
  fun _ hd => bne_iff_ne.mpr (ne_of_mem_of_not_mem hd h)

/-- A spelled text has a first character, which tells most about it. -/
theorem Spells.headed (h : Spells kind chars) :
    ∃ c more, chars = c :: more ∧ Headed kind c more := by
  cases h with
  | mark mark => exact headed_mark mark
  | keyword keyword => exact headed_keyword keyword
  | @identifier c more hstart hmore hfree =>
      refine ⟨c, more, rfl, ?_⟩
      rw [← wordKind_identifier (.identifier hstart hmore hfree)]
      exact .word hstart hmore
  | string hquote => exact ⟨_, _, rfl, .string (forall_ne_of_not_mem hquote)⟩
  | whole hsome hdigits =>
      obtain ⟨c, digits, rfl⟩ := List.exists_cons_of_ne_nil hsome
      obtain ⟨hc, hdigits⟩ := List.forall_mem_cons.mp hdigits
      exact ⟨c, digits, rfl, .whole hc hdigits⟩
  | fraction hsome hdigits hbehind hfraction =>
      obtain ⟨c, digits, rfl⟩ := List.exists_cons_of_ne_nil hsome
      obtain ⟨first, fraction, rfl⟩ := List.exists_cons_of_ne_nil hbehind
      obtain ⟨hc, hdigits⟩ := List.forall_mem_cons.mp hdigits
      obtain ⟨hfirst, hfraction⟩ := List.forall_mem_cons.mp hfraction
      exact ⟨c, _, rfl, .fraction hc hdigits hfirst hfraction⟩

/-- Behind it a new piece begins, whatever the lexeme before is. -/
def Apart (behind : List Char) : Prop :=
  ∀ c ∈ behind.head?, isBlank c = true

theorem Apart.stops (h : Apart behind) {p : Char → Bool} (hp : BlankFree p) : Stops p behind := by
  cases behind with
  | nil => trivial
  | cons c rest => exact hp c (h c rfl)

theorem Apart.head?_ne (h : Apart behind) {d : Char} (hd : isBlank d = false) :
    behind.head? ≠ some d := by
  intro hhead
  rw [h d hhead] at hd
  cases hd

theorem Apart.fractionOf_nil (h : Apart behind) : fractionOf behind = [] := by
  cases behind with
  | nil => rfl
  | cons c rest =>
      refine fractionOf_of_ne ?_ rest
      rintro rfl
      cases h '.' rfl

/-- A lexeme is cut off whole where a blank or nothing stands behind it. -/
theorem Headed.nextPiece_apart {c : Char} {more : List Char} (h : Headed kind c more)
    (hbehind : Apart behind) :
    nextPiece c (more ++ behind) = (.lexeme kind (c :: more), behind) := by
  cases h with
  | @single c mark hsingle =>
      have hmark : markPiece c behind = (.lexeme (.mark mark) [c], behind) := by
        rw [markPiece_single (Or.inr (hbehind.head?_ne rfl)), hsingle]
        rfl
      rw [List.nil_append, nextPiece_mark hsingle]
      split
      · next hslash =>
          subst hslash
          rw [slashPiece_single (hbehind.head?_ne rfl), hmark]
      · exact hmark
  | double hdouble =>
      unfold doubleMark? at hdouble
      split at hdouble
      all_goals cases hdouble
      all_goals rfl
  | word hstart hmore =>
      rw [nextPiece_word hstart, wordPiece_append hmore (hbehind.stops blankFree_isWordPart)]
  | string htext =>
      rw [List.append_assoc]
      exact stringPiece_closed htext
  | whole hc hdigits =>
      rw [nextPiece_digit hc, numberPiece_whole hdigits (hbehind.stops blankFree_isDigit)
        hbehind.fractionOf_nil]
  | fraction hc hdigits hfirst hfraction =>
      rw [nextPiece_digit hc, List.append_assoc]
      exact numberPiece_fraction hdigits hfirst hfraction (hbehind.stops blankFree_isDigit)

end Spelled

end Scriptlet.Source
