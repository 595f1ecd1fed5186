/-
What the pieces of a text look like, told without the rules that cut them: which
characters spell a lexeme, how far a comment goes, which characters begin nothing.
-/
import Scriptlet.Proofs.Source.Joined

namespace Scriptlet.Source

/-- The characters spell a lexeme of the kind.  Nothing spells the end of the text. -/
inductive Spells : Kind → List Char → Prop
  | mark (mark : Mark) : Spells (.mark mark) mark.spelling.toList
  | keyword (keyword : Keyword) : Spells (.keyword keyword) keyword.spelling.toList
  | identifier {c : Char} {more : List Char} (hstart : isWordStart c = true)
      (hmore : ∀ d ∈ more, isWordPart d = true)
      (hfree : ∀ keyword : Keyword, keyword.spelling.toList ≠ c :: more) :
      Spells .identifier (c :: more)
  | string {text : List Char} (hquote : '"' ∉ text) :
      Spells (.string (String.ofList text)) ('"' :: text ++ ['"'])
  | whole {digits : List Char} (hsome : digits ≠ [])
      (hdigits : ∀ d ∈ digits, d.isDigit = true) :
      Spells (.number (decimalValue digits [])) digits
  | fraction {digits fraction : List Char} (hsome : digits ≠ [])
      (hdigits : ∀ d ∈ digits, d.isDigit = true) (hbehind : fraction ≠ [])
      (hfraction : ∀ d ∈ fraction, d.isDigit = true) :
      Spells (.number (decimalValue digits fraction)) (digits ++ '.' :: fraction)

/-- The character begins neither a lexeme nor a string nor a blank. -/
structure BeginsNothing (c : Char) : Prop where
  lexeme : ∀ kind more, ¬ Spells kind (c :: more)
  quote : c ≠ '"'
  blank : c ∉ [' ', '\r', '\t', '\n']

/-- The piece is one of the five forms, with the given text behind it. -/
inductive Formed : Piece → List Char → Prop
  | lexeme {kind : Kind} {chars behind : List Char} (h : Spells kind chars) :
      Formed (.lexeme kind chars) behind
  | blank {c : Char} {behind : List Char} (h : c ∈ [' ', '\r', '\t', '\n']) :
      Formed (.blank c) behind
  | comment {text behind : List Char} (h : '\n' ∉ text)
      (hbehind : behind = [] ∨ behind.head? = some '\n') :
      Formed (.comment ('/' :: '/' :: text)) behind
  | stray {c : Char} {behind : List Char} (h : BeginsNothing c) : Formed (.stray c) behind
  | openString {text : List Char} (h : '"' ∉ text) : Formed (.openString ('"' :: text)) []

theorem Spells.ne_endOfInput {kind : Kind} {chars : List Char} (h : Spells kind chars) :
    kind ≠ .endOfInput := by
  cases h <;> exact nofun

theorem not_mem_takeWhile_ne (stop : Char) (chars : List Char) :
    stop ∉ chars.takeWhile (· != stop) := by
  intro h
  have hne := List.all_eq_true.mp List.all_takeWhile _ h
  simp at hne

theorem head_dropWhile_ne (stop : Char) (chars : List Char) :
    chars.dropWhile (· != stop) = [] ∨ (chars.dropWhile (· != stop)).head? = some stop := by
  cases hdrop : chars.dropWhile (· != stop) with
  | nil => exact Or.inl rfl
  | cons c behind =>
      have hne : chars.dropWhile (· != stop) ≠ [] := by
        rw [hdrop]
        exact List.cons_ne_nil _ _
      have hhead := List.head_dropWhile_not (· != stop) hne
      simp only [hdrop, List.head_cons, bne_eq_false_iff_eq] at hhead
      exact Or.inr (congrArg some hhead)

theorem isWordPart_of_start {c : Char} (h : isWordStart c = true) : isWordPart c = true := by
  unfold isWordStart at h
  unfold isWordPart Char.isAlphanum
  grind

/-- A word is the keyword with its spelling, or an identifier. -/
theorem spells_word {c : Char} {more : List Char} (hstart : isWordStart c = true)
    (hmore : ∀ d ∈ more, isWordPart d = true) : Spells (wordKind (c :: more)) (c :: more) := by
  unfold wordKind
  cases hword : Keyword.ofSpelling? (String.ofList (c :: more)) with
  | some keyword =>
      have hspelling := List.find?_some hword
      rw [beq_iff_eq] at hspelling
      have hchars := congrArg String.toList hspelling
      rw [String.toList_ofList] at hchars
      exact hchars ▸ Spells.keyword keyword
  | none =>
      refine .identifier hstart hmore fun keyword hspelling => ?_
      have hkeyword : keyword ∈ Keyword.all := by cases keyword <;> decide
      have hother := List.find?_eq_none.mp hword keyword hkeyword
      exact hother (beq_iff_eq.mpr (by rw [← hspelling, String.ofList_toList]))

theorem mem_takeWhile {p : Char → Bool} {chars : List Char} :
    ∀ d ∈ chars.takeWhile p, p d = true :=
  List.all_eq_true.mp List.all_takeWhile

theorem formed_wordPiece {c : Char} (hstart : isWordStart c = true) (rest : List Char) :
    Formed (wordPiece c rest).1 (wordPiece c rest).2 :=
  .lexeme (spells_word hstart mem_takeWhile)

theorem digits_fractionOf (rest : List Char) : ∀ d ∈ fractionOf rest, d.isDigit = true := by
  unfold fractionOf
  split
  · next digit more =>
      split
      · next hdigit => exact List.forall_mem_cons.mpr ⟨hdigit, mem_takeWhile⟩
      · exact nofun
  · exact nofun

theorem formed_numberPiece {c : Char} (hdigit : c.isDigit = true) (rest : List Char) :
    Formed (numberPiece c rest).1 (numberPiece c rest).2 := by
  have hdigits : ∀ d ∈ c :: rest.takeWhile Char.isDigit, d.isDigit = true :=
    List.forall_mem_cons.mpr ⟨hdigit, mem_takeWhile⟩
  dsimp only [numberPiece]
  split
  · exact .lexeme (.whole (List.cons_ne_nil _ _) hdigits)
  · next hfraction =>
      exact .lexeme (.fraction (List.cons_ne_nil _ _) hdigits hfraction (digits_fractionOf _))

theorem formed_stringPiece (rest : List Char) :
    Formed (stringPiece rest).1 (stringPiece rest).2 := by
  have hquote := not_mem_takeWhile_ne '"' rest
  rcases head_dropWhile_ne '"' rest with hopen | hclosed
  · simp only [stringPiece, hopen]
    exact .openString hquote
  · obtain ⟨behind, hbehind⟩ := List.head?_eq_some_iff.mp hclosed
    simp only [stringPiece, hbehind]
    exact .lexeme (.string hquote)

theorem spelling_double {c : Char} {mark : Mark} (h : doubleMark? c = some mark) :
    mark.spelling.toList = [c, '='] := by
  unfold doubleMark? at h
  split at h
  all_goals cases h
  all_goals rfl

theorem spelling_single {c : Char} {mark : Mark} (h : singleMark? c = some mark) :
    mark.spelling.toList = [c] := by
  unfold singleMark? at h
  split at h
  all_goals cases h
  all_goals rfl

/-- What starts like a mark is spelled by one. -/
theorem single_of_spelling {c : Char} {more : List Char} {mark : Mark}
    (h : mark.spelling.toList = c :: more) : singleMark? c ≠ none := by
  cases mark
  all_goals
    obtain ⟨rfl, -⟩ := List.cons.inj h
    exact nofun

theorem wordStart_of_spelling {c : Char} {more : List Char} {keyword : Keyword}
    (h : keyword.spelling.toList = c :: more) : isWordStart c = true := by
  cases keyword
  all_goals
    obtain ⟨rfl, -⟩ := List.cons.inj h
    rfl

theorem isBlank_iff {c : Char} : isBlank c = true ↔ c ∈ [' ', '\r', '\t', '\n'] := by
  simp only [isBlank, Bool.or_eq_true, beq_iff_eq, List.mem_cons, List.not_mem_nil, or_false,
    or_assoc]

theorem beginsNothing {c : Char} (hblank : ¬ isBlank c = true) (hquote : c ≠ '"')
    (hdigit : ¬ c.isDigit = true) (hword : ¬ isWordStart c = true)
    (hmark : singleMark? c = none) : BeginsNothing c where
  lexeme kind more h := by
    generalize hchars : c :: more = chars at h
    cases h with
    | mark mark => exact single_of_spelling hchars.symm hmark
    | keyword keyword => exact hword (wordStart_of_spelling hchars.symm)
    | identifier hstart _ _ =>
        obtain ⟨rfl, -⟩ := List.cons.inj hchars
        exact hword hstart
    | string _ => exact hquote (List.cons.inj hchars).1
    | whole _ hdigits => exact hdigit (hdigits c (hchars ▸ List.mem_cons_self))
    | @fraction digits _ hsome hdigits _ _ =>
        obtain ⟨d, others, rfl⟩ := List.exists_cons_of_ne_nil hsome
        obtain ⟨rfl, -⟩ := List.cons.inj hchars
        exact hdigit (hdigits c List.mem_cons_self)
  quote := hquote
  blank := fun h => hblank (isBlank_iff.mpr h)

theorem formed_markPiece {c : Char} (rest : List Char)
    (hstray : singleMark? c = none → BeginsNothing c) :
    Formed (markPiece c rest).1 (markPiece c rest).2 := by
  unfold markPiece
  split
  · next hdouble => exact .lexeme (spelling_double hdouble ▸ .mark _)
  · split
    · next hsingle => exact .lexeme (spelling_single hsingle ▸ .mark _)
    · next hnone => exact .stray (hstray hnone)

theorem formed_slashPiece (rest : List Char) :
    Formed (slashPiece rest).1 (slashPiece rest).2 := by
  unfold slashPiece
  split
  · exact .comment (not_mem_takeWhile_ne '\n' _) (head_dropWhile_ne _ _)
  · exact formed_markPiece rest nofun

/-- Every piece has one of the five forms. -/
theorem formed_nextPiece (c : Char) (rest : List Char) :
    Formed (nextPiece c rest).1 (nextPiece c rest).2 := by
  unfold nextPiece
  by_cases hblank : isBlank c = true
  · rw [if_pos hblank]
    exact .blank (isBlank_iff.mp hblank)
  rw [if_neg hblank]
  by_cases hquote : c = '"'
  · rw [if_pos hquote]
    exact formed_stringPiece rest
  rw [if_neg hquote]
  by_cases hdigit : c.isDigit = true
  · rw [if_pos hdigit]
    exact formed_numberPiece hdigit rest
  rw [if_neg hdigit]
  by_cases hword : isWordStart c = true
  · rw [if_pos hword]
    exact formed_wordPiece hword rest
  rw [if_neg hword]
  by_cases hslash : c = '/'
  · rw [if_pos hslash]
    exact formed_slashPiece rest
  · rw [if_neg hslash]
    exact formed_markPiece rest fun hmark => beginsNothing hblank hquote hdigit hword hmark

end Scriptlet.Source
