/-
A source in which identifiers are spelled otherwise is cut at the same places.

A rule that cuts off a piece may look at one or two characters behind it.  None of them tells
one word from another: no word goes on there, and to all other rules every letter is the same.
-/
import Mathlib.Data.List.Forall2
import Scriptlet.Proofs.Renaming.Derived
import Scriptlet.Proofs.Session.Steps
import Scriptlet.Proofs.Source.Cuts

namespace Scriptlet.Renaming

open Source

/-- Texts that are the same up to the first place where both have a word. -/
inductive Kin : List Char → List Char → Prop
  | nil : Kin [] []
  | same {rest rest' : List Char} (c : Char) (rest_ : Kin rest rest') : Kin (c :: rest) (c :: rest')
  | word {c c' : Char} {rest rest' : List Char} (start : isWordStart c = true)
      (start' : isWordStart c' = true) : Kin (c :: rest) (c' :: rest')

/-- Such characters are told from others, but not one word from another. -/
def Blunt (p : Char → Bool) : Prop :=
  ∀ c c', isWordStart c = true → isWordStart c' = true → p c' = p c

section Kin

variable {chars chars' : List Char} {p : Char → Bool}

theorem Kin.append (h : Kin chars chars') (before : List Char) :
    Kin (before ++ chars) (before ++ chars') := by
  induction before with
  | nil => exact h
  | cons c rest ih => exact .same c ih

theorem Kin.stops (h : Kin chars chars') (hp : Blunt p) (hstops : Stops p chars) :
    Stops p chars' := by
  cases h with
  | nil => trivial
  | same c _ => exact hstops
  | word hstart hstart' => exact (hp _ _ hstart hstart').trans hstops

theorem blunt_isWordPart : Blunt isWordPart := by
  intro c c' hstart hstart'
  rw [isWordPart_of_start hstart, isWordPart_of_start hstart']

theorem blunt_isDigit : Blunt Char.isDigit := by
  intro c c' hstart hstart'
  rw [not_isDigit_of_start hstart, not_isDigit_of_start hstart']

/-- A character that begins no word is told from all words. -/
theorem blunt_bne {d : Char} (hd : isWordStart d = false) : Blunt (· != d) := by
  intro c c' hstart hstart'
  show (c' != d) = (c != d)
  rw [bne_iff_ne.mpr (ne_of_start hstart hd), bne_iff_ne.mpr (ne_of_start hstart' hd)]

end Kin

/-! ### Rules that cut again -/

/-- Behind the piece that was cut off, a text may follow that is of the same kind. -/
def Recuts (rule : List Char → Piece × List Char) (cut : Piece × List Char) (c : Char) : Prop :=
  ∀ more behind', cut.1.chars = c :: more → Kin cut.2 behind' →
    rule (more ++ behind') = (cut.1, behind')

theorem recuts_wordPiece (c : Char) (rest : List Char) :
    Recuts (wordPiece c) (wordPiece c rest) c := by
  intro more behind' hchars hkin
  obtain ⟨-, rfl⟩ := List.cons.inj hchars
  exact wordPiece_append mem_takeWhile
    (hkin.stops blunt_isWordPart (stops_dropWhile isWordPart rest))

/-- A point is followed by a digit on both sides or on none. -/
theorem Kin.fractionOf_nil {chars chars' : List Char} (h : Kin chars chars')
    (hnone : fractionOf chars = []) : fractionOf chars' = [] := by
  cases h with
  | nil => rfl
  | word _ hstart' => exact fractionOf_of_ne (ne_of_start hstart' rfl) _
  | same c hrest =>
      by_cases hpoint : c = '.'
      · subst hpoint
        cases hrest with
        | nil => rfl
        | word _ hstart' => simp [fractionOf, not_isDigit_of_start hstart']
        | same d _ =>
            simp only [fractionOf] at hnone ⊢
            split at hnone
            · cases hnone
            · next hdigit => rw [if_neg hdigit]
      · exact fractionOf_of_ne hpoint _

theorem recuts_numberPiece (c : Char) (rest : List Char) :
    Recuts (numberPiece c) (numberPiece c rest) c := by
  intro more behind' hchars hkin
  have hstops := stops_dropWhile Char.isDigit rest
  have hrest := List.takeWhile_append_dropWhile (p := Char.isDigit) (l := rest)
  have hdigits : ∀ d ∈ rest.takeWhile Char.isDigit, d.isDigit = true := mem_takeWhile
  cases hbehind : fractionOf (rest.dropWhile Char.isDigit) with
  | nil =>
      have hcut := numberPiece_whole (c := c) hdigits hstops hbehind
      rw [hrest] at hcut
      rw [hcut] at hchars hkin ⊢
      obtain ⟨-, rfl⟩ := List.cons.inj hchars
      exact numberPiece_whole hdigits (hkin.stops blunt_isDigit hstops)
        (hkin.fractionOf_nil hbehind)
  | cons first fraction =>
      obtain ⟨behind, htail, hfirst, hfraction, hstops⟩ := fractionOf_cons hbehind
      have hcut := numberPiece_fraction (c := c) hdigits hfirst hfraction hstops
      rw [← htail, hrest] at hcut
      rw [hcut] at hchars hkin ⊢
      obtain ⟨-, rfl⟩ := List.cons.inj hchars
      rw [List.append_eq, List.append_assoc]
      exact numberPiece_fraction hdigits hfirst hfraction (hkin.stops blunt_isDigit hstops)

theorem recuts_stringPiece (rest : List Char) :
    Recuts stringPiece (stringPiece rest) '"' := by
  intro more behind' hchars hkin
  have hrest := List.takeWhile_append_dropWhile (p := (· != '"')) (l := rest)
  rcases head_dropWhile_ne '"' rest with hopen | hclosed
  · rw [hopen, List.append_nil] at hrest
    have hcut : stringPiece rest = (.openString ('"' :: rest), []) := by
      simp only [stringPiece, hopen, hrest]
    rw [hcut] at hchars hkin ⊢
    obtain ⟨-, rfl⟩ := List.cons.inj hchars
    cases hkin
    rw [List.append_nil, hcut]
  · obtain ⟨behind, hbehind⟩ := List.head?_eq_some_iff.mp hclosed
    have hinside : ∀ d ∈ rest.takeWhile (· != '"'), (d != '"') = true := mem_takeWhile
    have hcut := @stringPiece_closed behind _ hinside
    rw [← hbehind, hrest] at hcut
    rw [hcut] at hchars hkin ⊢
    obtain ⟨-, rfl⟩ := List.cons.inj hchars
    rw [List.append_eq, List.append_assoc]
    exact stringPiece_closed mem_takeWhile

theorem Kin.head?_ne {chars chars' : List Char} (h : Kin chars chars') {d : Char}
    (hd : isWordStart d = false) (hne : chars.head? ≠ some d) : chars'.head? ≠ some d := by
  cases h with
  | nil => exact nofun
  | same c _ => exact hne
  | word _ hstart' => exact fun heq => ne_of_start hstart' hd (Option.some.inj heq)

theorem recuts_markPiece (c : Char) (rest : List Char) :
    Recuts (markPiece c) (markPiece c rest) c := by
  intro more behind' hchars hkin
  by_cases hsingle : doubleMark? c = none ∨ rest.head? ≠ some '='
  · rw [markPiece_single hsingle] at hchars hkin ⊢
    rw [chars_single] at hchars
    obtain ⟨-, rfl⟩ := List.cons.inj hchars
    exact markPiece_single (hsingle.imp_right (hkin.head?_ne rfl))
  · obtain ⟨hdouble, hequals⟩ := not_or.mp hsingle
    obtain ⟨mark, hmark⟩ := Option.ne_none_iff_exists'.mp hdouble
    obtain ⟨behind, rfl⟩ := List.head?_eq_some_iff.mp (Decidable.not_not.mp hequals)
    rw [markPiece_double hmark] at hchars hkin ⊢
    obtain ⟨-, rfl⟩ := List.cons.inj hchars
    exact markPiece_double hmark behind'

theorem recuts_slashPiece (rest : List Char) :
    Recuts slashPiece (slashPiece rest) '/' := by
  intro more behind' hchars hkin
  by_cases hcomment : rest.head? = some '/'
  · obtain ⟨text, rfl⟩ := List.head?_eq_some_iff.mp hcomment
    obtain ⟨-, rfl⟩ := List.cons.inj hchars
    exact slashPiece_comment mem_takeWhile
      (hkin.stops (blunt_bne rfl) (stops_dropWhile (· != '\n') text))
  · rw [slashPiece_single hcomment, markPiece_single (Or.inl rfl)] at hchars hkin ⊢
    obtain ⟨-, rfl⟩ := List.cons.inj hchars
    rw [List.nil_append, slashPiece_single (hkin.head?_ne rfl hcomment),
      markPiece_single (Or.inl rfl)]

theorem recuts_nextPiece (c : Char) (rest : List Char) :
    Recuts (nextPiece c) (nextPiece c rest) c := by
  unfold nextPiece
  split
  · intro more behind' hchars _
    obtain ⟨-, rfl⟩ := List.cons.inj hchars
    rfl
  · split
    · next hquote => exact hquote ▸ recuts_stringPiece rest
    · split
      · exact recuts_numberPiece c rest
      · split
        · exact recuts_wordPiece c rest
        · split
          · next hslash => exact hslash ▸ recuts_slashPiece rest
          · exact recuts_markPiece c rest

/-! ### Identifiers in another spelling -/

/-- The piece itself, or an identifier in another spelling. -/
def RespelledPiece (new : String) (piece piece' : Piece) : Prop :=
  piece' = piece ∨
    ∃ chars, piece = .lexeme .identifier chars ∧ piece' = .lexeme .identifier new.toList

/-- The characters of pieces in a row. -/
def textOf (pieces : List Piece) : List Char :=
  pieces.flatMap Piece.chars

section Respelled

variable {new : String} {c : Char} {rest : List Char}

theorem wordStart_of_identifier {chars : List Char}
    (h : (nextPiece c rest).1 = .lexeme .identifier chars) :
    isWordStart c = true ∧ ∀ d ∈ chars, isWordPart d = true := by
  obtain ⟨more, hchars, -⟩ := cuts_nextPiece c rest
  have hformed := formed_nextPiece c rest
  rw [h] at hchars hformed
  obtain rfl : chars = c :: more := hchars
  cases hformed with
  | lexeme hspells =>
      cases hspells with
      | identifier hstart hmore _ =>
          exact ⟨hstart, List.forall_mem_cons.mpr ⟨isWordPart_of_start hstart, hmore⟩⟩

theorem spells_identifier {chars : List Char} (h : Spells .identifier chars) :
    ∃ c more, chars = c :: more ∧ isWordStart c = true ∧ ∀ d ∈ more, isWordPart d = true := by
  cases h with
  | identifier hstart hmore _ => exact ⟨_, _, rfl, hstart, hmore⟩

theorem textOf_cons (piece : Piece) (others : List Piece) :
    textOf (piece :: others) = piece.chars ++ textOf others :=
  List.flatMap_cons

/-- A text whose identifiers are spelled otherwise has the same pieces but for those, and looks
like the first text to whoever cuts what stands before it. -/
theorem pieces_textOf (hnew : Spells .identifier new.toList) (chars : List Char) :
    ∀ all', List.Forall₂ (RespelledPiece new) (pieces chars) all' →
      pieces (textOf all') = all' ∧ Kin chars (textOf all') := by
  fun_induction pieces chars with
  | case1 =>
      intro all' hall
      cases hall
      exact ⟨pieces_nil, .nil⟩
  | case2 c rest next ih =>
      intro all' hall
      cases hall with
      | @cons _ piece' _ others' hpiece hothers =>
          obtain ⟨hpieces, hkin⟩ := ih others' hothers
          obtain ⟨more, hchars, hrest⟩ := cuts_nextPiece c rest
          rw [textOf_cons]
          rcases hpiece with rfl | ⟨word, hword, rfl⟩
          · have hcut := recuts_nextPiece c rest more (textOf others') hchars hkin
            rw [show next.1.chars = c :: more from hchars, List.cons_append]
            constructor
            · rw [pieces_cons, hcut, hpieces]
            · rw [← hrest]
              exact .same c (hkin.append more)
          · obtain ⟨hstart, -⟩ := wordStart_of_identifier hword
            obtain ⟨c', more', hspelled, hstart', hmore'⟩ := spells_identifier hnew
            have hnext : next = wordPiece c rest := nextPiece_word hstart
            have hstops : Stops isWordPart (textOf others') := by
              rw [hnext] at hkin
              exact hkin.stops blunt_isWordPart (stops_dropWhile isWordPart rest)
            have hkind := wordKind_identifier hnew
            have hcut : nextPiece c' (more' ++ textOf others') =
                (.lexeme .identifier (c' :: more'), textOf others') := by
              rw [nextPiece_word hstart', wordPiece_append hmore' hstops, ← hspelled, hkind]
            rw [hspelled, Piece.chars, List.cons_append]
            constructor
            · rw [pieces_cons, hcut, hpieces]
            · exact .word hstart hstart'

theorem count_newlines_word {chars : List Char} (h : ∀ d ∈ chars, isWordPart d = true) :
    chars.count '\n' = 0 := by
  refine List.count_eq_zero.mpr fun hmem => ?_
  cases h '\n' hmem

theorem newlines_identifier (chars : List Char) :
    ∀ word, Piece.lexeme .identifier word ∈ pieces chars → word.count '\n' = 0 := by
  fun_induction pieces chars with
  | case1 => exact fun word hword => absurd hword List.not_mem_nil
  | case2 c rest next ih =>
      intro word hword
      rcases List.mem_cons.mp hword with hhead | htail
      · exact count_newlines_word (wordStart_of_identifier hhead.symm).2
      · exact ih word htail

/-- These pieces give these tokens, and else the same as the others. -/
structure Gives (new : String) (line : Nat) (all all' : List Piece) (tokens' : List Token) :
    Prop where
  pieces : List.Forall₂ (RespelledPiece new) all all'
  tokens : (number line all').1.filterMap Item.token? = tokens'
  faults : (number line all').1.filterMap Item.fault? = (number line all).1.filterMap Item.fault?
  last : (number line all').2 = (number line all).2

theorem Gives.cons {piece piece' : Piece} {all all' : List Piece} {line : Nat}
    {front tokens' : List Token} (hpiece : RespelledPiece new piece piece')
    (hlines : piece'.newlines = piece.newlines)
    (htokens : (item? (line + piece.newlines) piece').toList.filterMap Item.token? = front)
    (hfaults : (item? (line + piece.newlines) piece').toList.filterMap Item.fault? =
      (item? (line + piece.newlines) piece).toList.filterMap Item.fault?)
    (h : Gives new (line + piece.newlines) all all' tokens') :
    Gives new line (piece :: all) (piece' :: all') (front ++ tokens') where
  pieces := .cons hpiece h.pieces
  tokens := by rw [number_cons, List.filterMap_append, hlines, htokens, h.tokens]
  faults := by
    rw [number_cons, number_cons, List.filterMap_append, List.filterMap_append, hlines, hfaults,
      h.faults]
  last := by
    rw [number_cons, number_cons, hlines]
    exact h.last

/-- Tokens that differ in the spelling of identifiers are the tokens of such pieces. -/
theorem pieces_of_tokens (hnew : Spells .identifier new.toList) {all : List Piece}
    (hwords : ∀ word, Piece.lexeme .identifier word ∈ all → word.count '\n' = 0) (line : Nat)
    {tokens' : List Token}
    (h : List.Forall₂ (RespelledName new) ((number line all).1.filterMap Item.token?) tokens') :
    ∃ all', Gives new line all all' tokens' := by
  induction all generalizing line tokens' with
  | nil =>
      cases h
      exact ⟨[], .nil, rfl, rfl, rfl⟩
  | cons piece rest ih =>
      have hrest := ih fun word hword => hwords word (List.mem_cons_of_mem _ hword)
      rw [number_cons, List.filterMap_append] at h
      cases piece with
      | lexeme kind chars =>
          cases h with
          | cons hfirst hothers =>
              obtain ⟨rest', hgives⟩ := hrest _ hothers
              rcases hfirst with rfl | ⟨hkind, rfl⟩
              · exact ⟨_, hgives.cons (Or.inl rfl) rfl rfl rfl⟩
              · cases hkind
                have hlines := hwords chars List.mem_cons_self
                obtain ⟨c, more, hspelled, hstart, hmore⟩ := spells_identifier hnew
                have hlines' : new.toList.count '\n' = 0 := by
                  rw [hspelled]
                  exact count_newlines_word
                    (List.forall_mem_cons.mpr ⟨isWordPart_of_start hstart, hmore⟩)
                have htoken : ∀ here, (item? here (.lexeme .identifier new.toList)).toList.filterMap
                    Item.token? =
                      [Token.respell ⟨.identifier, String.ofList chars, here⟩ new] := by
                  intro here
                  simp [item?, Item.token?, Token.respell]
                exact ⟨_, hgives.cons (Or.inr ⟨chars, rfl, rfl⟩) (hlines'.trans hlines.symm)
                  (htoken _) rfl⟩
      | blank _ | comment _ | stray _ | openString _ =>
          obtain ⟨rest', hgives⟩ := hrest _ h
          exact ⟨_, hgives.cons (Or.inl rfl) rfl rfl rfl⟩

end Respelled

/-- The sources have the same pieces, but that identifiers may be spelled otherwise. -/
def RespelledSource (new source source' : String) : Prop :=
  List.Forall₂ (RespelledPiece new) (pieces source.toList) (pieces source'.toList)

/-- A program that differs from the one that was read in names is read from a source that
differs from its source in identifiers. -/
theorem readSource_respelled {new source : String} {n m : Nat} {program program' : List Stmt}
    (hnew : Spells .identifier new.toList) (halpha : AlphaStmts new true [] program program')
    (hread : readSource Reader.program n source = (.ok program, m)) :
    ∃ source', RespelledSource new source source' ∧
      readSource Reader.program n source' = (.ok program', m) := by
  obtain ⟨hfaults, hparse⟩ := Session.readSource_eq_ok_iff.mp hread
  have hderives := (Grammar.parse_program_iff (scan_endsOnce source) program).mp hparse
  rw [scan_tokens] at hderives
  generalize htokens : body source ++ [endToken (number 1 (pieces source.toList)).2] = tokens
    at hderives
  cases hderives with
  | program hdeclarations hend =>
      obtain ⟨rfl, rfl⟩ := List.append_singleton_inj.mp htokens
      obtain ⟨tokens', hrespelled, hderives'⟩ := derives_respelled hdeclarations _ ⟨[], halpha⟩
      obtain ⟨all', hgives⟩ := pieces_of_tokens hnew (newlines_identifier _) 1 hrespelled
      have hpieces := (pieces_textOf hnew _ _ hgives.pieces).1
      have hsource : pieces (String.ofList (textOf all')).toList = all' := by
        rw [String.toList_ofList, hpieces]
      refine ⟨String.ofList (textOf all'), ?_, ?_⟩
      · rw [RespelledSource, hsource]
        exact hgives.pieces
      · rw [Session.readSource_eq_ok_iff, Grammar.parse_program_iff (scan_endsOnce _)]
        constructor
        · rw [scan_faults, hsource, hgives.faults, ← scan_faults, hfaults]
        · rw [scan_tokens, body, hsource, hgives.tokens, hgives.last]
          exact .program hderives' hend

end Scriptlet.Renaming
