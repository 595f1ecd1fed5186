/-
The scanner takes the longest lexeme there is.

Whatever lexeme or comment a text begins with, the piece that is cut off the text is no shorter.
So a token is never the beginning of a longer lexeme, and a character is only unexpected where
nothing begins at all.
-/
import Scriptlet.Proofs.Source.Cuts
import Scriptlet.Proofs.Source.Turns

namespace Scriptlet.Source

/-- Two slashes and what stands behind them on their line. -/
def IsComment (chars : List Char) : Prop :=
  ∃ text, chars = '/' :: '/' :: text ∧ '\n' ∉ text

/-- The text begins with the characters, which spell a lexeme of this kind and of no other, and
with no longer lexeme or comment. -/
structure Longest (kind : Kind) (chars text : List Char) : Prop where
  begins : chars <+: text
  spells_iff : ∀ other, Spells other chars ↔ other = kind
  longest : ∀ longer, longer <+: text → chars.length < longer.length →
    (∀ other, ¬ Spells other longer) ∧ ¬ IsComment longer

/-- A lexeme, a comment, a blank or the quote before a string stands at the beginning. -/
inductive Begins : List Char → Prop
  | lexeme {kind : Kind} {chars : List Char} (h : Spells kind chars) (behind : List Char) :
      Begins (chars ++ behind)
  | comment {chars : List Char} (h : IsComment chars) (behind : List Char) :
      Begins (chars ++ behind)
  | blank {c : Char} (h : c ∈ [' ', '\r', '\t', '\n']) (behind : List Char) : Begins (c :: behind)
  | quote (behind : List Char) : Begins ('"' :: behind)

section Piece

variable {kind : Kind} {c : Char} {more rest : List Char}

/-- The characters with which a number starts are the beginning of the piece. -/
theorem chars_numberPiece_whole (hdigits : ∀ d ∈ more, d.isDigit = true) (behind : List Char) :
    c :: more <+: (numberPiece c (more ++ behind)).1.chars := by
  rw [numberPiece_fst, Piece.chars, List.takeWhile_append_of_pos hdigits]
  exact (List.prefix_append (c :: more) _).trans (List.prefix_append _ _)

theorem chars_numberPiece_fraction {first : Char} {digits fraction : List Char}
    (hdigits : ∀ d ∈ digits, d.isDigit = true) (hfirst : first.isDigit = true)
    (hfraction : ∀ d ∈ fraction, d.isDigit = true) (behind : List Char) :
    c :: (digits ++ '.' :: first :: fraction) <+:
      (numberPiece c (digits ++ '.' :: first :: fraction ++ behind)).1.chars := by
  have hlonger : ∀ d ∈ fraction ++ behind.takeWhile Char.isDigit, d.isDigit = true :=
    List.forall_mem_append.mpr ⟨hfraction, mem_takeWhile⟩
  have hcut := numberPiece_fraction (c := c) hdigits hfirst hlonger
    (stops_dropWhile Char.isDigit behind)
  rw [List.append_assoc fraction, List.takeWhile_append_dropWhile] at hcut
  rw [List.append_assoc, List.cons_append, List.cons_append, hcut]
  exact ⟨behind.takeWhile Char.isDigit, by simp [Piece.chars]⟩

/-- What is cut off a text that begins with a lexeme begins with that lexeme. -/
theorem Headed.prefix_nextPiece (h : Headed kind c more) (behind : List Char) :
    c :: more <+: (nextPiece c (more ++ behind)).1.chars := by
  cases h with
  | single _ =>
      obtain ⟨others, hchars, -⟩ := cuts_nextPiece c behind
      exact ⟨others, hchars.symm⟩
  | double hdouble =>
      unfold doubleMark? at hdouble
      split at hdouble
      all_goals cases hdouble
      all_goals exact List.prefix_refl _
  | word hstart hmore =>
      rw [nextPiece_word hstart, wordPiece, Piece.chars, List.takeWhile_append_of_pos hmore]
      exact List.prefix_append (c :: more) _
  | string htext =>
      rw [List.append_assoc]
      show _ <+: (stringPiece (_ ++ '"' :: behind)).1.chars
      rw [stringPiece_closed htext]
      exact List.prefix_refl _
  | whole hc hdigits =>
      rw [nextPiece_digit hc]
      exact chars_numberPiece_whole hdigits behind
  | fraction hc hdigits hfirst hfraction =>
      rw [nextPiece_digit hc]
      exact chars_numberPiece_fraction hdigits hfirst hfraction behind

end Piece

section Cut

variable {kind : Kind} {c : Char} {chars rest : List Char}

/-- No lexeme that the text begins with is longer than what is cut off it. -/
theorem Spells.prefix_nextPiece (h : Spells kind chars) (hbegins : chars <+: c :: rest) :
    chars <+: (nextPiece c rest).1.chars := by
  obtain ⟨first, more, rfl, hheaded⟩ := h.headed
  obtain ⟨behind, hbehind⟩ := hbegins
  obtain ⟨rfl, rfl⟩ := List.cons.inj hbehind
  exact hheaded.prefix_nextPiece behind

theorem IsComment.prefix_nextPiece (h : IsComment chars) (hbegins : chars <+: c :: rest) :
    chars <+: (nextPiece c rest).1.chars := by
  obtain ⟨text, rfl, hline⟩ := h
  obtain ⟨behind, hbehind⟩ := hbegins
  obtain ⟨rfl, rfl⟩ := List.cons.inj hbehind
  have htext := forall_ne_of_not_mem hline
  show _ <+: '/' :: '/' :: (text ++ behind).takeWhile (· != '\n')
  rw [List.takeWhile_append_of_pos htext]
  exact List.prefix_append ('/' :: '/' :: text) _

/-- Characters spell lexemes of one kind at most. -/
theorem Spells.kind_unique {other : Kind} (h : Spells kind chars) (hother : Spells other chars) :
    other = kind := by
  obtain ⟨first, more, rfl, hheaded⟩ := h.headed
  obtain ⟨first', more', hchars, hheaded'⟩ := hother.headed
  obtain ⟨rfl, rfl⟩ := List.cons.inj hchars
  have hnone : Apart [] := nofun
  have hcut := hheaded.nextPiece_apart hnone
  rw [hheaded'.nextPiece_apart hnone] at hcut
  cases hcut
  rfl

/-- A lexeme that is cut off is the longest one, and there is no longer comment. -/
theorem longest_nextPiece (h : (nextPiece c rest).1 = .lexeme kind chars) :
    Longest kind chars (c :: rest) := by
  have hcut := (cuts_nextPiece c rest).chars_append
  have hformed := formed_nextPiece c rest
  rw [h] at hcut hformed
  have hspells : Spells kind chars := by
    cases hformed with
    | lexeme hspells => exact hspells
  refine ⟨⟨_, hcut⟩, fun other => ⟨hspells.kind_unique, fun heq => heq ▸ hspells⟩, ?_⟩
  intro longer hbegins hlt
  have hshorter : ¬ longer <+: (nextPiece c rest).1.chars := by
    rw [h]
    exact fun hlonger => Nat.not_lt.mpr hlonger.length_le hlt
  exact ⟨fun other hother => hshorter (hother.prefix_nextPiece hbegins),
    fun hcomment => hshorter (hcomment.prefix_nextPiece hbegins)⟩

theorem BeginsNothing.not_begins (h : BeginsNothing c) : ¬ Begins (c :: rest) := by
  generalize htext : c :: rest = text
  rintro (@⟨_, _, hspells, _⟩ | @⟨_, ⟨line, rfl, _⟩, _⟩ | @⟨_, hblank, _⟩ | _)
  · obtain ⟨first, others, rfl, -⟩ := hspells.headed
    obtain ⟨rfl, -⟩ := List.cons.inj htext
    exact h.lexeme _ _ hspells
  · obtain ⟨rfl, -⟩ := List.cons.inj htext
    exact h.lexeme _ _ (.mark .slash)
  · obtain ⟨rfl, -⟩ := List.cons.inj htext
    exact h.blank hblank
  · obtain ⟨rfl, -⟩ := List.cons.inj htext
    exact h.quote rfl

theorem Formed.begins {piece : Piece} {behind : List Char} (h : Formed piece behind) :
    (∃ d, piece = .stray d) ∨ Begins (piece.chars ++ behind) := by
  cases h with
  | lexeme hspells => exact Or.inr (.lexeme hspells _)
  | blank hblank => exact Or.inr (.blank hblank _)
  | comment hline _ => exact Or.inr (.comment ⟨_, rfl, hline⟩ _)
  | stray _ => exact Or.inl ⟨_, rfl⟩
  | openString _ => exact Or.inr (.quote _)

/-- A character is passed over as unexpected where nothing begins, and only there. -/
theorem nextPiece_stray_iff {d : Char} :
    (nextPiece c rest).1 = .stray d ↔ c = d ∧ ¬ Begins (c :: rest) := by
  obtain ⟨more, hchars, -⟩ := cuts_nextPiece c rest
  have hformed := formed_nextPiece c rest
  have hfirst : ∀ d, (nextPiece c rest).1 = .stray d → c = d := by
    intro d hstray
    rw [hstray] at hchars
    exact (List.cons.inj hchars).1.symm
  constructor
  · intro hstray
    obtain rfl := hfirst d hstray
    rw [hstray] at hformed
    cases hformed with
    | stray hnothing => exact ⟨rfl, hnothing.not_begins⟩
  · rintro ⟨rfl, hnone⟩
    rcases hformed.begins with ⟨d, hstray⟩ | hbegins
    · rw [hstray, hfirst d hstray]
    · rw [(cuts_nextPiece c rest).chars_append] at hbegins
      exact absurd hbegins hnone

end Cut

/-! ### Along the text -/

theorem item?_eq_unexpected_iff {line : Nat} {piece : Piece} {c : Char} :
    (∃ shown, item? line piece = some (.fault (.lexical shown (.unexpected c)))) ↔
      piece = .stray c := by
  constructor
  · rintro ⟨shown, h⟩
    cases piece with
    | stray _ =>
        cases h
        rfl
    | lexeme _ _ | blank _ | comment _ | openString _ => cases h
  · rintro rfl
    exact ⟨line, rfl⟩

/-- Every tile is the piece that is cut off the text from there on. -/
theorem mem_laidOut {source : String} {tile : Tile} (chars : List Char) :
    ∀ before, source = String.ofList (before ++ chars) →
      tile ∈ laidOut (bytesOf before).length (pieces chars) →
        ∃ c rest, Holds source tile.start source.utf8ByteSize (c :: rest) ∧
          tile.piece = (nextPiece c rest).1 := by
  fun_induction pieces chars with
  | case1 => exact fun _ _ h => absurd h List.not_mem_nil
  | case2 c rest next ih =>
      intro before hsource htile
      rw [laidOut] at htile
      rcases List.mem_cons.mp htile with rfl | htile
      · have hhere := holds_cut before (c :: rest) []
        rw [List.append_nil, ← size_ofList (before ++ c :: rest), ← hsource] at hhere
        exact ⟨c, rest, hhere, rfl⟩
      · rw [← List.length_append, ← bytesOf_append] at htile
        refine ih (before ++ next.1.chars) ?_ htile
        rw [hsource, List.append_assoc, (cuts_nextPiece c rest).chars_append]

/-- The scanner takes a text apart from its first byte to its last, and whatever it gives, it
gives for the longest lexeme that begins there.  It calls a character unexpected exactly where no
lexeme, no comment, no blank and no string begins. -/
theorem scanner_munches (source : String) :
    ∃ tiles, Tiles source 0 tiles ∧
      items source = tiles.filterMap (Tile.item? source) ++
        [.token (endToken (lineAt source source.utf8ByteSize))] ∧
      (∀ spare, (⟨0, 0, 1⟩ : Scanner).drain? source (source.utf8ByteSize + 2 + spare) =
        some (items source)) ∧
      ∀ tile ∈ tiles, ∃ text, Holds source tile.start source.utf8ByteSize text ∧
        (∀ token, tile.item? source = some (.token token) →
          Longest token.kind token.lexeme.toList text) ∧
        ∀ c, (∃ line, tile.item? source = some (.fault (.lexical line (.unexpected c)))) ↔
          text.head? = some c ∧ ¬ Begins text := by
  refine ⟨laidOut 0 (pieces source.toList), tiles_laidOut source, items_laidOut source,
    drain?_items source, fun tile htile => ?_⟩
  have hsource : source = String.ofList ([] ++ source.toList) := String.ofList_toList.symm
  obtain ⟨c, rest, hholds, hpiece⟩ := mem_laidOut source.toList [] hsource htile
  refine ⟨c :: rest, hholds, fun token htoken => ?_, fun d => ?_⟩
  · rw [Tile.item?, hpiece] at htoken
    obtain ⟨kind, chars, hlexeme, rfl⟩ := item?_eq_token htoken
    rw [String.toList_ofList]
    exact longest_nextPiece hlexeme
  · rw [Tile.item?, hpiece, item?_eq_unexpected_iff, nextPiece_stray_iff]
    exact and_congr_left' Option.some_inj.symm

end Scriptlet.Source
