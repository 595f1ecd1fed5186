/-
The tokens of a text end with its only end marker.
-/
import Scriptlet.Proofs.Grammar.Accepts
import Scriptlet.Source.Scan

namespace Scriptlet.Source

/-- The piece is not an end marker, which no characters stand for. -/
def NoMarker : Piece → Prop
  | .lexeme kind _ => kind ≠ .endOfInput
  | _ => True

theorem wordKind_ne (chars : List Char) : wordKind chars ≠ .endOfInput := by
  unfold wordKind
  split
  · exact nofun
  · exact nofun

theorem noMarker_markPiece (c : Char) (rest : List Char) : NoMarker (markPiece c rest).1 := by
  unfold markPiece
  split
  · exact nofun
  · split
    · exact nofun
    · trivial

theorem noMarker_numberPiece (c : Char) (rest : List Char) : NoMarker (numberPiece c rest).1 := by
  dsimp only [numberPiece]
  split
  · exact nofun
  · exact nofun

theorem noMarker_stringPiece (rest : List Char) : NoMarker (stringPiece rest).1 := by
  unfold stringPiece
  dsimp only
  cases rest.dropWhile (· != '"') with
  | nil => trivial
  | cons quote behind => exact nofun

theorem noMarker_slashPiece (rest : List Char) : NoMarker (slashPiece rest).1 := by
  unfold slashPiece
  split
  · trivial
  · exact noMarker_markPiece '/' _

theorem noMarker_nextPiece (c : Char) (rest : List Char) : NoMarker (nextPiece c rest).1 := by
  unfold nextPiece
  split
  · trivial
  · split
    · exact noMarker_stringPiece rest
    · split
      · exact noMarker_numberPiece c rest
      · split
        · exact wordKind_ne _
        · split
          · exact noMarker_slashPiece rest
          · exact noMarker_markPiece c rest

theorem noMarker_pieces (chars : List Char) : ∀ piece ∈ pieces chars, NoMarker piece := by
  fun_induction pieces chars with
  | case1 => exact nofun
  | case2 c rest next ih =>
      intro piece hpiece
      rcases List.mem_cons.mp hpiece with rfl | hpiece
      · exact noMarker_nextPiece c rest
      · exact ih piece hpiece

theorem number_tokens {all : List Piece} (h : ∀ piece ∈ all, NoMarker piece) (line : Nat) :
    ∀ token ∈ (number line all).1.filterMap Item.token?, token.kind ≠ .endOfInput := by
  induction all generalizing line with
  | nil => exact nofun
  | cons piece rest ih =>
      have hrest := ih (fun other hother => h other (List.mem_cons_of_mem _ hother))
        (line + piece.newlines)
      have hpiece := h piece List.mem_cons_self
      cases piece with
      | lexeme kind chars =>
          intro token htoken
          rcases List.mem_cons.mp htoken with rfl | htoken
          · exact hpiece
          · exact hrest token htoken
      | blank _ | comment _ | stray _ | openString _ => exact hrest

/-- The end marker is added to what the text itself has. -/
theorem scan_endsOnce (source : String) : Grammar.EndsOnce (scan source).tokens := by
  refine ⟨(number 1 (pieces source.toList)).1.filterMap Item.token?,
    endToken (number 1 (pieces source.toList)).2, ?_, rfl, number_tokens (noMarker_pieces _) 1⟩
  simp [scan, items, Item.token?]

end Scriptlet.Source
