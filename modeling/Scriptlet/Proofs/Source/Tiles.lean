/-
A source text is tiled: its bytes are cut, between characters only, into stretches that
follow each other from the first byte to the last.  Each stretch is a lexeme, a blank, a
comment, a character that begins nothing or a string that is never closed, and what is
found in the text is what its tiles give, with one end marker behind them.
-/
import Scriptlet.Proofs.Source.Bytes
import Scriptlet.Proofs.Source.Shapes

namespace Scriptlet.Source

/-- A stretch of the bytes of a text, from `start` up to `stop`, and what it is. -/
structure Tile where
  start : Nat
  stop : Nat
  piece : Piece

/-- The bytes between two offsets are those of the characters. -/
def Holds (source : String) (start stop : Nat) (chars : List Char) : Prop :=
  source.toByteArray.extract start stop = (String.ofList chars).toByteArray

/-- One line more than there are line feeds before the offset. -/
def lineAt (source : String) (offset : Nat) : Nat :=
  1 + (source.toByteArray.extract 0 offset).data.count lineFeed

/-- The tiles go from the offset to the end of the text, without gap or overlap. -/
inductive Tiles (source : String) : Nat → List Tile → Prop
  | done : Tiles source source.utf8ByteSize []
  | cons {start stop : Nat} {piece : Piece} {behind : List Char} {rest : List Tile}
      (hlt : start < stop)
      (hstart : String.Pos.Raw.IsValid source ⟨start⟩)
      (hstop : String.Pos.Raw.IsValid source ⟨stop⟩)
      (hchars : Holds source start stop piece.chars)
      (hbehind : Holds source stop source.utf8ByteSize behind)
      (hpiece : Formed piece behind)
      (hrest : Tiles source stop rest) :
      Tiles source start (⟨start, stop, piece⟩ :: rest)

/-- What the tile gives, on the line where it ends. -/
def Tile.item? (source : String) (tile : Tile) : Option Item :=
  Source.item? (lineAt source tile.stop) tile.piece

/-- The pieces laid out from an offset on. -/
def laidOut (start : Nat) : List Piece → List Tile
  | [] => []
  | piece :: rest =>
      let stop := start + (bytesOf piece.chars).length
      ⟨start, stop, piece⟩ :: laidOut stop rest

section Cut

variable (before chars behind : List Char)

theorem isValid_cut :
    String.Pos.Raw.IsValid (String.ofList (before ++ chars)) ⟨(bytesOf before).length⟩ := by
  refine String.Pos.Raw.isValid_iff_exists_append.mpr
    ⟨String.ofList before, String.ofList chars, String.ofList_append, ?_⟩
  exact String.Pos.Raw.ext (size_ofList before).symm

theorem holds_cut : Holds (String.ofList (before ++ chars ++ behind)) (bytesOf before).length
    (bytesOf (before ++ chars)).length chars := by
  have hempty : (bytesOf before).toByteArray.extract (bytesOf before).length
      ((bytesOf before).length + (bytesOf chars).length) = ByteArray.empty := by
    simp [ByteArray.extract_eq_empty_iff]
  rw [Holds, toByteArray_ofList, toByteArray_ofList, List.append_assoc, bytesOf_append,
    bytesOf_append, bytesOf_append, List.length_append, List.toByteArray_append,
    List.toByteArray_append, ByteArray.extract_append, hempty, List.size_toByteArray,
    Nat.sub_self, Nat.add_sub_cancel_left, ByteArray.empty_append]
  exact ByteArray.extract_append_eq_left List.size_toByteArray.symm

theorem lineAt_cut : lineAt (String.ofList (before ++ chars)) (bytesOf before).length =
    1 + before.count '\n' := by
  rw [lineAt, toByteArray_ofList, bytesOf_append, List.toByteArray_append,
    ByteArray.extract_append_eq_left (by simp), List.data_toByteArray, List.count_toArray,
    count_bytesOf]

end Cut

theorem length_lt_append {before chars : List Char} (h : chars ≠ []) :
    (bytesOf before).length < (bytesOf (before ++ chars)).length := by
  obtain ⟨c, more, rfl⟩ := List.exists_cons_of_ne_nil h
  have hpos := List.length_pos_iff.mpr (encode_ne_nil c)
  simp only [bytesOf_append, bytesOf_cons, List.length_append]
  omega

/-- The pieces of a text are its tiles, whatever text stands before. -/
theorem tiles_pieces (source : String) (chars : List Char) :
    ∀ before, source = String.ofList (before ++ chars) →
      Tiles source (bytesOf before).length (laidOut (bytesOf before).length (pieces chars)) := by
  fun_induction pieces chars with
  | case1 =>
      intro before hsource
      have hend : source.utf8ByteSize = (bytesOf before).length := by
        rw [hsource, List.append_nil, size_ofList]
      rw [← hend]
      exact .done
  | case2 c rest next ih =>
      intro before hsource
      obtain ⟨more, hchars, -⟩ := cuts_nextPiece c rest
      have hlater : source = String.ofList (before ++ next.1.chars ++ next.2) := by
        rw [hsource, List.append_assoc, (cuts_nextPiece c rest).chars_append]
      have hsize : source.utf8ByteSize = (bytesOf (before ++ next.1.chars ++ next.2)).length := by
        rw [hlater, size_ofList]
      have hrest := ih (before ++ next.1.chars) hlater
      have hbehind := holds_cut (before ++ next.1.chars) next.2 []
      rw [List.append_nil, ← hlater, ← hsize] at hbehind
      rw [laidOut, ← List.length_append, ← bytesOf_append]
      refine .cons (length_lt_append ?_) ?_ ?_ ?_ hbehind (formed_nextPiece c rest) hrest
      · rw [hchars]
        exact List.cons_ne_nil _ _
      · rw [hsource]
        exact isValid_cut before _
      · rw [hlater]
        exact isValid_cut _ next.2
      · rw [hlater]
        exact holds_cut before _ _

/-- The lines of what is found are counted up to the ends of the tiles. -/
theorem number_laidOut (source : String) (chars : List Char) :
    ∀ before, source = String.ofList (before ++ chars) →
      (number (1 + before.count '\n') (pieces chars)).1 =
        (laidOut (bytesOf before).length (pieces chars)).filterMap (Tile.item? source) := by
  fun_induction pieces chars with
  | case1 => exact fun _ _ => rfl
  | case2 c rest next ih =>
      intro before hsource
      have hlater : source = String.ofList (before ++ next.1.chars ++ next.2) := by
        rw [hsource, List.append_assoc, (cuts_nextPiece c rest).chars_append]
      have hrest := ih (before ++ next.1.chars) hlater
      have hline := lineAt_cut (before ++ next.1.chars) next.2
      rw [← hlater] at hline
      rw [List.count_append, ← Nat.add_assoc] at hrest hline
      rw [bytesOf_append, List.length_append] at hrest hline
      rw [number_cons, laidOut, List.filterMap_cons, Piece.newlines, hrest, Tile.item?, hline]
      cases item? _ next.1 with
      | none => rfl
      | some item => rfl

theorem Tiles.not_endOfInput {source : String} {start : Nat} {tiles : List Tile}
    (h : Tiles source start tiles) :
    ∀ token, Item.token token ∈ tiles.filterMap (Tile.item? source) →
      token.kind ≠ .endOfInput := by
  induction h with
  | done => exact nofun
  | cons _ _ _ _ _ hpiece _ ih =>
      intro token htoken
      obtain ⟨tile, htile, hitem⟩ := List.mem_filterMap.mp htoken
      rcases List.mem_cons.mp htile with rfl | htile
      · cases hpiece with
        | lexeme hspells =>
            cases hitem
            exact hspells.ne_endOfInput
        | blank _ | comment _ _ | stray _ | openString _ => cases hitem
      · exact ih token (List.mem_filterMap.mpr ⟨tile, htile, hitem⟩)

theorem tiles_laidOut (source : String) : Tiles source 0 (laidOut 0 (pieces source.toList)) :=
  tiles_pieces source source.toList [] String.ofList_toList.symm

theorem items_laidOut (source : String) :
    items source = (laidOut 0 (pieces source.toList)).filterMap (Tile.item? source) ++
      [.token (endToken (lineAt source source.utf8ByteSize))] := by
  have hnumber := number_laidOut source source.toList [] String.ofList_toList.symm
  have hlast := lineAt_cut source.toList []
  rw [List.append_nil, ← size_ofList, String.ofList_toList] at hlast
  rw [hlast, ← number_last]
  exact congrArg (· ++ [Item.token (endToken (number 1 (pieces source.toList)).2)]) hnumber

/-- Scanning takes the text apart from its first byte to its last, and ends with its only
end marker. -/
theorem items_tile (source : String) :
    ∃ tiles, Tiles source 0 tiles ∧
      items source = tiles.filterMap (Tile.item? source) ++
        [.token (endToken (lineAt source source.utf8ByteSize))] ∧
      ∀ token, Item.token token ∈ tiles.filterMap (Tile.item? source) →
        token.kind ≠ .endOfInput :=
  ⟨laidOut 0 (pieces source.toList), tiles_laidOut source, items_laidOut source,
    (tiles_laidOut source).not_endOfInput⟩

end Scriptlet.Source
