/-
Where the scanner stands in a text, when it stands between two characters, and how far each of
its loops goes from there.

Its tests are made for ASCII and say the same about every byte of a longer character, so that a
loop that stops, stops where a character begins.
-/
import Scriptlet.Proofs.Source.Scanner
import Scriptlet.Proofs.Source.Tiles

namespace Scriptlet.Source

theorem bytes_ofList (chars : List Char) : bytes (String.ofList chars) = bytesOf chars := by
  rw [bytes, toByteArray_ofList, List.data_toByteArray]

theorem slice?_cut (before chars behind : List Char) :
    slice? (String.ofList (before ++ chars ++ behind)) (bytesOf before).length
      (bytesOf (before ++ chars)).length = some (String.ofList chars) := by
  have hle : (bytesOf before).length ≤ (bytesOf (before ++ chars)).length := by
    rw [bytesOf_append, List.length_append]
    exact Nat.le_add_right _ _
  have hstart := isValid_cut before (chars ++ behind)
  rw [← List.append_assoc] at hstart
  have hstop := isValid_cut (before ++ chars) behind
  have hholds := holds_cut before chars behind
  unfold Holds at hholds
  rw [slice?, if_pos ⟨hle, String.Pos.Raw.isValid_eq_true_iff.mpr hstart,
    String.Pos.Raw.isValid_eq_true_iff.mpr hstop⟩, hholds, String.fromUTF8?,
    dif_pos (String.ofList chars).isValidUTF8]
  rfl

/-- There is no text between offsets that do not fit. -/
example : slice? "é" 0 1 = none := by decide +kernel

/-- The scanner behind the characters that have been taken. -/
def spot (start : Nat) (before : List Char) (line : Nat) : Scanner :=
  ⟨start, (bytesOf before).length, line⟩

/-- The text consists of the characters that have been taken and those that are left. -/
def Parts (source : String) (before behind : List Char) : Prop :=
  source = String.ofList (before ++ behind)

section Parts

variable {source : String} {before behind text rest : List Char} {c : Char} {line : Nat}
  {p : Char → Bool}

theorem Parts.append {taken : List Char} (h : Parts source before (taken ++ rest)) :
    Parts source (before ++ taken) rest := by
  rw [Parts, List.append_assoc]
  exact h

theorem Parts.next (h : Parts source before (c :: rest)) : Parts source (before ++ [c]) rest := by
  have hone : Parts source before ([c] ++ rest) := h
  exact hone.append

theorem Parts.bytes_eq (h : Parts source before behind) :
    bytes source = bytesOf before ++ bytesOf behind := by
  rw [h, bytes_ofList, bytesOf_append]

theorem Parts.drop_eq (h : Parts source before behind) :
    (bytes source).drop (bytesOf before).length = bytesOf behind := by
  rw [h.bytes_eq, List.drop_left]

theorem Parts.length_eq (h : Parts source before behind) :
    (bytes source).length = (bytesOf before).length + (bytesOf behind).length := by
  rw [h.bytes_eq, List.length_append]

theorem Parts.lt_length (h : Parts source before (c :: rest)) :
    (bytesOf before).length < (bytes source).length := by
  have hpos := List.length_pos_iff.mpr (encode_ne_nil c)
  rw [h.length_eq, bytesOf_cons, List.length_append]
  omega

theorem length_bytesOf_snoc (hc : c.val ≤ 127) (before : List Char) :
    (bytesOf (before ++ [c])).length = (bytesOf before).length + 1 := by
  rw [bytesOf_append, bytesOf_cons, encode_of_ascii hc, List.length_append]
  rfl

theorem forward_spot (hc : c.val ≤ 127) (start : Nat) (before : List Char) (line : Nat) :
    (spot start before line).forward = spot start (before ++ [c]) line := by
  rw [spot, spot, length_bytesOf_snoc hc]
  rfl

/-- The first byte of what is left. -/
theorem Parts.byte? (h : Parts source before (c :: rest)) :
    ∃ byte ∈ String.utf8EncodeChar c, (bytes source)[(bytesOf before).length]? = some byte := by
  obtain ⟨byte, more, hencode⟩ := List.exists_cons_of_ne_nil (encode_ne_nil c)
  refine ⟨byte, hencode ▸ List.mem_cons_self, ?_⟩
  rw [h.bytes_eq, List.getElem?_append_right (Nat.le_refl _), Nat.sub_self, bytesOf_cons, hencode]
  rfl

/-- Looking ahead is looking at the next character, if there is one. -/
theorem Parts.ahead {beyond : Bool} (h : Parts source before (c :: rest)) (hp : Uniform p beyond)
    (start line : Nat) :
    p ((spot start before line).ahead source 0) = p c := by
  obtain ⟨byte, hmem, hbyte⟩ := h.byte?
  rw [Scanner.ahead, Nat.add_zero, List.getD_eq_getElem?_getD, spot, hbyte]
  exact hp.glyph_eq hmem

theorem Parts.ahead_end (h : Parts source before []) (start line : Nat) :
    (spot start before line).ahead source 0 = '\x00' := by
  rw [Scanner.ahead, Nat.add_zero, List.getD_eq_getElem?_getD, spot, h.bytes_eq,
    List.getElem?_eq_none (by simp [bytesOf])]
  rfl

/-- The zeros behind the end are like no character. -/
theorem Parts.ahead_any (h : Parts source before behind) (hp : Uniform p false)
    (hzero : p '\x00' = false) (start line : Nat) :
    p ((spot start before line).ahead source 0) = behind.head?.any p := by
  cases behind with
  | nil =>
      rw [h.ahead_end, hzero]
      rfl
  | cons c rest => exact h.ahead hp start line

theorem Parts.atEnd (h : Parts source before behind) (start line : Nat) :
    (spot start before line).atEnd source = behind.isEmpty := by
  unfold Scanner.atEnd
  cases behind with
  | nil =>
      rw [h.length_eq]
      exact decide_eq_true (Nat.le_refl _)
  | cons c rest => exact decide_eq_false (Nat.not_le.mpr h.lt_length)

theorem Parts.meets (h : Parts source before behind) {expected : Char}
    (hexpected : expected.val ≤ 127) (start line : Nat) :
    (spot start before line).meets source expected = behind.head?.any (· == expected) := by
  rw [Scanner.meets, h.atEnd]
  cases behind with
  | nil => rfl
  | cons c rest => exact h.ahead (uniform_beq hexpected) start line

theorem Uniform.le_of_true (hp : Uniform p false) (hc : p c = true) : c.val ≤ 127 := by
  refine UInt32.not_lt.mp fun hbeyond => ?_
  rw [hp c hbeyond] at hc
  exact Bool.false_ne_true hc

/-- The loop takes the longest stretch of such characters. -/
theorem Parts.takeWhile? (h : Parts source before behind) (hp : Uniform p false)
    (hzero : p '\x00' = false) (start line : Nat) :
    (spot start before line).takeWhile? source p =
      some (spot start (before ++ behind.takeWhile p) line) := by
  induction behind generalizing before with
  | nil =>
      rw [Scanner.takeWhile?, h.ahead_end, if_neg (Bool.eq_false_iff.mp hzero)]
      rw [List.takeWhile_nil, List.append_nil]
  | cons c rest ih =>
      rw [Scanner.takeWhile?, h.ahead hp]
      by_cases hc : p c = true
      · have hlt : (spot start before line).curr < (bytes source).length := h.lt_length
        rw [if_pos hc, if_pos hlt, forward_spot (hp.le_of_true hc), ih h.next,
          List.takeWhile_cons_of_pos hc, List.append_assoc]
        rfl
      · rw [if_neg hc, List.takeWhile_cons_of_neg hc, List.append_nil]


theorem glyph_eq_feed (byte : UInt8) : glyph byte = '\n' ↔ byte = lineFeed := by
  constructor
  · intro h
    have hvalue := glyph_val byte
    rw [h] at hvalue
    exact UInt8.toNat_inj.mp hvalue.symm
  · rintro rfl
    rfl

/-- Bytes that are no quotes are passed over, and the line feeds among them are counted. -/
theorem toQuote_of_drop {taken more : List UInt8} {scanner : Scanner}
    (hdrop : (bytes source).drop scanner.curr = taken ++ more)
    (hquote : ∀ byte ∈ taken, glyph byte ≠ '"') :
    scanner.toQuote source =
      (⟨scanner.start, scanner.curr + taken.length, scanner.line + taken.count lineFeed⟩ :
        Scanner).toQuote source := by
  induction taken generalizing scanner with
  | nil => rfl
  | cons byte taken ih =>
      obtain ⟨hbyte, hquote⟩ := List.forall_mem_cons.mp hquote
      have hget : (bytes source)[scanner.curr]? = some byte := by
        rw [← List.head?_drop, hdrop]
        rfl
      have hlt := (List.getElem?_eq_some_iff.mp hget).1
      have hahead : scanner.ahead source 0 = glyph byte := by
        rw [Scanner.ahead, Nat.add_zero, List.getD_eq_getElem?_getD, hget]
        rfl
      have hnext : (bytes source).drop (scanner.curr + 1) = taken ++ more := by
        rw [← List.tail_drop, hdrop]
        rfl
      rw [Scanner.toQuote, hahead, if_pos ⟨hlt, hbyte⟩, ih hnext hquote, List.length_cons,
        List.count_cons]
      simp only [Scanner.forward, glyph_eq_feed, beq_iff_eq]
      congr 2
      · omega
      · split <;> omega

theorem glyph_ne_quote (h : '"' ∉ text) : ∀ byte ∈ bytesOf text, glyph byte ≠ '"' := by
  intro byte hbyte
  obtain ⟨c, hc, hmem⟩ := List.mem_flatMap.mp hbyte
  have hbne := (uniform_bne (d := '"') (by decide)).glyph_eq hmem
  refine bne_iff_ne.mp (hbne.trans (bne_iff_ne.mpr ?_))
  rintro rfl
  exact h hc

/-- The loop ends at the next quote, or behind the text. -/
theorem Parts.toQuote (h : Parts source before (text ++ rest)) (htext : '"' ∉ text)
    (hrest : rest = [] ∨ rest.head? = some '"') (start line : Nat) :
    (spot start before line).toQuote source =
      spot start (before ++ text) (line + text.count '\n') := by
  have hdrop : (bytes source).drop (spot start before line).curr =
      bytesOf text ++ bytesOf rest := by
    rw [← bytesOf_append]
    exact h.drop_eq
  have hstop : ¬ ((spot start (before ++ text) (line + text.count '\n')).curr <
        (bytes source).length ∧
      (spot start (before ++ text) (line + text.count '\n')).ahead source 0 ≠ '"') := by
    rintro ⟨hlt, hahead⟩
    rcases hrest with rfl | hhead
    · refine absurd hlt (Nat.not_lt.mpr ?_)
      rw [h.append.length_eq]
      exact Nat.le_refl _
    · obtain ⟨more, rfl⟩ := List.head?_eq_some_iff.mp hhead
      exact hahead (beq_iff_eq.mp (h.append.ahead (uniform_beq (d := '"') (by decide)) _ _))
  have hspot : spot start (before ++ text) (line + text.count '\n') =
      ⟨start, (bytesOf before).length + (bytesOf text).length,
        line + (bytesOf text).count lineFeed⟩ := by
    rw [spot, bytesOf_append, List.length_append, count_bytesOf]
  rw [toQuote_of_drop hdrop (glyph_ne_quote htext)]
  refine (congrArg (Scanner.toQuote source) hspot.symm).trans ?_
  rw [Scanner.toQuote, if_neg hstop]

theorem Parts.toLineFeed (h : Parts source before (text ++ rest)) (htext : '\n' ∉ text)
    (hrest : rest = [] ∨ rest.head? = some '\n') (start line : Nat) :
    (spot start before line).toLineFeed source = spot start (before ++ text) line := by
  have hdrop : (bytes source).drop (spot start before line).curr =
      bytesOf text ++ bytesOf rest := by
    rw [← bytesOf_append]
    exact h.drop_eq
  have hnone : (bytesOf text).findIdx? (· == lineFeed) = none := by
    rw [List.findIdx?_eq_none_iff]
    intro byte hbyte
    refine beq_false_of_ne ?_
    rintro rfl
    rw [← List.count_eq_zero, ← count_bytesOf, List.count_eq_zero] at htext
    exact htext hbyte
  rw [Scanner.toLineFeed, hdrop, List.findIdx?_append, hnone, Option.none_or]
  rcases hrest with rfl | hhead
  · show (⟨start, (bytes source).length, line⟩ : Scanner) = _
    rw [h.append.length_eq]
    rfl
  · obtain ⟨more, rfl⟩ := List.head?_eq_some_iff.mp hhead
    show (⟨start, (bytesOf before).length + (0 + (bytesOf text).length), line⟩ : Scanner) = _
    rw [Nat.zero_add, ← List.length_append, ← bytesOf_append]
    rfl


theorem Parts.slice (h : Parts source before (text ++ rest)) :
    slice? source (bytesOf before).length (bytesOf (before ++ text)).length =
      some (String.ofList text) := by
  rw [h, ← List.append_assoc]
  exact slice?_cut before text rest

end Parts

end Scriptlet.Source
