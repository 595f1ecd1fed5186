/-
Input in lines: if every line is text, the whole input is the text that has these lines.
-/
import Scriptlet.CommandLine
import Scriptlet.Proofs.Source.Joined

namespace Scriptlet.CommandLine

open Source

/-- The text has these lines, of which the last one may have no ending. -/
inductive HasLines : String → List String → Prop
  | none : HasLines "" []
  | last (line : String) : HasLines line [line]
  | more {line ending rest : String} {others : List String} (ending_ : IsEnding ending.toList)
      (rest_ : HasLines rest others) : HasLines (line ++ ending ++ rest) (line :: others)

/-! ### Bytes -/

theorem toList_loop (bytes : ByteArray) (start : Nat) (before : List UInt8) :
    ByteArray.toList.loop bytes start before =
      before.reverse ++ bytes.data.toList.drop start := by
  induction hleft : bytes.size - start generalizing start before with
  | zero =>
      have hle : bytes.size ≤ start := Nat.le_of_sub_eq_zero hleft
      have hdrop : bytes.data.toList.drop start = [] :=
        List.drop_eq_nil_of_le (Array.length_toList ▸ hle)
      rw [ByteArray.toList.loop, if_neg (Nat.not_lt_of_le hle), hdrop, List.append_nil]
  | succ left ih =>
      have hlt : start < bytes.size := by omega
      have hlist : start < bytes.data.toList.length := hlt
      have hget : bytes.data.toList[start] = bytes.get! start :=
        (getElem!_pos bytes.data start hlt).symm
      rw [ByteArray.toList.loop, if_pos hlt, ih (start + 1) _ (by omega), List.reverse_cons,
        List.append_assoc, List.drop_eq_getElem_cons hlist, hget]
      rfl

theorem data_toList (bytes : ByteArray) : bytes.toList = bytes.data.toList := by
  rw [ByteArray.toList, toList_loop]
  rfl

theorem decode_eq_ok_iff {bytes : ByteArray} {text : String} :
    decode bytes = .ok text ↔ bytes = text.toUTF8 := by
  unfold decode String.fromUTF8?
  by_cases hvalid : bytes.IsValidUTF8
  · rw [dif_pos hvalid]
    constructor
    · rintro ⟨rfl⟩
      rfl
    · rintro rfl
      rfl
  · rw [dif_neg hvalid]
    constructor
    · exact nofun
    · rintro rfl
      exact absurd text.isValidUTF8 hvalid

/-- Texts one behind the other are encoded one behind the other. -/
theorem decode_append {front back : List UInt8} {text more : String}
    (hfront : decode ⟨front.toArray⟩ = .ok text) (hback : decode ⟨back.toArray⟩ = .ok more) :
    decode ⟨(front ++ back).toArray⟩ = .ok (text ++ more) := by
  rw [decode_eq_ok_iff] at hfront hback ⊢
  rw [String.toUTF8_eq_toByteArray, String.toByteArray_append, ← String.toUTF8_eq_toByteArray,
    ← String.toUTF8_eq_toByteArray, ← hfront, ← hback]
  apply ByteArray.ext
  rw [ByteArray.data_append]
  exact (List.append_toArray front back).symm

/-! ### Lines -/

/-- The bytes of a line, of its ending and of the lines behind it. -/
theorem hasLines_more {line ending back : List UInt8} {text mark : String} {texts : List String}
    (hline : decode ⟨line.toArray⟩ = .ok text) (hmark : decode ⟨ending.toArray⟩ = .ok mark)
    (hending : IsEnding mark.toList)
    (hback : ∃ more, decode ⟨back.toArray⟩ = .ok more ∧ HasLines more texts) :
    ∃ whole, decode ⟨(line ++ (ending ++ back)).toArray⟩ = .ok whole ∧
      HasLines whole (text :: texts) := by
  obtain ⟨more, hmore, hlines⟩ := hback
  refine ⟨text ++ mark ++ more, ?_, .more hending hlines⟩
  rw [String.append_assoc]
  exact decode_append hline (decode_append hmark hmore)

/-- Bytes are cut into lines as their text is. -/
theorem hasLines_split {before rest : List UInt8} {texts : List String}
    (h : (inputLines.split before rest).map decode = texts.map .ok) :
    ∃ whole, decode ⟨(before.reverse ++ rest).toArray⟩ = .ok whole ∧ HasLines whole texts := by
  fun_induction inputLines.split before rest generalizing texts with
  | case1 before hempty =>
      obtain rfl := List.isEmpty_iff.mp hempty
      obtain rfl := List.map_eq_nil_iff.mp h.symm
      exact ⟨"", decode_eq_ok_iff.mpr rfl, .none⟩
  | case2 before hempty =>
      obtain ⟨text, others, rfl, htext, hothers⟩ := List.map_eq_cons_iff.mp h.symm
      obtain rfl := List.map_eq_nil_iff.mp hothers
      rw [List.append_nil]
      exact ⟨text, htext.symm, .last text⟩
  | case3 before rest line =>
      rename_i ih
      obtain ⟨text, others, rfl, htext, hothers⟩ := List.map_eq_cons_iff.mp h.symm
      have hback := ih hothers.symm
      by_cases hreturn : ∃ front, before = 13 :: front
      · obtain ⟨front, rfl⟩ := hreturn
        have hmark : decode ⟨[13, 10].toArray⟩ = .ok "\r\n" := decode_eq_ok_iff.mpr rfl
        have hbytes :
            (13 :: front).reverse ++ 10 :: rest = front.reverse ++ ([13, 10] ++ rest) := by
          rw [List.reverse_cons, List.append_assoc]
          rfl
        rw [hbytes]
        exact hasLines_more htext.symm hmark (Or.inr rfl) hback
      · have hmark : decode ⟨[10].toArray⟩ = .ok "\n" := decode_eq_ok_iff.mpr rfl
        have hline : line = before := by
          dsimp only [line]
          split
          · next front => exact absurd ⟨front, rfl⟩ hreturn
          · rfl
        rw [hline] at htext
        exact hasLines_more htext.symm hmark (Or.inl rfl) hback
  | case4 before byte rest _ ih =>
      obtain ⟨whole, hdecode, hlines⟩ := ih h
      rw [List.reverse_cons, List.append_assoc] at hdecode
      exact ⟨whole, hdecode, hlines⟩

theorem hasLines_inputLines {bytes : ByteArray} {texts : List String}
    (h : (inputLines bytes).map decode = texts.map .ok) :
    ∃ whole, decode bytes = .ok whole ∧ HasLines whole texts := by
  obtain ⟨whole, hdecode, hlines⟩ := hasLines_split h
  rw [List.reverse_nil, List.nil_append, data_toList] at hdecode
  exact ⟨whole, hdecode, hlines⟩

end Scriptlet.CommandLine
