/-
The bytes of a source text.  A character of ASCII is one byte, its own number, and
every byte of any other character lies above ASCII, so that a byte of ASCII in a text
is always a whole character.
-/
import Mathlib.Data.List.Count

namespace Scriptlet.Source

/-- The bytes that stand for the characters. -/
def bytesOf (chars : List Char) : List UInt8 :=
  chars.flatMap String.utf8EncodeChar

@[simp] theorem bytesOf_cons (c : Char) (rest : List Char) :
    bytesOf (c :: rest) = String.utf8EncodeChar c ++ bytesOf rest := rfl

@[simp] theorem bytesOf_append (first second : List Char) :
    bytesOf (first ++ second) = bytesOf first ++ bytesOf second :=
  List.flatMap_append

theorem toByteArray_ofList (chars : List Char) :
    (String.ofList chars).toByteArray = (bytesOf chars).toByteArray :=
  String.toByteArray_ofList

theorem size_ofList (chars : List Char) :
    (String.ofList chars).utf8ByteSize = (bytesOf chars).length := by
  rw [← String.size_toByteArray, toByteArray_ofList, List.size_toByteArray]

theorem encode_of_ascii {c : Char} (h : c.val.toNat ≤ 127) :
    String.utf8EncodeChar c = [UInt8.ofNat c.val.toNat] := by
  rw [String.utf8EncodeChar.eq_1, if_pos h]

theorem encode_ne_nil (c : Char) : String.utf8EncodeChar c ≠ [] := by
  rw [← List.length_pos_iff, String.length_utf8EncodeChar]
  exact c.utf8Size_pos

/-- The parts of a longer encoding carry six bits or less each, with the marks of a
longer encoding above them. -/
theorem high_of_encode {c : Char} (h : 127 < c.val.toNat) {byte : UInt8}
    (hbyte : byte ∈ String.utf8EncodeChar c) : 128 ≤ byte.toNat := by
  have hpart : ∀ {value : Nat}, 128 ≤ value → value < UInt8.size →
      128 ≤ (UInt8.ofNat value).toNat := by
    intro value hlow hhigh
    rwa [UInt8.toNat_ofNat_of_lt' hhigh]
  rw [String.utf8EncodeChar.eq_1, if_neg (Nat.not_le.mpr h)] at hbyte
  have hsize : UInt8.size = 256 := rfl
  split at hbyte
  · simp only [List.mem_cons, List.not_mem_nil, or_false] at hbyte
    rcases hbyte with rfl | rfl
    all_goals exact hpart (by omega) (by omega)
  · split at hbyte
    · simp only [List.mem_cons, List.not_mem_nil, or_false] at hbyte
      rcases hbyte with rfl | rfl | rfl
      all_goals exact hpart (by omega) (by omega)
    · simp only [List.mem_cons, List.not_mem_nil, or_false] at hbyte
      rcases hbyte with rfl | rfl | rfl | rfl
      all_goals exact hpart (by omega) (by omega)

/-- The byte of a line feed. -/
def lineFeed : UInt8 := 10

theorem count_encode (c : Char) :
    (String.utf8EncodeChar c).count lineFeed = if c = '\n' then 1 else 0 := by
  by_cases hfeed : c = '\n'
  · subst hfeed
    decide
  · rw [if_neg hfeed]
    refine List.count_eq_zero.mpr fun hmem => ?_
    by_cases hascii : c.val.toNat ≤ 127
    · rw [encode_of_ascii hascii, List.mem_singleton] at hmem
      have hvalue := congrArg UInt8.toNat hmem
      rw [UInt8.toNat_ofNat_of_lt' (Nat.lt_of_le_of_lt hascii (by decide))] at hvalue
      exact hfeed (Char.ext (UInt32.toNat_inj.mp hvalue.symm))
    · exact absurd (high_of_encode (Nat.not_le.mp hascii) hmem) (by decide)

/-- Line feeds can be counted in the bytes. -/
theorem count_bytesOf (chars : List Char) : (bytesOf chars).count lineFeed = chars.count '\n' := by
  induction chars with
  | nil => rfl
  | cons c rest ih =>
      rw [bytesOf_cons, List.count_append, count_encode, ih, List.count_cons, Nat.add_comm]
      simp only [beq_iff_eq]

end Scriptlet.Source
