/-
Words and parenthesised lists of them.

Blanks and parentheses alone tell where a word or a list ends, so no two of them start the same
text.  Nothing is said here about what the words mean.
-/
import Mathlib.Data.List.TakeWhile
import Scriptlet.Token.Basic

namespace Scriptlet.Printing

inductive Sexp where
  | word (text : String)
  | list (items : List Sexp)

namespace Sexp

instance : Inhabited Sexp := ⟨.list []⟩

/-- Whether the character may stand in a word. -/
def inWord (c : Char) : Bool :=
  c != ' ' && c != '(' && c != ')'

def IsWord (text : String) : Prop :=
  text ≠ "" ∧ text.toList.all inWord = true

instance (text : String) : Decidable (IsWord text) :=
  inferInstanceAs (Decidable (_ ∧ _))

mutual

def chars : Sexp → List Char
  | .word text => text.toList
  | .list items => '(' :: charsAll items

/-- The items with blanks between them, and the parenthesis behind the last one. -/
def charsAll : List Sexp → List Char
  | [] => [')']
  | first :: rest => first.chars ++ charsBehind rest

/-- What stands behind an item. -/
def charsBehind : List Sexp → List Char
  | [] => [')']
  | first :: rest => ' ' :: (first.chars ++ charsBehind rest)

end

mutual

/-- All words are words. -/
def Proper : Sexp → Prop
  | .word text => IsWord text
  | .list items => ProperAll items

def ProperAll : List Sexp → Prop
  | [] => True
  | first :: rest => first.Proper ∧ ProperAll rest

end

/-- The text cannot go on a word that stands before it. -/
def EndsWord (behind : List Char) : Prop :=
  ∀ c ∈ behind.head?, inWord c = false

section Unique

theorem span_word {text : String} {behind : List Char} (h : IsWord text) (hends : EndsWord behind) :
    (text.toList ++ behind).takeWhile inWord = text.toList ∧
      (text.toList ++ behind).dropWhile inWord = behind := by
  have hword : ∀ c ∈ text.toList, inWord c = true := List.all_eq_true.mp h.2
  have hbehind : behind.takeWhile inWord = [] ∧ behind.dropWhile inWord = behind := by
    cases behind with
    | nil => exact ⟨rfl, rfl⟩
    | cons c rest =>
        have hc : inWord c = false := hends c rfl
        simp [hc]
  rw [List.takeWhile_append_of_pos hword, List.dropWhile_append_of_pos hword, hbehind.1, hbehind.2,
    List.append_nil]
  exact ⟨rfl, rfl⟩

theorem head_word {text : String} (h : IsWord text) :
    ∃ c rest, text.toList = c :: rest ∧ inWord c = true := by
  obtain ⟨hsome, hchars⟩ := h
  cases htext : text.toList with
  | nil => exact absurd (String.toList_eq_nil_iff.mp htext) hsome
  | cons c rest =>
      rw [htext, List.all_cons, Bool.and_eq_true] at hchars
      exact ⟨c, rest, rfl, hchars.1⟩

/-- Neither a word nor a list starts with a closing parenthesis. -/
theorem head_ne {a : Sexp} (h : a.Proper) (behind rest : List Char) :
    a.chars ++ behind ≠ ')' :: rest := by
  cases a with
  | word text =>
      intro hsame
      obtain ⟨c, more, htext, hc⟩ := head_word h
      rw [chars, htext] at hsame
      rw [(List.cons.inj hsame).1] at hc
      cases hc
  | list items => exact fun hsame => absurd (List.cons.inj hsame).1 (by decide)

theorem endsWord_charsBehind (items : List Sexp) (behind : List Char) :
    EndsWord (charsBehind items ++ behind) := by
  intro c hc
  cases items with
  | nil =>
      cases hc
      rfl
  | cons first rest =>
      cases hc
      rfl

/-- With a blank before it, the first item is one among others. -/
theorem charsBehind_of_charsAll {items others : List Sexp} {behind behind' : List Char}
    (hitems : ProperAll items) (hothers : ProperAll others)
    (h : charsAll items ++ behind = charsAll others ++ behind') :
    charsBehind items ++ behind = charsBehind others ++ behind' := by
  match items, others with
  | [], [] => exact h
  | [], other :: more =>
      rw [charsAll, charsAll, List.append_assoc] at h
      exact absurd h.symm (head_ne hothers.1 _ _)
  | item :: rest, [] =>
      rw [charsAll, charsAll, List.append_assoc] at h
      exact absurd h (head_ne hitems.1 _ _)
  | item :: rest, other :: more => exact congrArg (' ' :: ·) h

mutual

theorem chars_unique {a b : Sexp} {behind behind' : List Char} (ha : a.Proper) (hb : b.Proper)
    (hends : EndsWord behind) (hends' : EndsWord behind')
    (h : a.chars ++ behind = b.chars ++ behind') : a = b ∧ behind = behind' := by
  match a, b with
  | .word text, .word other =>
      obtain ⟨htake, hdrop⟩ := span_word ha hends
      obtain ⟨htake', hdrop'⟩ := span_word hb hends'
      rw [chars, chars] at h
      rw [h] at htake hdrop
      have htext : text = other := String.toList_inj.mp (htake.symm.trans htake')
      exact ⟨congrArg word htext, hdrop.symm.trans hdrop'⟩
  | .word text, .list items =>
      obtain ⟨c, rest, htext, hc⟩ := head_word ha
      rw [chars, chars, htext] at h
      rw [(List.cons.inj h).1] at hc
      cases hc
  | .list items, .word other =>
      obtain ⟨c, rest, htext, hc⟩ := head_word hb
      rw [chars, chars, htext] at h
      rw [← (List.cons.inj h).1] at hc
      cases hc
  | .list items, .list others =>
      have hitems := charsBehind_of_charsAll ha hb (List.cons.inj h).2
      obtain ⟨rfl, hbehind⟩ := charsBehind_unique ha hb hitems
      exact ⟨rfl, hbehind⟩

theorem charsBehind_unique {items others : List Sexp} {behind behind' : List Char}
    (hitems : ProperAll items) (hothers : ProperAll others)
    (h : charsBehind items ++ behind = charsBehind others ++ behind') :
    items = others ∧ behind = behind' := by
  match items, others with
  | [], [] => exact ⟨rfl, (List.cons.inj h).2⟩
  | [], other :: more => exact absurd (List.cons.inj h).1 (by decide)
  | item :: rest, [] => exact absurd (List.cons.inj h).1 (by decide)
  | item :: rest, other :: more =>
      have hboth : item.chars ++ charsBehind rest ++ behind =
          other.chars ++ charsBehind more ++ behind' := (List.cons.inj h).2
      rw [List.append_assoc, List.append_assoc] at hboth
      obtain ⟨rfl, hrest⟩ := chars_unique hitems.1 hothers.1 (endsWord_charsBehind _ _)
        (endsWord_charsBehind _ _) hboth
      obtain ⟨rfl, hbehind⟩ := charsBehind_unique hitems.2 hothers.2 hrest
      exact ⟨rfl, hbehind⟩

end

/-- The text tells what it is the text of. -/
theorem chars_injective {a b : Sexp} (ha : a.Proper) (hb : b.Proper) (h : a.chars = b.chars) :
    a = b := by
  have hends : EndsWord [] := fun c hc => by cases hc
  have hsame : a.chars ++ [] = b.chars ++ [] := congrArg (· ++ []) h
  exact (chars_unique ha hb hends hends hsame).1

end Unique

end Sexp

end Scriptlet.Printing
