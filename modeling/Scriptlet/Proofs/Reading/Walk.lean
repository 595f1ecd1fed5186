/-
The same rules over the vector of all tokens.

A walker has an index into the vector, reads tokens there and just before, and moves on one token
at a time.  To read outside the vector would be the end of it: then the walk gives nothing at all.
It keeps a record of all places where it has been.

Where the cursor counts identities, the walker has the next one as a word.  A build in which sums
are checked does not get past the last identity; in any other one the next identity is zero.

A cursor holds the tokens from the walker's index up to the first end marker, so a script does the
same with both, as long as the identities last: the induction is on the script.
-/
import Mathlib.Data.List.Basic
import Scriptlet.Proofs.Reading.Script

namespace Scriptlet.Reading

/-- Whether a sum that does not fit into its word stops the program. -/
inductive Build
  | checked
  | unchecked
  deriving DecidableEq

/-- The sum of an identity and one, if the program gets past it. -/
def Build.next? (build : Build) (id : NodeId) : Option NodeId :=
  match build with
  | .checked => if id.toNat + 1 < UInt32.size then some (id + 1) else none
  | .unchecked => some (id + 1)

/-- Where a walk over a vector is. -/
structure Walker where
  /-- The index of the next token. -/
  current : Nat
  /-- All places where the walker has been, from the first one to this one. -/
  trail : List Nat
  nextId : NodeId
  faults : List Diagnostic

namespace Walker

variable (tokens : List Token) (walker : Walker)

/-- At the first token. -/
def start (firstId : NodeId) : Walker :=
  ⟨0, [0], firstId, []⟩

def forward : Walker :=
  { walker with current := walker.current + 1, trail := walker.trail ++ [walker.current + 1] }

def collect (diagnostic : Diagnostic) : Walker :=
  { walker with faults := walker.faults ++ [diagnostic] }

def peek? : Option Token :=
  tokens[walker.current]?

/-- The token before the next one; the first one if there is none before. -/
def previous? : Option Token :=
  tokens[walker.current - 1]?

def atEnd? : Option Bool := do
  let token ← walker.peek? tokens
  return token.kind.isEndOfInput

def check? (kind : Kind → Bool) : Option Bool := do
  if ← walker.atEnd? tokens then return false
  let token ← walker.peek? tokens
  return kind token.kind

/-- Move on, but not past an end marker. -/
def advance? : Option (Token × Walker) := do
  let next := if ← walker.atEnd? tokens then walker else walker.forward
  let token ← next.previous? tokens
  return (token, next)

def diagnose? (fault : GrammarFault) : Option Diagnostic := do
  let token ← walker.peek? tokens
  return .grammar token.line token.location fault

/-- Move on to a statement boundary or an end marker. -/
def settle? (walker : Walker) : Option Walker :=
  if walker.current < tokens.length then do
    let next ← walker.peek? tokens
    if next.kind.isEndOfInput then return walker
    let skipped ← walker.previous? tokens
    if skipped.kind.isMark .semicolon || Cursor.startsStatement next.kind then return walker
    walker.forward.settle?
  else none
termination_by tokens.length - walker.current
decreasing_by
  dsimp only [forward]
  omega

/-- Skip the token that caused a fault, and all others before the next boundary. -/
def synchronize? : Option Walker := do
  let (_, next) ← walker.advance? tokens
  next.settle? tokens

end Walker

namespace Walker

variable {tokens : List Token} {walker : Walker} {next skipped : Token}

theorem lt_length_of_peek? (h : walker.peek? tokens = some next) :
    walker.current < tokens.length :=
  (List.getElem?_eq_some_iff.mp h).1

theorem settle?_marker (hnext : walker.peek? tokens = some next)
    (hmarker : next.kind.isEndOfInput = true) : walker.settle? tokens = some walker := by
  rw [settle?, if_pos (lt_length_of_peek? hnext)]
  simp only [hnext, hmarker, if_true, Option.bind_eq_bind, Option.bind_some]
  rfl

theorem settle?_token (hnext : walker.peek? tokens = some next)
    (hopen : next.kind.isEndOfInput = false) (hskipped : walker.previous? tokens = some skipped) :
    walker.settle? tokens =
      if skipped.kind.isMark .semicolon || Cursor.startsStatement next.kind then some walker
      else walker.forward.settle? tokens := by
  rw [settle?, if_pos (lt_length_of_peek? hnext)]
  simp only [hnext, hopen, hskipped, Bool.false_eq_true, if_false, Option.bind_eq_bind,
    Option.bind_some]
  rfl

end Walker

/-- What comes of a walk. -/
inductive Walked (α : Type)
  /-- It came to an end of its own. -/
  | ended (outcome : Except Halt α) (walker : Walker)
  /-- A sum of identities stopped it. -/
  | overflow (walker : Walker)
  /-- A token was read that is not there. -/
  | outside

/-- Go on with what was read, if it is there. -/
def Walked.reading {α β : Type} : Option β → (β → Walked α) → Walked α
  | some found, next => next found
  | none, _ => .outside

/-- What a script does with a walker. -/
def Script.walk {α : Type} (build : Build) (tokens : List Token) : Script α → Walker → Walked α
  | .done value, walker => .ended (.ok value) walker
  | .andThen first next, walker =>
      match first.walk build tokens walker with
      | .ended (.ok value) after => (next value).walk build tokens after
      | .ended (.error reason) after => .ended (.error reason) after
      | .overflow after => .overflow after
      | .outside => .outside
  | .halt fault, walker =>
      .reading (walker.diagnose? tokens fault) fun diagnostic =>
        .ended (.error (.fault diagnostic)) walker
  | .exhausted, walker => .ended (.error .exhausted) walker
  | .report diagnostic, walker => .ended (.ok ()) (walker.collect diagnostic)
  | .reportHere fault, walker =>
      .reading (walker.diagnose? tokens fault) fun diagnostic =>
        .ended (.ok ()) (walker.collect diagnostic)
  | .looksAt kind, walker =>
      .reading (walker.check? tokens kind) fun found => .ended (.ok found) walker
  | .atEnd, walker => .reading (walker.atEnd? tokens) fun isEnd => .ended (.ok isEnd) walker
  | .accept? kind, walker =>
      .reading (walker.check? tokens kind) fun found =>
        if found then
          .reading (walker.advance? tokens) fun (token, next) => .ended (.ok (some token)) next
        else .ended (.ok none) walker
  | .freshId, walker =>
      match build.next? walker.nextId with
      | some nextId => .ended (.ok walker.nextId) { walker with nextId := nextId }
      | none => .overflow walker
  | .recover rule, walker =>
      match rule.walk build tokens walker with
      | .ended (.ok value) after => .ended (.ok (some value)) after
      | .ended (.error (.fault diagnostic)) after =>
          .reading ((after.collect diagnostic).synchronize? tokens) fun next =>
            .ended (.ok none) next
      | .ended (.error .exhausted) after => .ended (.error .exhausted) after
      | .overflow after => .overflow after
      | .outside => .outside

/-- The walker is where the cursor is: before the first end marker or at it.  It has been at every
place up to there once, one after the other.  In a checked build the identities have lasted. -/
structure Stands (build : Build) (before : List Token) (marker : Token) (walker : Walker)
    (cursor : Cursor) :
    Prop where
  le : walker.current ≤ before.length
  rest : cursor.rest = before.drop walker.current
  endLine : cursor.endLine = marker.line
  nextId : walker.nextId = .ofCount cursor.issued
  lasts : build = .checked → cursor.issued < UInt32.size
  faults : cursor.faults = walker.faults
  trail : walker.trail = List.range (walker.current + 1)

section Stands

variable {build : Build} {before : List Token} (behind : List Token) {marker : Token}
  {walker : Walker} {cursor : Cursor}

theorem Stands.forward (h : Stands build before marker walker cursor) {token : Token}
    {rest : List Token} (hrest : cursor.rest = token :: rest) :
    Stands build before marker walker.forward { cursor with rest := rest } := by
  have hdrop : before.drop walker.current = token :: rest := h.rest.symm.trans hrest
  have hlt : walker.current < before.length := by
    by_contra hge
    rw [List.drop_eq_nil_of_le (Nat.not_lt.mp hge)] at hdrop
    cases hdrop
  refine ⟨hlt, ?_, h.endLine, h.nextId, h.lasts, h.faults, ?_⟩
  · show rest = before.drop (walker.current + 1)
    rw [← List.tail_drop, hdrop, List.tail_cons]
  · show walker.trail ++ [walker.current + 1] = List.range (walker.current + 1 + 1)
    rw [List.range_succ, h.trail]

theorem Stands.collect (h : Stands build before marker walker cursor) (diagnostic : Diagnostic) :
    Stands build before marker (walker.collect diagnostic)
      { cursor with faults := cursor.faults ++ [diagnostic] } :=
  ⟨h.le, h.rest, h.endLine, h.nextId, h.lasts, congrArg (· ++ [diagnostic]) h.faults, h.trail⟩

/-- Before the end, the walker reads the cursor's next token, and once it has moved on that is the
token before. -/
theorem Stands.peek?_cons (h : Stands build before marker walker cursor) {token : Token}
    {rest : List Token} (hrest : cursor.rest = token :: rest) :
    walker.peek? (before ++ marker :: behind) = some token ∧
      walker.forward.previous? (before ++ marker :: behind) = some token := by
  have hdrop : before.drop walker.current = token :: rest := h.rest.symm.trans hrest
  have hget : (before ++ marker :: behind)[walker.current]? = some token := by
    have hhead := List.head?_drop (l := before) (i := walker.current)
    rw [hdrop, List.head?_cons] at hhead
    have hlt := (List.getElem?_eq_some_iff.mp hhead.symm).1
    rw [List.getElem?_append_left hlt, ← hhead]
  exact ⟨hget, hget⟩

/-- At the end, it reads the end marker. -/
theorem Stands.peek?_nil (h : Stands build before marker walker cursor) (hrest : cursor.rest = []) :
    walker.peek? (before ++ marker :: behind) = some marker := by
  have hcurrent : walker.current = before.length := by
    have hle := List.drop_eq_nil_iff.mp (h.rest.symm.trans hrest)
    exact Nat.le_antisymm h.le hle
  rw [Walker.peek?, hcurrent, List.getElem?_append_right (Nat.le_refl _), Nat.sub_self]
  rfl

theorem Stands.lt_length (h : Stands build before marker walker cursor) :
    walker.current < (before ++ marker :: behind).length := by
  have hle := h.le
  simp only [List.length_append, List.length_cons]
  omega

end Stands

/-! ### Walker and cursor side by side -/

section Vector

variable {build : Build} {before : List Token} (behind : List Token) {marker : Token}
  (hbefore : ∀ token ∈ before, token.kind.isEndOfInput = false)
  (hmarker : marker.kind.isEndOfInput = true)
  {walker : Walker} {cursor : Cursor}

include hbefore in
theorem Stands.next_open (h : Stands build before marker walker cursor) {token : Token}
    {rest : List Token} (hrest : cursor.rest = token :: rest) :
    token.kind.isEndOfInput = false := by
  refine hbefore token (List.mem_of_mem_drop (i := walker.current) ?_)
  rw [← h.rest, hrest]
  exact List.mem_cons_self

include hbefore hmarker

theorem Stands.atEnd? (h : Stands build before marker walker cursor) :
    walker.atEnd? (before ++ marker :: behind) = some cursor.rest.isEmpty := by
  unfold Walker.atEnd?
  cases hrest : cursor.rest with
  | nil => simp [h.peek?_nil behind hrest, hmarker]
  | cons token rest => simp [(h.peek?_cons behind hrest).1, h.next_open hbefore hrest]

theorem Stands.check? (h : Stands build before marker walker cursor) (kind : Kind → Bool) :
    walker.check? (before ++ marker :: behind) kind =
      some (cursor.rest.head?.any fun token => kind token.kind) := by
  unfold Walker.check?
  rw [h.atEnd? behind hbefore hmarker]
  cases hrest : cursor.rest with
  | nil => simp
  | cons token rest => simp [(h.peek?_cons behind hrest).1]

omit hbefore in
theorem Stands.diagnose? (h : Stands build before marker walker cursor) (fault : GrammarFault) :
    walker.diagnose? (before ++ marker :: behind) fault = some (cursor.diagnose fault) := by
  unfold Walker.diagnose? Cursor.diagnose
  cases hrest : cursor.rest with
  | nil => simp [h.peek?_nil behind hrest, Token.location, hmarker, h.endLine]
  | cons token rest => simp [(h.peek?_cons behind hrest).1]

/-- Before the end, the walker takes the cursor's next token. -/
theorem Stands.advance?_cons (h : Stands build before marker walker cursor) {token : Token}
    {rest : List Token} (hrest : cursor.rest = token :: rest) :
    walker.advance? (before ++ marker :: behind) = some (token, walker.forward) := by
  unfold Walker.advance?
  rw [h.atEnd? behind hbefore hmarker, hrest]
  simp [(h.peek?_cons behind hrest).2]

/-- At the end, it stays where it is. -/
theorem Stands.advance?_nil (h : Stands build before marker walker cursor)
    (hrest : cursor.rest = []) :
    ∃ token, walker.advance? (before ++ marker :: behind) = some (token, walker) := by
  have hlt : walker.current - 1 < (before ++ marker :: behind).length :=
    Nat.lt_of_le_of_lt (Nat.sub_le _ _) (h.lt_length behind)
  refine ⟨(before ++ marker :: behind)[walker.current - 1], ?_⟩
  unfold Walker.advance?
  rw [h.atEnd? behind hbefore hmarker, hrest]
  simp [Walker.previous?, List.getElem?_eq_getElem hlt]

/-- Behind a token that was skipped, both move on to the same boundary. -/
theorem Stands.settle? {skipped : Token} {rest : List Token}
    (h : Stands build before marker walker { cursor with rest := rest })
    (hskipped : walker.previous? (before ++ marker :: behind) = some skipped) :
    ∃ next, walker.settle? (before ++ marker :: behind) = some next ∧
      Stands build before marker next { cursor with rest := Cursor.boundary skipped rest } := by
  induction rest generalizing walker skipped with
  | nil =>
      exact ⟨walker, Walker.settle?_marker (h.peek?_nil behind rfl) hmarker, h⟩
  | cons token rest ih =>
      obtain ⟨hpeek, hprevious⟩ := h.peek?_cons behind rfl
      rw [Walker.settle?_token hpeek (h.next_open hbefore rfl) hskipped, Cursor.boundary]
      by_cases hboundary :
          (skipped.kind.isMark .semicolon || Cursor.startsStatement token.kind) = true
      · rw [if_pos hboundary, if_pos hboundary]
        exact ⟨walker, rfl, h⟩
      · rw [if_neg hboundary, if_neg hboundary]
        exact ih (h.forward rfl) hprevious

/-- After a fault, both go on at the same place. -/
theorem Stands.synchronize? (h : Stands build before marker walker cursor) :
    ∃ next, walker.synchronize? (before ++ marker :: behind) = some next ∧
      Stands build before marker next { cursor with rest := Cursor.resume cursor.rest } := by
  unfold Walker.synchronize?
  cases hrest : cursor.rest with
  | nil =>
      obtain ⟨token, htoken⟩ := h.advance?_nil behind hbefore hmarker hrest
      have hstop := Walker.settle?_marker (h.peek?_nil behind hrest) hmarker
      refine ⟨walker, by simp only [htoken, Option.bind_eq_bind, Option.bind_some, hstop], ?_⟩
      rw [Cursor.resume, ← hrest]
      exact h
  | cons token rest =>
      have hadvance := h.advance?_cons behind hbefore hmarker hrest
      obtain ⟨next, hnext, hstands⟩ := (h.forward hrest).settle? behind hbefore hmarker
        (h.peek?_cons behind hrest).2
      exact ⟨next, by simp only [hadvance, Option.bind_eq_bind, Option.bind_some, hnext], hstands⟩

omit hbefore hmarker in
theorem NodeId.ofCount_succ (issued : Nat) :
    NodeId.ofCount issued + 1 = .ofCount (issued + 1) :=
  (UInt32.ofNat_add issued 1).symm

omit hbefore hmarker in
theorem NodeId.toNat_ofCount {issued : Nat} (h : issued < UInt32.size) :
    (NodeId.ofCount issued).toNat = issued :=
  UInt32.toNat_ofNat_of_lt' h

omit hbefore hmarker in
/-- The walker goes past an identity if there is one more, or if sums are not checked. -/
theorem Stands.next? (h : Stands build before marker walker cursor) :
    build.next? walker.nextId =
      if build = .checked ∧ UInt32.size ≤ cursor.issued + 1 then none
      else some (.ofCount (cursor.issued + 1)) := by
  have hlasts := h.lasts
  rw [h.nextId]
  cases build with
  | unchecked => simp [Build.next?, NodeId.ofCount_succ]
  | checked =>
      rw [Build.next?, NodeId.toNat_ofCount (hlasts rfl), NodeId.ofCount_succ]
      by_cases hfits : cursor.issued + 1 < UInt32.size
      · rw [if_pos hfits, if_neg fun hfull => absurd hfull.2 (Nat.not_le.mpr hfits)]
      · rw [if_neg hfits, if_pos ⟨rfl, Nat.not_lt.mp hfits⟩]

end Vector

end Scriptlet.Reading
