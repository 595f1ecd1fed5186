/-
The position of a reader in a token list, and the steps that every rule of the
grammar is made of.

Nothing behind the first end marker is ever looked at, and of the marker itself
only its line shows, so a cursor holds the tokens before it and that line.
Faults that do not stop a rule are collected; one that does is thrown.
-/
import Scriptlet.Diagnostic
import Scriptlet.Tree.Basic

namespace Scriptlet

structure Cursor where
  rest : List Token
  /-- The line of the end marker. -/
  endLine : Nat
  /-- The number of identities handed out so far. -/
  issued : Nat
  faults : List Diagnostic

/-- Why a rule gave up. -/
inductive Halt where
  | fault (diagnostic : Diagnostic)
  /-- The bound on the nesting was too small for the tokens. -/
  | exhausted

/-- A rule of the grammar: it moves the cursor on and gives a result. -/
abbrev Reader := EStateM Halt Cursor

namespace Cursor

/-- A list without end marker ends on the line of its last token. -/
def ofTokens (tokens : List Token) (issued : Nat) : Cursor :=
  let open? := fun (token : Token) => !token.kind.isEndOfInput
  let endLine :=
    match tokens.dropWhile open?, tokens.getLast? with
    | marker :: _, _ => marker.line
    | [], some last => last.line
    | [], none => 1
  ⟨tokens.takeWhile open?, endLine, issued, []⟩

/-- The report of a fault at the next token. -/
def diagnose (cursor : Cursor) (fault : GrammarFault) : Diagnostic :=
  match cursor.rest with
  | token :: _ => .grammar token.line token.location fault
  | [] => .grammar cursor.endLine .atEnd fault

/-- Tokens that begin a statement whatever stands before them. -/
def startsStatement : Kind → Bool
  | .keyword .class_ => true
  | .keyword .fun_ => true
  | .keyword .var_ => true
  | .keyword .for_ => true
  | .keyword .if_ => true
  | .keyword .while_ => true
  | .keyword .print_ => true
  | .keyword .return_ => true
  | _ => false

/-- The tokens from the next statement boundary on, `skipped` being the token
before them: behind a semicolon, or at a token that starts a statement. -/
def boundary (skipped : Token) : List Token → List Token
  | [] => []
  | token :: rest =>
      if skipped.kind.isMark .semicolon || startsStatement token.kind then token :: rest
      else boundary token rest

/-- Where reading goes on after a fault: at least one token is skipped. -/
def resume : List Token → List Token
  | [] => []
  | token :: rest => boundary token rest

end Cursor

namespace Reader

section Run

variable {α β : Type}

@[simp] theorem pure_apply (value : α) (cursor : Cursor) :
    (pure value : Reader α) cursor = .ok value cursor := rfl

@[simp] theorem throw_apply (reason : Halt) (cursor : Cursor) :
    (throw reason : Reader α) cursor = .error reason cursor := rfl

@[simp] theorem modify_apply (change : Cursor → Cursor) (cursor : Cursor) :
    (modify change : Reader Unit) cursor = .ok () (change cursor) := rfl

@[simp] theorem map_apply (result : α → β) (rule : Reader α) (cursor : Cursor) :
    (result <$> rule) cursor =
      match rule cursor with
      | .ok value after => .ok (result value) after
      | .error reason after => .error reason after := by
  cases h : rule cursor <;> simp [Functor.map, EStateM.map, h]

/-- The second rule begins where the first one ended; giving up ends both. -/
@[simp] theorem bind_apply (rule : Reader α) (next : α → Reader β) (cursor : Cursor) :
    (rule >>= next) cursor =
      match rule cursor with
      | .ok value after => next value after
      | .error reason after => .error reason after := by
  cases h : rule cursor <;> simp [bind, EStateM.bind, h]

end Run

def halt {α : Type} (fault : GrammarFault) : Reader α := fun cursor =>
  .error (.fault (cursor.diagnose fault)) cursor

def exhausted {α : Type} : Reader α :=
  throw .exhausted

/-- Collect a fault and go on. -/
def report (diagnostic : Diagnostic) : Reader Unit :=
  modify fun cursor => { cursor with faults := cursor.faults ++ [diagnostic] }

def reportHere (fault : GrammarFault) : Reader Unit := fun cursor =>
  report (cursor.diagnose fault) cursor

/-- Whether the next token has such a kind; there is none at the end. -/
def looksAt (kind : Kind → Bool) : Reader Bool := fun cursor =>
  match cursor.rest with
  | token :: _ => .ok (kind token.kind) cursor
  | [] => .ok false cursor

def atEnd : Reader Bool := fun cursor =>
  .ok cursor.rest.isEmpty cursor

/-- Take the next token if it has such a kind. -/
def accept? (kind : Kind → Bool) : Reader (Option Token) := fun cursor =>
  match cursor.rest with
  | token :: rest =>
      if kind token.kind then .ok (some token) { cursor with rest := rest }
      else .ok none cursor
  | [] => .ok none cursor

/-- Take the next token, which must have such a kind. -/
def expect (kind : Kind → Bool) (fault : GrammarFault) : Reader Token := do
  match ← accept? kind with
  | some token => return token
  | none => halt fault

/-- Take an identity that no other node has.  Behind the last one the count goes on from zero, as
where sums are not checked; a build that checks them stops there. -/
def freshId : Reader NodeId := fun cursor =>
  .ok (.ofCount cursor.issued) { cursor with issued := cursor.issued + 1 }

/-- Collect the fault that stopped a rule and move to the next boundary. -/
def recover {α : Type} (rule : Reader α) : Reader (Option α) := fun cursor =>
  match rule cursor with
  | .ok value after => .ok (some value) after
  | .error (.fault diagnostic) after =>
      .ok none
        { after with
          rest := Cursor.resume after.rest
          faults := after.faults ++ [diagnostic] }
  | .error .exhausted after => .error .exhausted after

end Reader

end Scriptlet
