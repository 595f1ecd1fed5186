/-
An `else` that could belong to several `if` loses nothing by going to the
nearest: what is derivable at all is derivable strictly, though perhaps with
another tree.
-/
import Scriptlet.Proofs.Grammar.Derives

namespace Scriptlet.Grammar

/-- An `else` branch behind a statement that ends in an `if` without one makes a
longer statement. -/
def TakesElse : (symbol : Symbol) → Nat → List Token → symbol.Tree → Nat → Prop
  | .statement true, n, tokens, _, k =>
      ∀ (else_ : Token) (others : List Token) (other : Stmt) (m : Nat) (dangling : Bool),
        else_.IsKeyword .else_ → Derives true (.statement dangling) k others other m →
          ∃ longer tree, Derives true (.statement longer) n (tokens ++ else_ :: others) tree m
  | _, _, _, _, _ => True

theorem takesElse {symbol : Symbol} {n k : Nat} {tokens : List Token} {tree : symbol.Tree}
    (h : Derives true symbol n tokens tree k) : TakesElse symbol n tokens tree k := by
  induction h with
  | @for_ _ _ _ _ _ _ _ _ _ _ _ _ _ _ _ _ _ dangling hlead hopen hinitial htest hend hstep hclose
      hinner _ _ _ ih =>
      cases dangling with
      | false => trivial
      | true =>
          intro else_ others other m dangling helse hother
          obtain ⟨longer, body, hbody⟩ := ih else_ others other m dangling helse hother
          exact ⟨longer, _, by
            simpa using Derives.for_ hlead hopen hinitial htest hend hstep hclose hbody⟩
  | @if_ _ _ _ _ _ _ _ _ _ _ inside hlead hopen htest hclose hinner _ ih =>
      intro else_ others other m dangling helse hother
      cases inside with
      | false =>
          exact ⟨dangling, _, by
            simpa using Derives.ifElse hlead hopen htest hclose hinner (fun _ => rfl) helse
              hother⟩
      | true =>
          obtain ⟨longer, body, hbody⟩ := ih else_ others other m dangling helse hother
          exact ⟨true, _, by simpa using Derives.if_ hlead hopen htest hclose hbody⟩
  | @ifElse _ _ _ _ _ _ _ _ _ _ _ _ _ _ _ dangling hlead hopen htest hclose hinner hnearest hor
      hfalse _ _ ih =>
      cases dangling with
      | false => trivial
      | true =>
          intro else_ others other m dangling helse hother
          obtain ⟨longer, body, hbody⟩ := ih else_ others other m dangling helse hother
          exact ⟨longer, _, by
            simpa using Derives.ifElse hlead hopen htest hclose hinner hnearest hor hbody⟩
  | @while_ _ _ _ _ _ _ _ _ _ _ dangling hlead hopen htest hclose hinner _ ih =>
      cases dangling with
      | false => trivial
      | true =>
          intro else_ others other m dangling helse hother
          obtain ⟨longer, body, hbody⟩ := ih else_ others other m dangling helse hother
          exact ⟨longer, _, by simpa using Derives.while_ hlead hopen htest hclose hbody⟩
  | _ => trivial

/-- The same tokens have a strict derivation, where no statement is contained
even with the same tree. -/
def HasStrict : (symbol : Symbol) → Nat → List Token → symbol.Tree → Nat → Prop
  | .program, n, tokens, _, m => ∃ tree, Derives true .program n tokens tree m
  | .declarations, n, tokens, _, m => ∃ tree, Derives true .declarations n tokens tree m
  | .declaration, n, tokens, _, m => ∃ tree, Derives true .declaration n tokens tree m
  | .statement _, n, tokens, _, m =>
      ∃ dangling tree, Derives true (.statement dangling) n tokens tree m
  | .block, n, tokens, _, m => ∃ tree, Derives true .block n tokens tree m
  | symbol, n, tokens, tree, m => Derives true symbol n tokens tree m

theorem hasStrict {strict : Bool} {symbol : Symbol} {n m : Nat} {tokens : List Token}
    {tree : symbol.Tree} (h : Derives strict symbol n tokens tree m) :
    HasStrict symbol n tokens tree m := by
  induction h with
  | program _ hend ih =>
      obtain ⟨body, hbody⟩ := ih
      exact ⟨body, .program hbody hend⟩
  | lone _ hend ih => exact .lone ih hend
  | nothing => exact ⟨[], .nothing⟩
  | declarations _ _ ihHead ihTail =>
      obtain ⟨first, hfirst⟩ := ihHead
      obtain ⟨rest, hrest⟩ := ihTail
      exact ⟨first :: rest, .declarations hfirst hrest⟩
  | function hlead hname hopen _ hclose hlimit _ ihParams ihBlock =>
      obtain ⟨body, hbody⟩ := ihBlock
      exact ⟨_, .function hlead hname hopen ihParams hclose hlimit hbody⟩
  | var_ _ ih => exact ⟨_, .var_ ih⟩
  | statement _ ih =>
      obtain ⟨dangling, tree, htree⟩ := ih
      exact ⟨tree, .statement htree⟩
  | block hopen _ hclose ih =>
      obtain ⟨body, hbody⟩ := ih
      exact ⟨body, .block hopen hbody hclose⟩
  | uninitialized hlead hname hend => exact .uninitialized hlead hname hend
  | initialized hlead hname hequal _ hend ih => exact .initialized hlead hname hequal ih hend
  | expression _ ih => exact ⟨false, _, .expression ih⟩
  | for_ hlead hopen _ _ hend _ hclose _ ihInitial ihTest ihStep ihInner =>
      obtain ⟨dangling, body, hbody⟩ := ihInner
      exact ⟨dangling, _, .for_ hlead hopen ihInitial ihTest hend ihStep hclose hbody⟩
  | if_ hlead hopen _ hclose _ ihTest ihInner =>
      obtain ⟨dangling, body, hbody⟩ := ihInner
      exact ⟨true, _, .if_ hlead hopen ihTest hclose hbody⟩
  | ifElse hlead hopen _ hclose _ _ hor _ ihTest ihInner ihOther =>
      obtain ⟨inside, whenTrue, htrue⟩ := ihInner
      obtain ⟨dangling, whenFalse, hfalse⟩ := ihOther
      cases inside with
      | false =>
          exact ⟨dangling, _, .ifElse hlead hopen ihTest hclose htrue (fun _ => rfl) hor hfalse⟩
      | true =>
          -- The `else` moves inward, so that this `if` is left without one.
          obtain ⟨longer, body, hbody⟩ := takesElse htrue _ _ _ _ _ hor hfalse
          exact ⟨true, _, .if_ hlead hopen ihTest hclose hbody⟩
  | print hlead _ hend ih => exact ⟨false, _, .print hlead ih hend⟩
  | return_ hlead _ hend ih => exact ⟨false, _, .return_ hlead ih hend⟩
  | while_ hlead hopen _ hclose _ ihTest ihInner =>
      obtain ⟨dangling, body, hbody⟩ := ihInner
      exact ⟨dangling, _, .while_ hlead hopen ihTest hclose hbody⟩
  | blockStatement _ ih =>
      obtain ⟨body, hbody⟩ := ih
      exact ⟨false, _, .blockStatement hbody⟩
  | expressionStatement _ hend ih => exact .expressionStatement ih hend
  | noInitializer hend => exact .noInitializer hend
  | initialVariable _ ih => exact .initialVariable ih
  | initialExpression _ ih => exact .initialExpression ih
  | parameter hname => exact .parameter hname
  | parameters hname hcomma _ ih => exact .parameters hname hcomma ih
  | noParameters => exact .noParameters
  | someParameters _ ih => exact .someParameters ih
  | noExpression => exact .noExpression
  | someExpression _ ih => exact .someExpression ih
  | tighter htighter _ ih => exact .tighter htighter ih
  | assign hname hequal _ ih => exact .assign hname hequal ih
  | operator htighter _ hsign _ ihLeft ihRight => exact .operator htighter ihLeft hsign ihRight
  | unary hsign _ ih => exact .unary hsign ih
  | call _ hopen _ hclose hlimit ihCallee ihArguments =>
      exact .call ihCallee hopen ihArguments hclose hlimit
  | number hliteral => exact .number hliteral
  | string hliteral => exact .string hliteral
  | true_ hword => exact .true_ hword
  | false_ hword => exact .false_ hword
  | nil_ hword => exact .nil_ hword
  | name hname => exact .name hname
  | group hopen _ hclose ih => exact .group hopen ih hclose
  | argument _ ih => exact .argument ih
  | arguments _ hcomma _ ihValue ihTail => exact .arguments ihValue hcomma ihTail
  | noArguments => exact .noArguments
  | someArguments _ ih => exact .someArguments ih

end Scriptlet.Grammar
