/-
Faults that stop no rule, and the tokens that lead to them.

An equals sign leads to one where no name stands before it that could be assigned to, and a comma
where as many others as a list may have stand before it in the same parentheses.  Whether a token
is of that sort shows in the tokens before it, whatever rule takes it, and wherever reading went on
after other faults.  So in no list of tokens are there more of these faults than such tokens.
-/
import Scriptlet.Proofs.Reading.Spends

namespace Scriptlet.Recovery

open Reader Reading

/-- The kinds that stand before an operand. -/
def isSign (kind : Kind) : Bool :=
  isUnaryOperator kind || isFactorOperator kind || isTermOperator kind ||
    isComparisonOperator kind || isEqualityOperator kind || kind.isKeyword .and_ ||
    kind.isKeyword .or_

/-! ### What shows in the tokens before, the last of them first -/

/-- An operand is to come. -/
def signed (before : List Token) : Bool :=
  before.head?.any fun sign => isSign sign.kind

/-- An equals sign, but not behind a name that is an operand of nothing. -/
def strayEqual (before : List Token) (token : Token) : Bool :=
  token.kind.isMark .equal &&
    match before with
    | name :: others => !name.kind.isIdentifier || signed others
    | [] => true

/-- How many commas stand before in the same parentheses, where so many others were closed that
are still to be opened. -/
def siblings : Nat → List Token → Nat
  | _, [] => 0
  | depth, token :: before =>
      if token.kind.isMark .rightParen then siblings (depth + 1) before
      else if token.kind.isMark .leftParen then
        if depth = 0 then 0 else siblings (depth - 1) before
      else if token.kind.isMark .comma && depth == 0 then siblings 0 before + 1
      else siblings depth before

/-- A comma behind which no more elements are allowed. -/
def lateComma (before : List Token) (token : Token) : Bool :=
  token.kind.isMark .comma && decide (maxArity ≤ siblings 0 before + 1)

def earns (before : List Token) (token : Token) : Bool :=
  strayEqual before token || lateComma before token

/-- How many tokens are of that sort, each behind all the others. -/
def countAlong (sort : List Token → Token → Bool) : List Token → List Token → Nat
  | _, [] => 0
  | before, token :: rest =>
      (if sort before token then 1 else 0) + countAlong sort (token :: before) rest

/-- The number of faults that stopped no rule. -/
def milds (faults : List Diagnostic) : Nat :=
  faults.countP Diagnostic.isMild

/-- The rule went over tokens that lead to all faults it found beyond the credit, and has this
property with its value; the fault that stopped it is none of these. -/
def Earned {α : Type} (P : α → List Token → Prop) (before rest : List Token) (credit : Nat) :
    EStateM.Result Halt Cursor α → Prop
  | .ok value after =>
      ∃ taken, rest = taken ++ after.rest ∧
        milds after.faults ≤ credit + countAlong earns before taken ∧ P value taken
  | .error (.fault diagnostic) after =>
      diagnostic.isMild = false ∧ ∃ taken, rest = taken ++ after.rest ∧
        milds after.faults ≤ credit + countAlong earns before taken
  | .error .exhausted _ => True

/-- So it does wherever it begins. -/
def Earns {α : Type} (P : α → List Token → Prop) (rule : Reader α) : Prop :=
  ∀ before cursor, Earned P before cursor.rest (milds cursor.faults) (rule cursor)

section Along

variable {sort : List Token → Token → Bool} (before : List Token) {first others : List Token}

theorem countAlong_append (first others : List Token) :
    countAlong sort before (first ++ others) =
      countAlong sort before first + countAlong sort (first.reverse ++ before) others := by
  induction first generalizing before with
  | nil => exact (Nat.zero_add _).symm
  | cons token first ih =>
      rw [List.cons_append, countAlong, countAlong, ih, List.reverse_cons, List.append_assoc,
        List.singleton_append, Nat.add_assoc]

theorem countAlong_le_append (first others : List Token) :
    countAlong sort before first ≤ countAlong sort before (first ++ others) := by
  rw [countAlong_append]
  exact Nat.le_add_right _ _

/-- Whatever stands before, they are tokens of certain kinds. -/
theorem countAlong_le_countP {kinds : Kind → Bool}
    (h : ∀ before token, sort before token = true → kinds token.kind = true) (tokens : List Token) :
    countAlong sort before tokens ≤ tokens.countP fun token => kinds token.kind := by
  induction tokens generalizing before with
  | nil => exact Nat.le_refl _
  | cons token tokens ih =>
      rw [List.countP_cons, Nat.add_comm]
      refine Nat.add_le_add ?_ (ih _)
      by_cases hsort : sort before token = true
      · exact Nat.le_of_eq ((if_pos hsort).trans (if_pos (h before token hsort)).symm)
      · rw [if_neg hsort]
        exact Nat.zero_le _

theorem strayEqual_le_equals (tokens : List Token) :
    countAlong strayEqual before tokens ≤ tokens.countP fun token => token.kind.isMark .equal :=
  countAlong_le_countP before (fun _ _ hstray => (Bool.and_eq_true_iff.mp hstray).1) tokens

theorem lateComma_le_commas (tokens : List Token) :
    countAlong lateComma before tokens ≤ tokens.countP fun token => token.kind.isMark .comma :=
  countAlong_le_countP before (fun _ _ hlate => (Bool.and_eq_true_iff.mp hlate).1) tokens

theorem countAlong_earns (tokens : List Token) :
    countAlong earns before tokens ≤
      countAlong strayEqual before tokens + countAlong lateComma before tokens := by
  induction tokens generalizing before with
  | nil => exact Nat.le_refl _
  | cons token tokens ih =>
      have hrest := ih (token :: before)
      have hone : (if earns before token then 1 else 0) ≤
          (if strayEqual before token then 1 else 0) + if lateComma before token then 1 else 0 := by
        unfold earns
        cases strayEqual before token <;> cases lateComma before token <;> simp
      simp only [countAlong]
      omega

theorem milds_mild {diagnostic : Diagnostic} (h : diagnostic.isMild = true)
    (faults : List Diagnostic) : milds (faults ++ [diagnostic]) = milds faults + 1 := by
  simp [milds, h]

theorem milds_grave {diagnostic : Diagnostic} (h : diagnostic.isMild = false)
    (faults : List Diagnostic) : milds (faults ++ [diagnostic]) = milds faults := by
  simp [milds, h]

end Along

/-! ### Parentheses -/

/-- The tokens are no elements of a list that they stand in, nor commas of it. -/
def Apart (tokens : List Token) : Prop :=
  ∀ depth before, siblings depth (tokens.reverse ++ before) = siblings depth before

/-- So it is outside the parentheses that they stand in. -/
def Nested (tokens : List Token) : Prop :=
  ∀ depth before, siblings (depth + 1) (tokens.reverse ++ before) = siblings (depth + 1) before

section Parentheses

variable {tokens others : List Token} {token lparen rparen : Token}

theorem Apart.nested (h : Apart tokens) : Nested tokens :=
  fun depth => h (depth + 1)

theorem apart_nil : Apart [] :=
  fun _ _ => rfl

theorem Apart.append (h : Apart tokens) (hothers : Apart others) : Apart (tokens ++ others) := by
  intro depth before
  rw [List.reverse_append, List.append_assoc, hothers, h]

theorem Nested.append (h : Nested tokens) (hothers : Nested others) :
    Nested (tokens ++ others) := by
  intro depth before
  rw [List.reverse_append, List.append_assoc, hothers, h]

theorem siblings_one (hleft : token.kind ≠ .mark .leftParen)
    (hright : token.kind ≠ .mark .rightParen) (hcomma : token.kind ≠ .mark .comma) (depth : Nat)
    (before : List Token) : siblings depth (token :: before) = siblings depth before := by
  rw [siblings, if_neg (mt Kind.isMark_iff.mp hright), if_neg (mt Kind.isMark_iff.mp hleft),
    if_neg]
  rw [Bool.and_eq_true]
  exact fun h => hcomma (Kind.isMark_iff.mp h.1)

theorem siblings_rightParen (h : token.IsMark .rightParen) (depth : Nat) (before : List Token) :
    siblings depth (token :: before) = siblings (depth + 1) before := by
  rw [siblings, if_pos (Kind.isMark_iff.mpr h)]

theorem siblings_leftParen (h : token.IsMark .leftParen) (depth : Nat) (before : List Token) :
    siblings (depth + 1) (token :: before) = siblings depth before := by
  simp [siblings, h, Kind.isMark]

theorem siblings_comma (h : token.IsMark .comma) (before : List Token) :
    siblings 0 (token :: before) = siblings 0 before + 1 := by
  simp [siblings, h, Kind.isMark]

theorem apart_one (hleft : token.kind ≠ .mark .leftParen) (hright : token.kind ≠ .mark .rightParen)
    (hcomma : token.kind ≠ .mark .comma) : Apart [token] :=
  siblings_one hleft hright hcomma

theorem nested_comma (h : token.IsMark .comma) : Nested [token] := by
  intro depth before
  simp [siblings, h, Kind.isMark]

theorem Nested.parens (h : Nested tokens) (hopen : lparen.IsMark .leftParen)
    (hclose : rparen.IsMark .rightParen) : Apart (lparen :: (tokens ++ [rparen])) := by
  intro depth before
  have htokens : (lparen :: (tokens ++ [rparen])).reverse ++ before =
      rparen :: (tokens.reverse ++ lparen :: before) := by simp
  rw [htokens, siblings_rightParen hclose, h, siblings_leftParen hopen]

theorem apart_sign (h : isSign token.kind = true) : Apart [token] := by
  refine apart_one ?_ ?_ ?_ <;>
  · intro hkind
    rw [hkind] at h
    cases h

end Parentheses

/-! ### Rules one after the other -/

section Steps

variable {α β : Type} {P P' : α → List Token → Prop} {Q : β → List Token → Prop} {rule : Reader α}
  {next : α → Reader β} {before rest others first : List Token} {credit more : Nat}

/-- What was taken before, and what these tokens lead to, counts too. -/
theorem Earned.behind {result : EStateM.Result Halt Cursor α}
    (h : Earned (fun value taken => P value (first ++ taken)) (first.reverse ++ before) others more
      result)
    (hrest : rest = first ++ others) (hmore : more ≤ credit + countAlong earns before first) :
    Earned P before rest credit result := by
  have htotal : ∀ {faults : List Diagnostic} {taken : List Token},
      milds faults ≤ more + countAlong earns (first.reverse ++ before) taken →
        milds faults ≤ credit + countAlong earns before (first ++ taken) := by
    intro faults taken hle
    rw [countAlong_append]
    omega
  match result with
  | .ok value after =>
      obtain ⟨taken, hothers, hle, hvalue⟩ := h
      exact ⟨first ++ taken, by rw [hrest, hothers, List.append_assoc], htotal hle, hvalue⟩
  | .error (.fault diagnostic) after =>
      obtain ⟨hgrave, taken, hothers, hle⟩ := h
      exact ⟨hgrave, first ++ taken, by rw [hrest, hothers, List.append_assoc], htotal hle⟩
  | .error .exhausted _ => trivial

theorem Earned.bind {result : EStateM.Result Halt Cursor α} (h : Earned P before rest credit result)
    (hnext : ∀ value taken after, P value taken →
      Earned (fun result others => Q result (taken ++ others)) (taken.reverse ++ before) after.rest
        (milds after.faults) (next value after)) :
    Earned Q before rest credit
      (match result with
      | .ok value after => next value after
      | .error reason after => .error reason after) := by
  match result with
  | .ok value after =>
      obtain ⟨taken, hrest, hle, hvalue⟩ := h
      exact (hnext value taken after hvalue).behind hrest hle
  | .error (.fault diagnostic) after => exact h
  | .error .exhausted _ => trivial

theorem Earned.mono {result : EStateM.Result Halt Cursor α} (h : Earned P before rest credit result)
    (hP : ∀ value taken, P value taken → P' value taken) : Earned P' before rest credit result := by
  match result with
  | .ok value after =>
      obtain ⟨taken, hrest, hle, hvalue⟩ := h
      exact ⟨taken, hrest, hle, hP value taken hvalue⟩
  | .error (.fault diagnostic) after => exact h
  | .error .exhausted _ => trivial

theorem Earns.mono (h : Earns P rule) (hP : ∀ value taken, P value taken → P' value taken) :
    Earns P' rule :=
  fun before cursor => (h before cursor).mono hP

theorem Earns.bind (h : Earns P rule)
    (hnext : ∀ value taken, P value taken →
      Earns (fun result others => Q result (taken ++ others)) (next value)) :
    Earns Q (rule >>= next) := by
  intro before cursor
  rw [bind_apply]
  exact (h before cursor).bind fun value taken after hvalue => hnext value taken hvalue _ after

theorem earned_here {value : α} {cursor : Cursor} (h : P value []) :
    Earned P before cursor.rest (milds cursor.faults) (.ok value cursor) :=
  ⟨[], rfl, Nat.le_refl _, h⟩

theorem earns_pure {value : α} (h : P value []) : Earns P (pure value) :=
  fun _ _ => earned_here h

theorem Earns.into {result : α → β} (h : Earns P rule)
    (hQ : ∀ value taken, P value taken → Q (result value) taken) :
    Earns Q (rule >>= fun value => pure (result value)) :=
  h.bind fun value taken hvalue => earns_pure ((List.append_nil taken).symm ▸ hQ value taken hvalue)

theorem earns_exhausted : Earns P (exhausted : Reader α) :=
  fun _ _ => trivial

theorem earns_halt {fault : GrammarFault} (h : fault.isMild = false) :
    Earns P (halt fault : Reader α) :=
  fun _ cursor => ⟨(cursor.isMild_diagnose fault).trans h, [], rfl, Nat.le_refl _⟩

theorem earns_freshId : Earns (fun _ taken => taken = []) freshId :=
  fun _ _ => ⟨[], rfl, Nat.le_refl _, rfl⟩

theorem earns_looksAt (kind : Kind → Bool) : Earns (fun _ taken => taken = []) (looksAt kind) := by
  intro before cursor
  obtain ⟨found, hfound⟩ := looksAt_cases kind cursor
  rw [hfound]
  exact earned_here rfl

theorem Earns.accept {kind : Kind → Bool} {next : Option Token → Reader β}
    (hsome : ∀ token, kind token.kind = true →
      Earns (fun result taken => Q result (token :: taken)) (next (some token)))
    (hnone : Earns Q (next none)) : Earns Q (accept? kind >>= next) := by
  intro before cursor
  rw [bind_apply]
  rcases accept?_cases kind cursor with h | ⟨token, rest, hrest, hkind, h⟩
  · rw [h]
    exact hnone before cursor
  · rw [h]
    have hlater := hsome token hkind ([token].reverse ++ before) { cursor with rest := rest }
    exact hlater.behind hrest (Nat.le_add_right _ _)

theorem earns_expect {kind : Kind → Bool} {fault : GrammarFault} (h : fault.isMild = false) :
    Earns (fun token taken => kind token.kind = true ∧ taken = [token]) (expect kind fault) :=
  .accept (fun _ hkind => earns_pure ⟨hkind, rfl⟩) (earns_halt h)

end Steps

/-! ### Lists -/

section Items

variable {α : Type} {item : Reader α} {fault : GrammarFault} {bound count : Nat}

/-- A fault at an element that is one too many, which the comma before it led to. -/
theorem limit_cases (hmild : fault.isMild = true) (count : Nat) (cursor : Cursor) :
    ∃ faults, limit count fault cursor = .ok () { cursor with faults := faults } ∧
      milds faults = milds cursor.faults + if maxArity ≤ count then 1 else 0 := by
  rw [limit]
  split
  · exact ⟨_, rfl, milds_mild ((cursor.isMild_diagnose fault).trans hmild) _⟩
  · exact ⟨_, rfl, rfl⟩

/-- As many commas stand before the list's next element as elements; the last one of them may have
led to a fault at this element already. -/
theorem earned_items (hitem : Earns (fun _ taken => Apart taken) item)
    (hmild : fault.isMild = true) (before : List Token) (cursor : Cursor)
    (hcount : count ≤ siblings 0 before) :
    Earned (fun _ taken => Nested taken) before cursor.rest
      (milds cursor.faults + if maxArity ≤ count then 1 else 0)
      (items fault item bound count cursor) := by
  induction bound generalizing count before cursor with
  | zero => trivial
  | succ bound ih =>
      obtain ⟨faults, hlimit, hfaults⟩ := limit_cases hmild count cursor
      rw [items, bind_apply, hlimit, ← hfaults]
      dsimp only
      rw [bind_apply]
      refine (hitem before { cursor with faults := faults }).bind fun value taken after htaken => ?_
      rw [bind_apply]
      rcases accept?_cases (·.isMark .comma) after with h | ⟨comma, rest, hrest, hkind, h⟩
      · rw [h]
        exact earned_here ((List.append_nil taken).symm ▸ htaken.nested)
      rw [h]
      dsimp only
      rw [bind_apply]
      have hcomma : comma.IsMark .comma := Kind.isMark_iff.mp hkind
      have hbefore : siblings 0 (taken.reverse ++ before) = siblings 0 before := htaken 0 before
      -- The comma is late if the element behind it is one too many.
      have hlate : (if maxArity ≤ count + 1 then 1 else 0) ≤
          countAlong earns (taken.reverse ++ before) [comma] := by
        by_cases hmax : maxArity ≤ count + 1
        · have hearns : earns (taken.reverse ++ before) comma = true := by
            simp only [earns, lateComma, hkind, hbefore, Bool.true_and, Bool.or_eq_true,
              decide_eq_true_eq]
            exact Or.inr (by omega)
          rw [if_pos hmax, countAlong, if_pos hearns]
          exact Nat.le_add_right _ _
        · rw [if_neg hmax]
          exact Nat.zero_le _
      have hsplit : after.rest = [comma] ++ rest := hrest
      refine Earned.behind ?_ hsplit (Nat.add_le_add_left hlate _)
      refine (ih (comma :: (taken.reverse ++ before)) { after with rest := rest } ?_).bind
        fun values more last hmore => ?_
      · rw [siblings_comma hcomma, hbefore]
        exact Nat.succ_le_succ hcount
      · refine earned_here ?_
        rw [List.append_nil]
        exact htaken.nested.append ((nested_comma hcomma).append hmore)

theorem earns_items (hitem : Earns (fun _ taken => Apart taken) item)
    (hmild : fault.isMild = true) :
    Earns (fun _ taken => Nested taken) (items fault item bound 0) :=
  fun before cursor => earned_items hitem hmild before cursor (Nat.zero_le _)

end Items

/-! ### Expressions -/

/-- The tokens do not end in a name, or the name is an operand. -/
def Shows (tokens : List Token) : Prop :=
  ∃ front last, tokens = front ++ [last] ∧ (last.kind.isIdentifier = true →
    ∃ others sign, front = others ++ [sign] ∧ isSign sign.kind = true)

/-- What is read is a variable, or the tokens show that it is none. -/
structure Operand (value : Expr) (taken : List Token) : Prop where
  apart : Apart taken
  shows :
    ((∃ id name, value = .variable id name) ∧
      ∃ name, taken = [name] ∧ name.kind.isIdentifier = true) ∨ Shows taken

section Expressions

variable {inner operand : Reader Expr} {bound : Nat} {tokens : List Token}

theorem Shows.behind (h : Shows tokens) (first : List Token) : Shows (first ++ tokens) := by
  obtain ⟨front, last, rfl, hlast⟩ := h
  refine ⟨first ++ front, last, (List.append_assoc _ _ _).symm, fun hname => ?_⟩
  obtain ⟨others, sign, rfl, hsign⟩ := hlast hname
  exact ⟨first ++ others, sign, (List.append_assoc _ _ _).symm, hsign⟩

theorem shows_last {last : Token} (h : last.kind.isIdentifier = false) (front : List Token) :
    Shows (front ++ [last]) :=
  ⟨front, last, rfl, fun hname => absurd hname (by simp [h])⟩

/-- Behind a sign, an operand is no variable that could be assigned to. -/
theorem Operand.shows_signed {value : Expr} {sign : Token} (h : Operand value tokens)
    (hsign : isSign sign.kind = true) : Shows (sign :: tokens) := by
  rcases h.shows with ⟨-, name, rfl, -⟩ | hshows
  · exact ⟨[sign], name, rfl, fun _ => ⟨[], sign, rfl, hsign⟩⟩
  · exact hshows.behind [sign]

/-- So an equals sign behind it is stray. -/
theorem Shows.stray (h : Shows tokens) {equals : Token} (hequals : equals.IsMark .equal)
    (before : List Token) : strayEqual (tokens.reverse ++ before) equals = true := by
  obtain ⟨front, last, rfl, hlast⟩ := h
  have hmark : equals.kind.isMark .equal = true := Kind.isMark_iff.mpr hequals
  rw [List.reverse_append, List.reverse_singleton, List.singleton_append, List.cons_append,
    strayEqual, hmark]
  cases hname : last.kind.isIdentifier with
  | false => rfl
  | true =>
      obtain ⟨others, sign, rfl, hsign⟩ := hlast hname
      simp [signed, hsign]

theorem earns_chain (h : Earns Operand operand) {operators : Kind → Bool}
    (hsigns : ∀ kind, operators kind = true → isSign kind = true)
    (node : Expr → Token → Expr → Expr) (left : Expr) :
    Earns (fun value taken => Apart taken ∧ (value = left ∧ taken = [] ∨ Shows taken))
      (chain operators node operand bound left) := by
  induction bound generalizing left with
  | zero => exact earns_exhausted
  | succ bound ih =>
      apply Earns.accept
      · intro sign hkind
        have hsign := hsigns sign.kind hkind
        apply h.bind
        intro right taken htaken
        apply (ih (node left sign right)).mono
        rintro value others ⟨hapart, hothers⟩
        refine ⟨(apart_sign hsign).append (htaken.apart.append hapart), Or.inr ?_⟩
        rcases hothers with ⟨-, rfl⟩ | hshows
        · rw [List.append_nil]
          exact htaken.shows_signed hsign
        · exact hshows.behind (sign :: taken)
      · exact earns_pure ⟨apart_nil, Or.inl ⟨rfl, rfl⟩⟩

theorem earns_level (h : Earns Operand operand) {operators : Kind → Bool}
    (hsigns : ∀ kind, operators kind = true → isSign kind = true)
    (node : Expr → Token → Expr → Expr) : Earns Operand (level bound operators node operand) := by
  apply h.bind
  intro left taken htaken
  apply (earns_chain h hsigns node left).mono
  rintro value others ⟨hapart, hothers⟩
  refine ⟨htaken.apart.append hapart, ?_⟩
  rcases hothers with ⟨rfl, rfl⟩ | hshows
  · rw [List.append_nil]
    exact htaken.shows
  · exact Or.inr (hshows.behind taken)

theorem earns_argumentList (h : Earns (fun _ taken => Apart taken) inner) :
    Earns (fun _ taken => Nested taken) (argumentList bound inner) := by
  apply (earns_looksAt _).bind
  rintro closes taken rfl
  cases closes with
  | true => exact earns_pure apart_nil.nested
  | false =>
      have hmild : GrammarFault.isMild .tooManyArguments = true := rfl
      have hitems : Earns (fun _ taken => Nested taken)
          (items .tooManyArguments inner bound 0) := earns_items h hmild
      rw [← arguments_eq_items] at hitems
      exact hitems

/-- Parentheses with what stands between them. -/
theorem earns_parens {α β : Type} {rule : Reader α} {fault : GrammarFault}
    {next : α → Token → Reader β} {Q : β → List Token → Prop} {lparen : Token}
    (hopen : lparen.kind.isMark .leftParen = true) (h : Earns (fun _ taken => Nested taken) rule)
    (hgrave : fault.isMild = false)
    (hnext : ∀ value rparen taken, Apart taken → Shows taken →
      Earns (fun result others => Q result (taken ++ others)) (next value rparen)) :
    Earns (fun result taken => Q result (lparen :: taken))
      (rule >>= fun value => expect (·.isMark .rightParen) fault >>= next value) := by
  apply h.bind
  intro value taken htaken
  apply (earns_expect hgrave).bind
  rintro rparen _ ⟨hclose, rfl⟩
  have hmark : rparen.IsMark .rightParen := Kind.isMark_iff.mp hclose
  have hshows : Shows (lparen :: taken ++ [rparen]) := shows_last (by rw [hmark]; rfl) _
  apply (hnext value rparen _ (htaken.parens (Kind.isMark_iff.mp hopen) hmark) hshows).mono
  intro result others hresult
  simpa using hresult

theorem earns_calls (h : Earns (fun _ taken => Apart taken) inner) {rounds : Nat} (callee : Expr) :
    Earns (fun value taken => Apart taken ∧ (value = callee ∧ taken = [] ∨ Shows taken))
      (calls bound inner rounds callee) := by
  induction rounds generalizing callee with
  | zero => exact earns_exhausted
  | succ rounds ih =>
      apply Earns.accept
      · intro lparen hopen
        refine earns_parens (Q := fun value taken =>
          Apart taken ∧ (value = callee ∧ taken = [] ∨ Shows taken)) hopen (earns_argumentList h)
          rfl ?_
        intro arguments paren taken hapart hshows
        apply (ih (.call callee paren arguments)).mono
        rintro value others ⟨hothers, hvalue⟩
        refine ⟨hapart.append hothers, Or.inr ?_⟩
        rcases hvalue with ⟨-, rfl⟩ | hlast
        · rwa [List.append_nil]
        · exact hlast.behind taken
      · exact earns_pure ⟨apart_nil, Or.inl ⟨rfl, rfl⟩⟩

theorem earns_primary (h : Earns (fun _ taken => Apart taken) inner) :
    Earns Operand (primary inner) := by
  apply Earns.accept
  · intro token hconstant
    have hname : token.kind.isIdentifier = false := by
      cases hkind : token.kind <;> simp_all [constant?, Kind.isIdentifier]
    have hapart : Apart [token] := by
      refine apart_one ?_ ?_ ?_ <;>
      · intro hkind
        rw [hkind] at hconstant
        cases hconstant
    dsimp only
    split
    · exact earns_pure ⟨hapart, Or.inr (shows_last hname [])⟩
    · exact earns_halt rfl
  apply Earns.accept
  · intro name hname
    have hapart : Apart [name] := by
      refine apart_one ?_ ?_ ?_ <;>
      · intro hkind
        rw [hkind] at hname
        cases hname
    apply earns_freshId.into
    rintro id taken rfl
    exact ⟨hapart, Or.inl ⟨⟨id, name, rfl⟩, name, rfl, hname⟩⟩
  apply Earns.accept
  · intro lparen hopen
    dsimp only
    apply earns_parens hopen (h.mono fun _ _ => Apart.nested) rfl
    intro value rparen taken hapart hshows
    exact earns_pure ((List.append_nil taken).symm ▸ ⟨hapart, Or.inr hshows⟩)
  · exact earns_halt rfl

theorem earns_call (h : Earns (fun _ taken => Apart taken) inner) :
    Earns Operand (call bound inner) := by
  apply (earns_primary h).bind
  intro callee taken htaken
  apply (earns_calls h callee).mono
  rintro value others ⟨hapart, hothers⟩
  refine ⟨htaken.apart.append hapart, ?_⟩
  rcases hothers with ⟨rfl, rfl⟩ | hshows
  · rw [List.append_nil]
    exact htaken.shows
  · exact Or.inr (hshows.behind taken)

theorem earns_unary (h : Earns Operand operand) : Earns Operand (unary operand bound) := by
  induction bound with
  | zero => exact earns_exhausted
  | succ bound ih =>
      apply Earns.accept
      · intro sign hkind
        have hsign : isSign sign.kind = true := by simp [isSign, hkind]
        apply ih.into
        intro value taken htaken
        exact ⟨(apart_sign hsign).append htaken.apart, Or.inr (htaken.shows_signed hsign)⟩
      · exact h

theorem earns_disjunction (h : Earns (fun _ taken => Apart taken) inner) :
    Earns Operand (disjunction bound inner) := by
  have hfactor : Earns Operand (factor bound inner) :=
    earns_level (earns_unary (earns_call h)) (fun kind hkind => by simp [isSign, hkind]) .binary
  have hterm : Earns Operand (term bound inner) :=
    earns_level hfactor (fun kind hkind => by simp [isSign, hkind]) .binary
  have hcomparison : Earns Operand (comparison bound inner) :=
    earns_level hterm (fun kind hkind => by simp [isSign, hkind]) .binary
  have hequality : Earns Operand (equality bound inner) :=
    earns_level hcomparison (fun kind hkind => by simp [isSign, hkind]) .binary
  have hconjunction : Earns Operand (conjunction bound inner) :=
    earns_level hequality (fun kind hkind => by simp [isSign, hkind]) .logical
  exact earns_level hconjunction (fun kind hkind => by simp [isSign, hkind]) .logical

/-- An equals sign leads to a fault only where it is stray. -/
theorem earns_assignment (h : Earns (fun _ taken => Apart taken) inner) :
    Earns (fun _ taken => Apart taken) (assignment bound inner) := by
  intro before cursor
  rw [assignment, bind_apply]
  refine (earns_disjunction h before cursor).bind fun target taken after htaken => ?_
  rw [bind_apply]
  rcases accept?_cases (·.isMark .equal) after with hnone | ⟨equals, rest, hrest, hkind, hsome⟩
  · rw [hnone]
    exact earned_here ((List.append_nil taken).symm ▸ htaken.apart)
  rw [hsome]
  have hequal : equals.IsMark .equal := Kind.isMark_iff.mp hkind
  have hapart : Apart [equals] := by
    refine apart_one ?_ ?_ ?_ <;>
    · intro hother
      rw [hequal] at hother
      cases hother
  have hvalue := h (equals :: (taken.reverse ++ before)) { after with rest := rest }
  have hsplit : after.rest = [equals] ++ rest := hrest
  dsimp only
  rw [bind_apply]
  generalize inner { after with rest := rest } = result at hvalue ⊢
  match result with
  | .error (.fault diagnostic) last =>
      refine Earned.behind ?_ hsplit (Nat.le_add_right _ _)
      exact hvalue
  | .error .exhausted last => trivial
  | .ok value last =>
      obtain ⟨others, hothers, hle, hvalue⟩ := hvalue
      have hall : Apart (taken ++ ([equals] ++ others)) :=
        htaken.apart.append (hapart.append hvalue)
      by_cases hname : ∃ id name, target = .variable id name
      · obtain ⟨id, name, rfl⟩ := hname
        refine ⟨equals :: others, hrest.trans (congrArg (equals :: ·) hothers), ?_, hall⟩
        exact Nat.le_trans hle (Nat.add_le_add_left (Nat.le_add_left _ _) _)
      · have hstray : earns (taken.reverse ++ before) equals = true := by
          have hshows := htaken.shows.resolve_left fun hvariable => hname hvariable.1
          rw [earns, hshows.stray hequal, Bool.true_or]
        have hreport : assignTo target equals value last =
            .ok target { last with
              faults := last.faults ++
                [.grammar equals.line equals.location .assignmentTarget] } := by
          cases target with
          | «variable» id name => exact absurd ⟨id, name, rfl⟩ hname
          | _ => rfl
        have hmild : Diagnostic.isMild
            (.grammar equals.line equals.location .assignmentTarget) = true := rfl
        dsimp only
        rw [hreport]
        refine ⟨equals :: others, hrest.trans (congrArg (equals :: ·) hothers), ?_, hall⟩
        dsimp only at hle ⊢
        rw [milds_mild hmild, countAlong, if_pos hstray]
        omega

theorem earns_expression (bound : Nat) :
    Earns (fun _ taken => Apart taken) (expression bound) := by
  induction bound with
  | zero => exact earns_exhausted
  | succ bound ih => exact earns_assignment ih

end Expressions

/-! ### Statements -/

section Statements

variable {α : Type} {member : Reader (Option Stmt)} {bound : Nat}

theorem earns_parameterList (bound : Nat) :
    Earns (fun _ _ => True) (parameterList bound) := by
  apply (earns_looksAt _).bind
  intro closes _ _
  cases closes with
  | true => exact earns_pure trivial
  | false =>
      have hname : Earns (fun _ taken => Apart taken)
          (expect Kind.isIdentifier .parameterName) := by
        refine (earns_expect rfl).mono ?_
        rintro token _ ⟨hname, rfl⟩
        refine apart_one ?_ ?_ ?_ <;>
        · intro hkind
          rw [hkind] at hname
          cases hname
      have hmild : GrammarFault.isMild .tooManyParameters = true := rfl
      have hitems : Earns (fun _ taken => Nested taken)
          (items .tooManyParameters (expect Kind.isIdentifier .parameterName) bound 0) :=
        earns_items hname hmild
      rw [← parameters_eq_items] at hitems
      exact hitems.mono fun _ _ _ => trivial

theorem stepLaws_earns : StepLaws [] fun _ _ _ rule _ => Earns (fun _ _ => True) rule where
  weaken h _ _ := h
  done _ := earns_pure trivial
  andThen h hnext := h.bind fun value _ _ => hnext value
  exhausted _ := earns_exhausted
  halt := earns_halt
  freshId := earns_freshId.mono fun _ _ _ => trivial
  looksAt test := (earns_looksAt test).mono fun _ _ _ => trivial
  accept _ _ hsome hnone := .accept hsome hnone

/-- The tokens up to the place where reading goes on are gone over. -/
theorem Earns.recover {rule : Reader α} (h : Earns (fun _ _ => True) rule) :
    Earns (fun _ _ => True) (recover rule) := by
  intro before cursor
  have hrule := h before cursor
  rw [Reader.recover]
  generalize rule cursor = result at hrule ⊢
  match result with
  | .ok value after => exact hrule
  | .error .exhausted after => trivial
  | .error (.fault diagnostic) after =>
      obtain ⟨hgrave, taken, hrest, hle⟩ := hrule
      obtain ⟨skipped, hskipped⟩ := resume_suffix after.rest
      refine ⟨taken ++ skipped, ?_, ?_, trivial⟩
      · rw [hrest, List.append_assoc, hskipped]
      · dsimp only
        rw [milds_grave hgrave]
        exact Nat.le_trans hle (Nat.add_le_add_left (countAlong_le_append _ _ _) _)

theorem Earns.declarationsUntil (h : Earns (fun _ _ => True) member) (stop : Kind → Bool)
    (bound : Nat) : Earns (fun _ _ => True) (declarationsUntil stop member bound) := by
  induction bound with
  | zero => exact earns_exhausted
  | succ bound ih =>
      intro before cursor
      rw [declarationsUntil_apply]
      split
      · exact earned_here trivial
      · exact h.bind (fun _ _ _ => ih.into fun _ _ _ => trivial) before cursor

theorem statementLaws_earns :
    StatementLaws (fun _ _ _ rule _ => Earns (fun _ _ => True) rule)
      (fun _ _ rule _ => Earns (fun _ _ => True) rule)
      fun _ rounds _ => Earns (fun _ _ => True) (declaration rounds) :=
  stepLaws_earns.statementLaws (fun _ _ => (earns_expression _).mono fun _ _ _ => trivial)
    (fun _ _ => earns_parameterList _)
    (fun h _ _ => (h.declarationsUntil _ _).bind fun _ _ _ =>
      (earns_expect rfl).into fun _ _ _ => trivial)
    earns_exhausted (fun h _ => h) Earns.recover

/-- There are no more faults that stop no rule than tokens that lead to them. -/
theorem earns_program (bound : Nat) : Earns (fun _ _ => True) (program bound) :=
  ((statementLaws_earns.statement_declaration (Nat.le_refl bound)
    (Nat.le_refl bound)).2).declarationsUntil _ bound

end Statements

end Scriptlet.Recovery
