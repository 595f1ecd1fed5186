/-
The two ways in: what is read from a whole token list is what is derivable from
the grammar, with the tree of the strict derivation.
-/
import Scriptlet.Proofs.Grammar.Complete.Statement
import Scriptlet.Proofs.Grammar.Dangling
import Scriptlet.Proofs.Grammar.Sound

namespace Scriptlet

/-- What was reported while the tokens were read. -/
def Parsed.faults {α : Type} (parsed : Parsed α) : List Diagnostic :=
  match parsed.result with
  | .ok _ => []
  | .error faults => faults

namespace Grammar

/-- The last token is an end marker, and no other one is. -/
def EndsOnce (tokens : List Token) : Prop :=
  ∃ body marker, tokens = body ++ [marker] ∧ marker.kind = .endOfInput ∧
    ∀ token ∈ body, token.kind ≠ .endOfInput

variable {α : Type} {n m : Nat} {tokens body : List Token} {marker : Token}

/-- What stands behind the first end marker is left out. -/
theorem ofTokens_append (hmarker : marker.kind = .endOfInput)
    (hbody : ∀ token ∈ body, token.kind ≠ .endOfInput) {behind : List Token} (n : Nat) :
    Cursor.ofTokens (body ++ marker :: behind) n = ⟨body, marker.line, n, []⟩ := by
  have hopen : ∀ token ∈ body, (!token.kind.isEndOfInput) = true := by
    intro token htoken
    rw [Bool.not_eq_true', ← Bool.not_eq_true, Kind.isEndOfInput_iff]
    exact hbody token htoken
  have hclosed : (!marker.kind.isEndOfInput) = false := by rw [hmarker]; rfl
  simp [Cursor.ofTokens, List.takeWhile_append_of_pos hopen, List.dropWhile_append_of_pos hopen,
    hclosed]

theorem parsed_eq {parsed : Parsed α} {value : α} (h : parsed.result = .ok value) :
    parsed = ⟨.ok value, parsed.issued⟩ := by
  rw [← h]

/-- Only a result with nothing reported on the way counts. -/
theorem parse_eq_ok_iff {rule : Nat → Reader α} {value : α} :
    Reader.parse rule tokens n = ⟨.ok value, m⟩ ↔
      ∃ after, rule ((Cursor.ofTokens tokens n).rest.length + 1) (Cursor.ofTokens tokens n) =
        .ok value after ∧ after.faults = [] ∧ after.issued = m := by
  constructor
  · intro h
    rw [Reader.parse] at h
    split at h
    · next result stop hrule =>
        rw [Parsed.mk.injEq] at h
        obtain ⟨hresult, hissued⟩ := h
        split at hresult
        · next hfaults =>
            cases hresult
            exact ⟨stop, hrule, List.isEmpty_iff.mp hfaults, hissued⟩
        · cases hresult
    · cases h
    · cases h
  · rintro ⟨after, hrule, hfaults, rfl⟩
    simp [Reader.parse, hrule, hfaults]

/-- What a parse reports is what its rule does. -/
theorem faults_parse {rule : Nat → Reader α} (tokens : List Token) (issued : Nat) :
    (Reader.parse rule tokens issued).faults =
      match rule ((Cursor.ofTokens tokens issued).rest.length + 1)
          (Cursor.ofTokens tokens issued) with
      | .ok _ after => after.faults
      | .error (.fault diagnostic) after => after.faults ++ [diagnostic]
      | .error .exhausted after => after.faults := by
  unfold Reader.parse
  dsimp only
  generalize rule _ _ = result
  match result with
  | .ok _ after =>
      dsimp only [Parsed.faults]
      cases after.faults <;> rfl
  | .error (.fault _) _ => rfl
  | .error .exhausted _ => rfl

theorem bind_eq_ok {β : Type} {rule : Reader α} {next : α → Reader β} {cursor after : Cursor}
    {result : β} (h : (rule >>= next) cursor = .ok result after) :
    ∃ value mid, rule cursor = .ok value mid ∧ next value mid = .ok result after := by
  rw [Reader.bind_apply] at h
  split at h
  · next value mid hrule => exact ⟨value, mid, hrule, h⟩
  · cases h

/-- A program is read up to the end. -/
theorem declarationsUntil_rest {member : Reader (Option Stmt)} {fuel : Nat}
    {cursor after : Cursor} {body : List Stmt}
    (h : Reader.declarationsUntil (fun _ => false) member fuel cursor = .ok body after) :
    after.rest = [] := by
  induction fuel generalizing cursor body with
  | zero => cases h
  | succ fuel ih =>
      rw [Reader.declarationsUntil] at h
      obtain ⟨stops, start, hlook, h⟩ := bind_eq_ok h
      rw [Reader.looksAt_of_head (fun _ _ => rfl)] at hlook
      cases hlook
      obtain ⟨isEnd, start, hend, h⟩ := bind_eq_ok h
      cases hend
      by_cases hrest : cursor.rest.isEmpty = true
      · rw [hrest, Bool.or_true, if_pos rfl] at h
        cases h
        exact List.isEmpty_iff.mp hrest
      · rw [Bool.false_or, if_neg hrest] at h
        obtain ⟨first, mid, -, h⟩ := bind_eq_ok h
        obtain ⟨others, last, hothers, h⟩ := bind_eq_ok h
        cases h
        exact ih hothers

theorem wholeExpression_rest {bound : Nat} {cursor after : Cursor} {value : Expr}
    (h : Reader.wholeExpression bound cursor = .ok value after) :
    Reader.expression bound cursor = .ok value after ∧ after.rest = [] := by
  obtain ⟨first, mid, hexpression, h⟩ := bind_eq_ok h
  obtain ⟨isEnd, last, hend, h⟩ := bind_eq_ok h
  cases hend
  by_cases hrest : mid.rest.isEmpty = true
  · rw [if_pos hrest] at h
    cases h
    exact ⟨hexpression, List.isEmpty_iff.mp hrest⟩
  · rw [if_neg hrest] at h
    cases h

theorem parse_program_sound {body : List Stmt} (hends : EndsOnce tokens)
    (h : Reader.parse Reader.program tokens n = ⟨.ok body, m⟩) :
    Derives false .program n tokens body m := by
  obtain ⟨others, marker, rfl, hmarker, hothers⟩ := hends
  obtain ⟨after, hrule, hfaults, rfl⟩ := parse_eq_ok_iff.mp h
  rw [ofTokens_append hmarker hothers] at hrule
  obtain ⟨-, used, hused, hderives⟩ := Reader.reads_program _ hrule hfaults
  have hwhole : others = used := by
    rw [← List.append_nil used, ← declarationsUntil_rest hrule]
    exact hused
  exact .program (hwhole ▸ hderives) hmarker

theorem parse_program_complete {body : List Stmt} (hends : EndsOnce tokens)
    (h : Derives true .program n tokens body m) :
    Reader.parse Reader.program tokens n = ⟨.ok body, m⟩ := by
  obtain ⟨others, marker, rfl, hmarker, hothers⟩ := hends
  generalize htokens : others ++ [marker] = tokens at h
  cases h with
  | program hderives hend =>
      obtain ⟨rfl, rfl⟩ := List.append_singleton_inj.mp htokens
      have hrule := derives_complete hderives (others.length + 1) (others.length + 1)
        (fun _ => false) [] (fun _ h => by cases h) (Or.inl rfl) (by simp) (by simp) marker.line []
      rw [parse_eq_ok_iff, ofTokens_append hmarker hothers]
      rw [List.append_nil] at hrule
      exact ⟨_, hrule, rfl, rfl⟩

theorem parse_lone_sound {value : Expr} (hends : EndsOnce tokens)
    (h : Reader.parse Reader.wholeExpression tokens n = ⟨.ok value, m⟩) :
    Derives false .lone n tokens value m := by
  obtain ⟨others, marker, rfl, hmarker, hothers⟩ := hends
  obtain ⟨after, hrule, hfaults, rfl⟩ := parse_eq_ok_iff.mp h
  rw [ofTokens_append hmarker hothers] at hrule
  obtain ⟨hexpression, hrest⟩ := wholeExpression_rest hrule
  obtain ⟨-, used, hused, hderives⟩ := Reader.reads_expression _ hexpression hfaults
  have hwhole : others = used := by
    rw [← List.append_nil used, ← hrest]
    exact hused
  exact .lone (hwhole ▸ hderives) hmarker

theorem parse_lone_complete {value : Expr} (hends : EndsOnce tokens)
    (h : Derives true .lone n tokens value m) :
    Reader.parse Reader.wholeExpression tokens n = ⟨.ok value, m⟩ := by
  obtain ⟨others, marker, rfl, hmarker, hothers⟩ := hends
  generalize htokens : others ++ [marker] = tokens at h
  cases h with
  | lone hderives hend =>
      obtain ⟨rfl, rfl⟩ := List.append_singleton_inj.mp htokens
      have hcomplete : Level.expression.Complete _ _ _ _ := derives_complete hderives
      have hrule := hcomplete.nested (others.length + 1) marker.line [] (by simp) stops_nil
      rw [List.append_nil] at hrule
      rw [parse_eq_ok_iff, ofTokens_append hmarker hothers]
      refine ⟨⟨[], marker.line, m, []⟩, ?_, rfl, rfl⟩
      rw [Reader.wholeExpression, Reader.bind_apply, hrule]
      rfl

/-- Since the strict derivation is read, it is the only one. -/
theorem parse_program_iff (hends : EndsOnce tokens) (body : List Stmt) :
    Reader.parse Reader.program tokens n = ⟨.ok body, m⟩ ↔
      Derives true .program n tokens body m := by
  constructor
  · intro h
    obtain ⟨other, hother⟩ := hasStrict (parse_program_sound hends h)
    have hsame := parse_program_complete hends hother
    rw [h, Parsed.mk.injEq, Except.ok.injEq] at hsame
    rwa [hsame.1]
  · exact parse_program_complete hends

theorem parse_lone_iff (hends : EndsOnce tokens) (value : Expr) :
    Reader.parse Reader.wholeExpression tokens n = ⟨.ok value, m⟩ ↔
      Derives true .lone n tokens value m := by
  constructor
  · intro h
    have hstrict : Derives true .lone n tokens value m := hasStrict (parse_lone_sound hends h)
    exact hstrict
  · exact parse_lone_complete hends

/-- A token list that ends with its only end marker is read exactly if the
grammar derives it, and then as the tree of the derivation that leaves each `else`
to the nearest `if`.  So is one that should be a lone expression. -/
theorem parse_exact (tokens : List Token) (hends : EndsOnce tokens) (firstId : NodeId) :
    ((∃ body, (parseProgram tokens firstId).result = .ok body) ↔
        ∃ body m, Derives false .program firstId.toNat tokens body m) ∧
      (∀ body m, parseProgram tokens firstId = ⟨.ok body, m⟩ ↔
        Derives true .program firstId.toNat tokens body m) ∧
      ((∃ value, (parseExpression tokens firstId).result = .ok value) ↔
        ∃ value m, Derives false .lone firstId.toNat tokens value m) ∧
      ∀ value m, parseExpression tokens firstId = ⟨.ok value, m⟩ ↔
        Derives true .lone firstId.toNat tokens value m := by
  refine ⟨⟨?_, ?_⟩, fun body m => parse_program_iff hends body, ⟨?_, ?_⟩,
    fun value m => parse_lone_iff hends value⟩
  · rintro ⟨body, hbody⟩
    exact ⟨body, _, parse_program_sound hends (parsed_eq hbody)⟩
  · rintro ⟨body, m, h⟩
    obtain ⟨strictBody, hstrict⟩ := hasStrict h
    exact ⟨strictBody, congrArg Parsed.result (parse_program_complete hends hstrict)⟩
  · rintro ⟨value, hvalue⟩
    exact ⟨value, _, parse_lone_sound hends (parsed_eq hvalue)⟩
  · rintro ⟨value, m, h⟩
    have hstrict : Derives true .lone _ _ value m := hasStrict h
    exact ⟨value, congrArg Parsed.result (parse_lone_complete hends hstrict)⟩

/-- `if (a) if (b) c; else d;` -/
def nestedBranches : List Token :=
  [⟨.keyword .if_, "if", 1⟩, ⟨.mark .leftParen, "(", 1⟩, ⟨.identifier, "a", 1⟩,
    ⟨.mark .rightParen, ")", 1⟩, ⟨.keyword .if_, "if", 1⟩, ⟨.mark .leftParen, "(", 1⟩,
    ⟨.identifier, "b", 1⟩, ⟨.mark .rightParen, ")", 1⟩, ⟨.identifier, "c", 1⟩,
    ⟨.mark .semicolon, ";", 1⟩, ⟨.keyword .else_, "else", 1⟩, ⟨.identifier, "d", 1⟩,
    ⟨.mark .semicolon, ";", 1⟩, ⟨.endOfInput, "", 1⟩]

/-- The second of two `if` has the `else`. -/
def elseIsInner : List Stmt → Bool
  | [.branch _ (.branch _ _ (some _)) none] => true
  | _ => false

theorem ok_of_any {result : Except (List Diagnostic) α} {test : α → Bool}
    (h : result.toOption.any test = true) : ∃ value, result = .ok value ∧ test value = true := by
  cases result with
  | error faults => cases h
  | ok value => exact ⟨value, rfl, h⟩

theorem nestedBranches_derives :
    EndsOnce nestedBranches ∧
      ∃ body m, Derives true .program 0 nestedBranches body m ∧ elseIsInner body = true := by
  have hends : EndsOnce nestedBranches := by
    refine ⟨nestedBranches.dropLast, ⟨.endOfInput, "", 1⟩, rfl, rfl, ?_⟩
    simp [nestedBranches]
  have hshape : (parseProgram nestedBranches 0).result.toOption.any elseIsInner = true := by
    decide +kernel
  obtain ⟨body, hresult, hinner⟩ := ok_of_any hshape
  exact ⟨hends, body, (parseProgram nestedBranches 0).issued,
    ((parse_exact nestedBranches hends 0).2.1 _ _).mp (parsed_eq hresult), hinner⟩

end Grammar

end Scriptlet
