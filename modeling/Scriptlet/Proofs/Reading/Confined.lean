/-
Rules that stay inside a simple statement.

Let a segment be the tokens of a simple statement, right or wrong: one semicolon, its last token,
and before it nothing that makes statements out of statements.  A rule that begins inside a
segment never looks behind it, an `else` aside.  Either it takes the semicolon as its last token,
or it stops before it, and what it reports on the way has nothing to do with the tokens behind.
-/
import Scriptlet.Proofs.Reading.Laws

namespace Scriptlet.Reading

open Grammar Reader

variable {α β : Type}

/-- What may stand before the semicolon: no brace, no `for`, `fun` or `else`, and no end marker. -/
def isInner : Kind → Bool
  | .mark .semicolon => false
  | .mark .leftBrace => false
  | .mark .rightBrace => false
  | .keyword .for_ => false
  | .keyword .fun_ => false
  | .keyword .else_ => false
  | .endOfInput => false
  | _ => true

/-- Any tokens of such kinds, and a semicolon behind them. -/
inductive Segment : List Token → Prop
  | last (token : Token) (semicolon : token.kind = .mark .semicolon) : Segment [token]
  | cons (token : Token) (rest : List Token) (inner : isInner token.kind = true)
      (segment : Segment rest) : Segment (token :: rest)

/-- How a rule ends that begins at these tokens of a segment, after `n` identities: it leaves some
of them, so that `stands` holds of what it leaves, or halts inside the segment.  It does so
whatever stands behind the segment and whatever was reported before. -/
inductive Ends (stands : List Token → Prop) (rule : Reader α) (tokens : List Token) (n : Nat) : Prop
  | ok (value : α) (left : List Token) (m : Nat) (new : List Diagnostic) (leaves : stands left)
      (run : ∀ tail, Stops [.keyword .else_] tail → ∀ endLine faults,
        rule ⟨tokens ++ tail, endLine, n, faults⟩ =
          .ok value ⟨left ++ tail, endLine, m, faults ++ new⟩)
  | error (reason : Halt) (left : List Token) (m : Nat) (new : List Diagnostic)
      (inside : Segment left)
      (run : ∀ tail, Stops [.keyword .else_] tail → ∀ endLine faults,
        rule ⟨tokens ++ tail, endLine, n, faults⟩ =
          .error reason ⟨left ++ tail, endLine, m, faults ++ new⟩)

/-- So the rule ends wherever it begins inside a segment. -/
def Confined (stands : List Token → Prop) (rule : Reader α) : Prop :=
  ∀ tokens, Segment tokens → ∀ n, Ends stands rule tokens n

/-- The semicolon was taken. -/
def Closed (left : List Token) : Prop :=
  left = []

section Steps

variable {stands : List Token → Prop} {rule : Reader α} {next : α → Reader β} {kind : Kind → Bool}

/-- The next rule goes on with the tokens that the first one left. -/
theorem Ends.step {tokens left : List Token} {n m : Nat} {value : α} (new : List Diagnostic)
    (hrun : ∀ tail, Stops [.keyword .else_] tail → ∀ endLine faults,
      rule ⟨tokens ++ tail, endLine, n, faults⟩ =
        .ok value ⟨left ++ tail, endLine, m, faults ++ new⟩)
    (hnext : Ends stands (next value) left m) : Ends stands (rule >>= next) tokens n := by
  cases hnext with
  | ok value' left' m' new' hleaves hrun' =>
      refine .ok value' left' m' (new ++ new') hleaves fun tail htail endLine faults => ?_
      rw [bind_apply, hrun tail htail]
      dsimp only
      rw [hrun' tail htail, List.append_assoc]
  | error reason left' m' new' hinside hrun' =>
      refine .error reason left' m' (new ++ new') hinside fun tail htail endLine faults => ?_
      rw [bind_apply, hrun tail htail]
      dsimp only
      rw [hrun' tail htail, List.append_assoc]

theorem Confined.bind (h : Confined Segment rule) (hnext : ∀ value, Confined stands (next value)) :
    Confined stands (rule >>= next) := by
  intro tokens htokens n
  cases h tokens htokens n with
  | ok value left m new hleft hrun => exact .step new hrun (hnext value left hleft m)
  | error reason left m new hinside hrun =>
      refine .error reason left m new hinside fun tail htail endLine faults => ?_
      rw [bind_apply, hrun tail htail]

/-- What is made of the value of a rule does not matter. -/
theorem Confined.map (h : Confined stands rule) (result : α → β) :
    Confined stands (result <$> rule) := by
  intro tokens htokens n
  cases h tokens htokens n with
  | ok value left m new hleaves hrun =>
      refine .ok (result value) left m new hleaves fun tail htail endLine faults => ?_
      rw [map_apply, hrun tail htail]
  | error reason left m new hinside hrun =>
      refine .error reason left m new hinside fun tail htail endLine faults => ?_
      rw [map_apply, hrun tail htail]

theorem Confined.before (h : Confined stands rule) (result : α → β) :
    Confined stands (rule >>= fun value => pure (result value)) := by
  rw [bind_pure_comp]
  exact h.map result

theorem confined_pure (value : α) : Confined Segment (pure value : Reader α) := by
  refine fun tokens htokens n => .ok value tokens n [] htokens fun tail _ endLine faults => ?_
  rw [List.append_nil, pure_apply]

theorem confined_exhausted : Confined stands (exhausted : Reader α) := by
  refine fun tokens htokens n => .error .exhausted tokens n [] htokens fun tail _ endLine faults =>
    ?_
  rw [List.append_nil, exhausted, throw_apply]

/-- A fault is located at the next token, and inside a segment there is one. -/
theorem diagnose_append {tokens : List Token} (h : Segment tokens) (tail : List Token)
    (endLine n : Nat) (faults : List Diagnostic) (fault : GrammarFault) :
    Cursor.diagnose ⟨tokens ++ tail, endLine, n, faults⟩ fault =
      Cursor.diagnose ⟨tokens, 0, 0, []⟩ fault := by
  cases h with
  | last token _ => rfl
  | cons token rest _ _ => rfl

theorem confined_halt (fault : GrammarFault) : Confined stands (halt fault : Reader α) := by
  refine fun tokens htokens n => .error (.fault (Cursor.diagnose ⟨tokens, 0, 0, []⟩ fault)) tokens n
    [] htokens fun tail _ endLine faults => ?_
  rw [halt, diagnose_append htokens, List.append_nil]

theorem confined_report (diagnostic : Diagnostic) : Confined Segment (report diagnostic) := by
  refine fun tokens htokens n => .ok () tokens n [diagnostic] htokens
    fun tail _ endLine faults => ?_
  rw [report, modify_apply]

theorem confined_reportHere (fault : GrammarFault) : Confined Segment (reportHere fault) := by
  refine fun tokens htokens n => .ok () tokens n [Cursor.diagnose ⟨tokens, 0, 0, []⟩ fault] htokens
    fun tail _ endLine faults => ?_
  rw [reportHere, diagnose_append htokens, report, modify_apply]

theorem confined_looksAt (kind : Kind → Bool) : Confined Segment (looksAt kind) := by
  intro tokens htokens n
  cases htokens with
  | last token hsemicolon =>
      refine .ok (kind token.kind) [token] n [] (.last token hsemicolon) fun tail _ _ faults => ?_
      rw [List.append_nil]
      rfl
  | cons token rest hinner hrest =>
      refine .ok (kind token.kind) (token :: rest) n [] (.cons token rest hinner hrest)
        fun tail _ _ faults => ?_
      rw [List.append_nil]
      rfl

theorem confined_freshId : Confined Segment freshId := by
  refine fun tokens htokens n => .ok (.ofCount n) tokens (n + 1) [] htokens
    fun tail _ endLine faults => ?_
  rw [freshId, List.append_nil]

/-- A token is taken inside the segment only, unless it may be a semicolon. -/
theorem Confined.accept {next : Option Token → Reader β}
    (hsemicolon : kind (.mark .semicolon) = false)
    (hsome : ∀ token, isInner token.kind = true → kind token.kind = true →
      Confined stands (next (some token)))
    (hnone : Confined stands (next none)) : Confined stands (accept? kind >>= next) := by
  intro tokens htokens n
  have hstays : ∀ token rest, kind token.kind = false → Segment (token :: rest) →
      Ends stands (accept? kind >>= next) (token :: rest) n := by
    intro token rest hkind hsegment
    refine .step [] (fun tail _ endLine faults => ?_) (hnone _ hsegment n)
    rw [accept?, List.append_nil]
    exact if_neg (Bool.eq_false_iff.mp hkind)
  cases htokens with
  | last token htoken => exact hstays token [] (htoken ▸ hsemicolon) (.last token htoken)
  | cons token rest hinner hrest =>
      by_cases hkind : kind token.kind = true
      · refine .step [] (fun tail _ endLine faults => ?_)
          (hsome token hinner hkind rest hrest n)
        rw [accept?, List.append_nil]
        exact if_pos hkind
      · exact hstays token rest (Bool.eq_false_iff.mpr hkind) (.cons token rest hinner hrest)

theorem confined_expect (hsemicolon : kind (.mark .semicolon) = false) (fault : GrammarFault) :
    Confined Segment (expect kind fault) :=
  .accept hsemicolon (fun token _ _ => confined_pure token) (confined_halt fault)

theorem isMark_semicolon_of_isInner {kind : Kind} (h : isInner kind = true) :
    kind.isMark .semicolon = false := by
  cases kind with
  | mark mark => cases mark <;> first | rfl | cases h
  | _ => rfl

/-- The semicolon is the last token of the segment, wherever it is expected. -/
theorem confined_semicolon (fault : GrammarFault) :
    Confined Closed (expect (·.isMark .semicolon) fault) := by
  intro tokens htokens n
  cases htokens with
  | last token hsemicolon =>
      refine .ok token [] n [] rfl fun tail _ endLine faults => ?_
      rw [expect, bind_apply, accept?, List.append_nil]
      dsimp only [List.cons_append]
      rw [if_pos (by rw [hsemicolon]; rfl)]
      rfl
  | cons token rest hinner hrest =>
      refine .error (.fault (Cursor.diagnose ⟨token :: rest, 0, 0, []⟩ fault)) (token :: rest) n []
        (.cons token rest hinner hrest) fun tail _ endLine faults => ?_
      rw [expect, bind_apply, accept?, List.append_nil]
      dsimp only [List.cons_append]
      rw [if_neg (Bool.eq_false_iff.mp (isMark_semicolon_of_isInner hinner))]
      rfl

/-- Behind the semicolon no `else` is taken, because none follows. -/
theorem Confined.withoutElse (h : Confined Closed rule) {next : α → Option Token → Reader β}
    {result : α → β} (hnone : ∀ value, next value none = pure (result value)) :
    Confined Closed (rule >>= fun value => accept? (·.isKeyword .else_) >>= next value) := by
  intro tokens htokens n
  cases h tokens htokens n with
  | ok value left m new hleaves hrun =>
      obtain rfl : left = [] := hleaves
      refine .ok (result value) [] m new rfl fun tail htail endLine faults => ?_
      have hstays : accept? (·.isKeyword .else_) ⟨tail, endLine, m, faults ++ new⟩ =
          .ok none ⟨tail, endLine, m, faults ++ new⟩ := by
        cases tail with
        | nil => rfl
        | cons token rest =>
            refine if_neg fun hkeyword => stops_cons.mp htail (List.mem_singleton.mpr ?_)
            exact Kind.isKeyword_iff.mp hkeyword
      rw [bind_apply, hrun tail htail]
      dsimp only [List.nil_append]
      rw [bind_apply, hstays]
      dsimp only
      rw [hnone, pure_apply]
  | error reason left m new hinside hrun =>
      refine .error reason left m new hinside fun tail htail endLine faults => ?_
      rw [bind_apply, hrun tail htail]

end Steps

/-! ### Expressions -/

/-- No rule of an expression takes the semicolon. -/
theorem expressionLaws_confined :
    ExpressionLaws [.mark .semicolon] fun _ _ _ rule _ => Confined Segment rule where
  weaken h _ _ := h
  done := confined_pure
  andThen := Confined.bind
  exhausted _ := confined_exhausted
  halt _ := confined_halt _
  freshId := confined_freshId
  looksAt := confined_looksAt
  accept hbarred _ hsome hnone :=
    .accept (hbarred _ List.mem_cons_self) (fun token _ => hsome token) hnone
  barred_subset := by simp [separators]
  report _ := confined_report _
  reportHere _ := confined_reportHere _

theorem confined_expression (bound : Nat) : Confined Segment (expression bound) :=
  expressionLaws_confined.expression (Nat.le_refl bound) (Nat.le_refl bound)

theorem confined_optionalExpression (bound : Nat) (closing : Mark) :
    Confined Segment (optionalExpression bound closing) :=
  expressionLaws_confined.optionalExpression (Nat.le_refl bound) (Nat.le_refl bound) closing

/-! ### Statements -/

section Statements

variable {inner : Reader Stmt} {member : Reader (Option Stmt)}

theorem confined_expressionStatement (bound : Nat) : Confined Closed (expressionStatement bound) :=
  (confined_expression bound).bind fun _ => (confined_semicolon _).before _

theorem confined_printStatement (bound : Nat) : Confined Closed (printStatement bound) :=
  (confined_expression bound).bind fun _ => (confined_semicolon _).before _

theorem confined_returnStatement (bound : Nat) (keyword : Token) :
    Confined Closed (returnStatement bound keyword) :=
  (confined_optionalExpression bound _).bind fun _ => (confined_semicolon _).before _

theorem confined_initialValue (bound : Nat) : Confined Segment (initialValue bound) := by
  apply Confined.accept rfl
  · exact fun equals _ _ => (confined_expression bound).map _
  · exact confined_pure none

theorem confined_variableDeclaration (bound : Nat) :
    Confined Closed (variableDeclaration bound) := by
  apply (confined_expect rfl _).bind
  intro name
  apply (confined_initialValue bound).bind
  exact fun initial => (confined_semicolon _).before _

theorem Confined.ifStatement (h : Confined Closed inner) (bound : Nat) :
    Confined Closed (ifStatement bound inner) := by
  apply (confined_expect rfl _).bind
  intro _
  apply (confined_expression bound).bind
  intro condition
  apply (confined_expect rfl _).bind
  intro _
  exact h.withoutElse fun whenTrue => rfl

theorem Confined.whileStatement (h : Confined Closed inner) (bound : Nat) :
    Confined Closed (whileStatement bound inner) := by
  apply (confined_expect rfl _).bind
  intro _
  apply (confined_expression bound).bind
  intro condition
  apply (confined_expect rfl _).bind
  exact fun _ => h.before _

/-- Neither a `for` nor a block begins inside a segment. -/
theorem Confined.statementRule (h : Confined Closed inner) (bound : Nat) :
    Confined Closed (statementRule bound inner member) := by
  apply Confined.accept rfl
  · intro lead hinner hlead
    rcases leadsStatement_cases hlead with hkind | hkind | hkind | hkind | hkind | hkind
    · rw [hkind] at hinner
      cases hinner
    · simp only [hkind]
      exact h.ifStatement bound
    · simp only [hkind]
      exact confined_printStatement bound
    · simp only [hkind]
      exact confined_returnStatement bound lead
    · simp only [hkind]
      exact h.whileStatement bound
    · rw [hkind] at hinner
      cases hinner
  · exact confined_expressionStatement bound

/-- Nor does a function. -/
theorem Confined.declarationRule (h : Confined Closed inner) (bound : Nat) :
    Confined Closed (declarationRule bound inner member) := by
  apply Confined.accept rfl
  · intro keyword hinner hkeyword
    rw [Kind.isKeyword_iff.mp hkeyword] at hinner
    cases hinner
  apply Confined.accept rfl
  · exact fun keyword _ _ => confined_variableDeclaration bound
  · exact h.statementRule bound

theorem confined_statement (bound : Nat) : Confined Closed (statement bound) := by
  induction bound with
  | zero => exact confined_exhausted
  | succ bound ih => exact ih.statementRule (bound + 1)

end Statements

end Scriptlet.Reading
