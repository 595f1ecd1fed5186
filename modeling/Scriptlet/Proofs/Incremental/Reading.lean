/-
What is read does not depend on lines, nor on the identities that were handed out before.

At tokens that stand for each other every rule of the grammar does the same in both readings, as
its parts do.
-/
import Scriptlet.Proofs.Incremental.Paired

namespace Scriptlet.Incremental

open Grammar Reader

/-! ### Expressions -/

section Expressions

variable {pairing : Pairing} {before : List NodeId} {inner operand : Reader Expr}

/-- An operator node over trees that were read one after the other. -/
structure Node (link : Link) (node : Expr → Token → Expr → Expr) : Prop where
  ids : ∀ left operator right, exprIds (node left operator right) = exprIds left ++ exprIds right
  alike : ∀ {left left' operator operator' right right'}, AlikeExpr link left left' →
    link.tokens operator operator' → AlikeExpr link right right' →
      AlikeExpr link (node left operator right) (node left' operator' right')

theorem node_binary {link : Link} : Node link .binary :=
  ⟨fun _ _ _ => rfl, .binary⟩

theorem node_logical {link : Link} : Node link .logical :=
  ⟨fun _ _ _ => rfl, .logical⟩

theorem Steady.chain (h : Steady pairing [] (.expr pairing) operand operand)
    (operators : Kind → Bool) {node : Expr → Token → Expr → Expr} (hnode : Node pairing.link node)
    (bound : Nat) {left left' : Expr} (hleft : AlikeExpr pairing.link left left') :
    Steady pairing (exprIds left) (.expr pairing) (chain operators node operand bound left)
      (chain operators node operand bound left') := by
  induction bound generalizing left left' with
  | zero => exact steady_exhausted
  | succ bound ih =>
      apply (steady_accept? operators).skip
      intro _ _ hfound
      cases hfound with
      | none => exact steady_pure hleft fun _ _ => id
      | some hoperator =>
          apply h.andThen
          intro right right' hright
          have hrest := ih (hnode.alike hleft hoperator hright)
          rw [hnode.ids] at hrest
          exact hrest

theorem Steady.level (h : Steady pairing [] (.expr pairing) operand operand) (bound : Nat)
    (operators : Kind → Bool) {node : Expr → Token → Expr → Expr}
    (hnode : Node pairing.link node) :
    Steady pairing [] (.expr pairing) (level bound operators node operand)
      (level bound operators node operand) :=
  h.bind fun _ _ hleft => h.chain operators hnode bound hleft

theorem steady_limit (count : Nat) (fault : GrammarFault) :
    Steady pairing [] (.told Eq) (limit count fault) (limit count fault) := by
  unfold limit
  split
  · exact steady_reportHere fault
  · exact steady_done rfl

theorem Steady.arguments (h : Steady pairing [] (.expr pairing) inner inner) (bound count : Nat) :
    Steady pairing [] (.exprs pairing) (arguments inner bound count)
      (arguments inner bound count) := by
  induction bound generalizing count with
  | zero => exact steady_exhausted
  | succ bound ih =>
      apply (steady_limit count _).skip
      intro _ _ _
      apply h.andThen
      intro argument argument' hargument
      apply (steady_accept? _).skip
      intro _ _ hfound
      cases hfound with
      | none =>
          refine steady_pure (.cons hargument .nil) (covers_of_sublist ?_)
          simp [Produce.exprs, Produce.expr, exprsIds]
      | some _ =>
          apply (ih (count + 1)).andThen
          intro others others' hothers
          refine steady_pure (.cons hargument hothers) (covers_of_sublist ?_)
          simp [Produce.exprs, Produce.expr, exprsIds]

theorem Steady.argumentList (h : Steady pairing [] (.expr pairing) inner inner) (bound : Nat) :
    Steady pairing [] (.exprs pairing) (argumentList bound inner) (argumentList bound inner) := by
  apply (steady_looksAt _).skip
  rintro closes _ rfl
  cases closes with
  | true => exact steady_pure .nil fun _ _ => id
  | false => exact h.arguments bound 0

theorem Steady.calls (h : Steady pairing [] (.expr pairing) inner inner) (bound rounds : Nat)
    {callee callee' : Expr} (hcallee : AlikeExpr pairing.link callee callee') :
    Steady pairing (exprIds callee) (.expr pairing) (calls bound inner rounds callee)
      (calls bound inner rounds callee') := by
  induction rounds generalizing callee callee' with
  | zero => exact steady_exhausted
  | succ rounds ih =>
      apply (steady_accept? _).skip
      intro _ _ hfound
      cases hfound with
      | none => exact steady_pure hcallee fun _ _ => id
      | some _ =>
          apply (h.argumentList bound).andThen
          intro arguments arguments' harguments
          apply (steady_expect _ _).skip
          intro paren paren' hparen
          exact ih (.call hcallee hparen harguments)

theorem Steady.primary (h : Steady pairing [] (.expr pairing) inner inner) :
    Steady pairing [] (.expr pairing) (primary inner) (primary inner) := by
  apply (steady_accept? _).skip
  intro _ _ hfound
  cases hfound with
  | some htoken =>
      dsimp only
      rw [pairing.link.kind_eq htoken]
      split
      · next value _ => exact steady_pure (.constant value) fun _ _ => id
      · exact steady_halt _
  | none =>
      apply (steady_accept? _).skip
      intro _ _ hfound
      cases hfound with
      | some hname =>
          apply steady_freshId.bind
          intro id id' hid
          exact steady_pure (.variable hid hname) fun _ _ hids => hids
      | none =>
          apply (steady_accept? _).skip
          intro _ _ hfound
          cases hfound with
          | none => exact steady_halt _
          | some _ =>
              apply h.bind
              intro value value' hvalue
              apply (steady_expect _ _).skip
              intro _ _ _
              exact steady_pure (.group hvalue) fun _ _ hids => hids

theorem Steady.call (h : Steady pairing [] (.expr pairing) inner inner) (bound : Nat) :
    Steady pairing [] (.expr pairing) (call bound inner) (call bound inner) :=
  h.primary.bind fun _ _ hcallee => h.calls bound bound hcallee

theorem Steady.unary (h : Steady pairing [] (.expr pairing) operand operand) (bound : Nat) :
    Steady pairing [] (.expr pairing) (unary operand bound) (unary operand bound) := by
  induction bound with
  | zero => exact steady_exhausted
  | succ bound ih =>
      apply (steady_accept? _).skip
      intro _ _ hfound
      cases hfound with
      | none => exact h
      | some hoperator =>
          apply ih.bind
          intro value value' hvalue
          exact steady_pure (.unary hoperator hvalue) fun _ _ hids => hids

/-- All levels of operators between a nested expression and an assignment. -/
theorem Steady.disjunction (h : Steady pairing [] (.expr pairing) inner inner) (bound : Nat) :
    Steady pairing [] (.expr pairing) (disjunction bound inner) (disjunction bound inner) := by
  have hfactor := ((h.call bound).unary bound).level bound isFactorOperator node_binary
  have hterm := hfactor.level bound isTermOperator node_binary
  have hcomparison := hterm.level bound isComparisonOperator node_binary
  have hequality := hcomparison.level bound isEqualityOperator node_binary
  have hconjunction := hequality.level bound (·.isKeyword .and_) node_logical
  exact hconjunction.level bound (·.isKeyword .or_) node_logical

/-- The identity of a variable that is assigned to is given up for a new one. -/
theorem steady_assignTo {target target' value value' : Expr} {equals equals' : Token}
    (htarget : AlikeExpr pairing.link target target')
    (hequals : pairing.link.tokens equals equals')
    (hvalue : AlikeExpr pairing.link value value') :
    Steady pairing (exprIds target ++ exprIds value) (.expr pairing)
      (assignTo target equals value) (assignTo target' equals' value') := by
  have hfault : SameFault pairing.lines
      (.grammar equals.line equals.location .assignmentTarget)
      (.grammar equals'.line equals'.location .assignmentTarget) := by
    rw [pairing.link.location_eq hequals]
    exact .grammar (pairing.line_of_tokens hequals) _ _
  have hother : Steady pairing (exprIds target ++ exprIds value) (.expr pairing)
      (report (.grammar equals.line equals.location .assignmentTarget) >>= fun _ => pure target)
      (report (.grammar equals'.line equals'.location .assignmentTarget) >>=
        fun _ => pure target') := by
    apply (steady_report hfault).skip
    intro _ _ _
    exact steady_pure htarget (covers_of_sublist (List.sublist_append_left _ _))
  cases htarget with
  | «variable» _ hname =>
      apply steady_freshId.andThen
      intro id id' hid
      refine steady_pure (.assign hid hname hvalue) (covers_of_sublist ?_)
      simp [Produce.expr, Produce.fresh, exprIds]
  | _ => exact hother

theorem steady_expression (bound : Nat) :
    Steady pairing [] (.expr pairing) (expression bound) (expression bound) := by
  induction bound with
  | zero => exact steady_exhausted
  | succ bound ih =>
      apply (ih.disjunction (bound + 1)).bind
      intro target target' htarget
      apply (steady_accept? _).skip
      intro _ _ hfound
      cases hfound with
      | none => exact steady_pure htarget fun _ _ => id
      | some hequals => exact ih.andThen fun _ _ hvalue => steady_assignTo htarget hequals hvalue

end Expressions

/-! ### Statements -/

section Statements

variable {pairing : Pairing} {inner : Reader Stmt} {member : Reader (Option Stmt)}

theorem steady_optionalExpression (bound : Nat) (closing : Mark) :
    Steady pairing [] (.optionalExpr pairing) (optionalExpression bound closing)
      (optionalExpression bound closing) := by
  apply (steady_looksAt _).skip
  rintro closes _ rfl
  cases closes with
  | true => exact steady_pure .nil fun _ _ => id
  | false =>
      apply (steady_expression bound).bind
      intro value value' hvalue
      refine steady_pure (.cons hvalue .nil) (covers_of_sublist ?_)
      simp [Produce.optionalExpr, Produce.expr, exprsIds]

theorem steady_expressionStatement (bound : Nat) :
    Steady pairing [] (.stmt pairing) (expressionStatement bound) (expressionStatement bound) := by
  apply (steady_expression bound).bind
  intro value value' hvalue
  apply (steady_expect _ _).skip
  intro _ _ _
  exact steady_pure (.expression hvalue) fun _ _ hids => hids

theorem steady_printStatement (bound : Nat) :
    Steady pairing [] (.stmt pairing) (printStatement bound) (printStatement bound) := by
  apply (steady_expression bound).bind
  intro value value' hvalue
  apply (steady_expect _ _).skip
  intro _ _ _
  exact steady_pure (.print hvalue) fun _ _ hids => hids

theorem ids_leave (keyword : Token) (value : Option Expr) :
    stmtIds (.leave keyword value) = exprsIds value.toList := by
  cases value with
  | none => rfl
  | some value => exact (List.append_nil _).symm

theorem steady_returnStatement (bound : Nat) {keyword keyword' : Token}
    (hkeyword : pairing.link.tokens keyword keyword') :
    Steady pairing [] (.stmt pairing) (returnStatement bound keyword)
      (returnStatement bound keyword') := by
  apply (steady_optionalExpression bound _).bind
  intro value value' hvalue
  apply (steady_expect _ _).skip
  intro _ _ _
  refine steady_pure (alike_leave hkeyword hvalue) (covers_of_sublist ?_)
  rw [show Produce.ids _ _ = _ from ids_leave keyword value]
  exact List.Sublist.refl _

theorem steady_initialValue (bound : Nat) :
    Steady pairing [] (.optionalExpr pairing) (initialValue bound) (initialValue bound) := by
  apply (steady_accept? _).skip
  intro _ _ hfound
  cases hfound with
  | none => exact steady_pure .nil fun _ _ => id
  | some _ =>
      apply (steady_expression bound).map
      intro value value' hvalue
      exact ⟨.cons hvalue .nil, List.append_nil _⟩

theorem alike_declare {link : Link} {name name' : Token} {initial initial' : Option Expr}
    (hname : link.tokens name name') (h : AlikeExprs link initial.toList initial'.toList) :
    AlikeStmt link (.declare name initial) (.declare name' initial') := by
  cases initial with
  | none =>
      cases initial' with
      | none => exact .declare hname
      | some _ => cases h
  | some initial =>
      cases initial' with
      | none => cases h
      | some initial' =>
          cases h with
          | cons hinitial _ => exact .declareWith hname hinitial

theorem ids_declare (name : Token) (initial : Option Expr) :
    stmtIds (.declare name initial) = exprsIds initial.toList := by
  cases initial with
  | none => rfl
  | some initial => exact (List.append_nil _).symm

theorem steady_variableDeclaration (bound : Nat) :
    Steady pairing [] (.stmt pairing) (variableDeclaration bound) (variableDeclaration bound) := by
  apply (steady_expect _ _).skip
  intro name name' hname
  apply (steady_initialValue bound).bind
  intro initial initial' hinitial
  apply (steady_expect _ _).skip
  intro _ _ _
  refine steady_pure (alike_declare hname hinitial) (covers_of_sublist ?_)
  rw [show Produce.ids _ _ = _ from ids_declare name initial]
  exact List.Sublist.refl _

theorem Steady.declarationsUntil (h : Steady pairing [] (.optionalStmt pairing) member member)
    (stop : Kind → Bool) (bound : Nat) :
    Steady pairing [] (.stmts pairing) (declarationsUntil stop member bound)
      (declarationsUntil stop member bound) := by
  induction bound with
  | zero => exact steady_exhausted
  | succ bound ih =>
      apply (steady_looksAt stop).skip
      rintro stops _ rfl
      apply steady_atEnd.skip
      rintro isEnd _ rfl
      cases stops || isEnd with
      | true => exact steady_pure .nil fun _ _ => id
      | false =>
          apply h.bind
          intro first first' hfirst
          apply ih.andThen
          intro others others' hothers
          refine steady_pure (hfirst.append hothers) (covers_of_sublist ?_)
          simp [Produce.stmts, Produce.optionalStmt, stmtsIds_append]

theorem Steady.blockBody (h : Steady pairing [] (.optionalStmt pairing) member member)
    (bound : Nat) :
    Steady pairing [] (.stmts pairing) (blockBody bound member) (blockBody bound member) := by
  apply (h.declarationsUntil _ bound).bind
  intro body body' hbody
  apply (steady_expect _ _).skip
  intro _ _ _
  exact steady_pure hbody fun _ _ => id

theorem steady_parameters (bound count : Nat) :
    Steady pairing [] (.told (List.Forall₂ pairing.link.tokens)) (parameters bound count)
      (parameters bound count) := by
  induction bound generalizing count with
  | zero => exact steady_exhausted
  | succ bound ih =>
      apply (steady_limit count _).skip
      intro _ _ _
      apply (steady_expect _ _).skip
      intro param param' hparam
      apply (steady_accept? _).skip
      intro _ _ hfound
      cases hfound with
      | none => exact steady_done (.cons hparam .nil)
      | some _ =>
          apply (ih (count + 1)).skip
          intro others others' hothers
          exact steady_done (.cons hparam hothers)

theorem steady_parameterList (bound : Nat) :
    Steady pairing [] (.told (List.Forall₂ pairing.link.tokens)) (parameterList bound)
      (parameterList bound) := by
  apply (steady_looksAt _).skip
  rintro closes _ rfl
  cases closes with
  | true => exact steady_done .nil
  | false => exact steady_parameters bound 0

theorem Steady.functionDeclaration (h : Steady pairing [] (.optionalStmt pairing) member member)
    (bound : Nat) :
    Steady pairing [] (.stmt pairing) (functionDeclaration bound member)
      (functionDeclaration bound member) := by
  apply (steady_expect _ _).skip
  intro name name' hname
  apply (steady_expect _ _).skip
  intro _ _ _
  apply (steady_parameterList bound).skip
  intro params params' hparams
  apply (steady_expect _ _).skip
  intro _ _ _
  apply (steady_expect _ _).skip
  intro _ _ _
  apply (h.blockBody bound).bind
  intro body body' hbody
  exact steady_pure (.function hname hparams hbody) fun _ _ hids => hids

theorem Steady.ifStatement (h : Steady pairing [] (.stmt pairing) inner inner) (bound : Nat) :
    Steady pairing [] (.stmt pairing) (ifStatement bound inner) (ifStatement bound inner) := by
  apply (steady_expect _ _).skip
  intro _ _ _
  apply (steady_expression bound).bind
  intro condition condition' hcondition
  apply (steady_expect _ _).skip
  intro _ _ _
  apply h.andThen
  intro whenTrue whenTrue' hwhenTrue
  apply (steady_accept? _).skip
  intro _ _ hfound
  cases hfound with
  | none => exact steady_pure (.branch hcondition hwhenTrue) fun _ _ hids => hids
  | some _ =>
      apply h.andThen
      intro whenFalse whenFalse' hwhenFalse
      exact steady_pure (.branchElse hcondition hwhenTrue hwhenFalse) fun _ _ hids => hids

theorem Steady.whileStatement (h : Steady pairing [] (.stmt pairing) inner inner) (bound : Nat) :
    Steady pairing [] (.stmt pairing) (whileStatement bound inner)
      (whileStatement bound inner) := by
  apply (steady_expect _ _).skip
  intro _ _ _
  apply (steady_expression bound).bind
  intro condition condition' hcondition
  apply (steady_expect _ _).skip
  intro _ _ _
  apply h.andThen
  intro body body' hbody
  exact steady_pure (.loop hcondition hbody) fun _ _ hids => hids

theorem steady_forInitializer (bound : Nat) :
    Steady pairing [] (.optionalStmt pairing) (forInitializer bound) (forInitializer bound) := by
  have hone : ∀ tree tree', AlikeStmt pairing.link tree tree' →
      (Produce.optionalStmt pairing).alike (some tree) (some tree') ∧
        (Produce.optionalStmt pairing).ids (some tree) = (Produce.stmt pairing).ids tree :=
    fun _ _ htree => ⟨.cons htree .nil, List.append_nil _⟩
  apply (steady_accept? _).skip
  intro _ _ hfound
  cases hfound with
  | some _ => exact steady_pure .nil fun _ _ => id
  | none =>
      apply (steady_accept? _).skip
      intro _ _ hfound
      cases hfound with
      | some _ => exact (steady_variableDeclaration bound).map hone
      | none => exact (steady_expressionStatement bound).map hone

theorem forLoop_eq (initial : Option Stmt) (condition increment : Option Expr) (body : Stmt) :
    forLoop initial condition increment body = .block (initial.toList ++
      [.loop (condition.getD (.constant (.bool true))) (loopRound body increment)]) := by
  cases increment <;> rfl

theorem ids_forLoop (initial : Option Stmt) (condition increment : Option Expr) (body : Stmt) :
    stmtIds (forLoop initial condition increment body) =
      stmtsIds initial.toList ++ (exprsIds condition.toList ++
        (stmtIds body ++ exprsIds increment.toList)) := by
  rw [forLoop_eq, stmtIds, stmtsIds_append, stmtsIds, stmtsIds, List.append_nil, stmtIds]
  congr 2
  · cases condition with
    | none => rfl
    | some condition => exact (List.append_nil _).symm
  · cases increment with
    | none => exact (List.append_nil _).symm
    | some increment => rfl

theorem Steady.forStatement (h : Steady pairing [] (.stmt pairing) inner inner) (bound : Nat) :
    Steady pairing [] (.stmt pairing) (forStatement bound inner) (forStatement bound inner) := by
  apply (steady_expect _ _).skip
  intro _ _ _
  apply (steady_forInitializer bound).bind
  intro initial initial' hinitial
  apply (steady_optionalExpression bound _).andThen
  intro condition condition' hcondition
  apply (steady_expect _ _).skip
  intro _ _ _
  apply (steady_optionalExpression bound _).andThen
  intro increment increment' hincrement
  apply (steady_expect _ _).skip
  intro _ _ _
  apply h.andThen
  intro body body' hbody
  have halike : AlikeStmt pairing.link (forLoop initial condition increment body)
      (forLoop initial' condition' increment' body') := by
    rw [forLoop_eq, forLoop_eq]
    exact .block (hinitial.append (.cons (.loop (alike_condition hcondition _)
      (alike_loopRound hbody hincrement)) .nil))
  apply steady_pure halike
  intro n m hread
  -- The increment is read before the body and stands behind it.
  show Numbered n m (stmtIds (forLoop initial condition increment body))
  rw [ids_forLoop, ← List.append_assoc]
  rw [List.append_assoc] at hread
  exact hread.perm (List.perm_append_comm.append_left _)

theorem Steady.statementRule (hinner : Steady pairing [] (.stmt pairing) inner inner)
    (hmember : Steady pairing [] (.optionalStmt pairing) member member) (bound : Nat) :
    Steady pairing [] (.stmt pairing) (statementRule bound inner member)
      (statementRule bound inner member) := by
  apply (steady_accept? _).skip
  intro _ _ hfound
  cases hfound with
  | none => exact steady_expressionStatement bound
  | @some lead lead' hlead =>
      dsimp only
      rw [pairing.link.kind_eq hlead]
      split
      · exact hinner.forStatement bound
      · exact hinner.ifStatement bound
      · exact steady_printStatement bound
      · exact steady_returnStatement bound hlead
      · exact hinner.whileStatement bound
      · exact (hmember.blockBody bound).map fun _ _ hbody => ⟨.block hbody, rfl⟩

theorem Steady.declarationRule (hinner : Steady pairing [] (.stmt pairing) inner inner)
    (hmember : Steady pairing [] (.optionalStmt pairing) member member) (bound : Nat) :
    Steady pairing [] (.stmt pairing) (declarationRule bound inner member)
      (declarationRule bound inner member) := by
  apply (steady_accept? _).skip
  intro _ _ hfound
  cases hfound with
  | some _ => exact hmember.functionDeclaration bound
  | none =>
      apply (steady_accept? _).skip
      intro _ _ hfound
      cases hfound with
      | some _ => exact steady_variableDeclaration bound
      | none => exact hinner.statementRule hmember bound

theorem steady_statement_declaration (bound : Nat) :
    Steady pairing [] (.stmt pairing) (statement bound) (statement bound) ∧
      Steady pairing [] (.optionalStmt pairing) (declaration bound) (declaration bound) := by
  induction bound with
  | zero => exact ⟨steady_exhausted, steady_exhausted⟩
  | succ bound ih =>
      exact ⟨ih.1.statementRule ih.2 (bound + 1), (ih.1.declarationRule ih.2 (bound + 1)).recover⟩

theorem steady_program (bound : Nat) :
    Steady pairing [] (.stmts pairing) (program bound) (program bound) :=
  (steady_statement_declaration bound).2.declarationsUntil _ bound

theorem steady_wholeExpression (bound : Nat) :
    Steady pairing [] (.expr pairing) (wholeExpression bound) (wholeExpression bound) := by
  apply (steady_expression bound).bind
  intro value value' hvalue
  apply steady_atEnd.skip
  rintro isEnd _ rfl
  cases isEnd with
  | true => exact steady_pure hvalue fun _ _ => id
  | false => exact steady_halt _

end Statements

/-! ### Sources -/

section Sources

variable {α : Type} {pairing : Pairing} {produce : Produce α} {rule : Nat → Reader α}
  {tokens tokens' : List Token}

/-- The same result of both readings. -/
inductive SameParsed (pairing : Pairing) (produce : Produce α) (start : Nat) :
    Parsed α → Parsed α → Prop
  | ok {value value' : α} {stop : Nat} (ids : Numbered start stop (produce.ids value))
      (alike : produce.alike value value') :
      SameParsed pairing produce start ⟨.ok value, stop⟩ ⟨.ok value', stop + pairing.later⟩
  | error {faults faults' : List Diagnostic} {stop : Nat} (le : start ≤ stop)
      (same : List.Forall₂ (SameFault pairing.lines) faults faults') :
      SameParsed pairing produce start ⟨.error faults, stop⟩
        ⟨.error faults', stop + pairing.later⟩

theorem forall₂_dropWhile {R : Token → Token → Prop} {test : Token → Bool}
    (htest : ∀ a b, R a b → test b = test a) (h : List.Forall₂ R tokens tokens') :
    List.Forall₂ R (tokens.takeWhile test) (tokens'.takeWhile test) ∧
      List.Forall₂ R (tokens.dropWhile test) (tokens'.dropWhile test) := by
  induction h with
  | nil => exact ⟨.nil, .nil⟩
  | cons htoken hrest ih =>
      rw [List.takeWhile_cons, List.takeWhile_cons, List.dropWhile_cons, List.dropWhile_cons,
        htest _ _ htoken]
      split
      · exact ⟨.cons htoken ih.1, ih.2⟩
      · exact ⟨.nil, .cons htoken hrest⟩

theorem rel_getLast? {R : Token → Token → Prop} (h : List.Forall₂ R tokens tokens') :
    Option.Rel R tokens.getLast? tokens'.getLast? := by
  rw [← List.head?_reverse, ← List.head?_reverse]
  have hreverse := List.rel_reverse h
  generalize tokens.reverse = first at hreverse ⊢
  generalize tokens'.reverse = first' at hreverse ⊢
  cases hreverse with
  | nil => exact .none
  | cons hlast _ => exact .some hlast

theorem aligned_ofTokens (htokens : List.Forall₂ pairing.link.tokens tokens tokens')
    (start : Nat) :
    Aligned pairing (.ofTokens tokens start) (.ofTokens tokens' (start + pairing.later)) := by
  have htest : ∀ a b : Token, pairing.link.tokens a b →
      (!b.kind.isEndOfInput) = !a.kind.isEndOfInput :=
    fun _ _ h => congrArg (fun kind : Kind => !kind.isEndOfInput) (pairing.link.kind_eq h)
  obtain ⟨htaken, hleft⟩ := forall₂_dropWhile htest htokens
  have hlast := rel_getLast? htokens
  refine ⟨htaken, ?_, rfl, .nil⟩
  unfold Cursor.ofTokens
  dsimp only
  generalize tokens.dropWhile _ = left at hleft ⊢
  generalize tokens'.dropWhile _ = left' at hleft ⊢
  generalize tokens.getLast? = last at hlast ⊢
  generalize tokens'.getLast? = last' at hlast ⊢
  cases hleft with
  | cons hmarker _ => exact pairing.line_of_tokens hmarker
  | nil =>
      cases hlast with
      | none => exact pairing.firstLine
      | some htoken => exact pairing.line_of_tokens htoken

theorem sameParsed_parse (h : ∀ bound, Steady pairing [] produce (rule bound) (rule bound))
    (htokens : List.Forall₂ pairing.link.tokens tokens tokens') (start : Nat) :
    SameParsed pairing produce start (parse rule tokens start)
      (parse rule tokens' (start + pairing.later)) := by
  have haligned := aligned_ofTokens htokens start
  have hrule := h ((Cursor.ofTokens tokens start).rest.length + 1) start _ _ (numbered_nil start)
    haligned
  unfold parse
  dsimp only
  rw [← haligned.rest.length_eq]
  generalize rule _ (Cursor.ofTokens tokens start) = result at hrule ⊢
  generalize rule _ (Cursor.ofTokens tokens' _) = result' at hrule ⊢
  cases hrule with
  | @ok _ _ after after' hids halike hafter =>
      have hfaults := hafter.faults
      dsimp only
      rw [hafter.issued]
      generalize after.faults = faults at hfaults ⊢
      generalize after'.faults = faults' at hfaults ⊢
      cases hfaults with
      | nil => exact .ok hids halike
      | cons hfirst hrest => exact .error hids.1 (.cons hfirst hrest)
  | error hle hhalt hafter =>
      cases hhalt with
      | fault hsame =>
          dsimp only
          rw [hafter.issued]
          exact .error hle (hafter.report hsame).faults
      | exhausted =>
          dsimp only
          rw [hafter.issued]
          exact .error hle hafter.faults

/-- At the same tokens, behind so many more identities. -/
theorem sameParsed_behind {later : Nat}
    (h : ∀ bound, Steady (.behind later) [] produce (rule bound) (rule bound))
    (tokens : List Token) (start : Nat) :
    SameParsed (.behind later) produce start (parse rule tokens start)
      (parse rule tokens (start + later)) :=
  sameParsed_parse h (forall₂_same_iff.mpr rfl) start

end Sources

end Scriptlet.Incremental
