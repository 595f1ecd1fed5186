/-
Steps that run nothing: they read a source, or find fault with it before it is run.

Such a step uses up identities and does nothing else.  All other steps go on as if it had
not been taken, but for the identities in the trees that they give.
-/
import Scriptlet.Proofs.Incremental.Shifted

namespace Scriptlet

mutual

/-- The tree with the same identity everywhere. -/
def Expr.withoutIds : Expr → Expr
  | .constant value => .constant value
  | .group inner => .group inner.withoutIds
  | .unary operator operand => .unary operator operand.withoutIds
  | .binary left operator right => .binary left.withoutIds operator right.withoutIds
  | .logical left operator right => .logical left.withoutIds operator right.withoutIds
  | .variable _ name => .variable 0 name
  | .assign _ name value => .assign 0 name value.withoutIds
  | .call callee paren arguments => .call callee.withoutIds paren (withoutIdsAll arguments)

def Expr.withoutIdsAll : List Expr → List Expr
  | [] => []
  | first :: rest => first.withoutIds :: withoutIdsAll rest

end

mutual

def Stmt.withoutIds : Stmt → Stmt
  | .expression value => .expression value.withoutIds
  | .print value => .print value.withoutIds
  | .declare name none => .declare name none
  | .declare name (some initial) => .declare name (some initial.withoutIds)
  | .block body => .block (withoutIdsAll body)
  | .branch condition whenTrue none => .branch condition.withoutIds whenTrue.withoutIds none
  | .branch condition whenTrue (some whenFalse) =>
      .branch condition.withoutIds whenTrue.withoutIds (some whenFalse.withoutIds)
  | .loop condition body => .loop condition.withoutIds body.withoutIds
  | .function name params body => .function name params (withoutIdsAll body)
  | .leave keyword none => .leave keyword none
  | .leave keyword (some value) => .leave keyword (some value.withoutIds)

def Stmt.withoutIdsAll : List Stmt → List Stmt
  | [] => []
  | first :: rest => first.withoutIds :: withoutIdsAll rest

end

variable {Place : Type}

def ValueIn.withoutIds : ValueIn Place → ValueIn Place
  | .closure function => .closure { function with body := Stmt.withoutIdsAll function.body }
  | value => value

def Yield.withoutIds : Yield Place → Yield Place
  | .done => .done
  | .value result => .value result.withoutIds
  | .program body => .program (Stmt.withoutIdsAll body)
  | .expression expr => .expression expr.withoutIds

/-- An entry of a transcript but for the identities in trees. -/
def withoutIds (entry : Answer Place × Outside) : Answer Place × Outside :=
  (entry.1.map Yield.withoutIds, entry.2)

namespace Incremental

section Trees

variable {link : Link}

mutual

/-- Trees that differ in identities only. -/
theorem AlikeExpr.withoutIds_eq {expr expr' : Expr} (h : AlikeExpr link expr expr')
    (htokens : ∀ a b, link.tokens a b → b = a) :
    expr'.withoutIds = expr.withoutIds := by
  match expr, h with
  | .constant _, .constant _ => rfl
  | .group _, .group hinner => exact congrArg Expr.group (hinner.withoutIds_eq htokens)
  | .unary _ _, .unary hoperator hoperand =>
      simp only [Expr.withoutIds, htokens _ _ hoperator, hoperand.withoutIds_eq htokens]
  | .binary _ _ _, .binary hleft hoperator hright =>
      simp only [Expr.withoutIds, htokens _ _ hoperator, hleft.withoutIds_eq htokens,
        hright.withoutIds_eq htokens]
  | .logical _ _ _, .logical hleft hoperator hright =>
      simp only [Expr.withoutIds, htokens _ _ hoperator, hleft.withoutIds_eq htokens,
        hright.withoutIds_eq htokens]
  | .variable _ _, .variable _ hname => simp only [Expr.withoutIds, htokens _ _ hname]
  | .assign _ _ _, .assign _ hname hvalue =>
      simp only [Expr.withoutIds, htokens _ _ hname, hvalue.withoutIds_eq htokens]
  | .call _ _ _, .call hcallee hparen harguments =>
      simp only [Expr.withoutIds, hcallee.withoutIds_eq htokens, htokens _ _ hparen,
        harguments.withoutIds_eq htokens]

theorem AlikeExprs.withoutIds_eq {exprs exprs' : List Expr} (h : AlikeExprs link exprs exprs')
    (htokens : ∀ a b, link.tokens a b → b = a) :
    Expr.withoutIdsAll exprs' = Expr.withoutIdsAll exprs := by
  match exprs, h with
  | [], .nil => rfl
  | _ :: _, .cons hfirst hrest =>
      simp only [Expr.withoutIdsAll, hfirst.withoutIds_eq htokens, hrest.withoutIds_eq htokens]

end

mutual

theorem AlikeStmt.withoutIds_eq {stmt stmt' : Stmt} (h : AlikeStmt link stmt stmt')
    (htokens : ∀ a b, link.tokens a b → b = a) :
    stmt'.withoutIds = stmt.withoutIds := by
  match stmt, h with
  | .expression _, .expression hvalue =>
      simp only [Stmt.withoutIds, hvalue.withoutIds_eq htokens]
  | .print _, .print hvalue => simp only [Stmt.withoutIds, hvalue.withoutIds_eq htokens]
  | .declare _ none, .declare hname => simp only [Stmt.withoutIds, htokens _ _ hname]
  | .declare _ (some _), .declareWith hname hinitial =>
      simp only [Stmt.withoutIds, htokens _ _ hname, hinitial.withoutIds_eq htokens]
  | .block _, .block hbody => simp only [Stmt.withoutIds, hbody.withoutIds_eq htokens]
  | .branch _ _ none, .branch hcondition hwhenTrue =>
      simp only [Stmt.withoutIds, hcondition.withoutIds_eq htokens, hwhenTrue.withoutIds_eq htokens]
  | .branch _ _ (some _), .branchElse hcondition hwhenTrue hwhenFalse =>
      simp only [Stmt.withoutIds, hcondition.withoutIds_eq htokens, hwhenTrue.withoutIds_eq htokens,
        hwhenFalse.withoutIds_eq htokens]
  | .loop _ _, .loop hcondition hbody =>
      simp only [Stmt.withoutIds, hcondition.withoutIds_eq htokens, hbody.withoutIds_eq htokens]
  | .function _ _ _, .function hname hparams hbody =>
      have hsame : List.Forall₂ (fun a b => b = a) _ _ := hparams.imp htokens
      have hparamsSame := hsame.flip
      rw [List.forall₂_eq_eq_eq] at hparamsSame
      simp only [Stmt.withoutIds, htokens _ _ hname, hparamsSame, hbody.withoutIds_eq htokens]
  | .leave _ none, .leave hkeyword => simp only [Stmt.withoutIds, htokens _ _ hkeyword]
  | .leave _ (some _), .leaveWith hkeyword hvalue =>
      simp only [Stmt.withoutIds, htokens _ _ hkeyword, hvalue.withoutIds_eq htokens]

theorem AlikeStmts.withoutIds_eq {stmts stmts' : List Stmt} (h : AlikeStmts link stmts stmts')
    (htokens : ∀ a b, link.tokens a b → b = a) :
    Stmt.withoutIdsAll stmts' = Stmt.withoutIdsAll stmts := by
  match stmts, h with
  | [], .nil => rfl
  | _ :: _, .cons hfirst hrest =>
      simp only [Stmt.withoutIdsAll, hfirst.withoutIds_eq htokens, hrest.withoutIds_eq htokens]

end

theorem AlikeValue.withoutIds_eq {value value' : Value} (h : AlikeValue link value value')
    (htokens : ∀ a b, link.tokens a b → b = a) : value'.withoutIds = value.withoutIds := by
  cases h with
  | closure hclosure =>
      cases hclosure with
      | same hname hparams hbody =>
          have hparamsSame := (hparams.imp htokens).flip
          rw [List.forall₂_eq_eq_eq] at hparamsSame
          simp only [ValueIn.withoutIds, htokens _ _ hname, hparamsSame,
            hbody.withoutIds_eq htokens]
  | _ => rfl

end Trees

/-! ### The same steps -/

section Steps

variable {pairs : NodeId → NodeId → Prop} {session session' : Session}

theorem Shifted.outside_eq (h : Shifted pairs session session') :
    session'.machine.toOutside = session.machine.toOutside :=
  h.machines.outside_eq fun _ _ hsame => hsame

theorem map_withoutIds_eq {α β : Type} {R : α → β → Prop} {result : Except Failure α}
    {result' : Except Failure β} {yield : α → Yield Nat} {yield' : β → Yield Nat}
    (h : SameResult R result result')
    (hyield : ∀ a b, R a b → (yield' b).withoutIds = (yield a).withoutIds) :
    (result'.map yield').map Yield.withoutIds = (result.map yield).map Yield.withoutIds := by
  cases h with
  | ok hrelated => exact congrArg Except.ok (hyield _ _ hrelated)
  | error reason => rfl

/-- The same step gives the same in both sessions, but for the identities in trees. -/
theorem Shifted.perform (h : Shifted pairs session session') (step : Step)
    (hids : (session'.perform step).2.issued ≤ UInt32.size) :
    ∃ pairs', Shifted pairs' (session.perform step).2 (session'.perform step).2 ∧
      (session'.perform step).1.map Yield.withoutIds =
        (session.perform step).1.map Yield.withoutIds := by
  cases step with
  | run bound source =>
      obtain ⟨pairs', hshifted, hresult⟩ := h.run bound source hids
      exact ⟨pairs', hshifted, map_withoutIds_eq hresult fun _ _ _ => rfl⟩
  | evaluate bound source =>
      obtain ⟨pairs', hshifted, hresult⟩ := h.evaluate bound source hids
      refine ⟨pairs', hshifted, map_withoutIds_eq hresult fun value value' hvalue => ?_⟩
      exact congrArg Yield.value (hvalue.withoutIds_eq fun _ _ => id)
  | readProgram source =>
      obtain ⟨hshifted, hresult⟩ := h.read (fun _ => steady_program) source
      refine ⟨pairs, hshifted, map_withoutIds_eq hresult ?_⟩
      rintro body body' ⟨later, hbody⟩
      exact congrArg Yield.program (AlikeStmts.withoutIds_eq hbody fun _ _ => id)
  | readExpression source =>
      obtain ⟨hshifted, hresult⟩ := h.read (fun _ => steady_wholeExpression) source
      refine ⟨pairs, hshifted, map_withoutIds_eq hresult ?_⟩
      rintro expr expr' ⟨later, hexpr⟩
      exact congrArg Yield.expression (AlikeExpr.withoutIds_eq hexpr fun _ _ => id)

theorem Shifted.transcript (h : Shifted pairs session session') (steps : List Step)
    (hids : (session'.afterSteps steps).issued ≤ UInt32.size) :
    (session'.transcript steps).map withoutIds = (session.transcript steps).map withoutIds := by
  induction steps generalizing pairs session session' with
  | nil => rfl
  | cons step rest ih =>
      have hstep := Nat.le_trans (Session.issued_le_afterSteps _ rest) hids
      obtain ⟨pairs', hshifted, hanswer⟩ := h.perform step hstep
      have hentry := congrArg₂ Prod.mk hanswer hshifted.outside_eq
      exact congrArg₂ List.cons hentry (ih hshifted hids)

/-- A session stands where it would stand behind more identities. -/
theorem shifted_self {seen : Token → Prop} {m : Nat} (h : Settled seen session)
    (hfresh : session.Fresh) (hm : session.issued ≤ m) :
    Shifted (fun id id' => id' = id ∧ ∃ k < session.issued, id = .ofCount k) session
      { session with issued := m } where
  machines := by
    apply AlikeMachine.imp h
    · exact fun _ _ htokens => htokens.2
    · exact fun _ _ hpair => ⟨hpair.2, hpair.1⟩
    · rfl
    · rintro id _ ⟨rfl, _⟩
      rfl
  handed := by
    rintro id _ ⟨rfl, k, hk, hid⟩
    exact ⟨⟨k, hk, hid⟩, k, Nat.lt_of_lt_of_le hk hm, hid⟩
  le := hm
  fresh := hfresh
  fresh' k hk := hfresh k (Nat.le_trans hm hk)

end Steps

end Incremental

namespace Session

variable {session : Session}

/-- The source has a fault that was found before it was run. -/
def FailsStatically {α : Type} : Except Failure α → Prop
  | .error (.static _) => True
  | _ => False

instance {α : Type} : (result : Except Failure α) → Decidable (FailsStatically result)
  | .error (.static _) => isTrue trivial
  | .error (.stopped _) => isFalse id
  | .ok _ => isFalse id

/-- Taken here, the step runs nothing: it only reads, or its source is rejected. -/
def Inert (session : Session) : Step → Prop
  | .readProgram _ | .readExpression _ => True
  | .run bound source => FailsStatically (session.run bound source).1
  | .evaluate bound source => FailsStatically (session.evaluate bound source).1

theorem not_failsStatically_act {α : Type} (session : Session) (action : Eval α) :
    ¬ FailsStatically (session.act action).1 := by
  unfold act
  dsimp only
  split
  · exact id
  · exact id

/-- A step that runs nothing uses up identities and does nothing else. -/
theorem Inert.perform_eq {step : Step} (h : session.Inert step) :
    (session.perform step).2 =
      { session with issued := (session.perform step).2.issued } := by
  cases step with
  | readProgram source => rfl
  | readExpression source => rfl
  | evaluate bound source =>
      have hfails : FailsStatically _ := h
      show (session.evaluate bound source).2 =
        { session with issued := (session.evaluate bound source).2.issued }
      have hcases := session.evaluate_cases bound source
      generalize session.evaluate bound source = ended at hcases hfails ⊢
      cases hcases with
      | unread _ => rfl
      | runs _ => exact absurd hfails (not_failsStatically_act _ _)
  | run bound source =>
      have hfails : FailsStatically _ := h
      show (session.run bound source).2 =
        { session with issued := (session.run bound source).2.issued }
      have hcases := session.run_cases bound source
      generalize session.run bound source = ended at hcases hfails ⊢
      cases hcases with
      | unread _ | unresolved _ _ => rfl
      | runs _ _ => exact absurd hfails (not_failsStatically_act _ _)

theorem transcript_append (session : Session) (before after : List Step) :
    session.transcript (before ++ after) =
      session.transcript before ++ (session.afterSteps before).transcript after := by
  induction before generalizing session with
  | nil => rfl
  | cons step rest ih => exact congrArg (List.cons _) (ih _)

theorem length_transcript (session : Session) (steps : List Step) :
    (session.transcript steps).length = steps.length := by
  induction steps generalizing session with
  | nil => rfl
  | cons step rest ih => exact congrArg (· + 1) (ih _)

/-- A step that runs nothing can be put between any steps of a session.  It changes nothing
but the number of identities handed out, and all other steps have the results, the output and
the faults that they have without it, but for the identities in trees. -/
theorem transcript_without_inert (sink : Sink) (clock : Clock) (before : List Step) (step : Step)
    (after : List Step) (hinert : ((Session.initial sink clock).afterSteps before).Inert step)
    (hids : ((Session.initial sink clock).afterSteps (before ++ step :: after)).issued ≤
      UInt32.size) :
    (∃ issued, (((Session.initial sink clock).afterSteps before).perform step).2 =
        { (Session.initial sink clock).afterSteps before with issued := issued }) ∧
      (((Session.initial sink clock).transcript (before ++ step :: after)).eraseIdx
          before.length).map withoutIds =
        ((Session.initial sink clock).transcript (before ++ after)).map withoutIds := by
  have hsettled := Incremental.settled_afterSteps sink clock before
  rw [afterSteps_append] at hids
  rw [transcript_append, transcript_append, ← length_transcript (Session.initial sink clock) before,
    List.eraseIdx_append_of_length_le (Nat.le_refl _), Nat.sub_self]
  generalize hhere : (Session.initial sink clock).afterSteps before = here at hinert hids hsettled ⊢
  have hle := issued_le_perform here step
  have hstep := Nat.le_trans (issued_le_afterSteps (here.perform step).2 after) hids
  have hfresh : here.Fresh :=
    hhere ▸ (fresh_initial sink clock).afterSteps (hhere.symm ▸ Nat.le_trans hle hstep)
  have heq := hinert.perform_eq
  refine ⟨⟨_, heq⟩, ?_⟩
  have hshifted := Incremental.shifted_self hsettled hfresh hle
  rw [← heq] at hshifted
  have hrest : ((here.perform step).2.transcript after).map withoutIds =
      (here.transcript after).map withoutIds := hshifted.transcript after hids
  rw [List.map_append, List.map_append]
  exact congrArg _ hrest

/-- The steps around the rejected one. -/
def declaring : List Step :=
  [.run 100 "fun f(a) \x7b return a; \x7d"]

def calling : List Step :=
  [.run 100 "print f(1);"]

/-- A source that is rejected after it has used up identities. -/
def rejected : Step :=
  .run 100 "\x7b var a = a; \x7d"

theorem transcript_without_inert_call :
    ((Session.initial .unlimited 0).afterSteps declaring).Inert rejected ∧
      ((Session.initial .unlimited 0).afterSteps (declaring ++ rejected :: calling)).issued ≤
        UInt32.size ∧
      (((Session.initial .unlimited 0).transcript (declaring ++ rejected :: calling)).eraseIdx
          1).map withoutIds =
        ((Session.initial .unlimited 0).transcript (declaring ++ calling)).map withoutIds := by
  have hinert : ((Session.initial .unlimited 0).afterSteps declaring).Inert rejected := by
    unfold Inert rejected
    decide +kernel
  have hids : ((Session.initial .unlimited 0).afterSteps
      (declaring ++ rejected :: calling)).issued ≤ UInt32.size := by
    decide +kernel
  exact ⟨hinert, hids,
    (transcript_without_inert .unlimited 0 declaring rejected calling hinert hids).2⟩

end Session

end Scriptlet
