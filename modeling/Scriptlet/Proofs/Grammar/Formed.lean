/-
What the trees of derivations have in common: operators stand where they mean
something, the body of a branch or a loop is never a bare declaration, and each
occurrence of a variable has an identity of its own.
-/
import Mathlib.Data.List.Perm.Basic
import Scriptlet.Proofs.Grammar.Derives

namespace Scriptlet

/-- The name that a statement adds to the scope it stands in. -/
def Stmt.declared? : Stmt → Option String
  | .declare name _ => some name.lexeme
  | .function name _ _ => some name.lexeme
  | _ => none

namespace Grammar

/-- The operators between two operands that are both evaluated. -/
def binaryKinds : List Kind :=
  [Level.equality, .comparison, .term, .factor].flatMap Level.operators

mutual

def FormedExpr : Expr → Prop
  | .constant _ => True
  | .group inner => FormedExpr inner
  | .unary operator operand =>
      (operator.IsMark .bang ∨ operator.IsMark .minus) ∧ FormedExpr operand
  | .binary left operator right =>
      operator.kind ∈ binaryKinds ∧ FormedExpr left ∧ FormedExpr right
  | .logical left _ right => FormedExpr left ∧ FormedExpr right
  | .variable _ _ => True
  | .assign _ _ value => FormedExpr value
  | .call callee _ arguments => FormedExpr callee ∧ FormedExprs arguments

def FormedExprs : List Expr → Prop
  | [] => True
  | first :: rest => FormedExpr first ∧ FormedExprs rest

end

mutual

def FormedStmt : Stmt → Prop
  | .expression value => FormedExpr value
  | .print value => FormedExpr value
  | .declare _ none => True
  | .declare _ (some initial) => FormedExpr initial
  | .block body => FormedStmts body
  | .branch condition whenTrue none =>
      FormedExpr condition ∧ whenTrue.declared? = none ∧ FormedStmt whenTrue
  | .branch condition whenTrue (some whenFalse) =>
      FormedExpr condition ∧ (whenTrue.declared? = none ∧ FormedStmt whenTrue) ∧
        whenFalse.declared? = none ∧ FormedStmt whenFalse
  | .loop condition body => FormedExpr condition ∧ body.declared? = none ∧ FormedStmt body
  | .function _ _ body => FormedStmts body
  | .leave _ none => True
  | .leave _ (some value) => FormedExpr value

def FormedStmts : List Stmt → Prop
  | [] => True
  | first :: rest => FormedStmt first ∧ FormedStmts rest

end

mutual

/-- The identities in a tree, in the order in which its parts stand in it. -/
def exprIds : Expr → List NodeId
  | .constant _ => []
  | .group inner => exprIds inner
  | .unary _ operand => exprIds operand
  | .binary left _ right => exprIds left ++ exprIds right
  | .logical left _ right => exprIds left ++ exprIds right
  | .variable id _ => [id]
  | .assign id _ value => exprIds value ++ [id]
  | .call callee _ arguments => exprIds callee ++ exprsIds arguments

def exprsIds : List Expr → List NodeId
  | [] => []
  | first :: rest => exprIds first ++ exprsIds rest

end

mutual

def stmtIds : Stmt → List NodeId
  | .expression value => exprIds value
  | .print value => exprIds value
  | .declare _ none => []
  | .declare _ (some initial) => exprIds initial
  | .block body => stmtsIds body
  | .branch condition whenTrue none => exprIds condition ++ stmtIds whenTrue
  | .branch condition whenTrue (some whenFalse) =>
      exprIds condition ++ stmtIds whenTrue ++ stmtIds whenFalse
  | .loop condition body => exprIds condition ++ stmtIds body
  | .function _ _ body => stmtsIds body
  | .leave _ none => []
  | .leave _ (some value) => exprIds value

def stmtsIds : List Stmt → List NodeId
  | [] => []
  | first :: rest => stmtIds first ++ stmtsIds rest

end

/-- Identities that were handed out one time each, `n` others before and `m` by
the end. -/
def Numbered (n m : Nat) (ids : List NodeId) : Prop :=
  n ≤ m ∧ ∃ counts : List Nat, ids = counts.map NodeId.ofCount ∧ counts.Nodup ∧
    ∀ k ∈ counts, n ≤ k ∧ k < m

section Numbered

variable {n k m : Nat} {ids others : List NodeId}

theorem numbered_nil (n : Nat) : Numbered n n [] :=
  ⟨Nat.le_refl n, [], rfl, List.nodup_nil, fun _ h => by cases h⟩

theorem numbered_one (n : Nat) : Numbered n (n + 1) [.ofCount n] := by
  refine ⟨Nat.le_succ n, [n], rfl, List.pairwise_singleton .., fun k hk => ?_⟩
  rw [List.mem_singleton.mp hk]
  exact ⟨Nat.le_refl n, Nat.lt_succ_self n⟩

theorem Numbered.append (h : Numbered n k ids) (hothers : Numbered k m others) :
    Numbered n m (ids ++ others) := by
  obtain ⟨hle, counts, rfl, hnodup, hcounts⟩ := h
  obtain ⟨hle', counts', rfl, hnodup', hcounts'⟩ := hothers
  refine ⟨Nat.le_trans hle hle', counts ++ counts', (List.map_append ..).symm, ?_, ?_⟩
  · refine List.nodup_append.mpr ⟨hnodup, hnodup', fun a ha b hb heq => ?_⟩
    have hlt := (hcounts a ha).2
    have hge := (hcounts' b hb).1
    omega
  · intro a ha
    rcases List.mem_append.mp ha with ha | ha
    · have hbounds := hcounts a ha
      omega
    · have hbounds := hcounts' a ha
      omega

/-- Parts need not stand in the order in which they were read. -/
theorem Numbered.perm (h : Numbered n m ids) (hperm : others.Perm ids) : Numbered n m others := by
  obtain ⟨hle, counts, rfl, hnodup, hcounts⟩ := h
  have hsame :
      List.Forall₂ (fun id k => id = NodeId.ofCount k) (counts.map NodeId.ofCount) counts :=
    List.forall₂_map_left_iff.mpr (List.forall₂_same.mpr fun _ _ => rfl)
  obtain ⟨counts', hothers, hcounts'⟩ := List.perm_comp_forall₂ hperm hsame
  refine ⟨hle, counts', ?_, hcounts'.nodup_iff.mpr hnodup,
    fun k hk => hcounts k (hcounts'.subset hk)⟩
  rw [← List.forall₂_eq_eq_eq]
  exact List.forall₂_map_right_iff.mpr hothers

theorem Numbered.of_le (h : Numbered k m ids) (hle : n ≤ k) : Numbered n m ids := by
  obtain ⟨hle', counts, hids, hnodup, hcounts⟩ := h
  exact ⟨Nat.le_trans hle hle', counts, hids, hnodup,
    fun a ha => ⟨Nat.le_trans hle (hcounts a ha).1, (hcounts a ha).2⟩⟩

theorem ofCount_injective {a b : Nat} (ha : a < UInt32.size) (hb : b < UInt32.size)
    (h : NodeId.ofCount a = NodeId.ofCount b) : a = b := by
  have hnat := congrArg UInt32.toNat h
  rwa [NodeId.ofCount, NodeId.ofCount, UInt32.toNat_ofNat_of_lt' ha,
    UInt32.toNat_ofNat_of_lt' hb] at hnat

theorem Numbered.nodup (h : Numbered n m ids) (hm : m ≤ UInt32.size) : ids.Nodup := by
  obtain ⟨-, counts, rfl, hnodup, hcounts⟩ := h
  refine List.pairwise_map.mpr (hnodup.imp_of_mem fun {a b} ha hb hne heq => hne ?_)
  exact ofCount_injective (Nat.lt_of_lt_of_le (hcounts a ha).2 hm)
    (Nat.lt_of_lt_of_le (hcounts b hb).2 hm) heq

theorem Numbered.exists_count (h : Numbered n m ids) {id : NodeId} (hid : id ∈ ids) :
    ∃ k, n ≤ k ∧ k < m ∧ id = .ofCount k := by
  obtain ⟨-, counts, rfl, -, hcounts⟩ := h
  obtain ⟨k, hk, rfl⟩ := List.mem_map.mp hid
  exact ⟨k, (hcounts k hk).1, (hcounts k hk).2, rfl⟩

end Numbered

/-- What holds of the tree of a phrase. -/
def WellMade : (symbol : Symbol) → Nat → symbol.Tree → Nat → Prop
  | .program, n, body, m => FormedStmts body ∧ Numbered n m (stmtsIds body)
  | .lone, n, value, m => FormedExpr value ∧ Numbered n m (exprIds value)
  | .declarations, n, body, m => FormedStmts body ∧ Numbered n m (stmtsIds body)
  | .declaration, n, tree, m => FormedStmt tree ∧ Numbered n m (stmtIds tree)
  | .statement _, n, tree, m =>
      (tree.declared? = none ∧ FormedStmt tree) ∧ Numbered n m (stmtIds tree)
  | .block, n, body, m => FormedStmts body ∧ Numbered n m (stmtsIds body)
  | .variableDeclaration, n, tree, m => FormedStmt tree ∧ Numbered n m (stmtIds tree)
  | .expressionStatement, n, tree, m =>
      (tree.declared? = none ∧ FormedStmt tree) ∧ Numbered n m (stmtIds tree)
  | .initializer, n, initial, m =>
      FormedStmts initial.toList ∧ Numbered n m (stmtsIds initial.toList)
  | .parameters, n, _, m => n = m
  | .parameterList, n, _, m => n = m
  | .optionalExpression, n, value, m =>
      FormedExprs value.toList ∧ Numbered n m (exprsIds value.toList)
  | .expr _, n, value, m => FormedExpr value ∧ Numbered n m (exprIds value)
  | .arguments, n, values, m => FormedExprs values ∧ Numbered n m (exprsIds values)
  | .argumentList, n, values, m => FormedExprs values ∧ Numbered n m (exprsIds values)

section WellMade

variable {strict : Bool} {symbol : Symbol} {n m : Nat} {tokens : List Token}

theorem formed_node {level : Level} {sign : Token} {left right : Expr}
    (hsign : sign.kind ∈ level.operators) (hleft : FormedExpr left) (hright : FormedExpr right) :
    FormedExpr (level.node left sign right) ∧
      exprIds (level.node left sign right) = exprIds left ++ exprIds right := by
  have hbinary : level ∈ [Level.equality, .comparison, .term, .factor] →
      sign.kind ∈ binaryKinds := fun hlevel => List.mem_flatMap.mpr ⟨level, hlevel, hsign⟩
  cases level with
  | disjunction => exact ⟨⟨hleft, hright⟩, rfl⟩
  | conjunction => exact ⟨⟨hleft, hright⟩, rfl⟩
  | equality => exact ⟨⟨hbinary (by decide), hleft, hright⟩, rfl⟩
  | comparison => exact ⟨⟨hbinary (by decide), hleft, hright⟩, rfl⟩
  | term => exact ⟨⟨hbinary (by decide), hleft, hright⟩, rfl⟩
  | factor => exact ⟨⟨hbinary (by decide), hleft, hright⟩, rfl⟩
  | expression | assignment | unary | call | primary => cases hsign

theorem formedStmts_append {first second : List Stmt} :
    FormedStmts (first ++ second) ↔ FormedStmts first ∧ FormedStmts second := by
  induction first with
  | nil => simp [FormedStmts]
  | cons stmt rest ih => simp [FormedStmts, ih, and_assoc]

theorem stmtsIds_append (first second : List Stmt) :
    stmtsIds (first ++ second) = stmtsIds first ++ stmtsIds second := by
  induction first with
  | nil => rfl
  | cons stmt rest ih => simp [stmtsIds, ih]

theorem formed_condition {condition : Option Expr} (h : FormedExprs condition.toList)
    (constant : Constant) :
    FormedExpr (condition.getD (.constant constant)) ∧
      exprIds (condition.getD (.constant constant)) = exprsIds condition.toList := by
  cases condition with
  | none => exact ⟨trivial, rfl⟩
  | some value => exact ⟨h.1, (List.append_nil _).symm⟩

theorem formed_loopRound {body : Stmt} {step : Option Expr}
    (hbody : body.declared? = none ∧ FormedStmt body) (hstep : FormedExprs step.toList) :
    ((loopRound body step).declared? = none ∧ FormedStmt (loopRound body step)) ∧
      stmtIds (loopRound body step) = stmtIds body ++ exprsIds step.toList := by
  cases step with
  | none => exact ⟨hbody, (List.append_nil _).symm⟩
  | some increment => exact ⟨⟨rfl, hbody.2, hstep.1, trivial⟩, rfl⟩

theorem derives_wellMade {tree : symbol.Tree} (h : Derives strict symbol n tokens tree m) :
    WellMade symbol n tree m := by
  induction h with
  | program _ _ ih => exact ih
  | lone _ _ ih => exact ih
  | nothing => exact ⟨trivial, numbered_nil _⟩
  | declarations _ _ ihHead ihTail =>
      exact ⟨⟨ihHead.1, ihTail.1⟩, ihHead.2.append ihTail.2⟩
  | function _ _ _ _ _ _ _ _ ihBlock => exact ihBlock
  | var_ _ ih => exact ih
  | statement _ ih => exact ⟨ih.1.2, ih.2⟩
  | block _ _ _ ih => exact ih
  | uninitialized _ _ _ => exact ⟨trivial, numbered_nil _⟩
  | initialized _ _ _ _ _ ih => exact ih
  | expression _ ih => exact ih
  | for_ _ _ _ _ _ _ _ _ ihInitial ihTest ihStep ihInner =>
      obtain ⟨hcondition, hconditionIds⟩ := formed_condition ihTest.1 (.bool true)
      obtain ⟨hround, hroundIds⟩ := formed_loopRound ihInner.1 ihStep.1
      -- The step is read before the body and stands behind it.
      have hids := ihInitial.2.append
        (ihTest.2.append ((ihStep.2.append ihInner.2).perm List.perm_append_comm))
      refine ⟨⟨rfl, formedStmts_append.mpr ⟨ihInitial.1, ⟨hcondition, hround⟩, trivial⟩⟩, ?_⟩
      rw [stmtIds, stmtsIds_append, stmtsIds, stmtsIds, List.append_nil, stmtIds, hconditionIds,
        hroundIds]
      exact hids
  | if_ _ _ _ _ _ ihTest ihInner =>
      exact ⟨⟨rfl, ihTest.1, ihInner.1⟩, ihTest.2.append ihInner.2⟩
  | ifElse _ _ _ _ _ _ _ _ ihTest ihInner ihOther =>
      exact ⟨⟨rfl, ihTest.1, ihInner.1, ihOther.1⟩,
        (ihTest.2.append ihInner.2).append ihOther.2⟩
  | print _ _ _ ih => exact ⟨⟨rfl, ih.1⟩, ih.2⟩
  | @return_ _ _ _ _ _ value _ _ _ ih =>
      cases value with
      | none => exact ⟨⟨rfl, trivial⟩, ih.2⟩
      | some value => exact ⟨⟨rfl, ih.1.1⟩, by simpa [stmtIds, exprsIds] using ih.2⟩
  | while_ _ _ _ _ _ ihTest ihInner =>
      exact ⟨⟨rfl, ihTest.1, ihInner.1⟩, ihTest.2.append ihInner.2⟩
  | blockStatement _ ih => exact ⟨⟨rfl, ih.1⟩, ih.2⟩
  | expressionStatement _ _ ih => exact ⟨⟨rfl, ih.1⟩, ih.2⟩
  | noInitializer _ => exact ⟨trivial, numbered_nil _⟩
  | initialVariable _ ih =>
      exact ⟨⟨ih.1, trivial⟩, by simpa [stmtsIds] using ih.2⟩
  | initialExpression _ ih =>
      exact ⟨⟨ih.1.2, trivial⟩, by simpa [stmtsIds] using ih.2⟩
  | parameter _ => rfl
  | parameters _ _ _ ih => rfl
  | noParameters => rfl
  | someParameters _ ih => rfl
  | noExpression => exact ⟨trivial, numbered_nil _⟩
  | someExpression _ ih => exact ⟨⟨ih.1, trivial⟩, by simpa [exprsIds] using ih.2⟩
  | tighter _ _ ih => exact ih
  | assign _ _ _ ih =>
      exact ⟨ih.1, (ih.2.append (numbered_one _)).of_le (Nat.le_succ _)⟩
  | operator _ _ hsign _ ihLeft ihRight =>
      obtain ⟨hformed, hids⟩ := formed_node hsign ihLeft.1 ihRight.1
      exact ⟨hformed, hids ▸ ihLeft.2.append ihRight.2⟩
  | unary hsign _ ih => exact ⟨⟨hsign, ih.1⟩, ih.2⟩
  | call _ _ _ _ _ ihCallee ihArguments =>
      exact ⟨⟨ihCallee.1, ihArguments.1⟩, ihCallee.2.append ihArguments.2⟩
  | number _ => exact ⟨trivial, numbered_nil _⟩
  | string _ => exact ⟨trivial, numbered_nil _⟩
  | true_ _ => exact ⟨trivial, numbered_nil _⟩
  | false_ _ => exact ⟨trivial, numbered_nil _⟩
  | nil_ _ => exact ⟨trivial, numbered_nil _⟩
  | name _ => exact ⟨trivial, numbered_one _⟩
  | group _ _ _ ih => exact ih
  | argument _ ih => exact ⟨⟨ih.1, trivial⟩, by simpa [exprsIds] using ih.2⟩
  | arguments _ _ _ ihValue ihTail =>
      exact ⟨⟨ihValue.1, ihTail.1⟩, ihValue.2.append ihTail.2⟩
  | noArguments => exact ⟨trivial, numbered_nil _⟩
  | someArguments _ ih => exact ih

end WellMade

end Grammar

end Scriptlet
