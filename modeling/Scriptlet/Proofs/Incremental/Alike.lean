/-
Trees, values and machines that are alike: the same but for the lines of tokens, the
identities of occurrences, and what was printed before.

What may differ is gathered in a link, so that one proof about running covers runs
of the same code with different side tables, of code that was moved to other lines,
and runs that print behind different texts.
-/
import Mathlib.Data.List.Forall2
import Scriptlet.Machine.Evaluate
import Scriptlet.Proofs.Grammar.Formed
import Scriptlet.Proofs.Values

namespace Scriptlet.Incremental

/-- Which tokens, identities, side tables and sinks may stand for each other. -/
structure Link where
  tokens : Token → Token → Prop
  ids : NodeId → NodeId → Prop
  tables : Table → Table → Prop
  sinks : Sink → Sink → Prop
  kind_eq : ∀ {a b}, tokens a b → b.kind = a.kind
  lexeme_eq : ∀ {a b}, tokens a b → b.lexeme = a.lexeme
  distance?_eq : ∀ {a b}, tables a b → ∀ {id id'}, ids id id' → b.distance? id' = a.distance? id
  fits_eq : ∀ {a b}, sinks a b → ∀ text, b.fits text = a.fits text
  flushFails_eq : ∀ {a b}, sinks a b → b.flushFails = a.flushFails
  write : ∀ {a b}, sinks a b → ∀ text, sinks (a.write text) (b.write text)

/-- Trees alone are compared, so no side tables and no sinks stand for each other. -/
def Link.ofTrees (tokens : Token → Token → Prop) (ids : NodeId → NodeId → Prop)
    (kind_eq : ∀ {a b}, tokens a b → b.kind = a.kind)
    (lexeme_eq : ∀ {a b}, tokens a b → b.lexeme = a.lexeme) : Link where
  tokens := tokens
  ids := ids
  tables _ _ := False
  sinks _ _ := False
  kind_eq := kind_eq
  lexeme_eq := lexeme_eq
  distance?_eq := nofun
  fits_eq := nofun
  flushFails_eq := nofun
  write := nofun

section Same

variable {a b : Sink} {table table' : Table} {id id' : NodeId}

theorem fits_of_eq (h : b = a) (text : String) : b.fits text = a.fits text :=
  congrArg (Sink.fits · text) h

theorem flushFails_of_eq (h : b = a) : b.flushFails = a.flushFails :=
  congrArg Sink.flushFails h

theorem write_of_eq (h : b = a) (text : String) : b.write text = a.write text :=
  congrArg (Sink.write · text) h

theorem distance?_of_eq (htables : ∀ id, table'.distance? id = table.distance? id)
    (hid : id' = id) : table'.distance? id' = table.distance? id := by
  rw [hid, htables]

end Same

mutual

inductive AlikeExpr (link : Link) : Expr → Expr → Prop
  | constant (value : Constant) : AlikeExpr link (.constant value) (.constant value)
  | group {inner inner' : Expr} (inner_ : AlikeExpr link inner inner') :
      AlikeExpr link (.group inner) (.group inner')
  | unary {operator operator' : Token} {operand operand' : Expr}
      (operator_ : link.tokens operator operator') (operand_ : AlikeExpr link operand operand') :
      AlikeExpr link (.unary operator operand) (.unary operator' operand')
  | binary {operator operator' : Token} {left left' right right' : Expr}
      (left_ : AlikeExpr link left left') (operator_ : link.tokens operator operator')
      (right_ : AlikeExpr link right right') :
      AlikeExpr link (.binary left operator right) (.binary left' operator' right')
  | logical {operator operator' : Token} {left left' right right' : Expr}
      (left_ : AlikeExpr link left left') (operator_ : link.tokens operator operator')
      (right_ : AlikeExpr link right right') :
      AlikeExpr link (.logical left operator right) (.logical left' operator' right')
  | variable {id id' : NodeId} {name name' : Token} (id_ : link.ids id id')
      (name_ : link.tokens name name') :
      AlikeExpr link (.variable id name) (.variable id' name')
  | assign {id id' : NodeId} {name name' : Token} {value value' : Expr} (id_ : link.ids id id')
      (name_ : link.tokens name name') (value_ : AlikeExpr link value value') :
      AlikeExpr link (.assign id name value) (.assign id' name' value')
  | call {callee callee' : Expr} {paren paren' : Token} {arguments arguments' : List Expr}
      (callee_ : AlikeExpr link callee callee') (paren_ : link.tokens paren paren')
      (arguments_ : AlikeExprs link arguments arguments') :
      AlikeExpr link (.call callee paren arguments) (.call callee' paren' arguments')

inductive AlikeExprs (link : Link) : List Expr → List Expr → Prop
  | nil : AlikeExprs link [] []
  | cons {first first' : Expr} {rest rest' : List Expr} (first_ : AlikeExpr link first first')
      (rest_ : AlikeExprs link rest rest') : AlikeExprs link (first :: rest) (first' :: rest')

end

mutual

inductive AlikeStmt (link : Link) : Stmt → Stmt → Prop
  | expression {value value' : Expr} (value_ : AlikeExpr link value value') :
      AlikeStmt link (.expression value) (.expression value')
  | print {value value' : Expr} (value_ : AlikeExpr link value value') :
      AlikeStmt link (.print value) (.print value')
  | declare {name name' : Token} (name_ : link.tokens name name') :
      AlikeStmt link (.declare name none) (.declare name' none)
  | declareWith {name name' : Token} {initial initial' : Expr} (name_ : link.tokens name name')
      (initial_ : AlikeExpr link initial initial') :
      AlikeStmt link (.declare name (some initial)) (.declare name' (some initial'))
  | block {body body' : List Stmt} (body_ : AlikeStmts link body body') :
      AlikeStmt link (.block body) (.block body')
  | branch {condition condition' : Expr} {whenTrue whenTrue' : Stmt}
      (condition_ : AlikeExpr link condition condition')
      (whenTrue_ : AlikeStmt link whenTrue whenTrue') :
      AlikeStmt link (.branch condition whenTrue none) (.branch condition' whenTrue' none)
  | branchElse {condition condition' : Expr} {whenTrue whenTrue' whenFalse whenFalse' : Stmt}
      (condition_ : AlikeExpr link condition condition')
      (whenTrue_ : AlikeStmt link whenTrue whenTrue')
      (whenFalse_ : AlikeStmt link whenFalse whenFalse') :
      AlikeStmt link (.branch condition whenTrue (some whenFalse))
        (.branch condition' whenTrue' (some whenFalse'))
  | loop {condition condition' : Expr} {body body' : Stmt}
      (condition_ : AlikeExpr link condition condition') (body_ : AlikeStmt link body body') :
      AlikeStmt link (.loop condition body) (.loop condition' body')
  | function {name name' : Token} {params params' : List Token} {body body' : List Stmt}
      (name_ : link.tokens name name') (params_ : List.Forall₂ link.tokens params params')
      (body_ : AlikeStmts link body body') :
      AlikeStmt link (.function name params body) (.function name' params' body')
  | leave {keyword keyword' : Token} (keyword_ : link.tokens keyword keyword') :
      AlikeStmt link (.leave keyword none) (.leave keyword' none)
  | leaveWith {keyword keyword' : Token} {value value' : Expr}
      (keyword_ : link.tokens keyword keyword') (value_ : AlikeExpr link value value') :
      AlikeStmt link (.leave keyword (some value)) (.leave keyword' (some value'))

inductive AlikeStmts (link : Link) : List Stmt → List Stmt → Prop
  | nil : AlikeStmts link [] []
  | cons {first first' : Stmt} {rest rest' : List Stmt} (first_ : AlikeStmt link first first')
      (rest_ : AlikeStmts link rest rest') : AlikeStmts link (first :: rest) (first' :: rest')

end

/-! ### Links that allow more -/

section Imp

open Grammar

variable {link other : Link}

mutual

/-- Only the identities in the tree count. -/
theorem AlikeExpr.imp {expr expr' : Expr} (h : AlikeExpr link expr expr')
    (htokens : ∀ a b, link.tokens a b → other.tokens a b)
    (hids : ∀ id ∈ exprIds expr, ∀ id', link.ids id id' → other.ids id id') :
    AlikeExpr other expr expr' := by
  match expr, h with
  | .constant value, .constant _ => exact .constant value
  | .group _, .group hinner => exact .group (hinner.imp htokens hids)
  | .unary _ _, .unary hoperator hoperand =>
      exact .unary (htokens _ _ hoperator) (hoperand.imp htokens hids)
  | .binary _ _ _, .binary hleft hoperator hright =>
      exact .binary (hleft.imp htokens fun id hid => hids id (List.mem_append_left _ hid))
        (htokens _ _ hoperator)
        (hright.imp htokens fun id hid => hids id (List.mem_append_right _ hid))
  | .logical _ _ _, .logical hleft hoperator hright =>
      exact .logical (hleft.imp htokens fun id hid => hids id (List.mem_append_left _ hid))
        (htokens _ _ hoperator)
        (hright.imp htokens fun id hid => hids id (List.mem_append_right _ hid))
  | .variable id _, .variable hid hname =>
      exact .variable (hids id List.mem_cons_self _ hid) (htokens _ _ hname)
  | .assign id _ value, .assign hid hname hvalue =>
      exact .assign (hids id (List.mem_append_right _ List.mem_cons_self) _ hid)
        (htokens _ _ hname) (hvalue.imp htokens fun id hid => hids id (List.mem_append_left _ hid))
  | .call _ _ _, .call hcallee hparen harguments =>
      exact .call (hcallee.imp htokens fun id hid => hids id (List.mem_append_left _ hid))
        (htokens _ _ hparen)
        (harguments.imp htokens fun id hid => hids id (List.mem_append_right _ hid))

theorem AlikeExprs.imp {exprs exprs' : List Expr} (h : AlikeExprs link exprs exprs')
    (htokens : ∀ a b, link.tokens a b → other.tokens a b)
    (hids : ∀ id ∈ exprsIds exprs, ∀ id', link.ids id id' → other.ids id id') :
    AlikeExprs other exprs exprs' := by
  match exprs, h with
  | [], .nil => exact .nil
  | _ :: _, .cons hfirst hrest =>
      exact .cons (hfirst.imp htokens fun id hid => hids id (List.mem_append_left _ hid))
        (hrest.imp htokens fun id hid => hids id (List.mem_append_right _ hid))

end

mutual

theorem AlikeStmt.imp {stmt stmt' : Stmt} (h : AlikeStmt link stmt stmt')
    (htokens : ∀ a b, link.tokens a b → other.tokens a b)
    (hids : ∀ id ∈ stmtIds stmt, ∀ id', link.ids id id' → other.ids id id') :
    AlikeStmt other stmt stmt' := by
  match stmt, h with
  | .expression _, .expression hvalue => exact .expression (hvalue.imp htokens hids)
  | .print _, .print hvalue => exact .print (hvalue.imp htokens hids)
  | .declare _ none, .declare hname => exact .declare (htokens _ _ hname)
  | .declare _ (some _), .declareWith hname hinitial =>
      exact .declareWith (htokens _ _ hname) (hinitial.imp htokens hids)
  | .block _, .block hbody => exact .block (hbody.imp htokens hids)
  | .branch _ _ none, .branch hcondition hwhenTrue =>
      exact .branch (hcondition.imp htokens fun id hid => hids id (List.mem_append_left _ hid))
        (hwhenTrue.imp htokens fun id hid => hids id (List.mem_append_right _ hid))
  | .branch _ _ (some _), .branchElse hcondition hwhenTrue hwhenFalse =>
      have hfront := fun id hid => hids id (List.mem_append_left _ hid)
      exact .branchElse
        (hcondition.imp htokens fun id hid => hfront id (List.mem_append_left _ hid))
        (hwhenTrue.imp htokens fun id hid => hfront id (List.mem_append_right _ hid))
        (hwhenFalse.imp htokens fun id hid => hids id (List.mem_append_right _ hid))
  | .loop _ _, .loop hcondition hbody =>
      exact .loop (hcondition.imp htokens fun id hid => hids id (List.mem_append_left _ hid))
        (hbody.imp htokens fun id hid => hids id (List.mem_append_right _ hid))
  | .function _ _ _, .function hname hparams hbody =>
      exact .function (htokens _ _ hname) (hparams.imp htokens) (hbody.imp htokens hids)
  | .leave _ none, .leave hkeyword => exact .leave (htokens _ _ hkeyword)
  | .leave _ (some _), .leaveWith hkeyword hvalue =>
      exact .leaveWith (htokens _ _ hkeyword) (hvalue.imp htokens hids)

theorem AlikeStmts.imp {stmts stmts' : List Stmt} (h : AlikeStmts link stmts stmts')
    (htokens : ∀ a b, link.tokens a b → other.tokens a b)
    (hids : ∀ id ∈ stmtsIds stmts, ∀ id', link.ids id id' → other.ids id id') :
    AlikeStmts other stmts stmts' := by
  match stmts, h with
  | [], .nil => exact .nil
  | _ :: _, .cons hfirst hrest =>
      exact .cons (hfirst.imp htokens fun id hid => hids id (List.mem_append_left _ hid))
        (hrest.imp htokens fun id hid => hids id (List.mem_append_right _ hid))

end

end Imp

/-! ### Links that allow nothing -/

section Eq

variable {link : Link}

mutual

theorem AlikeExpr.eq {expr expr' : Expr} (h : AlikeExpr link expr expr')
    (htokens : ∀ a b, link.tokens a b → a = b)
    (hids : ∀ a b, link.ids a b → a = b) : expr = expr' := by
  match expr, h with
  | .constant _, .constant _ => rfl
  | .group _, .group hinner => rw [hinner.eq htokens hids]
  | .unary _ _, .unary hoperator hoperand => rw [htokens _ _ hoperator, hoperand.eq htokens hids]
  | .binary _ _ _, .binary hleft hoperator hright =>
      rw [hleft.eq htokens hids, htokens _ _ hoperator, hright.eq htokens hids]
  | .logical _ _ _, .logical hleft hoperator hright =>
      rw [hleft.eq htokens hids, htokens _ _ hoperator, hright.eq htokens hids]
  | .variable _ _, .variable hid hname => rw [hids _ _ hid, htokens _ _ hname]
  | .assign _ _ _, .assign hid hname hvalue =>
      rw [hids _ _ hid, htokens _ _ hname, hvalue.eq htokens hids]
  | .call _ _ _, .call hcallee hparen harguments =>
      rw [hcallee.eq htokens hids, htokens _ _ hparen, harguments.eq htokens hids]

theorem AlikeExprs.eq {exprs exprs' : List Expr} (h : AlikeExprs link exprs exprs')
    (htokens : ∀ a b, link.tokens a b → a = b)
    (hids : ∀ a b, link.ids a b → a = b) : exprs = exprs' := by
  match exprs, h with
  | [], .nil => rfl
  | _ :: _, .cons hfirst hrest => rw [hfirst.eq htokens hids, hrest.eq htokens hids]

end

theorem eq_of_forall₂ {params params' : List Token}
    (htokens : ∀ a b, link.tokens a b → a = b) (h : List.Forall₂ link.tokens params params') :
    params = params' :=
  List.forall₂_eq_eq_eq ▸ h.imp htokens

mutual

theorem AlikeStmt.eq {stmt stmt' : Stmt} (h : AlikeStmt link stmt stmt')
    (htokens : ∀ a b, link.tokens a b → a = b)
    (hids : ∀ a b, link.ids a b → a = b) : stmt = stmt' := by
  match stmt, h with
  | .expression _, .expression hvalue => rw [hvalue.eq htokens hids]
  | .print _, .print hvalue => rw [hvalue.eq htokens hids]
  | .declare _ none, .declare hname => rw [htokens _ _ hname]
  | .declare _ (some _), .declareWith hname hinitial =>
      rw [htokens _ _ hname, hinitial.eq htokens hids]
  | .block _, .block hbody => rw [hbody.eq htokens hids]
  | .branch _ _ none, .branch hcondition hwhenTrue =>
      rw [hcondition.eq htokens hids, hwhenTrue.eq htokens hids]
  | .branch _ _ (some _), .branchElse hcondition hwhenTrue hwhenFalse =>
      rw [hcondition.eq htokens hids, hwhenTrue.eq htokens hids, hwhenFalse.eq htokens hids]
  | .loop _ _, .loop hcondition hbody => rw [hcondition.eq htokens hids, hbody.eq htokens hids]
  | .function _ _ _, .function hname hparams hbody =>
      rw [htokens _ _ hname, eq_of_forall₂ htokens hparams, hbody.eq htokens hids]
  | .leave _ none, .leave hkeyword => rw [htokens _ _ hkeyword]
  | .leave _ (some _), .leaveWith hkeyword hvalue =>
      rw [htokens _ _ hkeyword, hvalue.eq htokens hids]

theorem AlikeStmts.eq {stmts stmts' : List Stmt} (h : AlikeStmts link stmts stmts')
    (htokens : ∀ a b, link.tokens a b → a = b)
    (hids : ∀ a b, link.ids a b → a = b) : stmts = stmts' := by
  match stmts, h with
  | [], .nil => rfl
  | _ :: _, .cons hfirst hrest => rw [hfirst.eq htokens hids, hrest.eq htokens hids]

end

end Eq

/-! ### Parts of trees -/

section Parts

open Grammar

variable {link : Link}

theorem AlikeStmts.append {first first' second second' : List Stmt}
    (hfirst : AlikeStmts link first first') (hsecond : AlikeStmts link second second') :
    AlikeStmts link (first ++ second) (first' ++ second') := by
  induction first generalizing first' with
  | nil => cases hfirst with | nil => exact hsecond
  | cons head rest ih => cases hfirst with | cons hhead hrest => exact .cons hhead (ih hrest)

theorem alike_condition {condition condition' : Option Expr}
    (h : AlikeExprs link condition.toList condition'.toList) (constant : Constant) :
    AlikeExpr link (condition.getD (.constant constant))
      (condition'.getD (.constant constant)) := by
  cases condition with
  | none =>
      cases condition' with
      | none => exact .constant constant
      | some _ => cases h
  | some value =>
      cases condition' with
      | none => cases h
      | some value' =>
          cases h with
          | cons hvalue _ => exact hvalue

theorem alike_loopRound {body body' : Stmt} {step step' : Option Expr}
    (hbody : AlikeStmt link body body') (h : AlikeExprs link step.toList step'.toList) :
    AlikeStmt link (loopRound body step) (loopRound body' step') := by
  cases step with
  | none =>
      cases step' with
      | none => exact hbody
      | some _ => cases h
  | some value =>
      cases step' with
      | none => cases h
      | some value' =>
          cases h with
          | cons hvalue _ => exact .block (.cons hbody (.cons (.expression hvalue) .nil))

theorem alike_leave {keyword keyword' : Token} {value value' : Option Expr}
    (hkeyword : link.tokens keyword keyword')
    (h : AlikeExprs link value.toList value'.toList) :
    AlikeStmt link (.leave keyword value) (.leave keyword' value') := by
  cases value with
  | none =>
      cases value' with
      | none => exact .leave hkeyword
      | some _ => cases h
  | some value =>
      cases value' with
      | none => cases h
      | some value' =>
          cases h with
          | cons hvalue _ => exact .leaveWith hkeyword hvalue

end Parts

end Scriptlet.Incremental
