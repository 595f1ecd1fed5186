/-
Programs that differ in the names of local variables, with every occurrence where it was.

Both trees are read side by side with the names that they have declared so far, in pairs.  Two
occurrences mean the same if the nearest pair that has one of their names has both.
-/
import Scriptlet.Binding.Resolve
import Scriptlet.Proofs.Renaming.Trees

namespace Scriptlet.Renaming

open Binding

/-- The names declared so far in each open scope, in one program and in the other; innermost
scope and last declaration first. -/
abbrev Pairs := List (List (String × String))

/-- The innermost scope does not have the name yet. -/
theorem declaredHere_cons {names : List String} {outer : Scopes} {name : String} :
    declaredHere (names :: outer) name = false ↔ name ∉ names := by
  rw [← List.contains_iff_mem, Bool.not_eq_true]
  rfl

/-- A new name is put in front of the others. -/
theorem declare_cons {names : List String} {outer : Scopes} {name : String} (h : name ∉ names) :
    Binding.declare (names :: outer) name = (name :: names) :: outer := by
  rw [Binding.declare, if_neg (fun hmem => h (List.contains_iff_mem.mp hmem))]

namespace Pairs

/-- What the binding rules see in the first program. -/
def left (pairs : Pairs) : Scopes :=
  pairs.map (·.map Prod.fst)

/-- What the binding rules see in the second program. -/
def right (pairs : Pairs) : Scopes :=
  pairs.map (·.map Prod.snd)

def declare (pairs : Pairs) (name name' : String) : Pairs :=
  match pairs with
  | frame :: outer => ((name, name') :: frame) :: outer
  | [] => []

/-- The pairs behind a statement. -/
def after (pairs : Pairs) (stmt stmt' : Stmt) : Pairs :=
  match stmt.declared?, stmt'.declared? with
  | some name, some name' => pairs.declare name name'
  | _, _ => pairs

/-- The names may be declared: they are new in their scopes, or global and the same. -/
def Fresh : Pairs → String → String → Prop
  | [], name, name' => name = name'
  | frame :: _, name, name' => name ∉ frame.map Prod.fst ∧ name' ∉ frame.map Prod.snd

/-- The names mean the same in this scope, or do so outside. -/
def SameIn (outside : Prop) (name name' : String) : List (String × String) → Prop
  | [] => outside
  | pair :: frame =>
      (name = pair.1 ∧ name' = pair.2) ∨
        (name ≠ pair.1 ∧ name' ≠ pair.2 ∧ SameIn outside name name' frame)

/-- The names mean the same: what the same pair declares, or the same global. -/
def Same : Pairs → String → String → Prop
  | [], name, name' => name = name'
  | frame :: outer, name, name' => SameIn (Same outer name name') name name' frame

section Declare

variable {pairs : Pairs} {name name' other other' : String}

theorem Same.declare (h : pairs.Same other other') (hne : other ≠ name) (hne' : other' ≠ name') :
    (pairs.declare name name').Same other other' := by
  cases pairs with
  | nil => exact h
  | cons frame outer => exact Or.inr ⟨hne, hne', h⟩

theorem same_declare (hfresh : pairs.Fresh name name') :
    (pairs.declare name name').Same name name' := by
  cases pairs with
  | nil => exact hfresh
  | cons frame outer => exact Or.inl ⟨rfl, rfl⟩

/-- A name that both programs declare means the same in both. -/
theorem same_declare_self (pairs : Pairs) (name : String) :
    (pairs.declare name name).Same name name := by
  cases pairs with
  | nil => rfl
  | cons frame outer => exact Or.inl ⟨rfl, rfl⟩

/-- What a program declares outside all scopes is not kept. -/
theorem after_nil (stmt stmt' : Stmt) : after [] stmt stmt' = [] := by
  unfold after
  split <;> rfl

theorem left_declare (hfresh : pairs.Fresh name name') :
    (pairs.declare name name').left = Binding.declare pairs.left name := by
  cases pairs with
  | nil => rfl
  | cons frame outer => exact (declare_cons hfresh.1).symm

theorem right_declare (hfresh : pairs.Fresh name name') :
    (pairs.declare name name').right = Binding.declare pairs.right name' := by
  cases pairs with
  | nil => rfl
  | cons frame outer => exact (declare_cons hfresh.2).symm

end Declare

end Pairs

/-! ### Programs that differ in names -/

/-- The token itself, or with another name. -/
def Respelled (new : String) (token token' : Token) : Prop :=
  token' = token ∨ token' = token.respell new

theorem Respelled.line_eq {new : String} {token token' : Token} (h : Respelled new token token') :
    token'.line = token.line := by
  rcases h with rfl | rfl
  · rfl
  · rfl

mutual

/-- All names that differ are the new one. -/
inductive AlphaExpr (new : String) (pairs : Pairs) : Expr → Expr → Prop
  | constant (value : Constant) : AlphaExpr new pairs (.constant value) (.constant value)
  | group {inner inner' : Expr} (inner_ : AlphaExpr new pairs inner inner') :
      AlphaExpr new pairs (.group inner) (.group inner')
  | unary {operator : Token} {operand operand' : Expr}
      (operand_ : AlphaExpr new pairs operand operand') :
      AlphaExpr new pairs (.unary operator operand) (.unary operator operand')
  | binary {operator : Token} {left left' right right' : Expr}
      (left_ : AlphaExpr new pairs left left') (right_ : AlphaExpr new pairs right right') :
      AlphaExpr new pairs (.binary left operator right) (.binary left' operator right')
  | logical {operator : Token} {left left' right right' : Expr}
      (left_ : AlphaExpr new pairs left left') (right_ : AlphaExpr new pairs right right') :
      AlphaExpr new pairs (.logical left operator right) (.logical left' operator right')
  | variable {id : NodeId} {name name' : Token} (spelled : Respelled new name name')
      (same : pairs.Same name.lexeme name'.lexeme) :
      AlphaExpr new pairs (.variable id name) (.variable id name')
  | assign {id : NodeId} {name name' : Token} {value value' : Expr}
      (spelled : Respelled new name name') (same : pairs.Same name.lexeme name'.lexeme)
      (value_ : AlphaExpr new pairs value value') :
      AlphaExpr new pairs (.assign id name value) (.assign id name' value')
  | call {callee callee' : Expr} {paren : Token} {arguments arguments' : List Expr}
      (callee_ : AlphaExpr new pairs callee callee')
      (arguments_ : AlphaExprs new pairs arguments arguments') :
      AlphaExpr new pairs (.call callee paren arguments) (.call callee' paren arguments')

inductive AlphaExprs (new : String) (pairs : Pairs) : List Expr → List Expr → Prop
  | nil : AlphaExprs new pairs [] []
  | cons {first first' : Expr} {rest rest' : List Expr}
      (first_ : AlphaExpr new pairs first first') (rest_ : AlphaExprs new pairs rest rest') :
      AlphaExprs new pairs (first :: rest) (first' :: rest')

end

/-- The parameters are declared one after the other. -/
inductive AlphaParams (new : String) (strict : Bool) :
    Pairs → List Token → List Token → Pairs → Prop
  | nil {pairs : Pairs} : AlphaParams new strict pairs [] [] pairs
  | cons {pairs inside : Pairs} {param param' : Token} {rest rest' : List Token}
      (spelled : Respelled new param param')
      (fresh : strict → pairs.Fresh param.lexeme param'.lexeme)
      (same : (pairs.declare param.lexeme param'.lexeme).Same param.lexeme param'.lexeme)
      (rest_ : AlphaParams new strict (pairs.declare param.lexeme param'.lexeme) rest rest'
        inside) :
      AlphaParams new strict pairs (param :: rest) (param' :: rest') inside

mutual

/-- If `strict` holds, no scope declares a name twice, and the parts of branches and loops
declare none. -/
inductive AlphaStmt (new : String) (strict : Bool) : Pairs → Stmt → Stmt → Prop
  | expression {pairs : Pairs} {value value' : Expr} (value_ : AlphaExpr new pairs value value') :
      AlphaStmt new strict pairs (.expression value) (.expression value')
  | print {pairs : Pairs} {value value' : Expr} (value_ : AlphaExpr new pairs value value') :
      AlphaStmt new strict pairs (.print value) (.print value')
  | declare {pairs : Pairs} {name name' : Token} (spelled : Respelled new name name')
      (fresh : strict → pairs.Fresh name.lexeme name'.lexeme)
      (same : (pairs.declare name.lexeme name'.lexeme).Same name.lexeme name'.lexeme) :
      AlphaStmt new strict pairs (.declare name none) (.declare name' none)
  | declareWith {pairs : Pairs} {name name' : Token} {initial initial' : Expr}
      (spelled : Respelled new name name') (fresh : strict → pairs.Fresh name.lexeme name'.lexeme)
      (same : (pairs.declare name.lexeme name'.lexeme).Same name.lexeme name'.lexeme)
      (initial_ : AlphaExpr new (pairs.declare name.lexeme name'.lexeme) initial initial') :
      AlphaStmt new strict pairs (.declare name (some initial)) (.declare name' (some initial'))
  | block {pairs : Pairs} {body body' : List Stmt}
      (body_ : AlphaStmts new strict ([] :: pairs) body body') :
      AlphaStmt new strict pairs (.block body) (.block body')
  | branch {pairs : Pairs} {condition condition' : Expr} {whenTrue whenTrue' : Stmt}
      (condition_ : AlphaExpr new pairs condition condition')
      (bare : strict → whenTrue.declared? = none)
      (whenTrue_ : AlphaStmt new strict pairs whenTrue whenTrue') :
      AlphaStmt new strict pairs (.branch condition whenTrue none)
        (.branch condition' whenTrue' none)
  | branchElse {pairs : Pairs} {condition condition' : Expr}
      {whenTrue whenTrue' whenFalse whenFalse' : Stmt}
      (condition_ : AlphaExpr new pairs condition condition')
      (bare : strict → whenTrue.declared? = none)
      (whenTrue_ : AlphaStmt new strict pairs whenTrue whenTrue')
      (bareElse : strict → whenFalse.declared? = none)
      (whenFalse_ : AlphaStmt new strict pairs whenFalse whenFalse') :
      AlphaStmt new strict pairs (.branch condition whenTrue (some whenFalse))
        (.branch condition' whenTrue' (some whenFalse'))
  | loop {pairs : Pairs} {condition condition' : Expr} {body body' : Stmt}
      (condition_ : AlphaExpr new pairs condition condition')
      (bare : strict → body.declared? = none) (body_ : AlphaStmt new strict pairs body body') :
      AlphaStmt new strict pairs (.loop condition body) (.loop condition' body')
  /-- Functions keep their names. -/
  | function {pairs inside : Pairs} {name : Token} {params params' : List Token}
      {body body' : List Stmt} (fresh : strict → pairs.Fresh name.lexeme name.lexeme)
      (params_ : AlphaParams new strict ([] :: pairs.declare name.lexeme name.lexeme) params params'
        inside)
      (body_ : AlphaStmts new strict inside body body') :
      AlphaStmt new strict pairs (.function name params body) (.function name params' body')
  | leave {pairs : Pairs} {keyword : Token} :
      AlphaStmt new strict pairs (.leave keyword none) (.leave keyword none)
  | leaveWith {pairs : Pairs} {keyword : Token} {value value' : Expr}
      (value_ : AlphaExpr new pairs value value') :
      AlphaStmt new strict pairs (.leave keyword (some value)) (.leave keyword (some value'))

inductive AlphaStmts (new : String) (strict : Bool) : Pairs → List Stmt → List Stmt → Prop
  | nil {pairs : Pairs} : AlphaStmts new strict pairs [] []
  | cons {pairs : Pairs} {first first' : Stmt} {rest rest' : List Stmt}
      (first_ : AlphaStmt new strict pairs first first')
      (rest_ : AlphaStmts new strict (pairs.after first first') rest rest') :
      AlphaStmts new strict pairs (first :: rest) (first' :: rest')

end

theorem AlphaParams.length_eq {new : String} {strict : Bool} {pairs inside : Pairs}
    {params params' : List Token} (h : AlphaParams new strict pairs params params' inside) :
    params'.length = params.length := by
  induction h with
  | nil => rfl
  | cons _ _ _ _ ih => exact congrArg (· + 1) ih

theorem AlphaExprs.length_eq {new : String} {pairs : Pairs} {exprs exprs' : List Expr}
    (h : AlphaExprs new pairs exprs exprs') : exprs'.length = exprs.length := by
  induction exprs generalizing exprs' with
  | nil => cases h with | nil => rfl
  | cons first rest ih => cases h with | cons _ hrest => exact congrArg (· + 1) (ih hrest)

/-! ### Every tree is like itself -/

/-- No name differs so far. -/
def Pairs.Identical (pairs : Pairs) : Prop :=
  ∀ frame ∈ pairs, ∀ pair ∈ frame, pair.2 = pair.1

section Identical

variable {new : String} {pairs : Pairs}

theorem Pairs.Identical.open (h : pairs.Identical) : Pairs.Identical ([] :: pairs) :=
  List.forall_mem_cons.mpr ⟨nofun, h⟩

theorem Pairs.Identical.declare (h : pairs.Identical) (name : String) :
    (pairs.declare name name).Identical := by
  cases pairs with
  | nil => exact h
  | cons frame outer =>
      obtain ⟨hframe, houter⟩ := List.forall_mem_cons.mp h
      exact List.forall_mem_cons.mpr ⟨List.forall_mem_cons.mpr ⟨rfl, hframe⟩, houter⟩

theorem Pairs.Identical.same (h : pairs.Identical) (name : String) : pairs.Same name name := by
  induction pairs with
  | nil => rfl
  | cons frame outer ih =>
      obtain ⟨hframe, houter⟩ := List.forall_mem_cons.mp h
      show Pairs.SameIn _ name name frame
      induction frame with
      | nil => exact ih houter
      | cons pair frame ihFrame =>
          obtain ⟨hsame, hrest⟩ := List.forall_mem_cons.mp hframe
          by_cases hname : name = pair.1
          · exact Or.inl ⟨hname, hsame ▸ hname⟩
          · refine Or.inr ⟨hname, hsame ▸ hname, ihFrame ?_ hrest⟩
            exact List.forall_mem_cons.mpr ⟨hrest, houter⟩

theorem Pairs.Identical.after (h : pairs.Identical) (stmt : Stmt) :
    (pairs.after stmt stmt).Identical := by
  unfold Pairs.after
  cases stmt.declared? with
  | none => exact h
  | some name => exact h.declare name

mutual

theorem alphaExpr_refl (h : pairs.Identical) (expr : Expr) : AlphaExpr new pairs expr expr := by
  cases expr with
  | constant value => exact .constant value
  | group inner => exact .group (alphaExpr_refl h inner)
  | unary _ operand => exact .unary (alphaExpr_refl h operand)
  | binary left _ right => exact .binary (alphaExpr_refl h left) (alphaExpr_refl h right)
  | logical left _ right => exact .logical (alphaExpr_refl h left) (alphaExpr_refl h right)
  | «variable» id name => exact .variable (Or.inl rfl) (h.same _)
  | assign id name value => exact .assign (Or.inl rfl) (h.same _) (alphaExpr_refl h value)
  | call callee _ arguments => exact .call (alphaExpr_refl h callee) (alphaExprs_refl h arguments)

theorem alphaExprs_refl (h : pairs.Identical) (exprs : List Expr) :
    AlphaExprs new pairs exprs exprs := by
  cases exprs with
  | nil => exact .nil
  | cons first rest => exact .cons (alphaExpr_refl h first) (alphaExprs_refl h rest)

end

theorem alphaParams_refl (h : pairs.Identical) (params : List Token) :
    ∃ inside : Pairs, AlphaParams new false pairs params params inside ∧ inside.Identical := by
  induction params generalizing pairs with
  | nil => exact ⟨pairs, .nil, h⟩
  | cons param rest ih =>
      have hdeclared := h.declare param.lexeme
      obtain ⟨inside, hrest, hinside⟩ := ih hdeclared
      exact ⟨inside, .cons (Or.inl rfl) nofun (hdeclared.same _) hrest, hinside⟩

mutual

theorem alphaStmt_refl {pairs : Pairs} (h : pairs.Identical) (stmt : Stmt) :
    AlphaStmt new false pairs stmt stmt := by
  match stmt with
  | .expression value => exact .expression (alphaExpr_refl h value)
  | .print value => exact .print (alphaExpr_refl h value)
  | .declare name none => exact .declare (Or.inl rfl) nofun ((h.declare _).same _)
  | .declare name (some initial) =>
      exact .declareWith (Or.inl rfl) nofun ((h.declare _).same _)
        (alphaExpr_refl (h.declare _) initial)
  | .block body => exact .block (alphaStmts_refl h.open body)
  | .branch condition whenTrue none =>
      exact .branch (alphaExpr_refl h condition) nofun (alphaStmt_refl h whenTrue)
  | .branch condition whenTrue (some whenFalse) =>
      exact .branchElse (alphaExpr_refl h condition) nofun (alphaStmt_refl h whenTrue) nofun
        (alphaStmt_refl h whenFalse)
  | .loop condition body =>
      exact .loop (alphaExpr_refl h condition) nofun (alphaStmt_refl h body)
  | .function name params body =>
      obtain ⟨inside, hparams, hinside⟩ := alphaParams_refl (h.declare name.lexeme).open params
      exact .function nofun hparams (alphaStmts_refl hinside body)
  | .leave _ none => exact .leave
  | .leave _ (some value) => exact .leaveWith (alphaExpr_refl h value)

theorem alphaStmts_refl {pairs : Pairs} (h : pairs.Identical) (stmts : List Stmt) :
    AlphaStmts new false pairs stmts stmts := by
  match stmts with
  | [] => exact .nil
  | first :: rest => exact .cons (alphaStmt_refl h first) (alphaStmts_refl (h.after first) rest)

end

end Identical

end Scriptlet.Renaming
