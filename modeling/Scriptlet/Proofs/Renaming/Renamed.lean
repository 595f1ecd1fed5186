/-
Renaming a local variable gives a program that differs only in names.

The new name occurs nowhere in the program.  So nothing that is declared so far has it, and no
occurrence of another name is caught by the declaration that gets it.
-/
import Scriptlet.Proofs.Lexical.Fits
import Scriptlet.Proofs.Renaming.Alpha

namespace Scriptlet.Renaming

open Binding Grammar Lexical

/-! ### Names that are called otherwise -/

/-- The naming tells what the names in sight are called in the second program. -/
structure Serves (new : String) (pairs : Pairs) (naming : Naming) : Prop where
  same : ∀ name, name ≠ new → pairs.Same name (naming name)
  either : ∀ name, naming name = name ∨ naming name = new
  within : ∀ frame ∈ pairs, ∀ pair ∈ frame, pair.2 = pair.1 ∨ pair.2 = new

/-- No name differs so far, and none is the new one. -/
def Plain (new : String) (pairs : Pairs) : Prop :=
  ∀ frame ∈ pairs, ∀ pair ∈ frame, pair.2 = pair.1 ∧ pair.1 ≠ new

section Serves

variable {new name old inner : String} {pairs outer : Pairs} {frame : List (String × String)}
  {naming : Naming}

theorem Serves.open (h : Serves new pairs naming) : Serves new ([] :: pairs) naming where
  same := h.same
  either := h.either
  within := List.forall_mem_cons.mpr ⟨nofun, h.within⟩

theorem Serves.fresh (h : Serves new pairs naming) (hne : inner ≠ new)
    (hnew : declaredHere pairs.left inner = false) : pairs.Fresh inner inner := by
  cases pairs with
  | nil => rfl
  | cons frame outer =>
      refine ⟨declaredHere_cons.mp hnew, fun hmem => ?_⟩
      obtain ⟨pair, hpair, rfl⟩ := List.mem_map.mp hmem
      rcases h.within frame List.mem_cons_self pair hpair with heq | heq
      · exact declaredHere_cons.mp hnew (heq ▸ List.mem_map_of_mem hpair)
      · exact hne heq

theorem Serves.declare (h : Serves new pairs naming) (hne : inner ≠ new) :
    Serves new (pairs.declare inner inner) (naming.hide inner) := by
  refine ⟨fun name hname => ?_, fun name => ?_, ?_⟩
  · unfold Naming.hide
    by_cases hinner : name = inner
    · rw [if_pos hinner, hinner]
      exact pairs.same_declare_self inner
    · rw [if_neg hinner]
      refine (h.same name hname).declare hinner ?_
      rcases h.either name with heq | heq
      · rw [heq]
        exact hinner
      · rw [heq]
        exact hne.symm
  · unfold Naming.hide
    by_cases hinner : name = inner
    · exact Or.inl (by rw [if_pos hinner, hinner])
    · rw [if_neg hinner]
      exact h.either name
  · cases pairs with
    | nil => exact nofun
    | cons frame outer =>
        obtain ⟨hframe, houter⟩ := List.forall_mem_cons.mp h.within
        exact List.forall_mem_cons.mpr ⟨List.forall_mem_cons.mpr ⟨Or.inl rfl, hframe⟩, houter⟩

theorem Plain.open (h : Plain new pairs) : Plain new ([] :: pairs) :=
  List.forall_mem_cons.mpr ⟨nofun, h⟩

theorem Plain.declare (h : Plain new pairs) (hne : inner ≠ new) :
    Plain new (pairs.declare inner inner) := by
  cases pairs with
  | nil => exact h
  | cons frame outer =>
      obtain ⟨hframe, houter⟩ := List.forall_mem_cons.mp h
      exact List.forall_mem_cons.mpr ⟨List.forall_mem_cons.mpr ⟨⟨rfl, hne⟩, hframe⟩, houter⟩

theorem Plain.same (h : Plain new pairs) (name : String) : pairs.Same name name :=
  Pairs.Identical.same (fun frame hframe pair hpair => (h frame hframe pair hpair).1) name

theorem Plain.serves (h : Plain new pairs) : Serves new pairs id where
  same name _ := h.same name
  either _ := Or.inl rfl
  within frame hframe pair hpair := Or.inl (h frame hframe pair hpair).1

/-- Where a scope is open, a new variable may have another name. -/
theorem Plain.fresh_new (h : Plain new (frame :: outer))
    (hnew : declaredHere (Pairs.left (frame :: outer)) old = false) :
    Pairs.Fresh (frame :: outer) old new := by
  refine ⟨declaredHere_cons.mp hnew, fun hmem => ?_⟩
  obtain ⟨pair, hpair, hsnd⟩ := List.mem_map.mp hmem
  obtain ⟨hsame, hne⟩ := h frame List.mem_cons_self pair hpair
  exact hne (hsame ▸ hsnd)

theorem Plain.serves_single (h : Plain new (frame :: outer)) (old : String) :
    Serves new (Pairs.declare (frame :: outer) old new) (.single old new) := by
  refine ⟨fun name hname => ?_, fun name => ?_, ?_⟩
  · unfold Naming.single
    by_cases hold : name = old
    · rw [if_pos hold]
      exact Or.inl ⟨hold, rfl⟩
    · rw [if_neg hold]
      exact (h.same name).declare hold hname
  · unfold Naming.single
    split
    · exact Or.inr rfl
    · exact Or.inl rfl
  · obtain ⟨hframe, houter⟩ := List.forall_mem_cons.mp h.serves.within
    exact List.forall_mem_cons.mpr ⟨List.forall_mem_cons.mpr ⟨Or.inr rfl, hframe⟩, houter⟩

end Serves

theorem not_mem_parts {name : String} {names others : List String} (h : name ∉ names ++ others) :
    name ∉ names ∧ name ∉ others :=
  ⟨fun hmem => h (List.mem_append_left _ hmem), fun hmem => h (List.mem_append_right _ hmem)⟩

/-! ### Parameters -/

section Params

variable {new : String} {outer : Pairs} {frame : List (String × String)} {naming : Naming}

/-- Declaring one more name keeps the others new. -/
theorem not_mem_declared {names : List String} {name : String} {pair : String × String}
    (hfst : pair.1 = name) (hnodup : (name :: names).Nodup)
    (hfresh : ∀ other ∈ name :: names, other ∉ frame.map Prod.fst) :
    ∀ other ∈ names, other ∉ (pair :: frame).map Prod.fst := by
  intro other hother hmem
  rcases List.mem_cons.mp hmem with heq | hmem
  · exact (List.nodup_cons.mp hnodup).1 (hfst ▸ heq ▸ hother)
  · exact hfresh other (List.mem_cons_of_mem _ hother) hmem

theorem foldl_hide_single {old : String} {names : List String} (h : old ∉ names) :
    names.foldl Naming.hide (.single old new) = .single old new := by
  induction names with
  | nil => rfl
  | cons name rest ih =>
      obtain ⟨hname, hrest⟩ := List.ne_and_not_mem_of_not_mem_cons h
      rw [List.foldl_cons, Naming.hide_single (Ne.symm hname), ih hrest]

theorem alphaParams_self {params : List Token} (h : Serves new (frame :: outer) naming)
    (hnodup : (params.map Token.lexeme).Nodup)
    (hfresh : ∀ name ∈ params.map Token.lexeme, name ∉ frame.map Prod.fst)
    (hnew : new ∉ params.map Token.lexeme) :
    ∃ frame', AlphaParams new true (frame :: outer) params params (frame' :: outer) ∧
      Serves new (frame' :: outer) ((params.map Token.lexeme).foldl Naming.hide naming) ∧
      frame'.map Prod.fst = (params.map Token.lexeme).reverse ++ frame.map Prod.fst := by
  induction params generalizing frame naming with
  | nil => exact ⟨frame, .nil, h, rfl⟩
  | cons param rest ih =>
      obtain ⟨hparam, hrest⟩ := List.ne_and_not_mem_of_not_mem_cons hnew
      have hserves : Serves new (((param.lexeme, param.lexeme) :: frame) :: outer) _ :=
        h.declare (Ne.symm hparam)
      obtain ⟨frame', halpha, hinside, hnames⟩ := ih hserves (List.nodup_cons.mp hnodup).2
        (not_mem_declared rfl hnodup hfresh) hrest
      have hhere : declaredHere (Pairs.left (frame :: outer)) param.lexeme = false :=
        declaredHere_cons.mpr (hfresh _ List.mem_cons_self)
      have hdeclared := h.fresh (Ne.symm hparam) hhere
      refine ⟨frame', .cons (Or.inl rfl) (fun _ => hdeclared) (Pairs.same_declare hdeclared) halpha,
        hinside, ?_⟩
      rw [hnames, List.map_cons, List.map_cons, List.reverse_cons, List.append_assoc]
      rfl

/-- One of the parameters has another name. -/
theorem alphaParams_target {before after : List Token} {param : Token}
    (h : Plain new (frame :: outer))
    (hnodup : ((before ++ param :: after).map Token.lexeme).Nodup)
    (hfresh : ∀ name ∈ (before ++ param :: after).map Token.lexeme, name ∉ frame.map Prod.fst)
    (hnew : new ∉ (before ++ param :: after).map Token.lexeme) :
    ∃ frame', AlphaParams new true (frame :: outer) (before ++ param :: after)
        (before ++ param.respell new :: after) (frame' :: outer) ∧
      Serves new (frame' :: outer) (.single param.lexeme new) ∧
      frame'.map Prod.fst =
        ((before ++ param :: after).map Token.lexeme).reverse ++ frame.map Prod.fst := by
  induction before generalizing frame with
  | nil =>
      have hserves : Serves new (((param.lexeme, new) :: frame) :: outer) _ :=
        h.serves_single param.lexeme
      obtain ⟨frame', halpha, hinside, hnames⟩ := alphaParams_self hserves
        (List.nodup_cons.mp hnodup).2 (not_mem_declared rfl hnodup hfresh)
        (List.ne_and_not_mem_of_not_mem_cons hnew).2
      have hhere : declaredHere (Pairs.left (frame :: outer)) param.lexeme = false :=
        declaredHere_cons.mpr (hfresh _ List.mem_cons_self)
      rw [foldl_hide_single (List.nodup_cons.mp hnodup).1] at hinside
      have hdeclared := h.fresh_new hhere
      refine ⟨frame', .cons (Or.inr rfl) (fun _ => hdeclared) (Pairs.same_declare hdeclared) halpha,
        hinside, ?_⟩
      rw [hnames, List.nil_append, List.map_cons, List.map_cons, List.reverse_cons,
        List.append_assoc]
      rfl
  | cons first rest ih =>
      obtain ⟨hfirst, hrest⟩ := List.ne_and_not_mem_of_not_mem_cons hnew
      have hplain : Plain new (((first.lexeme, first.lexeme) :: frame) :: outer) :=
        h.declare (Ne.symm hfirst)
      obtain ⟨frame', halpha, hinside, hnames⟩ := ih hplain (List.nodup_cons.mp hnodup).2
        (not_mem_declared rfl hnodup hfresh) hrest
      have hhere : declaredHere (Pairs.left (frame :: outer)) first.lexeme = false :=
        declaredHere_cons.mpr (hfresh _ List.mem_cons_self)
      have hdeclared := h.serves.fresh (Ne.symm hfirst) hhere
      refine ⟨frame', .cons (Or.inl rfl) (fun _ => hdeclared) (Pairs.same_declare hdeclared) halpha,
        hinside, ?_⟩
      rw [hnames, List.cons_append, List.map_cons, List.map_cons, List.reverse_cons,
        List.append_assoc]
      rfl

/-- The same parameters in both programs leave no name that differs. -/
theorem AlphaParams.plain {pairs inside : Pairs} {params : List Token}
    (halpha : AlphaParams new true pairs params params inside) (h : Plain new pairs)
    (hnew : new ∉ params.map Token.lexeme) : Plain new inside := by
  induction params generalizing pairs with
  | nil =>
      cases halpha
      exact h
  | cons param rest ih =>
      obtain ⟨hparam, hrest⟩ := List.ne_and_not_mem_of_not_mem_cons hnew
      cases halpha with
      | cons _ _ _ htail => exact ih htail (h.declare (Ne.symm hparam)) hrest

/-- What the binding rules see in the body of a function. -/
theorem left_inside {pairs : Pairs} {name name' : String} {names : List String}
    (hfresh : pairs.Fresh name name') (hnames : frame.map Prod.fst = names.reverse ++ []) :
    Pairs.left (frame :: pairs.declare name name') =
      names.reverse :: Binding.declare pairs.left name := by
  rw [← Pairs.left_declare hfresh, ← List.append_nil names.reverse]
  exact congrArg (· :: _) hnames

end Params

/-! ### What a naming makes of a tree -/

section Rename

variable {new : String} {pairs : Pairs} {naming : Naming} {known : Known}

theorem respelled_of_serves (h : Serves new pairs naming) (name : Token) :
    Respelled new name (name.respell (naming name.lexeme)) := by
  rcases h.either name.lexeme with heq | heq
  · exact Or.inl (by rw [heq, Token.respell_self])
  · exact Or.inr (by rw [heq])

mutual

theorem alphaExpr_rename {expr : Expr} (h : Serves new pairs naming)
    (hnew : new ∉ exprNames expr) : AlphaExpr new pairs expr (renameExpr naming expr) := by
  cases expr with
  | constant value => exact .constant value
  | group inner => exact .group (alphaExpr_rename h hnew)
  | unary _ operand => exact .unary (alphaExpr_rename h hnew)
  | binary left _ right =>
      obtain ⟨hleft, hright⟩ := not_mem_parts hnew
      exact .binary (alphaExpr_rename h hleft) (alphaExpr_rename h hright)
  | logical left _ right =>
      obtain ⟨hleft, hright⟩ := not_mem_parts hnew
      exact .logical (alphaExpr_rename h hleft) (alphaExpr_rename h hright)
  | «variable» id name =>
      exact .variable (respelled_of_serves h name)
        (h.same _ fun heq => hnew (heq ▸ List.mem_cons_self))
  | assign id name value =>
      obtain ⟨hname, hvalue⟩ := List.ne_and_not_mem_of_not_mem_cons hnew
      exact .assign (respelled_of_serves h name) (h.same _ (Ne.symm hname))
        (alphaExpr_rename h hvalue)
  | call callee _ arguments =>
      obtain ⟨hcallee, harguments⟩ := not_mem_parts hnew
      exact .call (alphaExpr_rename h hcallee) (alphaExprs_rename h harguments)

theorem alphaExprs_rename {exprs : List Expr} (h : Serves new pairs naming)
    (hnew : new ∉ exprsNames exprs) : AlphaExprs new pairs exprs (renameExprs naming exprs) := by
  cases exprs with
  | nil => exact .nil
  | cons first rest =>
      obtain ⟨hfirst, hrest⟩ := not_mem_parts hnew
      exact .cons (alphaExpr_rename h hfirst) (alphaExprs_rename h hrest)

end

theorem declared?_renameStmt (naming : Naming) (stmt : Stmt) :
    (renameStmt naming stmt).declared? = stmt.declared? := by
  match stmt with
  | .declare _ none | .declare _ (some _) | .branch _ _ none | .branch _ _ (some _)
  | .leave _ none | .leave _ (some _) => rfl
  | .expression _ | .print _ | .block _ | .loop _ _ | .function _ _ _ => rfl

theorem mem_stmtNames_of_declared? {stmt : Stmt} {name : String} (h : stmt.declared? = some name) :
    name ∈ stmtNames stmt := by
  match stmt, h with
  | .declare _ none, h | .declare _ (some _), h | .function _ _ _, h =>
      cases h
      exact List.mem_cons_self

theorem declaredHere_of_declared? {scopes : Scopes} {stmt : Stmt} {name : String}
    (hfits : FitsStmt known scopes stmt) (h : stmt.declared? = some name) :
    declaredHere scopes name = false := by
  match stmt, hfits, h with
  | .declare _ none, hfits, h =>
      cases h
      exact hfits
  | .declare _ (some _), hfits, h | .function _ _ _, hfits, h =>
      cases h
      exact hfits.1

/-- Behind a statement the names are called what they were, but for the one it declares. -/
theorem Serves.after {stmt stmt' : Stmt} (h : Serves new pairs naming)
    (hdeclared : stmt'.declared? = stmt.declared?) (hfits : FitsStmt known pairs.left stmt)
    (hnew : new ∉ stmtNames stmt) :
    Serves new (pairs.after stmt stmt') (naming.behind stmt) ∧
      (pairs.after stmt stmt').left = Lexical.after pairs.left stmt := by
  rw [Pairs.after, hdeclared, Naming.behind, Lexical.after]
  cases hname : stmt.declared? with
  | none => exact ⟨h, rfl⟩
  | some name =>
      have hne : name ≠ new := fun heq => hnew (heq ▸ mem_stmtNames_of_declared? hname)
      exact ⟨h.declare hne,
        Pairs.left_declare (h.fresh hne (declaredHere_of_declared? hfits hname))⟩

mutual

theorem alphaStmt_rename {pairs : Pairs} {naming : Naming} {stmt : Stmt}
    (h : Serves new pairs naming) (hfits : FitsStmt known pairs.left stmt)
    (hnew : new ∉ stmtNames stmt) : AlphaStmt new true pairs stmt (renameStmt naming stmt) := by
  match stmt, hfits, hnew with
  | .expression _, _, hnew => exact .expression (alphaExpr_rename h hnew)
  | .print _, _, hnew => exact .print (alphaExpr_rename h hnew)
  | .declare name none, hfits, hnew =>
      have hfresh := h.fresh (fun heq => hnew (heq ▸ List.mem_cons_self)) hfits
      exact .declare (Or.inl rfl) (fun _ => hfresh) (Pairs.same_declare hfresh)
  | .declare name (some initial), hfits, hnew =>
      obtain ⟨hname, hinitial⟩ := List.ne_and_not_mem_of_not_mem_cons hnew
      have hfresh := h.fresh (Ne.symm hname) hfits.1
      exact .declareWith (Or.inl rfl) (fun _ => hfresh) (Pairs.same_declare hfresh)
        (alphaExpr_rename (h.declare (Ne.symm hname)) hinitial)
  | .block body, hfits, hnew => exact .block (alphaStmts_rename h.open hfits hnew)
  | .branch condition whenTrue none, hfits, hnew =>
      obtain ⟨hcondition, hwhenTrue⟩ := not_mem_parts hnew
      exact .branch (alphaExpr_rename h hcondition) (fun _ => hfits.2.1)
        (alphaStmt_rename h hfits.2.2 hwhenTrue)
  | .branch condition whenTrue (some whenFalse), hfits, hnew =>
      obtain ⟨hfront, hwhenFalse⟩ := not_mem_parts hnew
      obtain ⟨hcondition, hwhenTrue⟩ := not_mem_parts hfront
      exact .branchElse (alphaExpr_rename h hcondition) (fun _ => hfits.2.1.1)
        (alphaStmt_rename h hfits.2.1.2 hwhenTrue) (fun _ => hfits.2.2.1)
        (alphaStmt_rename h hfits.2.2.2 hwhenFalse)
  | .loop condition body, hfits, hnew =>
      obtain ⟨hcondition, hbody⟩ := not_mem_parts hnew
      exact .loop (alphaExpr_rename h hcondition) (fun _ => hfits.2.1)
        (alphaStmt_rename h hfits.2.2 hbody)
  | .function name params body, hfits, hnew =>
      obtain ⟨hname, hinside⟩ := List.ne_and_not_mem_of_not_mem_cons hnew
      obtain ⟨hparams, hbody⟩ := not_mem_parts hinside
      have hfresh := h.fresh (Ne.symm hname) hfits.1
      obtain ⟨frame, halpha, hserves, hnames⟩ := alphaParams_self
        (h.declare (Ne.symm hname)).open hfits.2.1 nofun hparams
      have hscopes := left_inside hfresh hnames
      exact .function (fun _ => hfresh) halpha
        (alphaStmts_rename hserves (hscopes ▸ hfits.2.2) hbody)
  | .leave keyword none, _, _ => exact .leave
  | .leave keyword (some value), _, hnew => exact .leaveWith (alphaExpr_rename h hnew)

theorem alphaStmts_rename {pairs : Pairs} {naming : Naming} {stmts : List Stmt}
    (h : Serves new pairs naming) (hfits : FitsStmts known pairs.left stmts)
    (hnew : new ∉ stmtsNames stmts) :
    AlphaStmts new true pairs stmts (renameStmts naming stmts) := by
  match stmts, hfits, hnew with
  | [], _, _ => exact .nil
  | first :: rest, hfits, hnew =>
      obtain ⟨hfirst, hrest⟩ := not_mem_parts hnew
      obtain ⟨hbehind, hscopes⟩ := h.after (declared?_renameStmt naming first) hfits.1 hfirst
      exact .cons (alphaStmt_rename h hfits.1 hfirst)
        (alphaStmts_rename hbehind (hscopes ▸ hfits.2) hrest)

end

/-- Without any other name, a tree is like itself. -/
theorem Plain.alphaStmt {stmt : Stmt} (h : Plain new pairs)
    (hfits : FitsStmt known pairs.left stmt) (hnew : new ∉ stmtNames stmt) :
    AlphaStmt new true pairs stmt stmt := by
  have halpha := alphaStmt_rename h.serves hfits hnew
  rwa [renameStmt_id] at halpha

theorem Plain.alphaStmts {stmts : List Stmt} (h : Plain new pairs)
    (hfits : FitsStmts known pairs.left stmts) (hnew : new ∉ stmtsNames stmts) :
    AlphaStmts new true pairs stmts stmts := by
  have halpha := alphaStmts_rename h.serves hfits hnew
  rwa [renameStmts_id] at halpha

theorem Plain.alphaExpr {expr : Expr} (h : Plain new pairs) (hnew : new ∉ exprNames expr) :
    AlphaExpr new pairs expr expr := by
  have halpha := alphaExpr_rename h.serves hnew
  rwa [renameExpr_id] at halpha

end Rename

/-! ### What renaming a local variable makes of a tree -/

section Renames

variable {new : String} {known : Known}

theorem RenamesIn.declared?_eq {stmt stmt' : Stmt} (h : RenamesIn new stmt stmt') :
    stmt'.declared? = stmt.declared? := by
  cases h <;> rfl

theorem Plain.after {pairs : Pairs} {stmt stmt' : Stmt} (h : Plain new pairs)
    (hdeclared : stmt'.declared? = stmt.declared?) (hnew : new ∉ stmtNames stmt) :
    Plain new (pairs.after stmt stmt') := by
  rw [Pairs.after, hdeclared]
  cases hname : stmt.declared? with
  | none => exact h
  | some name => exact h.declare fun heq => hnew (heq ▸ mem_stmtNames_of_declared? hname)

theorem Plain.left_after {pairs : Pairs} {stmt stmt' : Stmt} (h : Plain new pairs)
    (hdeclared : stmt'.declared? = stmt.declared?) (hfits : FitsStmt known pairs.left stmt)
    (hnew : new ∉ stmtNames stmt) :
    (pairs.after stmt stmt').left = Lexical.after pairs.left stmt :=
  (h.serves.after hdeclared hfits hnew).2

/-- A scope that is open stays open behind a statement. -/
theorem Pairs.after_ne_nil {pairs : Pairs} (h : pairs ≠ []) (stmt stmt' : Stmt) :
    pairs.after stmt stmt' ≠ [] := by
  cases pairs with
  | nil => exact absurd rfl h
  | cons frame outer =>
      unfold Pairs.after
      split
      · exact List.cons_ne_nil _ _
      · exact List.cons_ne_nil _ _

/-- The variable that is called otherwise is declared here, so all that follows can see it. -/
theorem alphaStmts_declare {pairs : Pairs} {name : Token} {initial : Option Expr}
    {rest : List Stmt} (hpairs : pairs ≠ []) (h : Plain new pairs)
    (hfits : FitsStmts known pairs.left (.declare name initial :: rest))
    (hnew : new ∉ stmtsNames (.declare name initial :: rest)) :
    AlphaStmts new true pairs (.declare name initial :: rest)
      (.declare (name.respell new) (initial.map (renameExpr (.single name.lexeme new))) ::
        renameStmts (.single name.lexeme new) rest) := by
  obtain ⟨hfirst, hrest⟩ := not_mem_parts hnew
  have hhere := declaredHere_of_declared? hfits.1 rfl
  obtain ⟨frame, outer, rfl⟩ := List.exists_cons_of_ne_nil hpairs
  have hfresh : Pairs.Fresh (frame :: outer) name.lexeme new := h.fresh_new hhere
  have hserves := h.serves_single name.lexeme
  have hscopes := Pairs.left_declare hfresh
  have hbehind := hfits.2
  rw [show Lexical.after (Pairs.left (frame :: outer)) (.declare name initial) = _ from
    hscopes.symm] at hbehind
  have htail := alphaStmts_rename hserves hbehind hrest
  cases initial with
  | none => exact .cons (.declare (Or.inr rfl) (fun _ => hfresh) (Pairs.same_declare hfresh)) htail
  | some value =>
      have hvalue := alphaExpr_rename hserves (List.ne_and_not_mem_of_not_mem_cons hfirst).2
      exact .cons (.declareWith (Or.inr rfl) (fun _ => hfresh) (Pairs.same_declare hfresh) hvalue)
        htail

mutual

theorem alphaStmt_of_renames {pairs : Pairs} {stmt stmt' : Stmt} (h : Plain new pairs)
    (hfits : FitsStmt known pairs.left stmt) (hnew : new ∉ stmtNames stmt)
    (hrenames : RenamesIn new stmt stmt') : AlphaStmt new true pairs stmt stmt' := by
  cases hrenames with
  | block hbody =>
      exact .block (alphaStmts_of_renames (List.cons_ne_nil _ _) h.open hfits hnew hbody)
  | @whenTrue condition _ _ whenFalse hwhenTrue =>
      cases whenFalse with
      | none =>
          obtain ⟨hcondition, htrue⟩ := not_mem_parts hnew
          exact .branch (h.alphaExpr hcondition) (fun _ => hfits.2.1)
            (alphaStmt_of_renames h hfits.2.2 htrue hwhenTrue)
      | some whenFalse =>
          obtain ⟨hfront, hfalse⟩ := not_mem_parts hnew
          obtain ⟨hcondition, htrue⟩ := not_mem_parts hfront
          exact .branchElse (h.alphaExpr hcondition) (fun _ => hfits.2.1.1)
            (alphaStmt_of_renames h hfits.2.1.2 htrue hwhenTrue) (fun _ => hfits.2.2.1)
            (h.alphaStmt hfits.2.2.2 hfalse)
  | whenFalse hwhenFalse =>
      obtain ⟨hfront, hfalse⟩ := not_mem_parts hnew
      obtain ⟨hcondition, htrue⟩ := not_mem_parts hfront
      exact .branchElse (h.alphaExpr hcondition) (fun _ => hfits.2.1.1)
        (h.alphaStmt hfits.2.1.2 htrue) (fun _ => hfits.2.2.1)
        (alphaStmt_of_renames h hfits.2.2.2 hfalse hwhenFalse)
  | loop hbody =>
      obtain ⟨hcondition, hinner⟩ := not_mem_parts hnew
      exact .loop (h.alphaExpr hcondition) (fun _ => hfits.2.1)
        (alphaStmt_of_renames h hfits.2.2 hinner hbody)
  | @function name params body _ hbody =>
      obtain ⟨hname, hinside⟩ := List.ne_and_not_mem_of_not_mem_cons hnew
      obtain ⟨hparams, hinner⟩ := not_mem_parts hinside
      have hplain := (h.declare (Ne.symm hname)).open
      have hfresh := h.serves.fresh (Ne.symm hname) hfits.1
      obtain ⟨frame, halpha, -, hnames⟩ :=
        alphaParams_self hplain.serves hfits.2.1 nofun hparams
      have hscopes := left_inside hfresh hnames
      exact .function (fun _ => hfresh) halpha (alphaStmts_of_renames (List.cons_ne_nil _ _)
        (halpha.plain hplain hparams) (hscopes ▸ hfits.2.2) hinner hbody)
  | @param name param before after body =>
      obtain ⟨hname, hinside⟩ := List.ne_and_not_mem_of_not_mem_cons hnew
      obtain ⟨hparams, hinner⟩ := not_mem_parts hinside
      have hfresh := h.serves.fresh (Ne.symm hname) hfits.1
      obtain ⟨frame, halpha, hserves, hnames⟩ :=
        alphaParams_target (h.declare (Ne.symm hname)).open hfits.2.1 nofun hparams
      have hscopes := left_inside hfresh hnames
      exact .function (fun _ => hfresh) halpha
        (alphaStmts_rename hserves (hscopes ▸ hfits.2.2) hinner)

theorem alphaStmts_of_renames {pairs : Pairs} {stmts stmts' : List Stmt} (hpairs : pairs ≠ [])
    (h : Plain new pairs) (hfits : FitsStmts known pairs.left stmts)
    (hnew : new ∉ stmtsNames stmts) (hrenames : RenamesScope new stmts stmts') :
    AlphaStmts new true pairs stmts stmts' := by
  match hrenames with
  | .declare => exact alphaStmts_declare hpairs h hfits hnew
  | .first hfirst =>
      obtain ⟨hhead, hrest⟩ := not_mem_parts hnew
      have hscopes := h.left_after hfirst.declared?_eq hfits.1 hhead
      exact .cons (alphaStmt_of_renames h hfits.1 hhead hfirst)
        ((h.after hfirst.declared?_eq hhead).alphaStmts (hscopes ▸ hfits.2) hrest)
  | .later hlater =>
      obtain ⟨hhead, hrest⟩ := not_mem_parts hnew
      have hscopes := h.left_after rfl hfits.1 hhead
      exact .cons (h.alphaStmt hfits.1 hhead)
        (alphaStmts_of_renames (Pairs.after_ne_nil hpairs _ _) (h.after rfl hhead)
          (hscopes ▸ hfits.2) hrest hlater)

end

/-- What a program declares outside all scopes is global and keeps its name. -/
theorem alphaStmts_of_renamesLocal {program program' : List Stmt}
    (hfits : FitsStmts known [] program) (hnew : new ∉ stmtsNames program)
    (hrenames : RenamesLocal new program program') : AlphaStmts new true [] program program' := by
  have hplain : Plain new [] := nofun
  induction hrenames with
  | @first head _ rest hfirst =>
      obtain ⟨hhead, hrest⟩ := not_mem_parts hnew
      have hscopes := hplain.left_after hfirst.declared?_eq hfits.1 hhead
      exact .cons (alphaStmt_of_renames hplain hfits.1 hhead hfirst)
        ((hplain.after hfirst.declared?_eq hhead).alphaStmts (hscopes ▸ hfits.2) hrest)
  | @later head rest _ _ ih =>
      obtain ⟨hhead, hrest⟩ := not_mem_parts hnew
      have htail := hfits.2
      rw [Lexical.after_nil] at htail
      refine .cons (hplain.alphaStmt hfits.1 hhead) ?_
      rw [Pairs.after_nil]
      exact ih htail hrest

end Renames

end Scriptlet.Renaming
