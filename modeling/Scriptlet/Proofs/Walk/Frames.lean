/-
Code in which every name is found from the inside outward where the side table says.

A frame is a scope as the code inside it knows it: the names that are declared by now, and
all that will ever be.  In an orderly program that fits its side table, no frame on the way
to the declaration of a name will ever declare that name.
-/
import Scriptlet.Proofs.Walk.Names

namespace Scriptlet.Walk

open Binding Grammar Lexical

structure Frame where
  declared : List String
  planned : List String

/-- The frames around a place, innermost first. -/
abbrev Frames := List Frame

namespace Frames

/-- The frames as the binding rules see them. -/
def scopes (frames : Frames) : Scopes :=
  frames.map Frame.declared

def declare (frames : Frames) (name : String) : Frames :=
  match frames with
  | frame :: outer => { frame with declared := name :: frame.declared } :: outer
  | [] => []

/-- The frames behind a statement. -/
def after (frames : Frames) (stmt : Stmt) : Frames :=
  match stmt.declared? with
  | some name => frames.declare name
  | none => frames

/-- The innermost scope will declare the name, unless it is the global one. -/
def Plans : Frames → String → Prop
  | [], _ => True
  | frame :: _, name => name ∈ frame.planned

/-- Up to the frame that declares the name, none will ever do so. -/
def Clear : Frames → String → Prop
  | [], _ => True
  | frame :: outer, name =>
      name ∈ frame.declared ∨ name ∉ frame.planned ∧ Clear outer name

theorem after_of_none {frames : Frames} {stmt : Stmt} (h : stmt.declared? = none) :
    frames.after stmt = frames := by
  rw [after, h]

theorem after_nil (stmt : Stmt) : Frames.after [] stmt = [] := by
  unfold after
  split
  · rfl
  · rfl

theorem after_cons (declared planned : List String) (outer : Frames) (stmt : Stmt) :
    Frames.after (⟨declared, planned⟩ :: outer) stmt =
      ⟨declaredBy declared stmt, planned⟩ :: outer := by
  unfold after declaredBy
  cases stmt.declared? with
  | none => rfl
  | some name => rfl

theorem scopes_declare {frames : Frames} {name : String}
    (hnew : declaredHere frames.scopes name = false) :
    (frames.declare name).scopes = Binding.declare frames.scopes name := by
  cases frames with
  | nil => rfl
  | cons frame outer =>
      have hnot : ¬ frame.declared.contains name = true := Bool.eq_false_iff.mp hnew
      show _ = Binding.declare (frame.declared :: Frames.scopes outer) name
      rw [Binding.declare, if_neg hnot]
      rfl

theorem scopes_after {known : Known} (frames : Frames) {stmt : Stmt}
    (hfits : FitsStmt known frames.scopes stmt) :
    (frames.after stmt).scopes = Lexical.after frames.scopes stmt := by
  unfold after Lexical.after
  cases stmt with
  | declare name initial =>
      cases initial with
      | none => exact scopes_declare hfits
      | some _ => exact scopes_declare hfits.1
  | function name params body => exact scopes_declare hfits.1
  | _ => rfl

/-- One more name that is declared stands in the way of no other. -/
theorem Clear.of_declare {frames : Frames} {name other : String}
    (h : (frames.declare name).Clear other) (hne : other ≠ name) : frames.Clear other := by
  cases frames with
  | nil => trivial
  | cons frame outer =>
      rcases h with hdeclared | hclear
      · rcases List.mem_cons.mp hdeclared with heq | hdeclared
        · exact absurd heq hne
        · exact Or.inl hdeclared
      · exact Or.inr hclear

/-- A name means the same to code that is not inside the scope of another declaration. -/
theorem distance?_declare {frames : Frames} {name other : String} (hne : other ≠ name) :
    distance? (frames.declare name).scopes other = distance? frames.scopes other := by
  cases frames with
  | nil => rfl
  | cons frame outer =>
      show List.findIdx? _ ((name :: frame.declared) :: Frames.scopes outer) =
        List.findIdx? _ (frame.declared :: Frames.scopes outer)
      rw [List.findIdx?_cons, List.findIdx?_cons, List.contains_cons, beq_false_of_ne hne,
        Bool.false_or]

end Frames

/-- The side table leads from the occurrence to the declaration, and so do the names. -/
def Leads (table : Table) (frames : Frames) (id : NodeId) (name : Token) : Prop :=
  table.distance? id = distance? frames.scopes name.lexeme ∧ frames.Clear name.lexeme

mutual

def WalksExpr (table : Table) (frames : Frames) : Expr → Prop
  | .constant _ => True
  | .group inner => WalksExpr table frames inner
  | .unary _ operand => WalksExpr table frames operand
  | .binary left _ right => WalksExpr table frames left ∧ WalksExpr table frames right
  | .logical left _ right => WalksExpr table frames left ∧ WalksExpr table frames right
  | .variable id name => Leads table frames id name
  | .assign id name value => WalksExpr table frames value ∧ Leads table frames id name
  | .call callee _ arguments =>
      WalksExpr table frames callee ∧ WalksExprs table frames arguments

def WalksExprs (table : Table) (frames : Frames) : List Expr → Prop
  | [] => True
  | first :: rest => WalksExpr table frames first ∧ WalksExprs table frames rest

end

/-- The frame of a scope that is entered, where some names are declared from the beginning. -/
def frameOf (declared : List String) (body : List Stmt) : Frame :=
  ⟨declared, declared ++ declarations body⟩

mutual

/-- An initializer stands before the declaration that it is a part of. -/
def WalksStmt (table : Table) (frames : Frames) : Stmt → Prop
  | .expression value => WalksExpr table frames value
  | .print value => WalksExpr table frames value
  | .declare name none => frames.Plans name.lexeme
  | .declare name (some initial) => frames.Plans name.lexeme ∧ WalksExpr table frames initial
  | .block body => WalksStmts table (frameOf [] body :: frames) body
  | .branch condition whenTrue none =>
      WalksExpr table frames condition ∧ whenTrue.declared? = none ∧
        WalksStmt table frames whenTrue
  | .branch condition whenTrue (some whenFalse) =>
      WalksExpr table frames condition ∧
        (whenTrue.declared? = none ∧ WalksStmt table frames whenTrue) ∧
          whenFalse.declared? = none ∧ WalksStmt table frames whenFalse
  | .loop condition body =>
      WalksExpr table frames condition ∧ body.declared? = none ∧ WalksStmt table frames body
  | .function name params body =>
      frames.Plans name.lexeme ∧
        WalksStmts table
          (frameOf (params.map Token.lexeme).reverse body :: frames.declare name.lexeme) body
  | .leave _ none => True
  | .leave _ (some value) => WalksExpr table frames value

def WalksStmts (table : Table) (frames : Frames) : List Stmt → Prop
  | [] => True
  | first :: rest => WalksStmt table frames first ∧ WalksStmts table (frames.after first) rest

end

/-! ### Orderly code that fits -/

section Fits

variable {known : Known} {frames : Frames}

/-- To the occurrences of a name, these frames are the same as the scopes that are given, and
the way is clear. -/
def Frames.Serves (frames : Frames) (scopes : Scopes) (name : String) : Prop :=
  distance? scopes name = distance? frames.scopes name ∧ frames.Clear name

mutual

theorem walksExpr_of_fits {scopes : Scopes} {pending : Option String} {expr : Expr}
    (hfits : FitsExpr known scopes pending expr)
    (hreads : ∀ name ∈ exprReads expr, pending ≠ some name → frames.Serves scopes name)
    (hassigns : ∀ name ∈ exprAssigns expr, frames.Serves scopes name) :
    WalksExpr known.table frames expr := by
  cases expr with
  | constant _ => trivial
  | group inner =>
      have hinner : WalksExpr known.table frames inner := walksExpr_of_fits hfits hreads hassigns
      exact hinner
  | unary _ operand =>
      have hoperand : WalksExpr known.table frames operand :=
        walksExpr_of_fits hfits.2 hreads hassigns
      exact hoperand
  | binary left _ right =>
      simp only [exprReads, exprAssigns, List.forall_mem_append] at hreads hassigns
      exact ⟨walksExpr_of_fits hfits.2.1 hreads.1 hassigns.1,
        walksExpr_of_fits hfits.2.2 hreads.2 hassigns.2⟩
  | logical left _ right =>
      simp only [exprReads, exprAssigns, List.forall_mem_append] at hreads hassigns
      exact ⟨walksExpr_of_fits hfits.1 hreads.1 hassigns.1,
        walksExpr_of_fits hfits.2 hreads.2 hassigns.2⟩
  | «variable» id name =>
      obtain ⟨hdistance, hclear⟩ := hreads name.lexeme List.mem_cons_self hfits.1
      exact ⟨hfits.2.2.trans hdistance, hclear⟩
  | assign id name value =>
      simp only [exprReads, exprAssigns, List.forall_mem_cons] at hreads hassigns
      obtain ⟨hdistance, hclear⟩ := hassigns.1
      exact ⟨walksExpr_of_fits hfits.1 hreads hassigns.2, hfits.2.2.trans hdistance, hclear⟩
  | call callee _ arguments =>
      simp only [exprReads, exprAssigns, List.forall_mem_append] at hreads hassigns
      exact ⟨walksExpr_of_fits hfits.1 hreads.1 hassigns.1,
        walksExprs_of_fits hfits.2 hreads.2 hassigns.2⟩

theorem walksExprs_of_fits {scopes : Scopes} {pending : Option String} {exprs : List Expr}
    (hfits : FitsExprs known scopes pending exprs)
    (hreads : ∀ name ∈ exprsReads exprs, pending ≠ some name → frames.Serves scopes name)
    (hassigns : ∀ name ∈ exprsAssigns exprs, frames.Serves scopes name) :
    WalksExprs known.table frames exprs := by
  cases exprs with
  | nil => trivial
  | cons first rest =>
      simp only [exprsReads, exprsAssigns, List.forall_mem_append] at hreads hassigns
      exact ⟨walksExpr_of_fits hfits.1 hreads.1 hassigns.1,
        walksExprs_of_fits hfits.2 hreads.2 hassigns.2⟩

end

/-- An expression that stands on its own. -/
theorem walksExpr_of_clear {expr : Expr} (hfits : FitsExpr known frames.scopes none expr)
    (hclear : ∀ name ∈ exprNames expr, frames.Clear name) : WalksExpr known.table frames expr :=
  walksExpr_of_fits hfits
    (fun name hname _ => ⟨rfl, hclear name (List.mem_append_left _ hname)⟩)
    fun name hname => ⟨rfl, hclear name (List.mem_append_right _ hname)⟩

/-- The statement may stand in these frames. -/
structure Admits (frames : Frames) (stmt : Stmt) : Prop where
  clear : ∀ name ∈ stmtOutward stmt, (frames.after stmt).Clear name
  orderly : ∀ scope ∈ stmtScopes stmt, scope.Orderly
  own : frames = [] ∨ ¬ AssignsOwn stmt
  plans : ∀ name ∈ stmt.declared?, frames.Plans name

/-- A part of a statement that declares nothing may stand where the statement may. -/
theorem Admits.part {stmt part : Stmt} (h : Admits frames stmt) (hstmt : stmt.declared? = none)
    (hpart : part.declared? = none) (houtward : stmtOutward part ⊆ stmtOutward stmt)
    (hscopes : stmtScopes part ⊆ stmtScopes stmt) : Admits frames part where
  clear name hname := by
    have hclear := h.clear name (houtward hname)
    rw [Frames.after_of_none hstmt] at hclear
    rw [Frames.after_of_none hpart]
    exact hclear
  orderly scope hscope := h.orderly scope (hscopes hscope)
  own := by
    refine Or.inr fun hown => ?_
    cases part with
    | declare name initial => cases hpart
    | _ => exact hown
  plans name hname := by
    rw [hpart] at hname
    cases hname

theorem walksExpr_of_initial {name : Token} {initial : Expr}
    (hfits : FitsStmt known frames.scopes (.declare name (some initial)))
    (hstmt : Admits frames (.declare name (some initial))) :
    WalksExpr known.table frames initial := by
  obtain ⟨hnew, hinitial⟩ := hfits
  cases frames with
  | nil =>
      refine walksExpr_of_fits hinitial (fun other _ _ => ⟨rfl, trivial⟩) fun other _ => ?_
      exact ⟨rfl, trivial⟩
  | cons frame outer =>
      rw [← Frames.scopes_declare hnew] at hinitial
      have hserves : ∀ other ∈ exprNames initial, other ≠ name.lexeme →
          Frames.Serves (frame :: outer)
            (Frames.declare (frame :: outer) name.lexeme).scopes other := by
        intro other hother hne
        have hclear : (Frames.declare (frame :: outer) name.lexeme).Clear other :=
          hstmt.clear other hother
        exact ⟨Frames.distance?_declare hne, hclear.of_declare hne⟩
      have hpending :
          pendingOf (Frames.scopes (frame :: outer)) name.lexeme = some name.lexeme := by
        unfold pendingOf
        rw [hnew]
        rfl
      refine walksExpr_of_fits hinitial (fun other hother hne => ?_) fun other hother => ?_
      · refine hserves other (List.mem_append_left _ hother) fun heq => hne ?_
        rw [heq, hpending]
      · refine hserves other (List.mem_append_right _ hother) ?_
        rintro rfl
        exact (hstmt.own.resolve_left nofun) hother

mutual

theorem walksStmt_of_fits {frames : Frames} {stmt : Stmt}
    (hfits : FitsStmt known frames.scopes stmt) (hstmt : Admits frames stmt) :
    WalksStmt known.table frames stmt := by
  match stmt, hfits with
  | .expression value, hfits => exact walksExpr_of_clear hfits hstmt.clear
  | .print value, hfits => exact walksExpr_of_clear hfits hstmt.clear
  | .declare name none, _ => exact hstmt.plans name.lexeme rfl
  | .declare name (some initial), hfits =>
      exact ⟨hstmt.plans name.lexeme rfl, walksExpr_of_initial hfits hstmt⟩
  | .block body, hfits =>
      obtain ⟨hscope, hinner⟩ := List.forall_mem_cons.mp hstmt.orderly
      have hbody : WalksStmts known.table (frameOf [] body :: frames) body :=
        walksStmts_of_fits hfits hscope.neverLate hscope.assigns hinner
          (List.subset_append_right _ _) (fun _ => List.mem_append.mp) hstmt.clear
      exact hbody
  | .branch condition whenTrue none, hfits =>
      have hclear := List.forall_mem_append.mp hstmt.clear
      have htrue : Admits frames whenTrue := hstmt.part rfl hfits.2.1
        (List.subset_append_right _ _) (List.Subset.refl _)
      exact ⟨walksExpr_of_clear hfits.1 hclear.1, hfits.2.1, walksStmt_of_fits hfits.2.2 htrue⟩
  | .branch condition whenTrue (some whenFalse), hfits =>
      have hclear := (List.forall_mem_append.mp (List.forall_mem_append.mp hstmt.clear).1).1
      have htrue : Admits frames whenTrue := hstmt.part rfl hfits.2.1.1
        (List.subset_append_of_subset_left _ (List.subset_append_right _ _))
        (List.subset_append_left _ _)
      have hfalse : Admits frames whenFalse := hstmt.part rfl hfits.2.2.1
        (List.subset_append_right _ _) (List.subset_append_right _ _)
      exact ⟨walksExpr_of_clear hfits.1 hclear,
        ⟨hfits.2.1.1, walksStmt_of_fits hfits.2.1.2 htrue⟩,
        hfits.2.2.1, walksStmt_of_fits hfits.2.2.2 hfalse⟩
  | .loop condition body, hfits =>
      have hclear := List.forall_mem_append.mp hstmt.clear
      have hbody : Admits frames body := hstmt.part rfl hfits.2.1
        (List.subset_append_right _ _) (List.Subset.refl _)
      exact ⟨walksExpr_of_clear hfits.1 hclear.1, hfits.2.1, walksStmt_of_fits hfits.2.2 hbody⟩
  | .function name params body, hfits =>
      obtain ⟨hnew, -, hbody⟩ := hfits
      obtain ⟨hscope, hinner⟩ := List.forall_mem_cons.mp hstmt.orderly
      rw [← Frames.scopes_declare hnew] at hbody
      refine ⟨hstmt.plans name.lexeme rfl, ?_⟩
      exact walksStmts_of_fits hbody hscope.neverLate hscope.assigns hinner
        (List.subset_append_right _ _) (fun _ => List.mem_append.mp) hstmt.clear
  | .leave _ none, _ => trivial
  | .leave _ (some value), hfits => exact walksExpr_of_clear hfits hstmt.clear

/-- The statements of a local scope, behind those that have declared some of its names. -/
theorem walksStmts_of_fits {declared planned : List String} {outer : Frames} {stmts : List Stmt}
    (hfits : FitsStmts known (declared :: outer.scopes) stmts) (hlate : NeverLate declared stmts)
    (hown : ∀ stmt ∈ stmts, ¬ AssignsOwn stmt) (horderly : Orderly stmts)
    (hplans : declarations stmts ⊆ planned)
    (hplanned : ∀ name ∈ planned, name ∈ declared ∨ name ∈ declarations stmts)
    (hclear : ∀ name ∈ scopeOutward declared stmts, outer.Clear name) :
    WalksStmts known.table (⟨declared, planned⟩ :: outer) stmts := by
  match stmts, hfits with
  | [], _ => trivial
  | first :: rest, ⟨hfirst, hrest⟩ =>
      obtain ⟨hnow, hlate⟩ := hlate
      obtain ⟨hhere, hclear⟩ := List.forall_mem_append.mp hclear
      obtain ⟨hscopes, horderly⟩ := List.forall_mem_append.mp horderly
      obtain ⟨hfirstOwn, hown⟩ := List.forall_mem_cons.mp hown
      have hmem : ∀ name, name ∈ declarations (first :: rest) ↔
          name ∈ first.declared? ∨ name ∈ declarations rest := mem_declarations_cons first rest
      have hadmits : Admits (⟨declared, planned⟩ :: outer) first := by
        refine ⟨fun name hname => ?_, hscopes, Or.inr hfirstOwn, fun name hname => ?_⟩
        · rw [Frames.after_cons]
          by_cases hdeclared : name ∈ declaredBy declared first
          · exact Or.inl hdeclared
          · have hlater := hnow name hname hdeclared
            rw [mem_declaredBy, not_or] at hdeclared
            refine Or.inr ⟨fun hplan => ?_, ?_⟩
            · rcases hplanned name hplan with hbefore | hhere
              · exact hdeclared.2 hbefore
              · exact ((hmem name).mp hhere).elim hdeclared.1 hlater
            · refine hhere name (List.mem_filter.mpr ⟨hname, decide_eq_true ?_⟩)
              rw [mem_declaredBy, not_or]
              exact hdeclared
        · exact hplans ((hmem name).mpr (Or.inl hname))
      have hwalks : WalksStmt known.table (⟨declared, planned⟩ :: outer) first :=
        walksStmt_of_fits hfirst hadmits
      have hafter : Frames.scopes (Frames.after (⟨declared, planned⟩ :: outer) first) =
          Lexical.after (declared :: outer.scopes) first :=
        Frames.scopes_after (⟨declared, planned⟩ :: outer) hfirst
      rw [Frames.after_cons] at hafter
      rw [← hafter] at hrest
      refine ⟨hwalks, ?_⟩
      rw [Frames.after_cons]
      apply walksStmts_of_fits hrest hlate hown horderly ?_ ?_ hclear
      · exact fun name hname => hplans ((hmem name).mpr (Or.inr hname))
      · intro name hplan
        rw [mem_declaredBy, or_right_comm, ← hmem]
        exact (hplanned name hplan).symm

end

/-- A program stands in no scope that is local. -/
theorem walksStmts_of_program {program : List Stmt} (hfits : FitsStmts known [] program)
    (horderly : Orderly program) : WalksStmts known.table [] program := by
  induction program with
  | nil => trivial
  | cons first rest ih =>
      obtain ⟨hscopes, horderly⟩ := List.forall_mem_append.mp horderly
      obtain ⟨hfirst, hrest⟩ := hfits
      rw [Lexical.after_nil] at hrest
      have hadmits : Admits [] first := by
        refine ⟨fun name _ => ?_, hscopes, Or.inl rfl, fun _ _ => trivial⟩
        rw [Frames.after_nil]
        trivial
      refine ⟨walksStmt_of_fits hfirst hadmits, ?_⟩
      rw [Frames.after_nil]
      exact ih hrest horderly

end Fits

end Scriptlet.Walk
