/-
The walk that resolves a program finds what its sites are told by those before them.
-/
import Scriptlet.Proofs.Binding.Sites
import Scriptlet.Proofs.Incremental.Resolved

namespace Scriptlet.Binding

open Lexical (faults_append entries_append)

/-- Where a variable is read in an initializer, the number given is that of a declaration before
it, in the same scopes. -/
def Refers (before list : List Site) : Prop :=
  ∀ i site, list[i]? = some site → ∀ id name index, site.item = .read id name (some index) →
    ∃ token, (before ++ list.take i)[index]? = some ⟨site.scopes, .declaration token⟩

/-- What is found in a part of a text is what its sites are told. -/
structure Follows (before : List Site) (listing : Listing) (found : Findings) : Prop where
  faults : found.faults = gather Site.fault? before (listing before.length)
  entries : found.entries.Perm (gather Site.listed? before (listing before.length))
  refers : Refers before (listing before.length)

/-- The walk also knows the names behind the part. -/
structure Walks (before : List Site) (listing : Listing) (chain : List Scope)
    (result : Findings × Scopes) : Prop where
  follows : Follows before listing result.1
  tracks : Tracks (before ++ listing before.length) chain result.2

section Parts

variable {before : List Site} {chain : List Scope} {scopes : Scopes} {a b : Listing}
  {found found' : Findings}

theorem Refers.nil : Refers before [] := by
  intro i site hsite
  cases hsite

theorem Refers.append {first rest : List Site} (hfirst : Refers before first)
    (hrest : Refers (before ++ first) rest) : Refers before (first ++ rest) := by
  intro i site hsite id name index hitem
  rw [List.getElem?_append] at hsite
  split at hsite
  · next hlt =>
      rw [List.take_append_of_le_length (Nat.le_of_lt hlt)]
      exact hfirst i site hsite id name index hitem
  · next hge =>
      rw [List.take_append, List.take_of_length_le (Nat.le_of_not_lt hge), ← List.append_assoc]
      exact hrest _ site hsite id name index hitem

theorem Follows.nil : Follows before .nil .empty :=
  ⟨rfl, .nil, .nil⟩

theorem Follows.then (ha : Follows before a found)
    (hb : Follows (before ++ a before.length) b found') :
    Follows before (a ++ b) (found ++ found') := by
  obtain ⟨hfaults, hentries, hrefers⟩ := hb
  rw [List.length_append] at hfaults hentries hrefers
  have hlisting : (a ++ b) before.length =
      a before.length ++ b (before.length + (a before.length).length) := rfl
  refine ⟨?_, ?_, ?_⟩
  · rw [hlisting, gather_append, faults_append, ha.faults, hfaults]
  · rw [hlisting, gather_append, entries_append]
    exact ha.entries.append hentries
  · rw [hlisting]
    exact ha.refers.append hrefers

theorem Walks.then {between after : Scopes} (ha : Walks before a chain (found, between))
    (hb : Walks (before ++ a before.length) b chain (found', after)) :
    Walks before (a ++ b) chain (found ++ found', after) := by
  refine ⟨ha.follows.then hb.follows, ?_⟩
  have htracks := hb.tracks
  rw [List.length_append, List.append_assoc] at htracks
  exact htracks

/-- One site, with what is found there. -/
theorem Follows.one {site : Site} (hfaults : found.faults = (site.fault? before).toList)
    (hentries : found.entries = (site.listed? before).toList)
    (hrefers : ∀ id name index, site.item = .read id name (some index) →
      ∃ token, before[index]? = some ⟨site.scopes, .declaration token⟩) :
    Follows before (.one site) found := by
  refine ⟨?_, ?_, ?_⟩
  · rw [hfaults]
    exact (List.append_nil _).symm
  · rw [hentries]
    exact .of_eq (List.append_nil _).symm
  · intro i other hother id name index hitem
    have hi : i = 0 := by
      have hlt := (List.getElem?_eq_some_iff.mp hother).1
      exact Nat.lt_one_iff.mp hlt
    subst hi
    cases hother
    rw [List.take_zero, List.append_nil]
    exact hrefers id name index hitem

/-- The order of entries does not count, and where there are no faults they need none. -/
theorem Follows.swap (h : Follows before a (found ++ found')) (hfaults : found.faults = []) :
    Follows before a (found' ++ found) where
  faults := by
    rw [← h.faults, faults_append, faults_append, hfaults, List.append_nil, List.nil_append]
  entries := List.perm_append_comm.trans h.entries
  refers := h.refers

/-! ### Expressions -/

/-- The name that must not be read is the one whose initializer is being read, if it is a new
local one. -/
structure Pends (before : List Site) (chain : List Scope) (initializing : Option Nat)
    (pending : Option String) : Prop where
  declared : ∀ index ∈ initializing, ∃ token, before[index]? = some ⟨chain, .declaration token⟩
  names : ∀ name, pending = some name ↔ ∃ index ∈ initializing, Initializes before index name

variable {initializing : Option Nat} {pending : Option String}

theorem Pends.none : Pends before chain none none :=
  ⟨nofun, fun _ => ⟨nofun, nofun⟩⟩

theorem Pends.append (h : Pends before chain initializing pending) (more : List Site) :
    Pends (before ++ more) chain initializing pending where
  declared index hindex := by
    obtain ⟨token, htoken⟩ := h.declared index hindex
    have hlt := (List.getElem?_eq_some_iff.mp htoken).1
    exact ⟨token, (List.getElem?_append_left hlt).trans htoken⟩
  names name := by
    rw [h.names]
    refine exists_congr fun index => and_congr_right fun hindex => ?_
    obtain ⟨token, htoken⟩ := h.declared index hindex
    have hlt := (List.getElem?_eq_some_iff.mp htoken).1
    unfold Initializes
    rw [List.getElem?_append_left hlt, List.take_append_of_le_length (Nat.le_of_lt hlt)]

mutual

/-- There are no declarations in expressions. -/
theorem exprSites_plain (chain : List Scope) (initializing : Option Nat) (expr : Expr)
    (start : Nat) : Plain chain (exprSites chain initializing expr start) := by
  cases expr with
  | constant _ => exact .nil
  | group inner => exact exprSites_plain chain initializing inner start
  | unary _ operand => exact exprSites_plain chain initializing operand start
  | binary left _ right | logical left _ right =>
      exact List.forall_mem_append.mpr ⟨exprSites_plain chain initializing left start,
        exprSites_plain chain initializing right _⟩
  | «variable» id name => exact .one rfl
  | assign id name value =>
      exact List.forall_mem_cons.mpr ⟨⟨rfl, rfl⟩, exprSites_plain chain initializing value _⟩
  | call callee _ arguments =>
      exact List.forall_mem_append.mpr ⟨exprSites_plain chain initializing callee start,
        exprsSites_plain chain initializing arguments _⟩

theorem exprsSites_plain (chain : List Scope) (initializing : Option Nat) (exprs : List Expr)
    (start : Nat) : Plain chain (exprsSites chain initializing exprs start) := by
  cases exprs with
  | nil => exact .nil
  | cons first rest =>
      exact List.forall_mem_append.mpr ⟨exprSites_plain chain initializing first start,
        exprsSites_plain chain initializing rest _⟩

end

theorem faults_occurrence (scopes : Scopes) (id : NodeId) (name : Token) :
    (occurrence scopes id name).faults = [] := by
  unfold occurrence
  split
  · rfl
  · rfl

theorem entries_occurrence (h : Tracks before chain scopes) (id : NodeId) (name : Token) :
    (occurrence scopes id name).entries =
      ((chain.findIdx? fun scope => Declared before scope name.lexeme).map
        (Prod.mk id)).toList := by
  unfold occurrence
  rw [h.distance?_eq]
  cases chain.findIdx? fun scope => Declared before scope name.lexeme with
  | none => rfl
  | some distance => rfl

theorem follows_read (h : Tracks before chain scopes)
    (hpends : Pends before chain initializing pending) (id : NodeId) (name : Token) :
    Follows before (.one ⟨chain, .read id name initializing⟩)
      (inExpr scopes pending (.variable id name)) := by
  refine .one ?_ ?_ ?_
  · rw [inExpr, faults_append, faults_occurrence, List.append_nil]
    have hnames := hpends.names name.lexeme
    cases initializing with
    | none =>
        rw [if_neg fun h => nomatch hnames.mp h]
        rfl
    | some index =>
        dsimp only [Site.fault?]
        simp only [Option.mem_def, Option.some.injEq, exists_eq_left'] at hnames
        by_cases hread : Initializes before index name.lexeme
        · rw [if_pos (hnames.mpr hread), if_pos hread]
          rfl
        · rw [if_neg fun h => hread (hnames.mp h), if_neg hread]
          rfl
  · rw [inExpr, entries_append, entries_occurrence h]
    split
    · rfl
    · rfl
  · intro id' name' index hitem
    cases hitem
    exact hpends.declared index rfl

theorem follows_assignment (h : Tracks before chain scopes) (id : NodeId) (name : Token) :
    Follows before (.one ⟨chain, .assignment id name⟩) (occurrence scopes id name) :=
  .one (faults_occurrence scopes id name) (entries_occurrence h id name) nofun

mutual

theorem follows_expr {before : List Site} (h : Tracks before chain scopes)
    (hpends : Pends before chain initializing pending) (expr : Expr) :
    Follows before (exprSites chain initializing expr) (inExpr scopes pending expr) := by
  cases expr with
  | constant _ => exact .nil
  | group inner => exact follows_expr h hpends inner
  | unary _ operand => exact follows_expr h hpends operand
  | binary left _ right | logical left _ right =>
      exact (follows_expr h hpends left).then
        (follows_expr (h.plain (exprSites_plain _ _ _ _)) (hpends.append _) right)
  | «variable» id name => exact follows_read h hpends id name
  | assign id name value =>
      have hplain : Plain chain [⟨chain, .assignment id name⟩] := .one rfl
      exact ((follows_assignment h id name).then
        (follows_expr (h.plain hplain) (hpends.append _) value)).swap (faults_occurrence ..)
  | call callee _ arguments =>
      exact (follows_expr h hpends callee).then
        (follows_exprs (h.plain (exprSites_plain _ _ _ _)) (hpends.append _) arguments)

theorem follows_exprs {before : List Site} (h : Tracks before chain scopes)
    (hpends : Pends before chain initializing pending) (exprs : List Expr) :
    Follows before (exprsSites chain initializing exprs) (inExprs scopes pending exprs) := by
  cases exprs with
  | nil => exact .nil
  | cons first rest =>
      exact (follows_expr h hpends first).then
        (follows_exprs (h.plain (exprSites_plain _ _ _ _)) (hpends.append _) rest)

end

/-- A part that is in the innermost scope and declares nothing. -/
theorem Follows.walks (h : Follows before a found) (htracks : Tracks before chain scopes)
    (hplain : Plain chain (a before.length)) : Walks before a chain (found, scopes) :=
  ⟨h, htracks.plain hplain⟩

theorem walks_expr (h : Tracks before chain scopes) (expr : Expr) :
    Walks before (exprSites chain none expr) chain (inExpr scopes none expr, scopes) :=
  (follows_expr h .none expr).walks h (exprSites_plain _ _ _ _)

/-! ### Declarations -/

theorem walks_declaration (h : Tracks before chain scopes) (name : Token) :
    Walks before (.one ⟨chain, .declaration name⟩) chain
      (redeclaration scopes name, declare scopes name.lexeme) := by
  have hhere := h.declaredHere_iff name.lexeme
  refine ⟨.one ?_ ?_ nofun, h.declare name⟩
  · dsimp only [Site.fault?, redeclaration]
    by_cases hdeclared : Redeclares before chain name.lexeme
    · rw [if_pos (hhere.mpr hdeclared), if_pos hdeclared]
      rfl
    · rw [if_neg fun h => hdeclared (hhere.mp h), if_neg hdeclared]
      rfl
  · unfold redeclaration
    split
    · rfl
    · rfl

/-- Behind its declaration, a new local name is the one that must not be read. -/
theorem pends_declaration (h : Tracks before chain scopes) (name : Token) :
    Pends (before ++ [⟨chain, .declaration name⟩]) chain (some before.length)
      (pendingOf scopes name.lexeme) where
  declared index hindex := by
    cases hindex
    exact ⟨name, List.getElem?_concat_length⟩
  names key := by
    have hhere := h.declaredHere_iff name.lexeme
    have hnew : Initializes (before ++ [⟨chain, .declaration name⟩]) before.length key ↔
        name.lexeme = key ∧ chain ≠ [] ∧ ¬ Redeclares before chain key := by
      unfold Initializes
      rw [List.getElem?_concat_length, List.take_left]
      simp [Item.declaration?]
    simp only [Option.mem_def, Option.some.injEq, exists_eq_left']
    have hcondition : (scopes.isEmpty || declaredHere scopes name.lexeme) = true ↔
        chain = [] ∨ Redeclares before chain name.lexeme := by
      rw [Bool.or_eq_true, h.isEmpty_eq, List.isEmpty_iff, hhere]
    rw [hnew]
    unfold pendingOf
    split
    · next hnone =>
        refine ⟨fun h => absurd h.symm (Option.some_ne_none key), ?_⟩
        rintro ⟨rfl, hlocal, hnot⟩
        exact absurd (hcondition.mp hnone) (not_or.mpr ⟨hlocal, hnot⟩)
    · next hsome =>
        rw [hcondition, not_or] at hsome
        rw [Option.some.injEq]
        refine ⟨?_, And.left⟩
        rintro rfl
        exact ⟨rfl, hsome⟩

theorem walks_params (h : Tracks before chain scopes) (params : List Token) :
    Walks before (paramsSites chain params) chain (inParams scopes params) := by
  induction params generalizing before scopes with
  | nil => exact (Follows.nil).walks h .nil
  | cons param rest ih =>
      have hparam := walks_declaration h param
      exact hparam.then (ih hparam.tracks)

/-! ### Statements -/

theorem tail_inParams (names : List String) (outer : Scopes) (params : List Token) :
    ∃ names', (inParams (names :: outer) params).2 = names' :: outer := by
  induction params generalizing names with
  | nil => exact ⟨names, rfl⟩
  | cons param rest ih => exact ih _

mutual

/-- Nothing is declared in scopes further out. -/
theorem tail_inStmt (inFunction : Bool) (names : List String) (outer : Scopes) (stmt : Stmt) :
    ∃ names', (inStmt inFunction (names :: outer) stmt).2 = names' :: outer := by
  match stmt with
  | .expression _ | .print _ | .block _ | .leave _ none | .leave _ (some _) => exact ⟨names, rfl⟩
  | .declare _ none | .declare _ (some _) | .function _ _ _ => exact ⟨_, rfl⟩
  | .branch _ whenTrue none => exact tail_inStmt inFunction names outer whenTrue
  | .branch _ whenTrue (some whenFalse) =>
      obtain ⟨between, hbetween⟩ := tail_inStmt inFunction names outer whenTrue
      obtain ⟨after, hafter⟩ := tail_inStmt inFunction between outer whenFalse
      refine ⟨after, ?_⟩
      show (inStmt inFunction (inStmt inFunction (names :: outer) whenTrue).2 whenFalse).2 = _
      rw [hbetween, hafter]
  | .loop _ body => exact tail_inStmt inFunction names outer body

theorem tail_inStmts (inFunction : Bool) (names : List String) (outer : Scopes)
    (stmts : List Stmt) :
    ∃ names', (inStmts inFunction (names :: outer) stmts).2 = names' :: outer := by
  match stmts with
  | [] => exact ⟨names, rfl⟩
  | first :: rest =>
      obtain ⟨between, hbetween⟩ := tail_inStmt inFunction names outer first
      obtain ⟨after, hafter⟩ := tail_inStmts inFunction between outer rest
      refine ⟨after, ?_⟩
      show (inStmts inFunction (inStmt inFunction (names :: outer) first).2 rest).2 = _
      rw [hbetween, hafter]

end

/-- A part in a scope of its own. -/
theorem Walks.enclosed {ofFunction : Bool} {inside : List Scope → Listing} {after : Scopes}
    (hafter : ∃ names, after = names :: scopes)
    (hinside : Walks (before ++ [⟨chain, .opening⟩]) (inside (⟨before.length, ofFunction⟩ :: chain))
      (⟨before.length, ofFunction⟩ :: chain) (found, after)) :
    Walks before (.enclosed chain ofFunction inside) chain (found, scopes) := by
  obtain ⟨names, rfl⟩ := hafter
  have hopening : Follows before (.one ⟨chain, .opening⟩) .empty := .one rfl rfl nofun
  have hboth := hopening.then hinside.follows
  refine ⟨⟨hboth.faults, hboth.entries, hboth.refers⟩, ?_⟩
  have htracks := hinside.tracks.closed
  rw [List.length_append, List.append_assoc] at htracks
  exact htracks

/-- A function body is around a statement if one of the scopes around it is a function's. -/
def Marks (inFunction : Bool) (chain : List Scope) : Prop :=
  inFunction = true ↔ ∃ scope ∈ chain, scope.ofFunction = true

theorem Marks.block {inFunction : Bool} (h : Marks inFunction chain) (start : Nat) :
    Marks inFunction (⟨start, false⟩ :: chain) := by
  have hsame : (∃ scope ∈ Scope.mk start false :: chain, scope.ofFunction = true) ↔
      ∃ scope ∈ chain, scope.ofFunction = true := by simp
  exact Iff.trans h hsame.symm

theorem Marks.function (start : Nat) (chain : List Scope) : Marks true (⟨start, true⟩ :: chain) :=
  iff_of_true rfl ⟨_, List.mem_cons_self, rfl⟩

theorem walks_leave {inFunction : Bool} (h : Tracks before chain scopes)
    (hmarks : Marks inFunction chain) (keyword : Token) :
    Walks before (.one ⟨chain, .leave keyword⟩) chain
      (if inFunction then .empty else .fault keyword .returnOutsideFunction, scopes) := by
  refine Follows.walks (.one ?_ ?_ nofun) h (.one rfl)
  · dsimp only [Site.fault?]
    cases inFunction with
    | true => rw [if_pos (hmarks.mp rfl)]; rfl
    | false => rw [if_neg fun h => Bool.false_ne_true (hmarks.mpr h)]; rfl
  · cases inFunction with
    | true => rfl
    | false => rfl

mutual

theorem walks_stmt {inFunction : Bool} {before : List Site} {chain : List Scope} {scopes : Scopes}
    (h : Tracks before chain scopes) (hmarks : Marks inFunction chain) (stmt : Stmt) :
    Walks before (stmtSites chain stmt) chain (inStmt inFunction scopes stmt) := by
  match stmt with
  | .expression value => exact walks_expr h value
  | .print value => exact walks_expr h value
  | .declare name none => exact walks_declaration h name
  | .declare name (some initial) =>
      have hname := walks_declaration h name
      have hinitial := follows_expr hname.tracks (pends_declaration h name) initial
      have hboth := hname.then (hinitial.walks hname.tracks (exprSites_plain _ _ _ _))
      exact ⟨⟨hboth.follows.faults, hboth.follows.entries, hboth.follows.refers⟩, hboth.tracks⟩
  | .block body =>
      exact .enclosed (tail_inStmts _ _ _ body)
        (walks_stmts (h.opening false) (hmarks.block _) body)
  | .branch condition whenTrue none =>
      have hcondition := walks_expr h condition
      exact hcondition.then (walks_stmt hcondition.tracks hmarks whenTrue)
  | .branch condition whenTrue (some whenFalse) =>
      have hcondition := walks_expr h condition
      have htrue := hcondition.then (walks_stmt hcondition.tracks hmarks whenTrue)
      exact htrue.then (walks_stmt htrue.tracks hmarks whenFalse)
  | .loop condition body =>
      have hcondition := walks_expr h condition
      exact hcondition.then (walks_stmt hcondition.tracks hmarks body)
  | .function name params body =>
      have hname := walks_declaration h name
      have hparams := walks_params (hname.tracks.opening true) params
      have hbody := hparams.then (walks_stmts hparams.tracks (.function _ _) body)
      have htail : ∃ names, (inStmts true
          (inParams ([] :: declare scopes name.lexeme) params).2 body).2 =
            names :: declare scopes name.lexeme := by
        obtain ⟨names, hnames⟩ := tail_inParams [] (declare scopes name.lexeme) params
        rw [hnames]
        exact tail_inStmts true names _ body
      have hinside : Walks (before ++ [⟨chain, .declaration name⟩])
          (.enclosed chain true fun inside => paramsSites inside params ++ stmtsSites inside body)
          chain (_, declare scopes name.lexeme) := .enclosed htail hbody
      have hboth := hname.then hinside
      rw [← Incremental.Findings.append_assoc] at hboth
      exact hboth
  | .leave keyword none => exact walks_leave h hmarks keyword
  | .leave keyword (some value) =>
      have hkeyword := walks_leave h hmarks keyword
      exact hkeyword.then (walks_expr hkeyword.tracks value)

theorem walks_stmts {inFunction : Bool} {before : List Site} {chain : List Scope} {scopes : Scopes}
    (h : Tracks before chain scopes) (hmarks : Marks inFunction chain) (stmts : List Stmt) :
    Walks before (stmtsSites chain stmts) chain (inStmts inFunction scopes stmts) := by
  match stmts with
  | [] => exact (Follows.nil).walks h .nil
  | first :: rest =>
      have hfirst := walks_stmt h hmarks first
      exact hfirst.then (walks_stmts hfirst.tracks hmarks rest)

end

/-- The resolver finds in a program what its sites are told. -/
theorem follows_findings (program : List Stmt) :
    Follows [] (stmtsSites [] program) (findings program) := by
  have houtside : Marks false [] := by simp [Marks]
  exact (walks_stmts .empty houtside program).follows

end Parts

end Scriptlet.Binding
