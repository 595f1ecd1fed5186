/-
The declarations and the occurrences of a program, listed as they stand in its text.

The list says what is where, and keeps no account of what is declared: what a name means at a
site, and whether the site is at fault, is asked of the sites before it.  The walk that resolves
a program finds what these questions find.
-/
import Mathlib.Data.List.Forall2
import Scriptlet.Proofs.Lexical.Resolved

namespace Scriptlet.Binding

/-! ### Sites -/

/-- A block, or the parameters and the body of a function, by the number of the site where it
opens. -/
structure Scope where
  start : Nat
  ofFunction : Bool
deriving DecidableEq

inductive Item where
  | opening
  | declaration (name : Token)
  /-- A variable is read, perhaps in the initializer of the declaration with this number. -/
  | read (id : NodeId) (name : Token) (initializing : Option Nat)
  | assignment (id : NodeId) (name : Token)
  | leave (keyword : Token)

def Item.declaration? : Item → Option Token
  | declaration name => some name
  | _ => none

/-- The identity and the name of a variable that is read or assigned. -/
def Item.occurrence? : Item → Option (NodeId × Token)
  | read id name _ => some (id, name)
  | assignment id name => some (id, name)
  | _ => none

/-- What stands at a place of a text, with the scopes around it, innermost first. -/
structure Site where
  scopes : List Scope
  item : Item

/-- The sites of a part of a text, behind so many others. -/
def Listing := Nat → List Site

namespace Listing

def nil : Listing := fun _ => []

def one (site : Site) : Listing := fun _ => [site]

instance : Append Listing where
  append a b := fun start => a start ++ b (start + (a start).length)

/-- A scope that opens here. -/
def enclosed (scopes : List Scope) (ofFunction : Bool) (inside : List Scope → Listing) : Listing :=
  fun start => (one ⟨scopes, .opening⟩ ++ inside (⟨start, ofFunction⟩ :: scopes)) start

end Listing

section Listings

variable (scopes : List Scope)

mutual

def exprSites (initializing : Option Nat) : Expr → Listing
  | .constant _ => .nil
  | .group inner => exprSites initializing inner
  | .unary _ operand => exprSites initializing operand
  | .binary left _ right => exprSites initializing left ++ exprSites initializing right
  | .logical left _ right => exprSites initializing left ++ exprSites initializing right
  | .variable id name => .one ⟨scopes, .read id name initializing⟩
  | .assign id name value => .one ⟨scopes, .assignment id name⟩ ++ exprSites initializing value
  | .call callee _ arguments => exprSites initializing callee ++ exprsSites initializing arguments

def exprsSites (initializing : Option Nat) : List Expr → Listing
  | [] => .nil
  | first :: rest => exprSites initializing first ++ exprsSites initializing rest

end

def paramsSites : List Token → Listing
  | [] => .nil
  | param :: rest => .one ⟨scopes, .declaration param⟩ ++ paramsSites rest

end Listings

mutual

/-- A branch and the body of a loop are in the scope of the statement, and a function is declared
where it stands, before its parameters. -/
def stmtSites (scopes : List Scope) : Stmt → Listing
  | .expression value => exprSites scopes none value
  | .print value => exprSites scopes none value
  | .declare name none => .one ⟨scopes, .declaration name⟩
  | .declare name (some initial) => fun start =>
      (.one ⟨scopes, .declaration name⟩ ++ exprSites scopes (some start) initial : Listing) start
  | .block body => .enclosed scopes false fun inside => stmtsSites inside body
  | .branch condition whenTrue none => exprSites scopes none condition ++ stmtSites scopes whenTrue
  | .branch condition whenTrue (some whenFalse) =>
      exprSites scopes none condition ++ stmtSites scopes whenTrue ++ stmtSites scopes whenFalse
  | .loop condition body => exprSites scopes none condition ++ stmtSites scopes body
  | .function name params body =>
      .one ⟨scopes, .declaration name⟩ ++
        .enclosed scopes true fun inside => paramsSites inside params ++ stmtsSites inside body
  | .leave keyword none => .one ⟨scopes, .leave keyword⟩
  | .leave keyword (some value) =>
      .one ⟨scopes, .leave keyword⟩ ++ exprSites scopes none value

def stmtsSites (scopes : List Scope) : List Stmt → Listing
  | [] => .nil
  | first :: rest => stmtSites scopes first ++ stmtsSites scopes rest

end

/-- All sites of a program, which is in no scope. -/
def sites (program : List Stmt) : List Site :=
  stmtsSites [] program 0

/-! ### What a site is told by those before it -/

/-- The site declares this name in this scope. -/
def Site.Declares (scope : Scope) (name : String) (site : Site) : Prop :=
  site.scopes.head? = some scope ∧ site.item.declaration?.map Token.lexeme = some name

instance (scope : Scope) (name : String) : DecidablePred (Site.Declares scope name) :=
  fun _ => inferInstanceAs (Decidable (_ ∧ _))

section Before

variable (before : List Site)

def Declared (scope : Scope) (name : String) : Prop :=
  ∃ site ∈ before, site.Declares scope name

instance (scope : Scope) (name : String) : Decidable (Declared before scope name) :=
  inferInstanceAs (Decidable (∃ site ∈ before, _))

/-- The innermost of the scopes declares the name already. -/
def Redeclares (scopes : List Scope) (name : String) : Prop :=
  ∃ scope ∈ scopes.head?, Declared before scope name

instance (scopes : List Scope) (name : String) : Decidable (Redeclares before scopes name) :=
  inferInstanceAs (Decidable (∃ scope ∈ scopes.head?, _))

/-- The site with this number declares the name in a scope where it is new. -/
def Initializes (index : Nat) (name : String) : Prop :=
  ∃ site ∈ before[index]?, site.item.declaration?.map Token.lexeme = some name ∧
    site.scopes ≠ [] ∧ ¬ Redeclares (before.take index) site.scopes name

instance (index : Nat) (name : String) : Decidable (Initializes before index name) :=
  inferInstanceAs (Decidable (∃ site ∈ before[index]?, _))

/-- What is wrong at a site. -/
def Site.fault? (site : Site) : Option Diagnostic :=
  match site.item with
  | .declaration name =>
      if Redeclares before site.scopes name.lexeme then
        some (.binding name.line name.location .declaredTwice)
      else none
  | .read _ name (some index) =>
      if Initializes before index name.lexeme then
        some (.binding name.line name.location .readInOwnInitializer)
      else none
  | .leave keyword =>
      if ∃ scope ∈ site.scopes, scope.ofFunction = true then none
      else some (.binding keyword.line keyword.location .returnOutsideFunction)
  | _ => none

/-- The identity of an occurrence, and how many scopes there are between it and the innermost
one that declares its name. -/
def Site.listed? (site : Site) : Option (NodeId × Nat) :=
  site.item.occurrence?.bind fun occurrence =>
    (site.scopes.findIdx? fun scope => Declared before scope occurrence.2.lexeme).map
      (Prod.mk occurrence.1)

end Before

/-- What the sites of a list give, each told by those before it. -/
def gather {α : Type} (tell : List Site → Site → Option α) (before : List Site) :
    List Site → List α
  | [] => []
  | site :: rest => (tell before site).toList ++ gather tell (before ++ [site]) rest

section Gather

variable {α : Type} {tell : List Site → Site → Option α} {before list : List Site}

theorem gather_append (first rest : List Site) :
    gather tell before (first ++ rest) =
      gather tell before first ++ gather tell (before ++ first) rest := by
  induction first generalizing before with
  | nil => rw [List.append_nil]; rfl
  | cons site more ih =>
      rw [List.cons_append, gather, ih, gather, List.append_assoc, List.append_assoc,
        List.singleton_append]

theorem mem_gather_iff {value : α} :
    value ∈ gather tell before list ↔
      ∃ i site, list[i]? = some site ∧ tell (before ++ list.take i) site = some value := by
  induction list generalizing before with
  | nil => exact ⟨nofun, fun ⟨i, site, hsite, _⟩ => nomatch hsite⟩
  | cons first rest ih =>
      rw [gather, List.mem_append, Option.mem_toList, ih]
      constructor
      · rintro (hfirst | ⟨i, site, hsite, htell⟩)
        · exact ⟨0, first, rfl, by rw [List.take_zero, List.append_nil, hfirst]⟩
        · refine ⟨i + 1, site, hsite, ?_⟩
          rw [List.append_assoc] at htell
          exact htell
      · rintro ⟨i, site, hsite, htell⟩
        cases i with
        | zero =>
            cases hsite
            rw [List.take_zero, List.append_nil] at htell
            exact Or.inl htell
        | succ i =>
            refine Or.inr ⟨i, site, hsite, ?_⟩
            rw [List.append_assoc]
            exact htell

theorem gather_eq_nil_iff :
    gather tell before list = [] ↔
      ∀ i site, list[i]? = some site → tell (before ++ list.take i) site = none := by
  rw [List.eq_nil_iff_forall_not_mem]
  simp only [mem_gather_iff, not_exists, not_and, Option.eq_none_iff_forall_ne_some]
  exact ⟨fun h i site hsite value => h value i site hsite,
    fun h value i site hsite => h i site hsite value⟩

end Gather

/-! ### The walk and the sites -/

/-- The walk knows of each open scope which names it has declared so far. -/
structure Tracks (before : List Site) (chain : List Scope) (scopes : Scopes) : Prop where
  names : List.Forall₂ (fun scope names => ∀ name, name ∈ names ↔ Declared before scope name)
    chain scopes
  nested : chain.Pairwise fun inner outer => outer.start < inner.start
  opened : ∀ scope ∈ chain, scope.start < before.length
  older : ∀ site ∈ before, ∀ scope ∈ site.scopes.head?, scope.start < before.length

/-- Sites in the innermost scope that declare nothing. -/
def Plain (chain : List Scope) (more : List Site) : Prop :=
  ∀ site ∈ more, site.scopes = chain ∧ site.item.declaration? = none

section Tracks

variable {before more : List Site} {chain : List Scope} {scopes : Scopes} {scope : Scope}
  {name : String}

theorem declared_append :
    Declared (before ++ more) scope name ↔
      Declared before scope name ∨ Declared more scope name := by
  unfold Declared
  simp only [List.mem_append, or_and_right, exists_or]

theorem Plain.not_declared (h : Plain chain more) : ¬ Declared more scope name := by
  rintro ⟨site, hsite, -, hname⟩
  rw [(h site hsite).2] at hname
  cases hname

theorem Plain.nil : Plain chain [] :=
  fun _ hsite => absurd hsite List.not_mem_nil

theorem Plain.one {item : Item} (h : item.declaration? = none) : Plain chain [⟨chain, item⟩] :=
  List.forall_mem_singleton.mpr ⟨rfl, h⟩

theorem Tracks.empty : Tracks [] [] [] :=
  ⟨.nil, .nil, nofun, nofun⟩

/-- More sites in the innermost scope, told how they change what is declared. -/
theorem Tracks.extend {scopes' : Scopes} (h : Tracks before chain scopes)
    (hmore : ∀ site ∈ more, site.scopes = chain)
    (hnames : List.Forall₂
      (fun scope names => ∀ name, name ∈ names ↔ Declared (before ++ more) scope name)
      chain scopes') : Tracks (before ++ more) chain scopes' where
  names := hnames
  nested := h.nested
  opened scope hscope := by
    rw [List.length_append]
    exact Nat.lt_add_right _ (h.opened scope hscope)
  older site hsite scope hscope := by
    rw [List.length_append]
    apply Nat.lt_add_right
    rcases List.mem_append.mp hsite with hsite | hsite
    · exact h.older site hsite scope hscope
    · rw [hmore site hsite] at hscope
      exact h.opened scope (List.mem_of_head? hscope)

theorem Tracks.plain (h : Tracks before chain scopes) (hmore : Plain chain more) :
    Tracks (before ++ more) chain scopes := by
  refine h.extend (fun site hsite => (hmore site hsite).1)
    (h.names.imp fun scope names hnames => ?_)
  intro name
  rw [hnames, declared_append, or_iff_left hmore.not_declared]

theorem declared_one {token : Token} {outer : List Scope} {other : Scope} :
    Declared [⟨other :: outer, .declaration token⟩] scope name ↔
      other = scope ∧ token.lexeme = name := by
  simp [Declared, Site.Declares, Item.declaration?]

/-- A name is declared in the innermost scope and in no other. -/
theorem Tracks.declare (h : Tracks before chain scopes) (token : Token) :
    Tracks (before ++ [⟨chain, .declaration token⟩]) chain
      (Binding.declare scopes token.lexeme) := by
  apply h.extend fun site hsite => by rw [List.mem_singleton.mp hsite]
  have hnested := h.nested
  have hnames := h.names
  cases hnames with
  | nil => exact .nil
  | @cons inner names outer rest hinner houter =>
      refine .cons (fun key => ?_) ?_
      · rw [declared_append, declared_one, ← hinner]
        by_cases hold : token.lexeme ∈ names
        · simp only [List.contains_eq_mem, hold, decide_true, if_true, true_and]
          exact ⟨Or.inl, fun h => h.elim id fun heq => heq ▸ hold⟩
        · simp only [List.contains_eq_mem, hold, decide_false, Bool.false_eq_true, if_false,
            List.mem_cons, true_and]
          exact ⟨fun h => h.symm.imp id Eq.symm, fun h => h.symm.imp Eq.symm id⟩
      · have hother : ∀ scope ∈ outer, inner ≠ scope := by
          rintro scope hscope rfl
          exact absurd ((List.pairwise_cons.mp hnested).1 inner hscope) (Nat.lt_irrefl _)
        refine ((List.forall₂_and_left _ _).mpr ⟨hother, houter⟩).imp
          fun scope names hboth key => ?_
        rw [declared_append, declared_one, ← hboth.2, or_iff_left fun hboth' => hboth.1 hboth'.1]

/-- A scope opens with no names. -/
theorem Tracks.opening (h : Tracks before chain scopes) (ofFunction : Bool) :
    Tracks (before ++ [⟨chain, .opening⟩]) (⟨before.length, ofFunction⟩ :: chain)
      ([] :: scopes) := by
  have hplain : Plain chain [⟨chain, .opening⟩] := .one rfl
  have hopened := h.plain hplain
  refine ⟨.cons (fun name => ?_) hopened.names, ?_, ?_, hopened.older⟩
  · rw [declared_append, or_iff_left hplain.not_declared]
    refine ⟨nofun, ?_⟩
    rintro ⟨site, hsite, hscope, -⟩
    exact absurd (h.older site hsite _ hscope) (Nat.lt_irrefl _)
  · exact List.pairwise_cons.mpr ⟨h.opened, h.nested⟩
  · rw [List.length_append]
    exact List.forall_mem_cons.mpr ⟨Nat.lt_succ_self _, fun scope hscope =>
      Nat.lt_succ_of_lt (h.opened scope hscope)⟩

/-- The innermost scope closes. -/
theorem Tracks.closed {names : List String} (h : Tracks before (scope :: chain) (names :: scopes)) :
    Tracks before chain scopes :=
  ⟨(List.forall₂_cons.mp h.names).2, (List.pairwise_cons.mp h.nested).2,
    (List.forall_mem_cons.mp h.opened).2, h.older⟩

theorem Tracks.distance?_eq (h : Tracks before chain scopes) (name : String) :
    distance? scopes name = chain.findIdx? fun scope => Declared before scope name := by
  have hnames := h.names
  clear h
  unfold distance?
  induction hnames with
  | nil => rfl
  | @cons scope names _ _ hfirst _ ih =>
      have hcontains : names.contains name = decide (Declared before scope name) := by
        rw [List.contains_eq_mem, decide_eq_decide, hfirst]
      rw [List.findIdx?_cons, List.findIdx?_cons, hcontains, ih]

theorem Tracks.declaredHere_iff (h : Tracks before chain scopes) (name : String) :
    declaredHere scopes name = true ↔ Redeclares before chain name := by
  have hnames := h.names
  cases hnames with
  | nil => exact ⟨nofun, nofun⟩
  | cons hfirst _ =>
      unfold declaredHere Redeclares
      simp [hfirst]

theorem Tracks.isEmpty_eq (h : Tracks before chain scopes) : scopes.isEmpty = chain.isEmpty := by
  have hnames := h.names
  cases hnames with
  | nil => rfl
  | cons _ _ => rfl

end Tracks

end Scriptlet.Binding
