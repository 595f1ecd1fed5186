/-
The words in the printed text of a tree that was read from a source.

Every token in such a tree has a lexeme that spells its kind, and a kind that fits its place.  So
its lexeme, and the text of a constant, is a word and would be scanned as that very token.
-/
import Scriptlet.Proofs.Decimal.ReadsBack
import Scriptlet.Proofs.Decimal.Unsigned
import Scriptlet.Proofs.Printing.Trees
import Scriptlet.Proofs.Source.Respaced

namespace Scriptlet

open Source Printing Grammar

namespace Kind

/-- Whether the lexeme is neither a string nor a number too large for a double. -/
def isLegible : Kind → Bool
  | string _ => false
  | number value => value.isFinite
  | _ => true

def isParen (kind : Kind) : Bool :=
  kind.isMark .leftParen || kind.isMark .rightParen

def unaryKinds : List Kind :=
  [.mark .bang, .mark .minus]

def logicalKinds : List Kind :=
  [.keyword .or_, .keyword .and_]

end Kind

/-- The text is a word, and it is scanned as a lexeme of the kind. -/
def Printing.Written (kind : Kind) (text : String) : Prop :=
  Sexp.IsWord text ∧ Spells kind text.toList

/-- The token is written as a word, and has a kind among these. -/
def Token.OneOf (kinds : List Kind) (token : Token) : Prop :=
  token.kind ∈ kinds ∧ Written token.kind token.lexeme

/-- The text of the constant is scanned as a literal that stands for it. -/
def Constant.ReadsBack (constant : Constant) : Prop :=
  ∃ kind, Reader.constant? kind = some constant ∧ Written kind constant.text

/-! ### Words -/

namespace Printing

section Words

variable {kind : Kind} {text : String} {token : Token}

theorem inWord_of_isWordPart {c : Char} (h : isWordPart c = true) : Sexp.inWord c = true := by
  have hne : c ≠ ' ' ∧ c ≠ '(' ∧ c ≠ ')' := by
    refine ⟨?_, ?_, ?_⟩
    all_goals
      rintro rfl
      cases h
  simp [Sexp.inWord, hne]

theorem inWord_of_isDigit {c : Char} (h : c.isDigit = true) : Sexp.inWord c = true :=
  inWord_of_isWordPart (by simp [isWordPart, Char.isAlphanum, h])

theorem isWord_of_chars {chars : List Char} (htext : text.toList = chars) (hsome : chars ≠ [])
    (hchars : ∀ d ∈ chars, Sexp.inWord d = true) : Sexp.IsWord text := by
  refine ⟨?_, ?_⟩
  · rintro rfl
    exact hsome htext.symm
  · rw [htext]
    exact List.all_eq_true.mpr hchars

/-- Any lexeme is a word but a parenthesis or a string. -/
theorem isWord_of_spells (h : Spells kind text.toList) (hparen : kind.isParen = false)
    (hstring : ∀ text, kind ≠ .string text) : Sexp.IsWord text := by
  have hmarks : ∀ mark : Mark, (Kind.mark mark).isParen = false → Sexp.IsWord mark.spelling := by
    intro mark
    cases mark <;> decide
  have hkeywords : ∀ keyword : Keyword, Sexp.IsWord keyword.spelling := by
    intro keyword
    cases keyword <;> decide
  generalize hchars : text.toList = chars at h
  cases h with
  | mark mark =>
      rw [String.toList_inj.mp hchars]
      exact hmarks mark hparen
  | keyword keyword =>
      rw [String.toList_inj.mp hchars]
      exact hkeywords keyword
  | identifier hstart hmore _ =>
      exact isWord_of_chars hchars (List.cons_ne_nil _ _) (List.forall_mem_cons.mpr
        ⟨inWord_of_isWordPart (isWordPart_of_start hstart),
          fun d hd => inWord_of_isWordPart (hmore d hd)⟩)
  | string _ => exact absurd rfl (hstring _)
  | whole hsome hdigits =>
      exact isWord_of_chars hchars hsome fun d hd => inWord_of_isDigit (hdigits d hd)
  | fraction hsome hdigits _ hfraction =>
      refine isWord_of_chars hchars (List.append_ne_nil_of_left_ne_nil hsome _)
        (List.forall_mem_append.mpr ⟨?_, ?_⟩)
      · exact fun d hd => inWord_of_isDigit (hdigits d hd)
      · exact List.forall_mem_cons.mpr ⟨rfl, fun d hd => inWord_of_isDigit (hfraction d hd)⟩

theorem eq_of_spells_mark {mark : Mark} (h : Spells (.mark mark) text.toList) :
    text = mark.spelling := by
  generalize hchars : text.toList = chars at h
  cases h with
  | mark _ => exact String.toList_inj.mp hchars

theorem eq_of_spells_keyword {keyword : Keyword} (h : Spells (.keyword keyword) text.toList) :
    text = keyword.spelling := by
  generalize hchars : text.toList = chars at h
  cases h with
  | keyword _ => exact String.toList_inj.mp hchars

theorem written_of_spells (h : Spells kind text.toList) (hparen : kind.isParen = false)
    (hstring : ∀ text, kind ≠ .string text) : Written kind text :=
  ⟨isWord_of_spells h hparen hstring, h⟩

theorem written_keyword (keyword : Keyword) : Written (.keyword keyword) keyword.spelling :=
  written_of_spells (.keyword keyword) rfl nofun

/-- No number in a source is negative, so its text is again one lexeme. -/
theorem written_number {value : Float} {chars : List Char} (h : Spells (.number value) chars)
    (hfinite : value.isFinite = true) : Written (.number value) (literalFormat.write value) := by
  have hpositional : literalFormat.Positional := ⟨Or.inr rfl, fun _ => rfl, rfl⟩
  have hunsigned : Decimal.Unsigned value.toModel.unpack := by
    cases h with
    | whole _ _ =>
        rw [Decimal.decimalValue_eq]
        exact Decimal.unsigned_decimal _ _
    | fraction _ _ _ _ =>
        rw [Decimal.decimalValue_eq]
        exact Decimal.unsigned_decimal _ _
  obtain ⟨parts, hreading⟩ := Decimal.exists_reading hfinite
  exact written_of_spells
    (Decimal.spells_write hpositional hreading (hunsigned.nonnegative hreading)) rfl nofun

end Words

/-! ### Trees -/

mutual

/-- Every word in the text of the tree is scanned as the token that stands there. -/
def SourcedExpr : Expr → Prop
  | .constant value => value.ReadsBack
  | .group inner => SourcedExpr inner
  | .unary operator operand => operator.OneOf Kind.unaryKinds ∧ SourcedExpr operand
  | .binary left operator right =>
      operator.OneOf binaryKinds ∧ SourcedExpr left ∧ SourcedExpr right
  | .logical left operator right =>
      operator.OneOf Kind.logicalKinds ∧ SourcedExpr left ∧ SourcedExpr right
  | .variable _ name => name.OneOf [.identifier]
  | .assign _ name value => name.OneOf [.identifier] ∧ SourcedExpr value
  | .call callee paren arguments =>
      (paren.kind = .mark .rightParen ∧ paren.lexeme = ")") ∧ SourcedExpr callee ∧
        SourcedExprs arguments

def SourcedExprs : List Expr → Prop
  | [] => True
  | first :: rest => SourcedExpr first ∧ SourcedExprs rest

end

mutual

def SourcedStmt : Stmt → Prop
  | .expression value => SourcedExpr value
  | .print value => SourcedExpr value
  | .declare name none => name.OneOf [.identifier]
  | .declare name (some initial) => name.OneOf [.identifier] ∧ SourcedExpr initial
  | .block body => SourcedStmts body
  | .branch condition whenTrue none => SourcedExpr condition ∧ SourcedStmt whenTrue
  | .branch condition whenTrue (some whenFalse) =>
      SourcedExpr condition ∧ SourcedStmt whenTrue ∧ SourcedStmt whenFalse
  | .loop condition body => SourcedExpr condition ∧ SourcedStmt body
  | .function name params body =>
      name.OneOf [.identifier] ∧ (∀ param ∈ params, param.OneOf [.identifier]) ∧ SourcedStmts body
  | .leave keyword none => keyword.OneOf [.keyword .return_]
  | .leave keyword (some value) => keyword.OneOf [.keyword .return_] ∧ SourcedExpr value

def SourcedStmts : List Stmt → Prop
  | [] => True
  | first :: rest => SourcedStmt first ∧ SourcedStmts rest

end

/-- What holds of the tree of a phrase. -/
def Sourced : (symbol : Symbol) → symbol.Tree → Prop
  | .program, body => SourcedStmts body
  | .lone, value => SourcedExpr value
  | .declarations, body => SourcedStmts body
  | .declaration, tree => SourcedStmt tree
  | .statement _, tree => SourcedStmt tree
  | .block, body => SourcedStmts body
  | .variableDeclaration, tree => SourcedStmt tree
  | .expressionStatement, tree => SourcedStmt tree
  | .initializer, initial => SourcedStmts initial.toList
  | .parameters, names => ∀ name ∈ names, name.OneOf [.identifier]
  | .parameterList, names => ∀ name ∈ names, name.OneOf [.identifier]
  | .optionalExpression, value => SourcedExprs value.toList
  | .expr _, value => SourcedExpr value
  | .arguments, values => SourcedExprs values
  | .argumentList, values => SourcedExprs values

/-- A token that a source can have, but for strings and numbers out of range. -/
def Scanned (token : Token) : Prop :=
  token.kind.isLegible = true ∧ Spells token.kind token.lexeme.toList

section Sourced

variable {strict : Bool} {symbol : Symbol} {n m : Nat} {tokens : List Token} {token : Token}

theorem Scanned.ne_string (h : Scanned token) (text : String) : token.kind ≠ .string text := by
  intro htext
  have hlegible := h.1
  rw [htext] at hlegible
  cases hlegible

theorem Scanned.number {value : Float} (h : Scanned token) (hkind : token.kind = .number value) :
    (Constant.number value).ReadsBack := by
  obtain ⟨hlegible, hspells⟩ := h
  rw [hkind] at hlegible hspells
  exact ⟨.number value, rfl, written_number hspells hlegible⟩

theorem Scanned.lexeme_of_mark {mark : Mark} (h : Scanned token) (hkind : token.IsMark mark) :
    token.lexeme = mark.spelling := by
  have hspells := h.2
  rw [hkind] at hspells
  exact eq_of_spells_mark hspells

theorem Scanned.oneOf {kinds : List Kind} (h : Scanned token) (hkind : token.kind ∈ kinds)
    (hparens : ∀ kind ∈ kinds, kind.isParen = false) : token.OneOf kinds :=
  ⟨hkind, written_of_spells h.2 (hparens _ hkind) h.ne_string⟩

theorem Scanned.name (h : Scanned token) (hkind : token.kind = .identifier) :
    token.OneOf [.identifier] :=
  h.oneOf (List.mem_singleton.mpr hkind) (by decide)

theorem sourced_node {level : Level} {sign : Token} {left right : Expr} (hscanned : Scanned sign)
    (hsign : sign.kind ∈ level.operators) (hleft : SourcedExpr left)
    (hright : SourcedExpr right) : SourcedExpr (level.node left sign right) := by
  have hparens : ∀ kind ∈ binaryKinds, kind.isParen = false := by decide
  have hbinary : level ∈ [Level.equality, .comparison, .term, .factor] →
      sign.OneOf binaryKinds :=
    fun hlevel => hscanned.oneOf (List.mem_flatMap.mpr ⟨level, hlevel, hsign⟩) hparens
  have hlogical : sign.kind ∈ Kind.logicalKinds → sign.OneOf Kind.logicalKinds :=
    fun hkind => hscanned.oneOf hkind (by decide)
  cases level with
  | disjunction => exact ⟨hlogical (List.mem_of_mem_take (i := 1) hsign), hleft, hright⟩
  | conjunction => exact ⟨hlogical (List.mem_of_mem_drop (i := 1) hsign), hleft, hright⟩
  | equality => exact ⟨hbinary (by decide), hleft, hright⟩
  | comparison => exact ⟨hbinary (by decide), hleft, hright⟩
  | term => exact ⟨hbinary (by decide), hleft, hright⟩
  | factor => exact ⟨hbinary (by decide), hleft, hright⟩
  | expression | assignment | unary | call | primary => cases hsign

theorem sourcedStmts_append {first second : List Stmt} (hfirst : SourcedStmts first)
    (hsecond : SourcedStmts second) : SourcedStmts (first ++ second) := by
  induction first with
  | nil => exact hsecond
  | cons stmt rest ih => exact ⟨hfirst.1, ih hfirst.2⟩

theorem sourced_condition {condition : Option Expr} (h : SourcedExprs condition.toList) :
    SourcedExpr (condition.getD (.constant (.bool true))) := by
  cases condition with
  | none => exact ⟨.keyword .true_, rfl, written_keyword .true_⟩
  | some value => exact h.1

theorem sourced_loopRound {body : Stmt} {step : Option Expr} (hbody : SourcedStmt body)
    (hstep : SourcedExprs step.toList) : SourcedStmt (loopRound body step) := by
  cases step with
  | none => exact hbody
  | some increment => exact ⟨hbody, hstep.1, trivial⟩

theorem derives_sourced {tree : symbol.Tree} (h : Derives strict symbol n tokens tree m)
    (htokens : ∀ token ∈ tokens, Scanned token) : Sourced symbol tree := by
  induction h with
  | program _ _ ih => exact ih (List.forall_mem_append.mp htokens).1
  | lone _ _ ih => exact ih (List.forall_mem_append.mp htokens).1
  | nothing => exact trivial
  | declarations _ _ ihHead ihTail =>
      obtain ⟨hhead, htail⟩ := List.forall_mem_append.mp htokens
      exact ⟨ihHead hhead, ihTail htail⟩
  | function _ identifier _ _ _ _ _ ihParameters ihBlock =>
      simp only [List.forall_mem_cons, List.forall_mem_append] at htokens
      obtain ⟨-, hname, -, hparams, -, hbody⟩ := htokens
      exact ⟨hname.name identifier, ihParameters hparams, ihBlock hbody⟩
  | var_ _ ih => exact ih htokens
  | statement _ ih => exact ih htokens
  | block _ _ _ ih =>
      simp only [List.forall_mem_cons, List.forall_mem_append] at htokens
      exact ih htokens.2.1
  | uninitialized _ identifier _ =>
      simp only [List.forall_mem_cons] at htokens
      exact htokens.2.1.name identifier
  | initialized _ identifier _ _ _ ih =>
      simp only [List.forall_mem_cons, List.forall_mem_append] at htokens
      obtain ⟨-, hname, -, hinitial, -⟩ := htokens
      exact ⟨hname.name identifier, ih hinitial⟩
  | expression _ ih => exact ih htokens
  | for_ _ _ _ _ _ _ _ _ ihInitial ihTest ihStep ihInner =>
      simp only [List.forall_mem_cons, List.forall_mem_append] at htokens
      obtain ⟨-, -, hinitial, htest, -, hstep, -, hinner⟩ := htokens
      exact sourcedStmts_append (ihInitial hinitial)
        ⟨⟨sourced_condition (ihTest htest), sourced_loopRound (ihInner hinner) (ihStep hstep)⟩,
          trivial⟩
  | if_ _ _ _ _ _ ihTest ihInner =>
      simp only [List.forall_mem_cons, List.forall_mem_append] at htokens
      obtain ⟨-, -, htest, -, hinner⟩ := htokens
      exact ⟨ihTest htest, ihInner hinner⟩
  | ifElse _ _ _ _ _ _ _ _ ihTest ihInner ihOther =>
      simp only [List.forall_mem_cons, List.forall_mem_append] at htokens
      obtain ⟨-, -, htest, -, hinner, -, hother⟩ := htokens
      exact ⟨ihTest htest, ihInner hinner, ihOther hother⟩
  | print _ _ _ ih =>
      simp only [List.forall_mem_cons, List.forall_mem_append] at htokens
      exact ih htokens.2.1
  | @return_ _ _ _ _ _ value lead _ _ ih =>
      simp only [List.forall_mem_cons, List.forall_mem_append] at htokens
      obtain ⟨hkeyword, hvalue, -⟩ := htokens
      have hreturn := hkeyword.oneOf (List.mem_singleton.mpr lead) (by decide)
      cases value with
      | none => exact hreturn
      | some value => exact ⟨hreturn, (ih hvalue).1⟩
  | while_ _ _ _ _ _ ihTest ihInner =>
      simp only [List.forall_mem_cons, List.forall_mem_append] at htokens
      obtain ⟨-, -, htest, -, hinner⟩ := htokens
      exact ⟨ihTest htest, ihInner hinner⟩
  | blockStatement _ ih => exact ih htokens
  | expressionStatement _ _ ih => exact ih (List.forall_mem_append.mp htokens).1
  | noInitializer _ => exact trivial
  | initialVariable _ ih => exact ⟨ih htokens, trivial⟩
  | initialExpression _ ih => exact ⟨ih htokens, trivial⟩
  | parameter identifier =>
      obtain ⟨hname, -⟩ := List.forall_mem_cons.mp htokens
      exact List.forall_mem_cons.mpr ⟨hname.name identifier, List.forall_mem_nil _⟩
  | parameters identifier _ _ ih =>
      simp only [List.forall_mem_cons] at htokens
      obtain ⟨hname, -, htail⟩ := htokens
      exact List.forall_mem_cons.mpr ⟨hname.name identifier, ih htail⟩
  | noParameters => exact List.forall_mem_nil _
  | someParameters _ ih => exact ih htokens
  | noExpression => exact trivial
  | someExpression _ ih => exact ⟨ih htokens, trivial⟩
  | tighter _ _ ih => exact ih htokens
  | assign identifier _ _ ih =>
      simp only [List.forall_mem_cons] at htokens
      obtain ⟨hname, -, hvalue⟩ := htokens
      exact ⟨hname.name identifier, ih hvalue⟩
  | operator _ _ hsign _ ihLeft ihRight =>
      simp only [List.forall_mem_cons, List.forall_mem_append] at htokens
      obtain ⟨hleft, hoperator, hright⟩ := htokens
      exact sourced_node hoperator hsign (ihLeft hleft) (ihRight hright)
  | unary hsign _ ih =>
      obtain ⟨hoperator, hoperand⟩ := List.forall_mem_cons.mp htokens
      have hkind := List.mem_cons.mpr (hsign.imp_right List.mem_singleton.mpr)
      exact ⟨hoperator.oneOf hkind (by decide), ih hoperand⟩
  | call _ _ _ close _ ihCallee ihArguments =>
      simp only [List.forall_mem_cons, List.forall_mem_append] at htokens
      obtain ⟨hcallee, -, harguments, hparen, -⟩ := htokens
      exact ⟨⟨close, hparen.lexeme_of_mark close⟩, ihCallee hcallee, ihArguments harguments⟩
  | number literal =>
      obtain ⟨htoken, -⟩ := List.forall_mem_cons.mp htokens
      exact htoken.number literal
  | string literal =>
      obtain ⟨htoken, -⟩ := List.forall_mem_cons.mp htokens
      exact absurd literal (htoken.ne_string _)
  | true_ _ => exact ⟨.keyword .true_, rfl, written_keyword .true_⟩
  | false_ _ => exact ⟨.keyword .false_, rfl, written_keyword .false_⟩
  | nil_ _ => exact ⟨.keyword .nil_, rfl, written_keyword .nil_⟩
  | name identifier =>
      obtain ⟨hname, -⟩ := List.forall_mem_cons.mp htokens
      exact hname.name identifier
  | group _ _ _ ih =>
      simp only [List.forall_mem_cons, List.forall_mem_append] at htokens
      exact ih htokens.2.1
  | argument _ ih => exact ⟨ih htokens, trivial⟩
  | arguments _ _ _ ihValue ihTail =>
      simp only [List.forall_mem_cons, List.forall_mem_append] at htokens
      obtain ⟨hvalue, -, htail⟩ := htokens
      exact ⟨ihValue hvalue, ihTail htail⟩
  | noArguments => exact trivial
  | someArguments _ ih => exact ih htokens

end Sourced

end Printing

end Scriptlet
