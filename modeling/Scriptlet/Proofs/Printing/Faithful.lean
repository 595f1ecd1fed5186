/-
Printed trees can be told apart.

A tree can be read back from the words and lists of its text: the token that a word is scanned as
and the number of items behind it tell which node it stands for.  Identities and lines are lost,
and nothing else.
-/
import Scriptlet.Proofs.Printing.Sourced

namespace Scriptlet

open Source Printing Grammar

/-! ### Trees without identities and lines -/

def Token.bare (token : Token) : Token :=
  { token with line := 0 }

mutual

/-- The tree with zero for every identity and every line. -/
def Expr.bare : Expr → Expr
  | .constant value => .constant value
  | .group inner => .group inner.bare
  | .unary operator operand => .unary operator.bare operand.bare
  | .binary left operator right => .binary left.bare operator.bare right.bare
  | .logical left operator right => .logical left.bare operator.bare right.bare
  | .variable _ name => .variable 0 name.bare
  | .assign _ name value => .assign 0 name.bare value.bare
  | .call callee paren arguments => .call callee.bare paren.bare (Expr.bareAll arguments)

def Expr.bareAll : List Expr → List Expr
  | [] => []
  | first :: rest => first.bare :: Expr.bareAll rest

end

mutual

def Stmt.bare : Stmt → Stmt
  | .expression value => .expression value.bare
  | .print value => .print value.bare
  | .declare name none => .declare name.bare none
  | .declare name (some initial) => .declare name.bare (some initial.bare)
  | .block body => .block (Stmt.bareAll body)
  | .branch condition whenTrue none => .branch condition.bare whenTrue.bare none
  | .branch condition whenTrue (some whenFalse) =>
      .branch condition.bare whenTrue.bare (some whenFalse.bare)
  | .loop condition body => .loop condition.bare body.bare
  | .function name params body =>
      .function name.bare (params.map Token.bare) (Stmt.bareAll body)
  | .leave keyword none => .leave keyword.bare none
  | .leave keyword (some value) => .leave keyword.bare (some value.bare)

def Stmt.bareAll : List Stmt → List Stmt
  | [] => []
  | first :: rest => first.bare :: Stmt.bareAll rest

end

namespace Printing

/-! ### Reading back -/

/-- The token that a word is scanned as. -/
def readToken (text : String) : Token :=
  ((scan text).tokens.headD (endToken 0)).bare

/-- A word that is not the first of a list is a constant or a name. -/
def readWord (text : String) : Expr :=
  match Reader.constant? (readToken text).kind with
  | some constant => .constant constant
  | none => .variable 0 (readToken text)

/-- A node, by the first word of its list and what stands behind that. -/
def readNode (head : Token) (operands : List Expr) : Expr :=
  match head.kind, operands with
  | .mark .equal, [.variable _ name, value] => .assign 0 name value
  | .mark _, [operand] => .unary head operand
  | .mark _, [left, right] => .binary left head right
  | .keyword _, [left, right] => .logical left head right
  | .identifier, callee :: arguments =>
      if head.lexeme = "group" then .group callee
      else .call callee ⟨.mark .rightParen, ")", 0⟩ arguments
  | _, _ => default

mutual

def readExpr : Sexp → Expr
  | .word text => readWord text
  | .list (.word head :: operands) => readNode (readToken head) (readExprs operands)
  | .list _ => default

def readExprs : List Sexp → List Expr
  | [] => []
  | first :: rest => readExpr first :: readExprs rest

end

def readName : Sexp → Token
  | .word text => readToken text
  | .list _ => endToken 0

/-- A statement, by the first word of its list, the items behind that, and what statements these
are if they are. -/
def readForm (head : Token) (items : List Sexp) (stmts : List Stmt) : Stmt :=
  match head.kind, items, stmts with
  | .mark _, [value], _ => .expression (readExpr value)
  | .keyword .print_, [value], _ => .print (readExpr value)
  | .keyword .var_, [name], _ => .declare (readName name) none
  | .keyword .var_, [name, initial], _ => .declare (readName name) (some (readExpr initial))
  | .identifier, _, body => .block body
  | .keyword .if_, [condition, _], [_, whenTrue] => .branch (readExpr condition) whenTrue none
  | .keyword .if_, [condition, _, _], [_, whenTrue, whenFalse] =>
      .branch (readExpr condition) whenTrue (some whenFalse)
  | .keyword .while_, [condition, _], [_, body] => .loop (readExpr condition) body
  | .keyword .fun_, name :: .list params :: _, _ :: _ :: body =>
      .function (readName name) (params.map readName) body
  | .keyword .return_, [], _ => .leave head none
  | .keyword .return_, [value], _ => .leave head (some (readExpr value))
  | _, _, _ => default

mutual

def readStmt : Sexp → Stmt
  | .list (.word head :: items) => readForm (readToken head) items (readStmts items)
  | _ => default

def readStmts : List Sexp → List Stmt
  | [] => []
  | first :: rest => readStmt first :: readStmts rest

end

section Words

variable {kind : Kind} {text : String} {token : Token} {kinds : List Kind}

theorem readToken_of_written (h : Written kind text) : readToken text = ⟨kind, text, 0⟩ := by
  unfold readToken
  rw [scan_lexeme h.2]
  rfl

theorem readToken_of_oneOf (h : token.OneOf kinds) : readToken token.lexeme = token.bare :=
  readToken_of_written h.2

theorem readWord_name (h : token.OneOf [.identifier]) :
    readWord token.lexeme = .variable 0 token.bare := by
  have hkind : token.bare.kind = .identifier := List.mem_singleton.mp h.1
  unfold readWord
  rw [readToken_of_oneOf h, hkind]
  rfl

theorem readWord_constant {constant : Constant} (h : constant.ReadsBack) :
    readWord constant.text = .constant constant := by
  obtain ⟨kind, hconstant, hwritten⟩ := h
  unfold readWord
  rw [readToken_of_written hwritten]
  dsimp only
  rw [hconstant]

theorem written_mark {mark : Mark} (hparen : (Kind.mark mark).isParen = false) :
    Written (.mark mark) mark.spelling :=
  written_of_spells (.mark mark) hparen nofun

theorem written_identifier {c : Char} {more : List Char} (htext : text.toList = c :: more)
    (hstart : isWordStart c = true) (hmore : more.all isWordPart = true)
    (hfree : ∀ keyword : Keyword, keyword.spelling.toList ≠ c :: more) :
    Written .identifier text :=
  written_of_spells (htext ▸ .identifier hstart (List.all_eq_true.mp hmore) hfree) rfl nofun

/-- The words at the head of lists that are not reserved are names like others. -/
theorem written_group : Written .identifier "group" := by
  have htext : "group".toList = ['g', 'r', 'o', 'u', 'p'] := rfl
  exact written_identifier htext rfl rfl fun keyword => by cases keyword <;> decide

theorem written_call : Written .identifier "call" := by
  have htext : "call".toList = ['c', 'a', 'l', 'l'] := rfl
  exact written_identifier htext rfl rfl fun keyword => by cases keyword <;> decide

theorem written_block : Written .identifier "block" := by
  have htext : "block".toList = ['b', 'l', 'o', 'c', 'k'] := rfl
  exact written_identifier htext rfl rfl fun keyword => by cases keyword <;> decide

end Words

section Nodes

variable {head : Token} {left right operand : Expr}

theorem readNode_unary (h : head.kind ∈ Kind.unaryKinds) :
    readNode head [operand] = .unary head operand := by
  have hmark : ∀ kind ∈ Kind.unaryKinds, ∃ mark, kind = .mark mark := by simp [Kind.unaryKinds]
  obtain ⟨mark, hkind⟩ := hmark _ h
  simp [readNode, hkind]

theorem readNode_binary (h : head.kind ∈ binaryKinds) :
    readNode head [left, right] = .binary left head right := by
  have hmark : ∀ kind ∈ binaryKinds, ∃ mark, kind = .mark mark ∧ mark ≠ .equal := by
    simp [binaryKinds, Level.operators]
  obtain ⟨mark, hkind, hequal⟩ := hmark _ h
  unfold readNode
  rw [hkind]
  cases mark
  all_goals first | rfl | exact absurd rfl hequal

theorem readNode_logical (h : head.kind ∈ Kind.logicalKinds) :
    readNode head [left, right] = .logical left head right := by
  have hkeyword : ∀ kind ∈ Kind.logicalKinds, ∃ keyword, kind = .keyword keyword := by
    simp [Kind.logicalKinds]
  obtain ⟨keyword, hkind⟩ := hkeyword _ h
  simp [readNode, hkind]

end Nodes

mutual

theorem readExpr_sexp {expr : Expr} (h : SourcedExpr expr) :
    readExpr expr.sexp = expr.bare := by
  cases expr with
  | constant value => exact readWord_constant h
  | group inner =>
      have hinner : readExpr inner.sexp = inner.bare := readExpr_sexp h
      rw [Expr.sexp, readExpr, readToken_of_written written_group, readExprs, hinner]
      rfl
  | unary operator operand =>
      rw [Expr.sexp, readExpr, readToken_of_oneOf h.1, readExprs, readExpr_sexp h.2]
      exact readNode_unary h.1.1
  | binary left operator right =>
      rw [Expr.sexp, readExpr, readToken_of_oneOf h.1, readExprs, readExprs, readExpr_sexp h.2.1,
        readExpr_sexp h.2.2]
      exact readNode_binary h.1.1
  | logical left operator right =>
      rw [Expr.sexp, readExpr, readToken_of_oneOf h.1, readExprs, readExprs, readExpr_sexp h.2.1,
        readExpr_sexp h.2.2]
      exact readNode_logical h.1.1
  | «variable» id name => exact readWord_name h
  | assign id name value =>
      have hequal : Written (.mark .equal) "=" := written_mark rfl
      rw [Expr.sexp, readExpr, readToken_of_written hequal, readExprs, readExprs, readExpr_sexp h.2,
        readExpr, readWord_name h.1]
      rfl
  | call callee paren arguments =>
      obtain ⟨⟨hkind, hlexeme⟩, hcallee, harguments⟩ := h
      have hparen : paren.bare = ⟨.mark .rightParen, ")", 0⟩ := by
        rw [Token.bare, hkind, hlexeme]
      rw [Expr.sexp, readExpr, readToken_of_written written_call, readExprs, readExpr_sexp hcallee,
        readExprs_sexps harguments, Expr.bare, hparen]
      rfl

theorem readExprs_sexps {exprs : List Expr} (h : SourcedExprs exprs) :
    readExprs (Expr.sexps exprs) = Expr.bareAll exprs := by
  cases exprs with
  | nil => rfl
  | cons first rest =>
      rw [Expr.sexps, readExprs, readExpr_sexp h.1, readExprs_sexps h.2]
      rfl

end

theorem readName_sexp {name : Token} {kinds : List Kind} (h : name.OneOf kinds) :
    readName name.sexp = name.bare :=
  readToken_of_oneOf h

theorem map_readName {names : List Token} {kinds : List Kind}
    (h : ∀ name ∈ names, name.OneOf kinds) :
    (names.map Token.sexp).map readName = names.map Token.bare := by
  rw [List.map_map]
  exact List.map_congr_left fun name hname => readName_sexp (h name hname)

theorem readStmt_list {kind : Kind} {head : String} (h : Written kind head) (items : List Sexp) :
    readStmt (.list (.word head :: items)) = readForm ⟨kind, head, 0⟩ items (readStmts items) := by
  rw [readStmt, readToken_of_written h]

theorem bare_of_return {keyword : Token} (h : keyword.OneOf [.keyword .return_]) :
    keyword.bare = ⟨.keyword .return_, "return", 0⟩ := by
  have hkind : keyword.kind = .keyword .return_ := List.mem_singleton.mp h.1
  have hspells := h.2.2
  rw [hkind] at hspells
  rw [Token.bare, hkind, eq_of_spells_keyword hspells]
  rfl

mutual

theorem readStmt_sexp {stmt : Stmt} (h : SourcedStmt stmt) : readStmt stmt.sexp = stmt.bare := by
  cases stmt with
  | expression value =>
      refine (readStmt_list (@written_mark .semicolon rfl) _).trans ?_
      rw [Stmt.bare, ← readExpr_sexp h]
      rfl
  | print value =>
      refine (readStmt_list (written_keyword .print_) _).trans ?_
      rw [Stmt.bare, ← readExpr_sexp h]
      rfl
  | declare name initial =>
      cases initial with
      | none =>
          refine (readStmt_list (written_keyword .var_) _).trans ?_
          rw [Stmt.bare, ← readName_sexp h]
          rfl
      | some initial =>
          refine (readStmt_list (written_keyword .var_) _).trans ?_
          rw [Stmt.bare, ← readName_sexp h.1, ← readExpr_sexp h.2]
          rfl
  | block body =>
      refine (readStmt_list written_block _).trans ?_
      rw [Stmt.bare, ← readStmts_sexps h]
      rfl
  | branch condition whenTrue whenFalse =>
      cases whenFalse with
      | none =>
          refine (readStmt_list (written_keyword .if_) _).trans ?_
          rw [Stmt.bare, ← readExpr_sexp h.1, ← readStmt_sexp h.2]
          rfl
      | some whenFalse =>
          refine (readStmt_list (written_keyword .if_) _).trans ?_
          rw [Stmt.bare, ← readExpr_sexp h.1, ← readStmt_sexp h.2.1, ← readStmt_sexp h.2.2]
          rfl
  | loop condition body =>
      refine (readStmt_list (written_keyword .while_) _).trans ?_
      rw [Stmt.bare, ← readExpr_sexp h.1, ← readStmt_sexp h.2]
      rfl
  | function name params body =>
      refine (readStmt_list (written_keyword .fun_) _).trans ?_
      rw [Stmt.bare, ← readName_sexp h.1, ← map_readName h.2.1, ← readStmts_sexps h.2.2]
      rfl
  | leave keyword value =>
      cases value with
      | none =>
          refine (readStmt_list (written_keyword .return_) _).trans ?_
          rw [Stmt.bare, bare_of_return h]
          rfl
      | some value =>
          refine (readStmt_list (written_keyword .return_) _).trans ?_
          rw [Stmt.bare, bare_of_return h.1, ← readExpr_sexp h.2]
          rfl

theorem readStmts_sexps {stmts : List Stmt} (h : SourcedStmts stmts) :
    readStmts (Stmt.sexps stmts) = Stmt.bareAll stmts := by
  cases stmts with
  | nil => rfl
  | cons first rest =>
      rw [Stmt.sexps, readStmts, readStmt_sexp h.1, readStmts_sexps h.2]
      rfl

end

/-! ### Words are words -/

mutual

theorem proper_sexp {expr : Expr} (h : SourcedExpr expr) : expr.sexp.Proper := by
  cases expr with
  | constant value =>
      obtain ⟨kind, -, hword, -⟩ := h
      exact hword
  | group inner => exact ⟨written_group.1, proper_sexp h, trivial⟩
  | unary operator operand => exact ⟨h.1.2.1, proper_sexp h.2, trivial⟩
  | binary left operator right =>
      exact ⟨h.1.2.1, proper_sexp h.2.1, proper_sexp h.2.2, trivial⟩
  | logical left operator right =>
      exact ⟨h.1.2.1, proper_sexp h.2.1, proper_sexp h.2.2, trivial⟩
  | «variable» id name => exact h.2.1
  | assign id name value =>
      exact ⟨(@written_mark .equal rfl).1, h.1.2.1, proper_sexp h.2, trivial⟩
  | call callee paren arguments =>
      exact ⟨written_call.1, proper_sexp h.2.1, proper_sexps h.2.2⟩

theorem proper_sexps {exprs : List Expr} (h : SourcedExprs exprs) :
    Sexp.ProperAll (Expr.sexps exprs) := by
  cases exprs with
  | nil => trivial
  | cons first rest => exact ⟨proper_sexp h.1, proper_sexps h.2⟩

end

theorem proper_names {names : List Token} {kinds : List Kind}
    (h : ∀ name ∈ names, name.OneOf kinds) : Sexp.ProperAll (names.map Token.sexp) := by
  induction names with
  | nil => trivial
  | cons name rest ih =>
      obtain ⟨hname, hrest⟩ := List.forall_mem_cons.mp h
      exact ⟨hname.2.1, ih hrest⟩

mutual

theorem proper_stmtSexp {stmt : Stmt} (h : SourcedStmt stmt) : stmt.sexp.Proper := by
  cases stmt with
  | expression value => exact ⟨(@written_mark .semicolon rfl).1, proper_sexp h, trivial⟩
  | print value => exact ⟨(written_keyword .print_).1, proper_sexp h, trivial⟩
  | declare name initial =>
      cases initial with
      | none => exact ⟨(written_keyword .var_).1, h.2.1, trivial⟩
      | some initial =>
          exact ⟨(written_keyword .var_).1, h.1.2.1, proper_sexp h.2, trivial⟩
  | block body => exact ⟨written_block.1, proper_stmtSexps h⟩
  | branch condition whenTrue whenFalse =>
      cases whenFalse with
      | none =>
          exact ⟨(written_keyword .if_).1, proper_sexp h.1, proper_stmtSexp h.2, trivial⟩
      | some whenFalse =>
          exact ⟨(written_keyword .if_).1, proper_sexp h.1, proper_stmtSexp h.2.1,
            proper_stmtSexp h.2.2, trivial⟩
  | loop condition body =>
      exact ⟨(written_keyword .while_).1, proper_sexp h.1, proper_stmtSexp h.2, trivial⟩
  | function name params body =>
      exact ⟨(written_keyword .fun_).1, h.1.2.1, proper_names h.2.1, proper_stmtSexps h.2.2⟩
  | leave keyword value =>
      cases value with
      | none => exact ⟨(written_keyword .return_).1, trivial⟩
      | some value => exact ⟨(written_keyword .return_).1, proper_sexp h.2, trivial⟩

theorem proper_stmtSexps {stmts : List Stmt} (h : SourcedStmts stmts) :
    Sexp.ProperAll (Stmt.sexps stmts) := by
  cases stmts with
  | nil => trivial
  | cons first rest => exact ⟨proper_stmtSexp h.1, proper_stmtSexps h.2⟩

end

/-! ### Equal texts -/

theorem bare_of_text {a b : Expr} (ha : SourcedExpr a) (hb : SourcedExpr b)
    (h : a.text = b.text) : a.bare = b.bare := by
  have hchars : a.sexp.chars = b.sexp.chars := by rw [← toList_text, ← toList_text, h]
  have hsexp := Sexp.chars_injective (proper_sexp ha) (proper_sexp hb) hchars
  rw [← readExpr_sexp ha, ← readExpr_sexp hb, hsexp]

theorem bare_of_stmtText {a b : Stmt} (ha : SourcedStmt a) (hb : SourcedStmt b)
    (h : a.text = b.text) : a.bare = b.bare := by
  have hchars : a.sexp.chars = b.sexp.chars := by rw [← toList_stmtText, ← toList_stmtText, h]
  have hsexp := Sexp.chars_injective (proper_stmtSexp ha) (proper_stmtSexp hb) hchars
  rw [← readStmt_sexp ha, ← readStmt_sexp hb, hsexp]

theorem map_bare_of_texts {p q : List Stmt} (hp : SourcedStmts p) (hq : SourcedStmts q)
    (h : p.map Stmt.text = q.map Stmt.text) : p.map Stmt.bare = q.map Stmt.bare := by
  induction p generalizing q with
  | nil =>
      rw [List.map_eq_nil_iff.mp h.symm]
  | cons first rest ih =>
      obtain ⟨other, more, rfl, hfirst, hrest⟩ := List.map_eq_cons_iff.mp h.symm
      rw [List.map_cons, List.map_cons, bare_of_stmtText hp.1 hq.1 hfirst.symm,
        ih hp.2 hq.2 hrest.symm]

section Scanned

variable {source : String} {firstId : NodeId}

/-- The tokens before the end marker. -/
theorem scanned_of_mem {tokens : List Token} {marker : Token}
    (hlegible : ∀ token ∈ (scan source).tokens, token.kind.isLegible = true)
    (htokens : (scan source).tokens = tokens ++ [marker]) : ∀ token ∈ tokens, Scanned token := by
  intro token htoken
  refine ⟨hlegible token (htokens ▸ List.mem_append_left _ htoken), ?_⟩
  rw [scan_tokens] at htokens
  exact spells_of_mem_body ((List.append_singleton_inj.mp htokens).1 ▸ htoken)

theorem sourced_program {p : List Stmt}
    (hlegible : ∀ token ∈ (scan source).tokens, token.kind.isLegible = true)
    (hp : (parseProgram (scan source).tokens firstId).result = .ok p) : SourcedStmts p := by
  have hderives : Derives false .program _ (scan source).tokens p _ :=
    parse_program_sound (scan_endsOnce source)
      (congrArg (Parsed.mk · (parseProgram (scan source).tokens firstId).issued) hp)
  generalize htokens : (scan source).tokens = tokens at hderives
  cases hderives with
  | program hdeclarations _ =>
      exact derives_sourced hdeclarations (scanned_of_mem hlegible htokens)

theorem sourced_expression {a : Expr}
    (hlegible : ∀ token ∈ (scan source).tokens, token.kind.isLegible = true)
    (ha : (parseExpression (scan source).tokens firstId).result = .ok a) : SourcedExpr a := by
  have hderives : Derives false .lone _ (scan source).tokens a _ :=
    parse_lone_sound (scan_endsOnce source)
      (congrArg (Parsed.mk · (parseExpression (scan source).tokens firstId).issued) ha)
  generalize htokens : (scan source).tokens = tokens at hderives
  cases hderives with
  | lone hvalue _ => exact derives_sourced hvalue (scanned_of_mem hlegible htokens)

end Scanned

/-- Programs without strings and without numbers out of range that are printed the same are the
same, but for identities and lines.  So are expressions. -/
theorem text_faithful {source other : String}
    (hsource : ∀ token ∈ (scan source).tokens, token.kind.isLegible = true)
    (hother : ∀ token ∈ (scan other).tokens, token.kind.isLegible = true)
    (firstId otherId : NodeId) :
    (∀ p q, (parseProgram (scan source).tokens firstId).result = .ok p →
        (parseProgram (scan other).tokens otherId).result = .ok q →
        p.map Stmt.text = q.map Stmt.text → p.map Stmt.bare = q.map Stmt.bare) ∧
      ∀ a b, (parseExpression (scan source).tokens firstId).result = .ok a →
        (parseExpression (scan other).tokens otherId).result = .ok b →
        a.text = b.text → a.bare = b.bare :=
  ⟨fun _ _ hp hq => map_bare_of_texts (sourced_program hsource hp) (sourced_program hother hq),
    fun _ _ ha hb => bare_of_text (sourced_expression hsource ha) (sourced_expression hother hb)⟩

/-- The same program, written twice. -/
def minusSource : String :=
  "while (-x - 1.50) f(y, 2);"

def minusLayout : String :=
  "// again\nwhile (- x - 1.5)\n  f (y , 2.0) ;"

theorem text_faithful_minus :
    ∃ p q, (parseProgram (scan minusSource).tokens 0).result = .ok p ∧
      (parseProgram (scan minusLayout).tokens 7).result = .ok q ∧
      p.map Stmt.text = ["(while (- (- x) 1.5) (; (call f y 2.0)))"] ∧
      p.map Stmt.bare = q.map Stmt.bare := by
  have hminus : ∀ token ∈ (scan minusSource).tokens, token.kind.isLegible = true := by
    decide +kernel
  have hlayout : ∀ token ∈ (scan minusLayout).tokens, token.kind.isLegible = true := by
    decide +kernel
  have hshape : (parseProgram (scan minusSource).tokens 0).result.toOption.any
      (fun p => p.map Stmt.text == ["(while (- (- x) 1.5) (; (call f y 2.0)))"]) = true := by
    decide +kernel
  have hshape' : (parseProgram (scan minusLayout).tokens 7).result.toOption.any
      (fun p => p.map Stmt.text == ["(while (- (- x) 1.5) (; (call f y 2.0)))"]) = true := by
    decide +kernel
  obtain ⟨p, hp, htext⟩ := ok_of_any hshape
  obtain ⟨q, hq, htext'⟩ := ok_of_any hshape'
  rw [beq_iff_eq] at htext htext'
  exact ⟨p, q, hp, hq, htext,
    (text_faithful hminus hlayout 0 7).1 p q hp hq (htext.trans htext'.symm)⟩

end Printing

end Scriptlet
