/-
The ends of phrases: which kinds of token a phrase can start with, and which
would continue it if they stood behind it.
-/
import Scriptlet.Proofs.Grammar.Derives
import Scriptlet.Proofs.Grammar.Reads
import Scriptlet.Tree.Reader.Statement

namespace Scriptlet.Grammar

/-- The tokens start with one of such a kind. -/
def StartsIn (kinds : Kind → Bool) (tokens : List Token) : Prop :=
  ∃ token ∈ tokens.head?, kinds token.kind = true

/-- The tokens do not start with one of these kinds. -/
def Stops (kinds : List Kind) (tokens : List Token) : Prop :=
  ∀ token ∈ tokens.head?, token.kind ∉ kinds

section Ends

variable {kinds : Kind → Bool} {token : Token} {tokens others : List Token}
  {listed fewer : List Kind}

theorem startsIn_cons : StartsIn kinds (token :: tokens) ↔ kinds token.kind = true := by
  simp [StartsIn]

theorem StartsIn.append (h : StartsIn kinds tokens) (others : List Token) :
    StartsIn kinds (tokens ++ others) := by
  obtain ⟨token, htoken, hkind⟩ := h
  exact ⟨token, by rw [List.head?_append, htoken, Option.some_or]; rfl, hkind⟩

theorem StartsIn.mono {more : Kind → Bool} (h : StartsIn kinds tokens)
    (himp : ∀ kind, kinds kind = true → more kind = true) : StartsIn more tokens := by
  obtain ⟨token, htoken, hkind⟩ := h
  exact ⟨token, htoken, himp _ hkind⟩

/-- What starts with other kinds fails a test for the next token. -/
theorem StartsIn.head_eq_false (h : StartsIn kinds tokens) {test : Kind → Bool}
    (hdisjoint : ∀ kind, kinds kind = true → test kind = false) :
    ∀ token ∈ tokens.head?, test token.kind = false := by
  intro token htoken
  obtain ⟨first, hfirst, hkind⟩ := h
  rw [htoken] at hfirst
  cases hfirst
  exact hdisjoint _ hkind

theorem stops_cons : Stops listed (token :: tokens) ↔ token.kind ∉ listed := by
  simp [Stops]

theorem stops_nil : Stops listed [] := by
  intro token htoken
  cases htoken

theorem Stops.mono (h : Stops listed tokens) (hsubset : fewer ⊆ listed) :
    Stops fewer tokens :=
  fun token htoken hkind => h token htoken (hsubset hkind)

theorem StartsIn.stops (h : StartsIn kinds tokens)
    (hdisjoint : ∀ kind, kinds kind = true → kind ∉ listed) : Stops listed tokens := by
  intro token htoken
  obtain ⟨first, hfirst, hkind⟩ := h
  rw [htoken] at hfirst
  cases hfirst
  exact hdisjoint _ hkind

end Ends

/-! ### The end of an expression -/

namespace Level

/-- The kinds of token that continue a phrase of the level. -/
def continuing : Level → List Kind
  | expression => assignmentKinds
  | assignment => assignmentKinds
  | disjunction => disjunctionKinds
  | conjunction => conjunctionKinds
  | equality => equalityKinds
  | comparison => comparisonKinds
  | term => termKinds
  | factor => factorKinds
  | unary => callKinds
  | call => callKinds
  | primary => []
where
  callKinds : List Kind := [.mark .leftParen]
  factorKinds : List Kind := operators factor ++ callKinds
  termKinds : List Kind := operators term ++ factorKinds
  comparisonKinds : List Kind := operators comparison ++ termKinds
  equalityKinds : List Kind := operators equality ++ comparisonKinds
  conjunctionKinds : List Kind := operators conjunction ++ equalityKinds
  disjunctionKinds : List Kind := operators disjunction ++ conjunctionKinds
  assignmentKinds : List Kind := .mark .equal :: disjunctionKinds

/-- The kinds of token that continue the last part of a phrase of the level, if
it is read in rounds. -/
def inside : Level → List Kind
  | disjunction => continuing conjunction
  | conjunction => continuing equality
  | equality => continuing comparison
  | comparison => continuing term
  | term => continuing factor
  | factor => continuing unary
  | call => continuing primary
  | level => continuing level

theorem inside_subset (level : Level) : level.inside ⊆ level.continuing := by
  cases level <;> simp [inside, continuing, continuing.assignmentKinds,
    continuing.disjunctionKinds, continuing.conjunctionKinds, continuing.equalityKinds,
    continuing.comparisonKinds, continuing.termKinds, continuing.factorKinds]

theorem operators_subset (level : Level) : level.operators ⊆ level.continuing := by
  cases level <;> simp [operators, continuing, continuing.disjunctionKinds,
    continuing.conjunctionKinds, continuing.equalityKinds, continuing.comparisonKinds,
    continuing.termKinds, continuing.factorKinds]

/-- An operator ends its left operand. -/
theorem operators_not_mem_inside (level : Level) {kind : Kind} (h : kind ∈ level.operators) :
    kind ∉ level.inside := by
  cases level <;> simp only [operators, List.not_mem_nil, List.mem_cons, or_false] at h <;>
    rcases h with h | h | h | h <;>
    simp_all [inside, continuing, continuing.conjunctionKinds, continuing.equalityKinds,
      continuing.comparisonKinds, continuing.termKinds, continuing.factorKinds,
      continuing.callKinds, operators]

end Level

/-- Nothing that closes an expression continues it. -/
theorem stops_of_mark {mark : Mark} {token : Token} (htoken : token.IsMark mark)
    (hmark : mark = .semicolon ∨ mark = .rightParen ∨ mark = .comma) (rest : List Token) :
    Stops Level.expression.continuing (token :: rest) := by
  rw [stops_cons, htoken]
  rcases hmark with rfl | rfl | rfl <;>
    simp [Level.continuing, Level.continuing.assignmentKinds, Level.continuing.disjunctionKinds,
      Level.continuing.conjunctionKinds, Level.continuing.equalityKinds,
      Level.continuing.comparisonKinds, Level.continuing.termKinds, Level.continuing.factorKinds,
      Level.continuing.callKinds, Level.operators]

/-! ### The start of a phrase -/

/-- The kinds that an operand without sign starts with. -/
def opensOperand : Kind → Bool
  | .number _ => true
  | .string _ => true
  | .keyword .true_ => true
  | .keyword .false_ => true
  | .keyword .nil_ => true
  | .identifier => true
  | .mark .leftParen => true
  | _ => false

/-- The kinds that an expression starts with. -/
def opensExpression (kind : Kind) : Bool :=
  Reader.isUnaryOperator kind || opensOperand kind

/-- The kinds that neither end a block nor belong to an `if` before them. -/
def opensDeclaration (kind : Kind) : Bool :=
  !kind.isMark .rightBrace && !kind.isKeyword .else_

/-- The kinds that a statement starts with. -/
def opensStatement (kind : Kind) : Bool :=
  Reader.leadsStatement kind || opensExpression kind

theorem opensOperand_not_sign {kind : Kind} (h : opensOperand kind = true) :
    Reader.isUnaryOperator kind = false := by
  unfold opensOperand at h
  split at h <;> first | rfl | cases h

theorem opensExpression_cases {kind : Kind} (h : opensExpression kind = true) :
    opensDeclaration kind = true ∧ Reader.leadsStatement kind = false ∧
      kind.isKeyword .fun_ = false ∧ kind.isKeyword .var_ = false ∧
      kind.isMark .semicolon = false ∧ kind.isMark .rightParen = false := by
  rw [opensExpression, Reader.isUnaryOperator, Bool.or_eq_true, Bool.or_eq_true,
    Kind.isMark_iff, Kind.isMark_iff] at h
  rcases h with (rfl | rfl) | h
  · exact ⟨rfl, rfl, rfl, rfl, rfl, rfl⟩
  · exact ⟨rfl, rfl, rfl, rfl, rfl, rfl⟩
  · unfold opensOperand at h
    split at h <;> first | exact ⟨rfl, rfl, rfl, rfl, rfl, rfl⟩ | cases h

theorem opensStatement_cases {kind : Kind} (h : opensStatement kind = true) :
    opensDeclaration kind = true ∧ kind.isKeyword .fun_ = false ∧
      kind.isKeyword .var_ = false := by
  rw [opensStatement, Bool.or_eq_true] at h
  rcases h with h | h
  · unfold Reader.leadsStatement at h
    split at h <;> first | exact ⟨rfl, rfl, rfl⟩ | cases h
  · obtain ⟨hdeclaration, -, hfun, hvar, -⟩ := opensExpression_cases h
    exact ⟨hdeclaration, hfun, hvar⟩

theorem leadsStatement_cases {kind : Kind} (h : Reader.leadsStatement kind = true) :
    kind = .keyword .for_ ∨ kind = .keyword .if_ ∨ kind = .keyword .print_ ∨
      kind = .keyword .return_ ∨ kind = .keyword .while_ ∨ kind = .mark .leftBrace := by
  cases kind with
  | mark mark => cases mark <;> simp_all [Reader.leadsStatement]
  | keyword keyword => cases keyword <;> simp_all [Reader.leadsStatement]
  | _ => simp [Reader.leadsStatement] at h

/-- How a phrase starts, for the symbols where a choice between rules depends on
it. -/
def Opens : Symbol → List Token → Prop
  | .declaration, tokens => StartsIn opensDeclaration tokens
  | .statement _, tokens => StartsIn opensStatement tokens
  | .block, tokens => StartsIn (·.isMark .leftBrace) tokens
  | .variableDeclaration, tokens => StartsIn (·.isKeyword .var_) tokens
  | .expressionStatement, tokens => StartsIn opensExpression tokens
  | .parameters, tokens => StartsIn (·.isIdentifier) tokens
  | .expr .call, tokens => StartsIn opensOperand tokens
  | .expr .primary, tokens => StartsIn opensOperand tokens
  | .expr _, tokens => StartsIn opensExpression tokens
  | .arguments, tokens => StartsIn opensExpression tokens
  | _, _ => True

theorem opensOperand_imp_opensExpression {kind : Kind} (h : opensOperand kind = true) :
    opensExpression kind = true := by
  rw [opensExpression, h, Bool.or_true]

theorem Opens.expression {level : Level} {tokens : List Token} (h : Opens (.expr level) tokens) :
    StartsIn opensExpression tokens := by
  cases level <;>
    first | exact h | exact StartsIn.mono h fun _ => opensOperand_imp_opensExpression

variable {strict : Bool} {symbol : Symbol} {n m : Nat} {tokens : List Token}

theorem derives_opens {tree : symbol.Tree} (h : Derives strict symbol n tokens tree m) :
    Opens symbol tokens := by
  induction h with
  | function hlead _ _ _ _ _ _ _ _ => exact startsIn_cons.mpr (by rw [hlead]; rfl)
  | var_ _ ih =>
      refine StartsIn.mono ih fun kind hkind => ?_
      rw [Kind.isKeyword_iff.mp hkind]
      rfl
  | statement _ ih => exact StartsIn.mono ih fun kind hkind => (opensStatement_cases hkind).1
  | block hopen _ _ _ => exact startsIn_cons.mpr (Kind.isMark_iff.mpr hopen)
  | uninitialized hlead _ _ => exact startsIn_cons.mpr (Kind.isKeyword_iff.mpr hlead)
  | initialized hlead _ _ _ _ _ => exact startsIn_cons.mpr (Kind.isKeyword_iff.mpr hlead)
  | expression _ ih =>
      refine StartsIn.mono ih fun kind hkind => ?_
      rw [opensStatement, hkind, Bool.or_true]
  | for_ hlead _ _ _ _ _ _ _ _ _ _ _ => exact startsIn_cons.mpr (by rw [hlead]; rfl)
  | if_ hlead _ _ _ _ _ _ => exact startsIn_cons.mpr (by rw [hlead]; rfl)
  | ifElse hlead _ _ _ _ _ _ _ _ _ _ => exact startsIn_cons.mpr (by rw [hlead]; rfl)
  | print hlead _ _ _ => exact startsIn_cons.mpr (by rw [hlead]; rfl)
  | return_ hlead _ _ _ => exact startsIn_cons.mpr (by rw [hlead]; rfl)
  | while_ hlead _ _ _ _ _ _ => exact startsIn_cons.mpr (by rw [hlead]; rfl)
  | blockStatement _ ih =>
      refine StartsIn.mono ih fun kind hkind => ?_
      rw [Kind.isMark_iff.mp hkind]
      rfl
  | expressionStatement _ _ ih => exact StartsIn.append (Opens.expression ih) _
  | parameter hname => exact startsIn_cons.mpr (Kind.isIdentifier_iff.mpr hname)
  | parameters hname _ _ _ => exact startsIn_cons.mpr (Kind.isIdentifier_iff.mpr hname)
  | @tighter _ _ level next _ _ htighter _ ih =>
      cases level <;> cases htighter <;>
        first | exact ih | exact Opens.expression ih
  | assign hname _ _ _ =>
      refine startsIn_cons.mpr ?_
      rw [hname]
      rfl
  | @operator _ _ _ level next _ _ _ _ _ htighter _ hsign _ ihLeft _ =>
      have hleft := StartsIn.append (Opens.expression ihLeft)
      cases level <;> first | exact hleft _ | cases hsign
  | unary hsign _ _ =>
      refine startsIn_cons.mpr ?_
      rcases hsign with hsign | hsign <;> rw [hsign] <;> rfl
  | call _ _ _ _ _ ihCallee _ => exact StartsIn.append ihCallee _
  | number hliteral => exact startsIn_cons.mpr (by rw [hliteral]; rfl)
  | string hliteral => exact startsIn_cons.mpr (by rw [hliteral]; rfl)
  | true_ hword => exact startsIn_cons.mpr (by rw [hword]; rfl)
  | false_ hword => exact startsIn_cons.mpr (by rw [hword]; rfl)
  | nil_ hword => exact startsIn_cons.mpr (by rw [hword]; rfl)
  | name hname => exact startsIn_cons.mpr (by rw [hname]; rfl)
  | group hopen _ _ _ => exact startsIn_cons.mpr (by rw [hopen]; rfl)
  | argument _ ih => exact Opens.expression ih
  | arguments _ _ _ ihValue _ => exact StartsIn.append (Opens.expression ihValue) _
  | _ => trivial

end Scriptlet.Grammar
