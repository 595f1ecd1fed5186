/-
Trees in which a `for` is a node of its own.

They are read by the same rules as the trees that are run, which give way to them once every
`for` is replaced by the block and the loop that stand for it.
-/
import Scriptlet.Session

namespace Scriptlet.Loops

open Reader

/-- What a `for` begins with. -/
inductive Clause where
  | declare (name : Token) (initial : Option Expr)
  | expression (value : Expr)

mutual

inductive Statement where
  | expression (value : Expr)
  | print (value : Expr)
  | block (body : List Declaration)
  | branch (condition : Expr) (whenTrue : Statement) (whenFalse : Option Statement)
  | loop (condition : Expr) (body : Statement)
  | for_ (initial : Option Clause) (condition increment : Option Expr) (body : Statement)
  | leave (keyword : Token) (value : Option Expr)

inductive Declaration where
  | declare (name : Token) (initial : Option Expr)
  | function (name : Token) (params : List Token) (body : List Declaration)
  | statement (statement : Statement)

end

def Clause.rewrite : Clause → Stmt
  | declare name initial => .declare name initial
  | expression value => .expression value

mutual

/-- The tree without node for `for`. -/
def Statement.rewrite : Statement → Stmt
  | .expression value => .expression value
  | .print value => .print value
  | .block body => .block (rewriteAll body)
  | .branch condition whenTrue none => .branch condition whenTrue.rewrite none
  | .branch condition whenTrue (some whenFalse) =>
      .branch condition whenTrue.rewrite (some whenFalse.rewrite)
  | .loop condition body => .loop condition body.rewrite
  | .for_ initial condition increment body =>
      forLoop (initial.map Clause.rewrite) condition increment body.rewrite
  | .leave keyword value => .leave keyword value

def Declaration.rewrite : Declaration → Stmt
  | .declare name initial => .declare name initial
  | .function name params body => .function name params (rewriteAll body)
  | .statement statement => statement.rewrite

def rewriteAll : List Declaration → List Stmt
  | [] => []
  | first :: rest => first.rewrite :: rewriteAll rest

end

/-! ### Reading -/

def expressionStatement {α : Type} (node : Expr → α) (bound : Nat) : Reader α := do
  let value ← expression bound
  let _ ← expect (·.isMark .semicolon) .semicolonAfterExpression
  return node value

def printStatement (bound : Nat) : Reader Statement := do
  let value ← expression bound
  let _ ← expect (·.isMark .semicolon) .semicolonAfterValue
  return .print value

def returnStatement (bound : Nat) (keyword : Token) : Reader Statement := do
  let value ← optionalExpression bound .semicolon
  let _ ← expect (·.isMark .semicolon) .semicolonAfterReturn
  return .leave keyword value

def variableDeclaration {α : Type} (node : Token → Option Expr → α) (bound : Nat) : Reader α := do
  let name ← expect Kind.isIdentifier .variableName
  let initial ← initialValue bound
  let _ ← expect (·.isMark .semicolon) .semicolonAfterDeclaration
  return node name initial

def declarationsUntil (stop : Kind → Bool) (member : Reader (Option Declaration)) :
    Nat → Reader (List Declaration)
  | 0 => exhausted
  | bound + 1 => do
      if (← looksAt stop) || (← atEnd) then return []
      let first ← member
      return first.toList ++ (← declarationsUntil stop member bound)

def blockBody (bound : Nat) (member : Reader (Option Declaration)) :
    Reader (List Declaration) := do
  let body ← declarationsUntil (·.isMark .rightBrace) member bound
  let _ ← expect (·.isMark .rightBrace) .braceAfterBlock
  return body

def functionDeclaration (bound : Nat) (member : Reader (Option Declaration)) :
    Reader Declaration := do
  let name ← expect Kind.isIdentifier .functionName
  let _ ← expect (·.isMark .leftParen) .parenAfterFunctionName
  let params ← parameterList bound
  let _ ← expect (·.isMark .rightParen) .parenAfterParameters
  let _ ← expect (·.isMark .leftBrace) .braceBeforeBody
  return .function name params (← blockBody bound member)

def ifStatement (bound : Nat) (inner : Reader Statement) : Reader Statement := do
  let _ ← expect (·.isMark .leftParen) .parenAfterIf
  let condition ← expression bound
  let _ ← expect (·.isMark .rightParen) .parenAfterIfCondition
  let whenTrue ← inner
  match ← accept? (·.isKeyword .else_) with
  | some _ => return .branch condition whenTrue (some (← inner))
  | none => return .branch condition whenTrue none

def whileStatement (bound : Nat) (inner : Reader Statement) : Reader Statement := do
  let _ ← expect (·.isMark .leftParen) .parenAfterWhile
  let condition ← expression bound
  let _ ← expect (·.isMark .rightParen) .parenAfterWhileCondition
  return .loop condition (← inner)

def forInitializer (bound : Nat) : Reader (Option Clause) := do
  match ← accept? (·.isMark .semicolon) with
  | some _ => return none
  | none =>
      match ← accept? (·.isKeyword .var_) with
      | some _ => some <$> variableDeclaration .declare bound
      | none => some <$> expressionStatement .expression bound

def forStatement (bound : Nat) (inner : Reader Statement) : Reader Statement := do
  let _ ← expect (·.isMark .leftParen) .parenAfterFor
  let initial ← forInitializer bound
  let condition ← optionalExpression bound .semicolon
  let _ ← expect (·.isMark .semicolon) .semicolonAfterLoopCondition
  let increment ← optionalExpression bound .rightParen
  let _ ← expect (·.isMark .rightParen) .parenAfterForClauses
  return .for_ initial condition increment (← inner)

def statementRule (bound : Nat) (inner : Reader Statement) (member : Reader (Option Declaration)) :
    Reader Statement := do
  match ← accept? leadsStatement with
  | none => expressionStatement .expression bound
  | some lead =>
      match lead.kind with
      | .keyword .for_ => forStatement bound inner
      | .keyword .if_ => ifStatement bound inner
      | .keyword .print_ => printStatement bound
      | .keyword .return_ => returnStatement bound lead
      | .keyword .while_ => whileStatement bound inner
      | _ => .block <$> blockBody bound member

def declarationRule (bound : Nat) (inner : Reader Statement)
    (member : Reader (Option Declaration)) : Reader Declaration := do
  match ← accept? (·.isKeyword .fun_) with
  | some _ => functionDeclaration bound member
  | none =>
      match ← accept? (·.isKeyword .var_) with
      | some _ => variableDeclaration .declare bound
      | none => .statement <$> statementRule bound inner member

mutual

def statement : Nat → Reader Statement
  | 0 => exhausted
  | bound + 1 => statementRule (bound + 1) (statement bound) (declaration bound)

def declaration : Nat → Reader (Option Declaration)
  | 0 => exhausted
  | bound + 1 => recover (declarationRule (bound + 1) (statement bound) (declaration bound))

end

def program (bound : Nat) : Reader (List Declaration) :=
  declarationsUntil (fun _ => false) (declaration bound) bound

/-! ### The rewriting of what was read -/

section Rewriting

variable {α β γ δ : Type} {bound : Nat} {inner : Reader Statement} {inner' : Reader Stmt}
  {member : Reader (Option Declaration)} {member' : Reader (Option Stmt)}

/-- Only what stands behind the first rule depends on the form of the tree. -/
theorem map_after {change : β → γ} {rule : Reader α} {next : α → Reader β} {next' : α → Reader γ}
    (h : ∀ value, change <$> next value = next' value) :
    change <$> (rule >>= next) = rule >>= next' := by
  rw [map_bind]
  exact bind_congr h

theorem map_behind {form : α → δ} {change : β → γ} {rule : Reader α} {rule' : Reader δ}
    {next : α → Reader β} {next' : δ → Reader γ} (hrule : form <$> rule = rule')
    (h : ∀ value, change <$> next value = next' (form value)) :
    change <$> (rule >>= next) = rule' >>= next' := by
  rw [map_bind, ← hrule, bind_map_left]
  exact bind_congr h

theorem map_form {form : α → β} {change : β → γ} {form' : δ → γ} {change' : α → δ}
    {rule : Reader α} {rule' : Reader δ} (hrule : change' <$> rule = rule')
    (h : ∀ value, change (form value) = form' (change' value)) :
    change <$> (form <$> rule) = form' <$> rule' := by
  rw [← hrule, Functor.map_map, Functor.map_map]
  simp only [h]

theorem map_recover (change : α → β) (rule : Reader α) :
    Option.map change <$> recover rule = recover (change <$> rule) := by
  funext cursor
  rw [map_apply, recover, recover, map_apply]
  cases rule cursor with
  | ok value after => rfl
  | error reason after =>
      cases reason with
      | fault diagnostic => rfl
      | exhausted => rfl

theorem map_expressionStatement (node : Expr → α) (change : α → β) (bound : Nat) :
    change <$> expressionStatement node bound =
      expressionStatement (fun value => change (node value)) bound := by
  simp only [expressionStatement, map_bind, map_pure]

theorem map_variableDeclaration (node : Token → Option Expr → α) (change : α → β) (bound : Nat) :
    change <$> variableDeclaration node bound =
      variableDeclaration (fun name initial => change (node name initial)) bound := by
  simp only [variableDeclaration, map_bind, map_pure]

theorem map_printStatement (bound : Nat) :
    Statement.rewrite <$> printStatement bound = Reader.printStatement bound := by
  simp only [printStatement, Reader.printStatement, map_bind, map_pure, Statement.rewrite]

theorem map_returnStatement (bound : Nat) (keyword : Token) :
    Statement.rewrite <$> returnStatement bound keyword =
      Reader.returnStatement bound keyword := by
  simp only [returnStatement, Reader.returnStatement, map_bind, map_pure, Statement.rewrite]

theorem rewriteAll_append (first second : List Declaration) :
    rewriteAll (first ++ second) = rewriteAll first ++ rewriteAll second := by
  induction first with
  | nil => rfl
  | cons declaration rest ih => rw [List.cons_append, rewriteAll, ih, rewriteAll]; rfl

theorem rewriteAll_toList (first : Option Declaration) :
    rewriteAll first.toList = (first.map Declaration.rewrite).toList := by
  cases first with
  | none => rfl
  | some declaration => rfl

theorem map_declarationsUntil (h : Option.map Declaration.rewrite <$> member = member')
    (stop : Kind → Bool) (rounds : Nat) :
    rewriteAll <$> declarationsUntil stop member rounds =
      Reader.declarationsUntil stop member' rounds := by
  induction rounds with
  | zero => rfl
  | succ rounds ih =>
      apply map_after
      intro stops
      apply map_after
      intro isEnd
      cases stops || isEnd with
      | true => rfl
      | false =>
          apply map_behind h
          intro first
          apply map_behind ih
          intro rest
          rw [map_pure, rewriteAll_append, rewriteAll_toList]

theorem map_blockBody (h : Option.map Declaration.rewrite <$> member = member') (bound : Nat) :
    rewriteAll <$> blockBody bound member = Reader.blockBody bound member' := by
  apply map_behind (map_declarationsUntil h _ bound)
  intro body
  exact map_after fun _ => rfl

theorem map_functionDeclaration (h : Option.map Declaration.rewrite <$> member = member')
    (bound : Nat) :
    Declaration.rewrite <$> functionDeclaration bound member =
      Reader.functionDeclaration bound member' := by
  apply map_after
  intro name
  apply map_after
  intro _
  apply map_after
  intro params
  apply map_after
  intro _
  apply map_after
  intro _
  exact map_behind (map_blockBody h bound) fun body => rfl

theorem map_ifStatement (h : Statement.rewrite <$> inner = inner') (bound : Nat) :
    Statement.rewrite <$> ifStatement bound inner = Reader.ifStatement bound inner' := by
  apply map_after
  intro _
  apply map_after
  intro condition
  apply map_after
  intro _
  apply map_behind h
  intro whenTrue
  apply map_after
  intro found
  cases found with
  | none => rfl
  | some keyword => exact map_behind h fun whenFalse => rfl

theorem map_whileStatement (h : Statement.rewrite <$> inner = inner') (bound : Nat) :
    Statement.rewrite <$> whileStatement bound inner = Reader.whileStatement bound inner' := by
  apply map_after
  intro _
  apply map_after
  intro condition
  apply map_after
  intro _
  exact map_behind h fun body => rfl

theorem map_forInitializer (bound : Nat) :
    Option.map Clause.rewrite <$> forInitializer bound = Reader.forInitializer bound := by
  apply map_after
  intro found
  cases found with
  | some semicolon => rfl
  | none =>
      apply map_after
      intro found
      cases found with
      | some keyword => exact map_form (map_variableDeclaration _ Clause.rewrite bound) fun _ => rfl
      | none => exact map_form (map_expressionStatement _ Clause.rewrite bound) fun _ => rfl

theorem map_forStatement (h : Statement.rewrite <$> inner = inner') (bound : Nat) :
    Statement.rewrite <$> forStatement bound inner = Reader.forStatement bound inner' := by
  apply map_after
  intro _
  apply map_behind (map_forInitializer bound)
  intro initial
  apply map_after
  intro condition
  apply map_after
  intro _
  apply map_after
  intro increment
  apply map_after
  intro _
  exact map_behind h fun body => rfl

theorem map_statementRule (hinner : Statement.rewrite <$> inner = inner')
    (hmember : Option.map Declaration.rewrite <$> member = member') (bound : Nat) :
    Statement.rewrite <$> statementRule bound inner member =
      Reader.statementRule bound inner' member' := by
  apply map_after
  intro found
  cases found with
  | none => exact map_expressionStatement ..
  | some lead =>
      dsimp only
      generalize lead.kind = kind
      cases kind with
      | keyword keyword =>
          cases keyword with
          | for_ => exact map_forStatement hinner bound
          | if_ => exact map_ifStatement hinner bound
          | print_ => exact map_printStatement bound
          | return_ => exact map_returnStatement bound lead
          | while_ => exact map_whileStatement hinner bound
          | _ => exact map_form (map_blockBody hmember bound) fun _ => rfl
      | _ => exact map_form (map_blockBody hmember bound) fun _ => rfl

theorem map_declarationRule (hinner : Statement.rewrite <$> inner = inner')
    (hmember : Option.map Declaration.rewrite <$> member = member') (bound : Nat) :
    Declaration.rewrite <$> declarationRule bound inner member =
      Reader.declarationRule bound inner' member' := by
  apply map_after
  intro found
  cases found with
  | some keyword => exact map_functionDeclaration hmember bound
  | none =>
      apply map_after
      intro found
      cases found with
      | some keyword => exact map_variableDeclaration ..
      | none => exact (Functor.map_map ..).trans (map_statementRule hinner hmember bound)

theorem map_statement_declaration (bound : Nat) :
    Statement.rewrite <$> statement bound = Reader.statement bound ∧
      Option.map Declaration.rewrite <$> declaration bound = Reader.declaration bound := by
  induction bound with
  | zero => exact ⟨rfl, rfl⟩
  | succ bound ih =>
      obtain ⟨hinner, hmember⟩ := ih
      refine ⟨map_statementRule hinner hmember (bound + 1), ?_⟩
      rw [declaration, Reader.declaration, map_recover,
        map_declarationRule hinner hmember (bound + 1)]

/-- What is read as a program is the rewriting of what is written. -/
theorem map_program (bound : Nat) : rewriteAll <$> program bound = Reader.program bound :=
  map_declarationsUntil (map_statement_declaration bound).2 _ bound

/-- So it is for whole sources, faults and identities included. -/
theorem readSource_map {rule : Nat → Reader α} {rule' : Nat → Reader β} {change : α → β}
    (h : ∀ bound, change <$> rule bound = rule' bound) (issued : Nat) (source : String) :
    readSource rule' issued source =
      ((readSource rule issued source).1.map change, (readSource rule issued source).2) := by
  have hparse : ∀ tokens, Reader.parse rule' tokens issued =
      ⟨(Reader.parse rule tokens issued).result.map change,
        (Reader.parse rule tokens issued).issued⟩ := by
    intro tokens
    rw [Reader.parse, Reader.parse, ← h, map_apply]
    generalize rule _ (Cursor.ofTokens tokens issued) = result
    cases result with
    | ok value stop =>
        dsimp only
        split
        · rfl
        · rfl
    | error reason stop =>
        cases reason with
        | fault diagnostic => rfl
        | exhausted => rfl
  rw [readSource, readSource, hparse]
  dsimp only
  cases (Reader.parse rule (Source.scan source).tokens issued).result with
  | error faults => rfl
  | ok tree =>
      dsimp only [Except.map]
      split
      · rfl
      · rfl

end Rewriting

end Scriptlet.Loops
