/-
The grammar of statements and declarations, and the two entry points: a whole
program, and a single expression.

As for expressions, each rule is written over the rules for what it contains:
`inner` reads a nested statement and `member` a declaration of a block.
-/
import Scriptlet.Tree.Reader.Expression

namespace Scriptlet.Reader

/-- `expression? closing`: nothing stands before the closing token. -/
def optionalExpression (bound : Nat) (closing : Mark) : Reader (Option Expr) := do
  if ← looksAt (·.isMark closing) then return none
  return some (← expression bound)

/-- `expression ";"` -/
def expressionStatement (bound : Nat) : Reader Stmt := do
  let value ← expression bound
  let _ ← expect (·.isMark .semicolon) .semicolonAfterExpression
  return .expression value

/-- `"print" expression ";"`, behind the keyword -/
def printStatement (bound : Nat) : Reader Stmt := do
  let value ← expression bound
  let _ ← expect (·.isMark .semicolon) .semicolonAfterValue
  return .print value

/-- `"return" expression? ";"`, behind the keyword -/
def returnStatement (bound : Nat) (keyword : Token) : Reader Stmt := do
  let value ← optionalExpression bound .semicolon
  let _ ← expect (·.isMark .semicolon) .semicolonAfterReturn
  return .leave keyword value

/-- `( "=" expression )?` -/
def initialValue (bound : Nat) : Reader (Option Expr) := do
  match ← accept? (·.isMark .equal) with
  | some _ => some <$> expression bound
  | none => return none

/-- `"var" IDENTIFIER ( "=" expression )? ";"`, behind the keyword -/
def variableDeclaration (bound : Nat) : Reader Stmt := do
  let name ← expect Kind.isIdentifier .variableName
  let initial ← initialValue bound
  let _ ← expect (·.isMark .semicolon) .semicolonAfterDeclaration
  return .declare name initial

/-- Declarations up to a token of such a kind, or to the end. -/
def declarationsUntil (stop : Kind → Bool) (member : Reader (Option Stmt)) :
    Nat → Reader (List Stmt)
  | 0 => exhausted
  | bound + 1 => do
      if (← looksAt stop) || (← atEnd) then return []
      let first ← member
      return first.toList ++ (← declarationsUntil stop member bound)

/-- `declaration* "}"`, behind the opening brace -/
def blockBody (bound : Nat) (member : Reader (Option Stmt)) : Reader (List Stmt) := do
  let body ← declarationsUntil (·.isMark .rightBrace) member bound
  let _ ← expect (·.isMark .rightBrace) .braceAfterBlock
  return body

/-- The parameters from the next one on; `count` of them have been read. -/
def parameters : Nat → Nat → Reader (List Token)
  | 0, _ => exhausted
  | bound + 1, count => do
      limit count .tooManyParameters
      let param ← expect Kind.isIdentifier .parameterName
      match ← accept? (·.isMark .comma) with
      | none => return [param]
      | some _ => return param :: (← parameters bound (count + 1))

/-- `IDENTIFIER ( "," IDENTIFIER )*`, or nothing before a closing parenthesis -/
def parameterList (bound : Nat) : Reader (List Token) := do
  if ← looksAt (·.isMark .rightParen) then return []
  parameters bound 0

/-- `"fun" IDENTIFIER "(" parameters? ")" block`, behind the keyword -/
def functionDeclaration (bound : Nat) (member : Reader (Option Stmt)) : Reader Stmt := do
  let name ← expect Kind.isIdentifier .functionName
  let _ ← expect (·.isMark .leftParen) .parenAfterFunctionName
  let params ← parameterList bound
  let _ ← expect (·.isMark .rightParen) .parenAfterParameters
  let _ ← expect (·.isMark .leftBrace) .braceBeforeBody
  return .function name params (← blockBody bound member)

/-- `"if" "(" expression ")" statement ( "else" statement )?`, behind the
keyword.  An `else` belongs to the nearest `if`, which sees it first. -/
def ifStatement (bound : Nat) (inner : Reader Stmt) : Reader Stmt := do
  let _ ← expect (·.isMark .leftParen) .parenAfterIf
  let condition ← expression bound
  let _ ← expect (·.isMark .rightParen) .parenAfterIfCondition
  let whenTrue ← inner
  match ← accept? (·.isKeyword .else_) with
  | some _ => return .branch condition whenTrue (some (← inner))
  | none => return .branch condition whenTrue none

/-- `"while" "(" expression ")" statement`, behind the keyword -/
def whileStatement (bound : Nat) (inner : Reader Stmt) : Reader Stmt := do
  let _ ← expect (·.isMark .leftParen) .parenAfterWhile
  let condition ← expression bound
  let _ ← expect (·.isMark .rightParen) .parenAfterWhileCondition
  return .loop condition (← inner)

/-- The first clause of a `for`, with the semicolon that ends it. -/
def forInitializer (bound : Nat) : Reader (Option Stmt) := do
  match ← accept? (·.isMark .semicolon) with
  | some _ => return none
  | none =>
      match ← accept? (·.isKeyword .var_) with
      | some _ => some <$> variableDeclaration bound
      | none => some <$> expressionStatement bound

/-- A `for` has no node of its own: it is a block that runs the initializer and
then a loop, whose body ends with the increment. -/
def forLoop (initial : Option Stmt) (condition increment : Option Expr) (body : Stmt) :
    Stmt :=
  let round :=
    match increment with
    | some step => .block [body, .expression step]
    | none => body
  let condition := condition.getD (.constant (.bool true))
  .block (initial.toList ++ [.loop condition round])

/-- `"for" "(" ( varDecl | exprStmt | ";" ) expression? ";" expression? ")"
statement`, behind the keyword -/
def forStatement (bound : Nat) (inner : Reader Stmt) : Reader Stmt := do
  let _ ← expect (·.isMark .leftParen) .parenAfterFor
  let initial ← forInitializer bound
  let condition ← optionalExpression bound .semicolon
  let _ ← expect (·.isMark .semicolon) .semicolonAfterLoopCondition
  let increment ← optionalExpression bound .rightParen
  let _ ← expect (·.isMark .rightParen) .parenAfterForClauses
  return forLoop initial condition increment (← inner)

/-- The kinds that begin a statement other than an expression. -/
def leadsStatement : Kind → Bool
  | .keyword .for_ => true
  | .keyword .if_ => true
  | .keyword .print_ => true
  | .keyword .return_ => true
  | .keyword .while_ => true
  | .mark .leftBrace => true
  | _ => false

/-- A statement, chosen by its first token. -/
def statementRule (bound : Nat) (inner : Reader Stmt) (member : Reader (Option Stmt)) :
    Reader Stmt := do
  match ← accept? leadsStatement with
  | none => expressionStatement bound
  | some lead =>
      match lead.kind with
      | .keyword .for_ => forStatement bound inner
      | .keyword .if_ => ifStatement bound inner
      | .keyword .print_ => printStatement bound
      | .keyword .return_ => returnStatement bound lead
      | .keyword .while_ => whileStatement bound inner
      | _ => .block <$> blockBody bound member

/-- A declaration or a statement. -/
def declarationRule (bound : Nat) (inner : Reader Stmt) (member : Reader (Option Stmt)) :
    Reader Stmt := do
  match ← accept? (·.isKeyword .fun_) with
  | some _ => functionDeclaration bound member
  | none =>
      match ← accept? (·.isKeyword .var_) with
      | some _ => variableDeclaration bound
      | none => statementRule bound inner member

mutual

/-- A statement, nested less than `bound` deep. -/
def statement : Nat → Reader Stmt
  | 0 => exhausted
  | bound + 1 => statementRule (bound + 1) (statement bound) (declaration bound)

/-- A declaration, nested less than `bound` deep; none if it has a fault. -/
def declaration : Nat → Reader (Option Stmt)
  | 0 => exhausted
  | bound + 1 =>
      recover (declarationRule (bound + 1) (statement bound) (declaration bound))

end

/-- Declarations up to the end. -/
def program (bound : Nat) : Reader (List Stmt) :=
  declarationsUntil (fun _ => false) (declaration bound) bound

/-- An expression that reaches up to the end. -/
def wholeExpression (bound : Nat) : Reader Expr := do
  let value ← expression bound
  if ← atEnd then return value
  halt .endOfExpression

end Scriptlet.Reader

namespace Scriptlet

/-- What reading a token list gives: a tree or all faults, and the number of
identities handed out by then. -/
structure Parsed (α : Type) where
  result : Except (List Diagnostic) α
  issued : Nat

/-- The first identity that was not handed out. -/
def Parsed.nextId {α : Type} (parsed : Parsed α) : NodeId :=
  .ofCount parsed.issued

/-- Run a rule over a whole token list, after so many identities were handed
out.  A result counts only if nothing was reported on the way. -/
def Reader.parse {α : Type} (rule : Nat → Reader α) (tokens : List Token)
    (issued : Nat) : Parsed α :=
  let start := Cursor.ofTokens tokens issued
  match rule (start.rest.length + 1) start with
  | .ok value stop =>
      ⟨if stop.faults.isEmpty then .ok value else .error stop.faults, stop.issued⟩
  | .error (.fault diagnostic) stop => ⟨.error (stop.faults ++ [diagnostic]), stop.issued⟩
  | .error .exhausted stop => ⟨.error stop.faults, stop.issued⟩

/-- Read a program, with every fault found in it. -/
def parseProgram (tokens : List Token) (firstId : NodeId) : Parsed (List Stmt) :=
  Reader.parse Reader.program tokens firstId.toNat

/-- Read a single expression that spans the whole list. -/
def parseExpression (tokens : List Token) (firstId : NodeId) : Parsed Expr :=
  Reader.parse Reader.wholeExpression tokens firstId.toNat

end Scriptlet
