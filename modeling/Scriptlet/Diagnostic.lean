/-
Everything that can be wrong with a program or its run.  A fault is a cause;
its wording is in one function beside it.  A diagnostic says where the fault
was found and how it is reported.
-/
import Scriptlet.Token.Basic

namespace Scriptlet

inductive LexicalFault where
  | unexpected (character : Char)
  | unterminatedString
deriving DecidableEq, Repr

def LexicalFault.message : LexicalFault → String
  | unexpected character => "Unexpected character: " ++ character.toString
  | unterminatedString => "Unterminated string."

/-- What the grammar asked for, or forbids, at a token. -/
inductive GrammarFault where
  | functionName
  | parenAfterFunctionName
  | parameterName
  | parenAfterParameters
  | braceBeforeBody
  | tooManyParameters
  | variableName
  | semicolonAfterDeclaration
  | parenAfterFor
  | semicolonAfterLoopCondition
  | parenAfterForClauses
  | parenAfterIf
  | parenAfterIfCondition
  | semicolonAfterValue
  | semicolonAfterReturn
  | parenAfterWhile
  | parenAfterWhileCondition
  | semicolonAfterExpression
  | braceAfterBlock
  | assignmentTarget
  | tooManyArguments
  | parenAfterArguments
  | parenAfterExpression
  | expression
  | endOfExpression
deriving DecidableEq, Repr

def GrammarFault.message : GrammarFault → String
  | functionName => "Expect function name."
  | parenAfterFunctionName => "Expect '(' after function name."
  | parameterName => "Expect parameter name."
  | parenAfterParameters => "Expect ')' after parameters."
  | braceBeforeBody => "Expect '\x7b' before function body."
  | tooManyParameters => "Can't have more than 255 parameters."
  | variableName => "Expect variable name."
  | semicolonAfterDeclaration => "Expect ';' after variable declaration."
  | parenAfterFor => "Expect '(' after 'for'."
  | semicolonAfterLoopCondition => "Expect ';' after loop condition."
  | parenAfterForClauses => "Expect ')' after for clauses."
  | parenAfterIf => "Expect '(' after 'if'."
  | parenAfterIfCondition => "Expect ')' after if condition."
  | semicolonAfterValue => "Expect ';' after value."
  | semicolonAfterReturn => "Expect ';' after return value."
  | parenAfterWhile => "Expect '(' after 'while'."
  | parenAfterWhileCondition => "Expect ')' after condition."
  | semicolonAfterExpression => "Expect ';' after expression."
  | braceAfterBlock => "Expect '\x7d' after block."
  | assignmentTarget => "Invalid assignment target."
  | tooManyArguments => "Can't have more than 255 arguments."
  | parenAfterArguments => "Expect ')' after arguments."
  | parenAfterExpression => "Expect ')' after expression."
  | expression => "Expect expression."
  | endOfExpression => "Expect end of expression."

inductive BindingFault where
  | readInOwnInitializer
  | declaredTwice
  | returnOutsideFunction
deriving DecidableEq, Repr

def BindingFault.message : BindingFault → String
  | readInOwnInitializer => "Can't read local variable in its own initializer."
  | declaredTwice => "Already a variable with this name in this scope."
  | returnOutsideFunction => "Can't return from top-level code."

inductive RuntimeFault where
  | undefinedVariable (name : String)
  | operandNotNumber (operator : String)
  | operandsNotNumbers (operator : String)
  | operandsNotAddable
  | notUnary
  | notBinary
  | notCallable
  | argumentCount (expected given : Nat)
  | stackOverflow
  | host (message : String)
deriving DecidableEq, Repr

def RuntimeFault.message : RuntimeFault → String
  | undefinedVariable name => "Undefined variable '" ++ name ++ "'."
  | operandNotNumber operator => "Operand of '" ++ operator ++ "' must be a number."
  | operandsNotNumbers operator => "Operands of '" ++ operator ++ "' must be numbers."
  | operandsNotAddable => "Operands of '+' must be two numbers or two strings."
  | notUnary => "Invalid unary operator."
  | notBinary => "Invalid binary operator."
  | notCallable => "Can only call functions."
  | argumentCount expected given =>
      "Expected " ++ toString expected ++ " arguments but got " ++ toString given ++ "."
  | stackOverflow => "Stack overflow."
  | host message => message

/-- Why printing failed. -/
inductive SinkFault where
  | full
  | flush
deriving DecidableEq, Repr

def SinkFault.message : SinkFault → String
  | full => "sink full"
  | flush => "flush failed"

/-- Where a token stands, as the reports of a static fault name it. -/
inductive Location where
  | atEnd
  | token (lexeme : String)
deriving DecidableEq, Repr

def Location.text : Location → String
  | atEnd => " at end"
  | token lexeme => " at '" ++ lexeme ++ "'"

def Token.location (token : Token) : Location :=
  if token.kind.isEndOfInput then .atEnd else .token token.lexeme

/-- A fault and where it was found. -/
inductive Diagnostic where
  | lexical (line : Nat) (fault : LexicalFault)
  | grammar (line : Nat) (location : Location) (fault : GrammarFault)
  | binding (line : Nat) (location : Location) (fault : BindingFault)
  | runtime (line : Nat) (fault : RuntimeFault)
  | sink (fault : SinkFault)
deriving DecidableEq, Repr

namespace Diagnostic

def message : Diagnostic → String
  | lexical _ fault => fault.message
  | grammar _ _ fault => fault.message
  | binding _ _ fault => fault.message
  | runtime _ fault => fault.message
  | sink fault => fault.message

/-- A print sink has no lines. -/
def line? : Diagnostic → Option Nat
  | lexical line _ => some line
  | grammar line _ _ => some line
  | binding line _ _ => some line
  | runtime line _ => some line
  | sink _ => none

/-- Only the faults of the grammar and of binding point at a token. -/
def location? : Diagnostic → Option Location
  | grammar _ location _ => some location
  | binding _ location _ => some location
  | _ => none

/-- The report: static faults name their line first, runtime faults last. -/
def text (diagnostic : Diagnostic) : String :=
  match diagnostic with
  | lexical line fault => staticText line "" fault.message
  | grammar line location fault => staticText line location.text fault.message
  | binding line location fault => staticText line location.text fault.message
  | runtime line fault => fault.message ++ "\n[line " ++ toString line ++ "]"
  | sink fault => fault.message
where
  staticText (line : Nat) (location message : String) : String :=
    "[line " ++ toString line ++ "] Error" ++ location ++ ": " ++ message

end Diagnostic

end Scriptlet
