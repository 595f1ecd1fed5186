/-
The grammar as rules of derivation, apart from any way of reading it: which
token lists are phrases of which symbol, and with which tree.

A derivation also says how many identities were handed out before and after
its phrase, since every variable and every assignment of a tree carries one.
-/
import Scriptlet.Tree.Basic

namespace Scriptlet

abbrev Token.IsMark (token : Token) (mark : Mark) : Prop :=
  token.kind = .mark mark

abbrev Token.IsKeyword (token : Token) (keyword : Keyword) : Prop :=
  token.kind = .keyword keyword

namespace Grammar

/-- The levels of precedence of expressions, the loosest first. -/
inductive Level where
  | expression
  | assignment
  | disjunction
  | conjunction
  | equality
  | comparison
  | term
  | factor
  | unary
  | call
  | primary
deriving DecidableEq, Repr

namespace Level

/-- The next level, whose phrases are phrases of this one too. -/
def tighter? : Level → Option Level
  | expression => some assignment
  | assignment => some disjunction
  | disjunction => some conjunction
  | conjunction => some equality
  | equality => some comparison
  | comparison => some term
  | term => some factor
  | factor => some unary
  | unary => some call
  | call => some primary
  | primary => none

/-- The operators that stand between two operands at a level. -/
def operators : Level → List Kind
  | disjunction => [.keyword .or_]
  | conjunction => [.keyword .and_]
  | equality => [.mark .bangEqual, .mark .equalEqual]
  | comparison => [.mark .greater, .mark .greaterEqual, .mark .less, .mark .lessEqual]
  | term => [.mark .minus, .mark .plus]
  | factor => [.mark .slash, .mark .star]
  | _ => []

/-- The tree of two operands and the operator between them. -/
def node : Level → Expr → Token → Expr → Expr
  | disjunction => .logical
  | conjunction => .logical
  | _ => .binary

end Level

/-- What a grammar rule describes. -/
inductive Symbol where
  /-- `declarations end` -/
  | program
  /-- `expression end` -/
  | lone
  /-- `declaration*` -/
  | declarations
  | declaration
  /-- `dangling` tells whether the statement ends in an `if` without `else`, so
  that an `else` behind it could be read as its own. -/
  | statement (dangling : Bool)
  /-- `"{" declarations "}"` -/
  | block
  /-- `"var" IDENTIFIER ( "=" expression )? ";"` -/
  | variableDeclaration
  /-- `expression ";"` -/
  | expressionStatement
  /-- `variableDeclaration | expressionStatement | ";"` -/
  | initializer
  /-- `IDENTIFIER ( "," IDENTIFIER )*` -/
  | parameters
  /-- `parameters?` -/
  | parameterList
  /-- `expression?` -/
  | optionalExpression
  | expr (level : Level)
  /-- `expression ( "," expression )*` -/
  | arguments
  /-- `arguments?` -/
  | argumentList

/-- What a phrase of the symbol stands for. -/
abbrev Symbol.Tree : Symbol → Type
  | program => List Stmt
  | lone => Expr
  | declarations => List Stmt
  | declaration => Stmt
  | statement _ => Stmt
  | block => List Stmt
  | variableDeclaration => Stmt
  | expressionStatement => Stmt
  | initializer => Option Stmt
  | parameters => List Token
  | parameterList => List Token
  | optionalExpression => Option Expr
  | expr _ => Expr
  | arguments => List Expr
  | argumentList => List Expr

/-- The property for phrases of expressions; others have none to meet. -/
def onExpr (P : Nat → List Token → Expr → Nat → Prop) :
    (symbol : Symbol) → Nat → List Token → symbol.Tree → Nat → Prop
  | .expr _ => P
  | _ => fun _ _ _ _ => True

/-- Functions have, and calls give, at most this many arguments. -/
def arityLimit : Nat := 255

/-- What a loop does in one round: its body and then the increment. -/
def loopRound (body : Stmt) : Option Expr → Stmt
  | some increment => .block [body, .expression increment]
  | none => body

/-- The phrases of the grammar.  In `Derives strict symbol n tokens tree m`, the
tokens form a phrase of the symbol with that tree, `n` identities having been
handed out before and `m` by its end.  If `strict` holds, an `else` belongs to
the nearest `if` that can have it; otherwise to any. -/
inductive Derives (strict : Bool) :
    (symbol : Symbol) → Nat → List Token → symbol.Tree → Nat → Prop
  /-- `program → declarations end` -/
  | program {n m : Nat} {tokens : List Token} {body : List Stmt} {marker : Token}
      (declarations : Derives strict .declarations n tokens body m)
      (end_ : marker.kind = .endOfInput) :
      Derives strict .program n (tokens ++ [marker]) body m
  /-- `lone → expression end` -/
  | lone {n m : Nat} {tokens : List Token} {value : Expr} {marker : Token}
      (value_ : Derives strict (.expr .expression) n tokens value m)
      (end_ : marker.kind = .endOfInput) :
      Derives strict .lone n (tokens ++ [marker]) value m
  /-- `declarations →` -/
  | nothing {n : Nat} : Derives strict .declarations n [] [] n
  /-- `declarations → declaration declarations` -/
  | declarations {n k m : Nat} {tokens others : List Token} {first : Stmt}
      {rest : List Stmt}
      (head : Derives strict .declaration n tokens first k)
      (tail : Derives strict .declarations k others rest m) :
      Derives strict .declarations n (tokens ++ others) (first :: rest) m
  /-- `declaration → "fun" IDENTIFIER "(" parameterList ")" block` -/
  | function {n m : Nat} {fun_ name lparen rparen : Token}
      {paramTokens bodyTokens params : List Token} {body : List Stmt}
      (lead : fun_.IsKeyword .fun_) (identifier : name.kind = .identifier)
      (open_ : lparen.IsMark .leftParen)
      (parameters : Derives strict .parameterList n paramTokens params n)
      (close : rparen.IsMark .rightParen) (limit : params.length ≤ arityLimit)
      (block : Derives strict .block n bodyTokens body m) :
      Derives strict .declaration n
        (fun_ :: name :: lparen :: (paramTokens ++ rparen :: bodyTokens))
        (.function name params body) m
  /-- `declaration → variableDeclaration` -/
  | var_ {n m : Nat} {tokens : List Token} {tree : Stmt}
      (declaration : Derives strict .variableDeclaration n tokens tree m) :
      Derives strict .declaration n tokens tree m
  /-- `declaration → statement` -/
  | statement {n m : Nat} {tokens : List Token} {tree : Stmt} {dangling : Bool}
      (statement : Derives strict (.statement dangling) n tokens tree m) :
      Derives strict .declaration n tokens tree m
  /-- `block → "{" declarations "}"` -/
  | block {n m : Nat} {tokens : List Token} {body : List Stmt} {lbrace rbrace : Token}
      (open_ : lbrace.IsMark .leftBrace)
      (declarations : Derives strict .declarations n tokens body m)
      (close : rbrace.IsMark .rightBrace) :
      Derives strict .block n (lbrace :: (tokens ++ [rbrace])) body m
  /-- `variableDeclaration → "var" IDENTIFIER ";"` -/
  | uninitialized {n : Nat} {var_ name semicolon : Token}
      (lead : var_.IsKeyword .var_) (identifier : name.kind = .identifier)
      (end_ : semicolon.IsMark .semicolon) :
      Derives strict .variableDeclaration n [var_, name, semicolon] (.declare name none) n
  /-- `variableDeclaration → "var" IDENTIFIER "=" expression ";"` -/
  | initialized {n m : Nat} {var_ name equals semicolon : Token} {tokens : List Token}
      {initial : Expr}
      (lead : var_.IsKeyword .var_) (identifier : name.kind = .identifier)
      (equal : equals.IsMark .equal)
      (value : Derives strict (.expr .expression) n tokens initial m)
      (end_ : semicolon.IsMark .semicolon) :
      Derives strict .variableDeclaration n
        (var_ :: name :: equals :: (tokens ++ [semicolon])) (.declare name (some initial)) m
  /-- `statement → expressionStatement` -/
  | expression {n m : Nat} {tokens : List Token} {tree : Stmt}
      (statement : Derives strict .expressionStatement n tokens tree m) :
      Derives strict (.statement false) n tokens tree m
  /-- `statement → "for" "(" initializer expression? ";" expression? ")" statement`,
  which stands for a block with the initializer and a loop -/
  | for_ {n i c s m : Nat} {lead lparen semicolon rparen : Token}
      {initialTokens conditionTokens stepTokens bodyTokens : List Token}
      {initial : Option Stmt} {condition step : Option Expr} {body : Stmt}
      {dangling : Bool}
      (lead_ : lead.IsKeyword .for_) (open_ : lparen.IsMark .leftParen)
      (initializer : Derives strict .initializer n initialTokens initial i)
      (test : Derives strict .optionalExpression i conditionTokens condition c)
      (end_ : semicolon.IsMark .semicolon)
      (increment : Derives strict .optionalExpression c stepTokens step s)
      (close : rparen.IsMark .rightParen)
      (inner : Derives strict (.statement dangling) s bodyTokens body m) :
      Derives strict (.statement dangling) n
        (lead :: lparen ::
          (initialTokens ++ (conditionTokens ++ semicolon ::
            (stepTokens ++ rparen :: bodyTokens))))
        (.block (initial.toList ++
          [.loop (condition.getD (.constant (.bool true))) (loopRound body step)])) m
  /-- `statement → "if" "(" expression ")" statement` -/
  | if_ {n k m : Nat} {lead lparen rparen : Token} {conditionTokens trueTokens : List Token}
      {condition : Expr} {whenTrue : Stmt} {dangling : Bool}
      (lead_ : lead.IsKeyword .if_) (open_ : lparen.IsMark .leftParen)
      (test : Derives strict (.expr .expression) n conditionTokens condition k)
      (close : rparen.IsMark .rightParen)
      (inner : Derives strict (.statement dangling) k trueTokens whenTrue m) :
      Derives strict (.statement true) n
        (lead :: lparen :: (conditionTokens ++ rparen :: trueTokens))
        (.branch condition whenTrue none) m
  /-- `statement → "if" "(" expression ")" statement "else" statement` -/
  | ifElse {n k l m : Nat} {lead lparen rparen else_ : Token}
      {conditionTokens trueTokens falseTokens : List Token}
      {condition : Expr} {whenTrue whenFalse : Stmt} {danglingTrue dangling : Bool}
      (lead_ : lead.IsKeyword .if_) (open_ : lparen.IsMark .leftParen)
      (test : Derives strict (.expr .expression) n conditionTokens condition k)
      (close : rparen.IsMark .rightParen)
      (inner : Derives strict (.statement danglingTrue) k trueTokens whenTrue l)
      (nearest : strict → danglingTrue = false)
      (or_ : else_.IsKeyword .else_)
      (other : Derives strict (.statement dangling) l falseTokens whenFalse m) :
      Derives strict (.statement dangling) n
        (lead :: lparen :: (conditionTokens ++ rparen ::
          (trueTokens ++ else_ :: falseTokens)))
        (.branch condition whenTrue (some whenFalse)) m
  /-- `statement → "print" expression ";"` -/
  | print {n m : Nat} {lead semicolon : Token} {tokens : List Token} {value : Expr}
      (lead_ : lead.IsKeyword .print_)
      (value_ : Derives strict (.expr .expression) n tokens value m)
      (end_ : semicolon.IsMark .semicolon) :
      Derives strict (.statement false) n (lead :: (tokens ++ [semicolon])) (.print value) m
  /-- `statement → "return" expression? ";"` -/
  | return_ {n m : Nat} {lead semicolon : Token} {tokens : List Token} {value : Option Expr}
      (lead_ : lead.IsKeyword .return_)
      (value_ : Derives strict .optionalExpression n tokens value m)
      (end_ : semicolon.IsMark .semicolon) :
      Derives strict (.statement false) n (lead :: (tokens ++ [semicolon]))
        (.leave lead value) m
  /-- `statement → "while" "(" expression ")" statement` -/
  | while_ {n k m : Nat} {lead lparen rparen : Token} {conditionTokens bodyTokens : List Token}
      {condition : Expr} {body : Stmt} {dangling : Bool}
      (lead_ : lead.IsKeyword .while_) (open_ : lparen.IsMark .leftParen)
      (test : Derives strict (.expr .expression) n conditionTokens condition k)
      (close : rparen.IsMark .rightParen)
      (inner : Derives strict (.statement dangling) k bodyTokens body m) :
      Derives strict (.statement dangling) n
        (lead :: lparen :: (conditionTokens ++ rparen :: bodyTokens))
        (.loop condition body) m
  /-- `statement → block` -/
  | blockStatement {n m : Nat} {tokens : List Token} {body : List Stmt}
      (block : Derives strict .block n tokens body m) :
      Derives strict (.statement false) n tokens (.block body) m
  /-- `expressionStatement → expression ";"` -/
  | expressionStatement {n m : Nat} {tokens : List Token} {value : Expr} {semicolon : Token}
      (value_ : Derives strict (.expr .expression) n tokens value m)
      (end_ : semicolon.IsMark .semicolon) :
      Derives strict .expressionStatement n (tokens ++ [semicolon]) (.expression value) m
  /-- `initializer → ";"` -/
  | noInitializer {n : Nat} {semicolon : Token} (end_ : semicolon.IsMark .semicolon) :
      Derives strict .initializer n [semicolon] none n
  /-- `initializer → variableDeclaration` -/
  | initialVariable {n m : Nat} {tokens : List Token} {tree : Stmt}
      (declaration : Derives strict .variableDeclaration n tokens tree m) :
      Derives strict .initializer n tokens (some tree) m
  /-- `initializer → expressionStatement` -/
  | initialExpression {n m : Nat} {tokens : List Token} {tree : Stmt}
      (statement : Derives strict .expressionStatement n tokens tree m) :
      Derives strict .initializer n tokens (some tree) m
  /-- `parameters → IDENTIFIER` -/
  | parameter {n : Nat} {name : Token} (identifier : name.kind = .identifier) :
      Derives strict .parameters n [name] [name] n
  /-- `parameters → IDENTIFIER "," parameters` -/
  | parameters {n : Nat} {name comma : Token} {tokens params : List Token}
      (identifier : name.kind = .identifier) (comma_ : comma.IsMark .comma)
      (tail : Derives strict .parameters n tokens params n) :
      Derives strict .parameters n (name :: comma :: tokens) (name :: params) n
  /-- `parameterList →` -/
  | noParameters {n : Nat} : Derives strict .parameterList n [] [] n
  /-- `parameterList → parameters` -/
  | someParameters {n : Nat} {tokens params : List Token}
      (parameters : Derives strict .parameters n tokens params n) :
      Derives strict .parameterList n tokens params n
  /-- `expression? →` -/
  | noExpression {n : Nat} : Derives strict .optionalExpression n [] none n
  /-- `expression? → expression` -/
  | someExpression {n m : Nat} {tokens : List Token} {value : Expr}
      (value_ : Derives strict (.expr .expression) n tokens value m) :
      Derives strict .optionalExpression n tokens (some value) m
  /-- `looser → tighter` -/
  | tighter {n m : Nat} {level next : Level} {tokens : List Token} {value : Expr}
      (tighter : level.tighter? = some next)
      (value_ : Derives strict (.expr next) n tokens value m) :
      Derives strict (.expr level) n tokens value m
  /-- `assignment → IDENTIFIER "=" assignment`.  The identity that the target had
  as a variable is not used in the tree. -/
  | assign {n m : Nat} {name equals : Token} {tokens : List Token} {value : Expr}
      (identifier : name.kind = .identifier) (equal : equals.IsMark .equal)
      (value_ : Derives strict (.expr .assignment) (n + 1) tokens value m) :
      Derives strict (.expr .assignment) n (name :: equals :: tokens)
        (.assign (.ofCount m) name value) (m + 1)
  /-- `level → level operator tighter`, which is `tighter ( operator tighter )*`
  grouped from the left -/
  | operator {n k m : Nat} {level next : Level} {tokens others : List Token}
      {sign : Token} {left right : Expr}
      (tighter : level.tighter? = some next)
      (left_ : Derives strict (.expr level) n tokens left k)
      (sign_ : sign.kind ∈ level.operators)
      (right_ : Derives strict (.expr next) k others right m) :
      Derives strict (.expr level) n (tokens ++ sign :: others) (level.node left sign right) m
  /-- `unary → ( "!" | "-" ) unary` -/
  | unary {n m : Nat} {sign : Token} {tokens : List Token} {operand : Expr}
      (sign_ : sign.IsMark .bang ∨ sign.IsMark .minus)
      (operand_ : Derives strict (.expr .unary) n tokens operand m) :
      Derives strict (.expr .unary) n (sign :: tokens) (.unary sign operand) m
  /-- `call → call "(" argumentList ")"`, which is `primary ( "(" argumentList ")" )*` -/
  | call {n k m : Nat} {tokens argumentTokens : List Token} {lparen rparen : Token}
      {callee : Expr} {arguments : List Expr}
      (callee_ : Derives strict (.expr .call) n tokens callee k)
      (open_ : lparen.IsMark .leftParen)
      (arguments_ : Derives strict .argumentList k argumentTokens arguments m)
      (close : rparen.IsMark .rightParen) (limit : arguments.length ≤ arityLimit) :
      Derives strict (.expr .call) n (tokens ++ lparen :: (argumentTokens ++ [rparen]))
        (.call callee rparen arguments) m
  /-- `primary → NUMBER` -/
  | number {n : Nat} {token : Token} {value : Float} (literal : token.kind = .number value) :
      Derives strict (.expr .primary) n [token] (.constant (.number value)) n
  /-- `primary → STRING` -/
  | string {n : Nat} {token : Token} {text : String} (literal : token.kind = .string text) :
      Derives strict (.expr .primary) n [token] (.constant (.string text)) n
  /-- `primary → "true"` -/
  | true_ {n : Nat} {token : Token} (word : token.IsKeyword .true_) :
      Derives strict (.expr .primary) n [token] (.constant (.bool true)) n
  /-- `primary → "false"` -/
  | false_ {n : Nat} {token : Token} (word : token.IsKeyword .false_) :
      Derives strict (.expr .primary) n [token] (.constant (.bool false)) n
  /-- `primary → "nil"` -/
  | nil_ {n : Nat} {token : Token} (word : token.IsKeyword .nil_) :
      Derives strict (.expr .primary) n [token] (.constant .nil) n
  /-- `primary → IDENTIFIER` -/
  | name {n : Nat} {token : Token} (identifier : token.kind = .identifier) :
      Derives strict (.expr .primary) n [token] (.variable (.ofCount n) token) (n + 1)
  /-- `primary → "(" expression ")"` -/
  | group {n m : Nat} {lparen rparen : Token} {tokens : List Token} {inner : Expr}
      (open_ : lparen.IsMark .leftParen)
      (inner_ : Derives strict (.expr .expression) n tokens inner m)
      (close : rparen.IsMark .rightParen) :
      Derives strict (.expr .primary) n (lparen :: (tokens ++ [rparen])) (.group inner) m
  /-- `arguments → expression` -/
  | argument {n m : Nat} {tokens : List Token} {value : Expr}
      (value_ : Derives strict (.expr .expression) n tokens value m) :
      Derives strict .arguments n tokens [value] m
  /-- `arguments → expression "," arguments` -/
  | arguments {n k m : Nat} {tokens others : List Token} {comma : Token} {value : Expr}
      {values : List Expr}
      (value_ : Derives strict (.expr .expression) n tokens value k)
      (comma_ : comma.IsMark .comma)
      (tail : Derives strict .arguments k others values m) :
      Derives strict .arguments n (tokens ++ comma :: others) (value :: values) m
  /-- `argumentList →` -/
  | noArguments {n : Nat} : Derives strict .argumentList n [] [] n
  /-- `argumentList → arguments` -/
  | someArguments {n m : Nat} {tokens : List Token} {values : List Expr}
      (arguments : Derives strict .arguments n tokens values m) :
      Derives strict .argumentList n tokens values m

section Tight

variable {strict : Bool} {n m : Nat} {tokens : List Token} {value : Expr}

theorem Derives.unary_of_primary (h : Derives strict (.expr .primary) n tokens value m) :
    Derives strict (.expr .unary) n tokens value m :=
  .tighter rfl (.tighter rfl h)

theorem Derives.assignment_of_unary (h : Derives strict (.expr .unary) n tokens value m) :
    Derives strict (.expr .assignment) n tokens value m :=
  .tighter rfl (.tighter rfl (.tighter rfl (.tighter rfl (.tighter rfl (.tighter rfl
    (.tighter rfl h))))))

/-- An operand needs no parentheses to be a whole expression. -/
theorem Derives.expression_of_unary (h : Derives strict (.expr .unary) n tokens value m) :
    Derives strict (.expr .expression) n tokens value m :=
  .tighter rfl h.assignment_of_unary

end Tight

end Grammar

end Scriptlet
