/-
The kinds of lexeme: punctuation marks and reserved words, each with one
spelling, identifiers, and the literals, which carry their value.
-/

namespace Scriptlet

/-- Punctuation and operators. -/
inductive Mark where
  | leftParen
  | rightParen
  | leftBrace
  | rightBrace
  | comma
  | dot
  | minus
  | plus
  | semicolon
  | slash
  | star
  | bang
  | bangEqual
  | equal
  | equalEqual
  | greater
  | greaterEqual
  | less
  | lessEqual
deriving DecidableEq, Repr

namespace Mark

def spelling : Mark → String
  | leftParen => "("
  | rightParen => ")"
  | leftBrace => "\x7b"
  | rightBrace => "\x7d"
  | comma => ","
  | dot => "."
  | minus => "-"
  | plus => "+"
  | semicolon => ";"
  | slash => "/"
  | star => "*"
  | bang => "!"
  | bangEqual => "!="
  | equal => "="
  | equalEqual => "=="
  | greater => ">"
  | greaterEqual => ">="
  | less => "<"
  | lessEqual => "<="

/-- The word for the mark in a token listing. -/
def name : Mark → String
  | leftParen => "LEFT_PAREN"
  | rightParen => "RIGHT_PAREN"
  | leftBrace => "LEFT_BRACE"
  | rightBrace => "RIGHT_BRACE"
  | comma => "COMMA"
  | dot => "DOT"
  | minus => "MINUS"
  | plus => "PLUS"
  | semicolon => "SEMICOLON"
  | slash => "SLASH"
  | star => "STAR"
  | bang => "BANG"
  | bangEqual => "BANG_EQUAL"
  | equal => "EQUAL"
  | equalEqual => "EQUAL_EQUAL"
  | greater => "GREATER"
  | greaterEqual => "GREATER_EQUAL"
  | less => "LESS"
  | lessEqual => "LESS_EQUAL"

def all : List Mark :=
  [leftParen, rightParen, leftBrace, rightBrace, comma, dot, minus, plus, semicolon, slash,
    star, bang, bangEqual, equal, equalEqual, greater, greaterEqual, less, lessEqual]

/-- The mark with the given spelling. -/
def ofSpelling? (text : String) : Option Mark :=
  all.find? fun mark => mark.spelling == text

/-- The mark with the given listing name. -/
def ofName? (text : String) : Option Mark :=
  all.find? fun mark => mark.name == text

end Mark

/-- Reserved words. -/
inductive Keyword where
  | and_
  | class_
  | else_
  | false_
  | fun_
  | for_
  | if_
  | nil_
  | or_
  | print_
  | return_
  | super_
  | this_
  | true_
  | var_
  | while_
deriving DecidableEq, Repr

namespace Keyword

def spelling : Keyword → String
  | and_ => "and"
  | class_ => "class"
  | else_ => "else"
  | false_ => "false"
  | fun_ => "fun"
  | for_ => "for"
  | if_ => "if"
  | nil_ => "nil"
  | or_ => "or"
  | print_ => "print"
  | return_ => "return"
  | super_ => "super"
  | this_ => "this"
  | true_ => "true"
  | var_ => "var"
  | while_ => "while"

/-- The word for the keyword in a token listing. -/
def name : Keyword → String
  | and_ => "AND"
  | class_ => "CLASS"
  | else_ => "ELSE"
  | false_ => "FALSE"
  | fun_ => "FUN"
  | for_ => "FOR"
  | if_ => "IF"
  | nil_ => "NIL"
  | or_ => "OR"
  | print_ => "PRINT"
  | return_ => "RETURN"
  | super_ => "SUPER"
  | this_ => "THIS"
  | true_ => "TRUE"
  | var_ => "VAR"
  | while_ => "WHILE"

def all : List Keyword :=
  [and_, class_, else_, false_, fun_, for_, if_, nil_, or_, print_, return_, super_, this_,
    true_, var_, while_]

/-- The keyword with the given spelling. -/
def ofSpelling? (text : String) : Option Keyword :=
  all.find? fun keyword => keyword.spelling == text

/-- The keyword with the given listing name. -/
def ofName? (text : String) : Option Keyword :=
  all.find? fun keyword => keyword.name == text

end Keyword

/-- What a lexeme is.  Literals carry the value they denote. -/
inductive Kind where
  | mark (mark : Mark)
  | keyword (keyword : Keyword)
  | identifier
  | string (text : String)
  | number (value : Float)
  | endOfInput

namespace Kind

/-- Whether two kinds are the same, the values of literals aside. -/
def same : Kind → Kind → Bool
  | mark a, mark b => a == b
  | keyword a, keyword b => a == b
  | identifier, identifier => true
  | string _, string _ => true
  | number _, number _ => true
  | endOfInput, endOfInput => true
  | _, _ => false

/-- The word for the kind in a token listing. -/
def name : Kind → String
  | mark m => m.name
  | keyword k => k.name
  | identifier => "IDENTIFIER"
  | string _ => "STRING"
  | number _ => "NUMBER"
  | endOfInput => "EOF"

def isMark (m : Mark) : Kind → Bool
  | mark a => a == m
  | _ => false

def isKeyword (k : Keyword) : Kind → Bool
  | keyword a => a == k
  | _ => false

def isIdentifier : Kind → Bool
  | identifier => true
  | _ => false

def isEndOfInput : Kind → Bool
  | endOfInput => true
  | _ => false

end Kind

end Scriptlet
