/-
Which declaration every variable occurrence means.

A block opens a scope, and so does a function for its parameters and body
together; the outermost level has none and its names are global.  Scopes are
lists of the names declared so far, the innermost scope first.  Walking a tree
gives the entries of the side table and the binding faults, both in source
order.
-/
import Scriptlet.Binding.Table
import Scriptlet.Diagnostic

namespace Scriptlet.Binding

/-- The names declared so far in each open scope, innermost first. -/
abbrev Scopes := List (List String)

/-- What a part of a tree contributes. -/
structure Findings where
  entries : List (NodeId × Nat)
  faults : List Diagnostic

namespace Findings

def empty : Findings := ⟨[], []⟩

def fault (token : Token) (fault : BindingFault) : Findings :=
  ⟨[], [.binding token.line token.location fault]⟩

instance : Append Findings where
  append a b := ⟨a.entries ++ b.entries, a.faults ++ b.faults⟩

end Findings

/-- How many scopes out the name is declared. -/
def distance? (scopes : Scopes) (name : String) : Option Nat :=
  scopes.findIdx? fun names => names.contains name

/-- The entry of one occurrence; a global has none. -/
def occurrence (scopes : Scopes) (id : NodeId) (name : Token) : Findings :=
  match distance? scopes name.lexeme with
  | some distance => ⟨[(id, distance)], []⟩
  | none => .empty

/-- Whether the innermost scope declares the name already. -/
def declaredHere (scopes : Scopes) (name : String) : Bool :=
  match scopes with
  | names :: _ => names.contains name
  | [] => false

/-- Add a name to the innermost scope; global names are not kept. -/
def declare (scopes : Scopes) (name : String) : Scopes :=
  match scopes with
  | names :: outer => (if names.contains name then names else name :: names) :: outer
  | [] => []

/-- A local scope takes each name once. -/
def redeclaration (scopes : Scopes) (name : Token) : Findings :=
  if declaredHere scopes name.lexeme then .fault name .declaredTwice else .empty

mutual

/-- `pending` is the local variable whose initializer is being read, unless its
name was declared before. -/
def inExpr (scopes : Scopes) (pending : Option String) : Expr → Findings
  | .constant _ => .empty
  | .group inner => inExpr scopes pending inner
  | .unary _ operand => inExpr scopes pending operand
  | .binary left _ right => inExpr scopes pending left ++ inExpr scopes pending right
  | .logical left _ right => inExpr scopes pending left ++ inExpr scopes pending right
  | .variable id name =>
      (if pending = some name.lexeme then .fault name .readInOwnInitializer else .empty) ++
        occurrence scopes id name
  | .assign id name value => inExpr scopes pending value ++ occurrence scopes id name
  | .call callee _ arguments =>
      inExpr scopes pending callee ++ inExprs scopes pending arguments

def inExprs (scopes : Scopes) (pending : Option String) : List Expr → Findings
  | [] => .empty
  | first :: rest => inExpr scopes pending first ++ inExprs scopes pending rest

end

/-- The parameters of a function, declared one after the other. -/
def inParams (scopes : Scopes) : List Token → Findings × Scopes
  | [] => (.empty, scopes)
  | param :: rest =>
      let (found, after) := inParams (declare scopes param.lexeme) rest
      (redeclaration scopes param ++ found, after)

/-- The variable that must not be read while its initializer is evaluated. -/
def pendingOf (scopes : Scopes) (name : String) : Option String :=
  if scopes.isEmpty || declaredHere scopes name then none else some name

mutual

/-- `inFunction` tells whether a function body surrounds the statement.  The
scopes change by what the statement declares. -/
def inStmt (inFunction : Bool) (scopes : Scopes) : Stmt → Findings × Scopes
  | .expression value => (inExpr scopes none value, scopes)
  | .print value => (inExpr scopes none value, scopes)
  | .declare name none =>
      (redeclaration scopes name, declare scopes name.lexeme)
  | .declare name (some initial) =>
      let inside := declare scopes name.lexeme
      (redeclaration scopes name ++
        inExpr inside (pendingOf scopes name.lexeme) initial, inside)
  | .block body => ((inStmts inFunction ([] :: scopes) body).1, scopes)
  | .branch condition whenTrue none =>
      let (found, after) := inStmt inFunction scopes whenTrue
      (inExpr scopes none condition ++ found, after)
  | .branch condition whenTrue (some whenFalse) =>
      let (foundTrue, between) := inStmt inFunction scopes whenTrue
      let (foundFalse, after) := inStmt inFunction between whenFalse
      (inExpr scopes none condition ++ foundTrue ++ foundFalse, after)
  | .loop condition body =>
      let (found, after) := inStmt inFunction scopes body
      (inExpr scopes none condition ++ found, after)
  | .function name params body =>
      let inside := declare scopes name.lexeme
      let (foundParams, bodyScopes) := inParams ([] :: inside) params
      (redeclaration scopes name ++ foundParams ++ (inStmts true bodyScopes body).1, inside)
  | .leave keyword none =>
      (if inFunction then .empty else .fault keyword .returnOutsideFunction, scopes)
  | .leave keyword (some value) =>
      ((if inFunction then .empty else .fault keyword .returnOutsideFunction) ++
        inExpr scopes none value, scopes)

def inStmts (inFunction : Bool) (scopes : Scopes) : List Stmt → Findings × Scopes
  | [] => (.empty, scopes)
  | first :: rest =>
      let (foundFirst, between) := inStmt inFunction scopes first
      let (foundRest, after) := inStmts inFunction between rest
      (foundFirst ++ foundRest, after)

end

/-- Everything found in a program. -/
def findings (program : List Stmt) : Findings :=
  (inStmts false [] program).1

end Scriptlet.Binding

namespace Scriptlet

/-- The side table of a program, or all its binding faults. -/
def resolve (program : List Stmt) : Except (List Diagnostic) Table :=
  let found := Binding.findings program
  if found.faults.isEmpty then .ok (.ofList found.entries) else .error found.faults

end Scriptlet
