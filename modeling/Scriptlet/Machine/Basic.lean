/-
The state that a running program works on, and the single steps it takes.
-/
import Scriptlet.Binding.Table
import Scriptlet.Operator
import Scriptlet.Sink

namespace Scriptlet

/-- The clock of the host, given by the times in milliseconds that it shows at the host calls
still to come.  It may stand still, jump and be set back, so a run is told them and no law of
theirs is assumed. -/
structure Clock where
  reading : Nat → Int

namespace Clock

/-- The time that the next host call finds. -/
def now (clock : Clock) : Int := clock.reading 0

/-- The clock after a host call. -/
def later (clock : Clock) : Clock := ⟨fun calls => clock.reading (calls + 1)⟩

/-- A clock on which a millisecond passes with every host call. -/
def ticking (start : Int) : Clock := ⟨fun calls => start + calls⟩

/-- A numeral stands for the clock that always shows it. -/
instance (time : Nat) : OfNat Clock time := ⟨⟨fun _ => time⟩⟩

end Clock

/-- The part of the state that has nothing to do with variables. -/
structure Outside where
  sink : Sink
  /-- The number of calls that have not ended. -/
  depth : Nat
  clock : Clock
  nextIdentity : Nat

structure Machine extends Outside where
  scopes : ScopeTree Value
  /-- The scope in which statements run. -/
  current : Nat
  table : Table

/-- Why a run ended before its time. -/
inductive Stop where
  | fault (diagnostic : Diagnostic)
  /-- The side table does not fit the scopes. -/
  | defect (defect : ScopeDefect)
  /-- The bound on the number of steps was too small. -/
  | exhausted

/-- What a piece of a program does: it changes the machine and gives a result
or stops. -/
abbrev Eval := EStateM Stop Machine

/-- States that have such a part, whatever else they keep for variables. -/
class HasOutside (State : Type) where
  outside : State → Outside
  modifyOutside : (Outside → Outside) → State → State

instance : HasOutside Machine where
  outside := Machine.toOutside
  modifyOutside change machine := { machine with toOutside := change machine.toOutside }

namespace Machine

/-- The scope of the global names, the first of every machine. -/
def globals : Nat := 0

/-- A machine before its first program: the clock is the only global. -/
def initial (sink : Sink) (clock : Clock) : Machine where
  scopes := ScopeTree.empty.root.define globals HostAction.clock.name (.host ⟨.clock, 0, 0⟩)
  current := globals
  table := .empty
  sink := sink
  depth := 0
  clock := clock
  nextIdentity := 1

/-- Add a side table, whose entries replace older ones. -/
def addTable (machine : Machine) (table : Table) : Machine :=
  { machine with table := machine.table.merge table }

end Machine

namespace Eval

section Run

variable {State α β : Type}

@[simp] theorem pure_apply (value : α) (state : State) :
    (pure value : EStateM Stop State α) state = .ok value state := rfl

@[simp] theorem throw_apply (stop : Stop) (state : State) :
    (throw stop : EStateM Stop State α) state = .error stop state := rfl

@[simp] theorem get_apply (state : State) :
    (get : EStateM Stop State State) state = .ok state state := rfl

@[simp] theorem modify_apply (change : State → State) (state : State) :
    (modify change : EStateM Stop State Unit) state = .ok () (change state) := rfl

/-- The second action begins where the first one ended; a stop ends both. -/
@[simp] theorem bind_apply (action : EStateM Stop State α) (next : α → EStateM Stop State β)
    (state : State) :
    (action >>= next) state =
      match action state with
      | .ok value after => next value after
      | .error stop after => .error stop after := by
  cases h : action state <;> simp [bind, EStateM.bind, h]

end Run

section Outside

variable {State Place α : Type}

/-- Stop with a fault on the line of a token. -/
def fail (token : Token) (fault : RuntimeFault) : EStateM Stop State α :=
  throw (.fault (.runtime token.line fault))

/-- Take over a result; its fault is one of the given token. -/
def lift (token : Token) : Except RuntimeFault α → EStateM Stop State α
  | .ok value => pure value
  | .error fault => fail token fault

variable [HasOutside State]

open HasOutside

/-- An identity that no function has yet. -/
def freshIdentity : EStateM Stop State Nat := fun state =>
  .ok (outside state).nextIdentity
    (modifyOutside (fun o => { o with nextIdentity := o.nextIdentity + 1 }) state)

/-- Act as one more call that has not ended. -/
def deeper (action : EStateM Stop State α) : EStateM Stop State α := fun state =>
  let leave := modifyOutside fun o : Outside => { o with depth := o.depth - 1 }
  match action (modifyOutside (fun o => { o with depth := o.depth + 1 }) state) with
  | .ok value after => .ok value (leave after)
  | .error stop after => .error stop (leave after)

/-- Print a line.  What fits is written even if the line does not. -/
def printLine (text : String) : EStateM Stop State Unit := fun state =>
  let line := text ++ "\n"
  let write := modifyOutside fun o : Outside => { o with sink := o.sink.write line }
  if (outside state).sink.fits line then .ok () (write state)
  else .error (.fault (.sink .full)) (write state)

def flush : EStateM Stop State Unit := fun state =>
  if (outside state).sink.flushFails then .error (.fault (.sink .flush)) state
  else .ok () state

/-- Call a host function at the time that the clock shows. -/
def callHost (function : HostFunction) (arguments : List (ValueIn Place)) (paren : Token) :
    EStateM Stop State (ValueIn Place) := fun state =>
  let tick := modifyOutside fun o : Outside => { o with clock := o.clock.later }
  match function.action.run (outside state).clock.now arguments with
  | .ok value => .ok value (tick state)
  | .error message => fail paren (.host message) (tick state)

/-- The number of nested calls that a run may reach. -/
def maxDepth : Nat := 1000

/-- A call of something with the right number of arguments, unless calls are
nested too deep. -/
def checkCall (callee : ValueIn Place) (arguments : List (ValueIn Place)) (paren : Token) :
    EStateM Stop State (CallableIn Place) := fun state =>
  match callee.callable? with
  | none => fail paren .notCallable state
  | some function =>
      if arguments.length ≠ function.arity then
        fail paren (.argumentCount function.arity arguments.length) state
      else if maxDepth ≤ (outside state).depth then fail paren .stackOverflow state
      else .ok function state

end Outside

/-- Bind a name in the current scope. -/
def define (name : String) (value : Value) : Eval Unit :=
  modify fun machine =>
    { machine with scopes := machine.scopes.define machine.current name value }

/-- Read an occurrence of a variable: at its distance if the side table has
one, otherwise among the globals. -/
def readVariable (id : NodeId) (name : Token) : Eval Value := fun machine =>
  match machine.table.distance? id with
  | some distance =>
      match machine.scopes.readAt machine.current distance name.lexeme with
      | .ok value => .ok value machine
      | .error defect => .error (.defect defect) machine
  | none =>
      match machine.scopes.lookup? Machine.globals name.lexeme with
      | some value => .ok value machine
      | none => fail name (.undefinedVariable name.lexeme) machine

/-- The scope that an assignment to an occurrence changes.  A global must have
been declared. -/
def assignmentScope (id : NodeId) (name : Token) : Eval Nat := fun machine =>
  match machine.table.distance? id with
  | some distance =>
      match machine.scopes.scopeAt machine.current distance with
      | .ok target => .ok target machine
      | .error defect => .error (.defect defect) machine
  | none =>
      match machine.scopes.holder? name.lexeme Machine.globals with
      | some target => .ok target machine
      | none => fail name (.undefinedVariable name.lexeme) machine

def writeVariable (id : NodeId) (name : Token) (value : Value) : Eval Unit := do
  let target ← assignmentScope id name
  modify fun machine =>
    { machine with scopes := machine.scopes.define target name.lexeme value }

/-- Open a scope inside the given one. -/
def openScope (parent : Nat) : Eval Nat := fun machine =>
  .ok machine.scopes.size { machine with scopes := machine.scopes.child parent }

/-- Act in another scope and come back, whatever happens there. -/
def within {α : Type} (scope : Nat) (action : Eval α) : Eval α := fun machine =>
  let outside := machine.current
  match action { machine with current := scope } with
  | .ok value after => .ok value { after with current := outside }
  | .error stop after => .error stop { after with current := outside }

end Eval

end Scriptlet
