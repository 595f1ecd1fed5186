/-
Properties that a rule of the reader has because its parts have them.

The rules are put together from few steps.  Where a property goes over from the steps to what is
made of them, it holds of every rule: the walk over the grammar is made here, once for all such
properties, first over expressions and then over statements.
-/
import Scriptlet.Proofs.Grammar.Boundary

namespace Scriptlet

/-- Faults of what was read, not of a token that cannot stand where it does. -/
def GrammarFault.isMild : GrammarFault → Bool
  | .assignmentTarget => true
  | .tooManyParameters => true
  | .tooManyArguments => true
  | _ => false

theorem GrammarFault.isMild_iff {fault : GrammarFault} :
    fault.isMild = true ↔ fault.message ∈ ["Invalid assignment target.",
      "Can't have more than 255 parameters.", "Can't have more than 255 arguments."] := by
  cases fault <;> simp [GrammarFault.isMild, GrammarFault.message]

def Diagnostic.isMild : Diagnostic → Bool
  | .grammar _ _ fault => fault.isMild
  | _ => false

theorem Cursor.isMild_diagnose (cursor : Cursor) (fault : GrammarFault) :
    (cursor.diagnose fault).isMild = fault.isMild := by
  unfold Cursor.diagnose
  split <;> rfl

namespace Reading

open Reader

/-- What may be asked of a rule.  It begins where fewer tokens than `bound` are left, and if it
succeeds it is to take `taken` of them; the second rule is the same one with larger bounds.  A
property may leave some of this out of account. -/
abbrev Property :=
  (taken bound : Nat) → ∀ {α : Type}, Reader α → Reader α → Prop

/-- The property goes over to rules made of single steps.  Tokens of the barred kinds are not
taken. -/
structure StepLaws (barred : List Kind) (Φ : Property) : Prop where
  weaken {α : Type} {taken bound fewer less : Nat} {rule longer : Reader α} :
    Φ taken bound rule longer → fewer ≤ taken → less ≤ bound → Φ fewer less rule longer
  done {α : Type} {bound : Nat} (value : α) : Φ 0 bound (pure value) (pure value)
  andThen {α β : Type} {taken more bound : Nat} {rule longer : Reader α}
    {next next' : α → Reader β} :
    Φ taken bound rule longer → (∀ value, Φ more (bound - taken) (next value) (next' value)) →
      Φ (taken + more) bound (rule >>= next) (longer >>= next')
  exhausted {α : Type} {taken : Nat} (longer : Reader α) : Φ taken 0 exhausted longer
  halt {α : Type} {taken bound : Nat} {fault : GrammarFault} :
    fault.isMild = false → Φ taken bound (halt fault : Reader α) (halt fault)
  freshId {bound : Nat} : Φ 0 bound freshId freshId
  looksAt {bound : Nat} (test : Kind → Bool) : Φ 0 bound (looksAt test) (looksAt test)
  accept {β : Type} {taken bound : Nat} {test : Kind → Bool}
    {next next' : Option Token → Reader β} :
    (∀ kind ∈ barred, test kind = false) → taken ≤ 1 →
      (∀ token, test token.kind = true →
        Φ 0 (bound - 1) (next (some token)) (next' (some token))) →
      Φ taken bound (next none) (next' none) →
        Φ taken bound (accept? test >>= next) (accept? test >>= next')

/-- The tokens that end statements and blocks, or begin blocks. -/
def separators : List Kind :=
  [.mark .semicolon, .mark .leftBrace, .mark .rightBrace]

/-- So it holds of the rules of expressions. -/
structure ExpressionLaws (barred : List Kind) (Φ : Property) : Prop extends
    StepLaws barred Φ where
  barred_subset : barred ⊆ separators
  report {bound : Nat} {diagnostic : Diagnostic} :
    diagnostic.isMild = true → Φ 0 bound (report diagnostic) (report diagnostic)
  reportHere {bound : Nat} {fault : GrammarFault} :
    fault.isMild = true → Φ 0 bound (reportHere fault) (reportHere fault)

namespace StepLaws

variable {barred : List Kind} {Φ : Property} (laws : StepLaws barred Φ) {α β : Type}
  {taken bound : Nat} {rule longer : Reader α} {next next' : α → Reader β}
include laws

theorem free (h : Φ taken bound rule longer) : Φ 0 bound rule longer :=
  laws.weaken h (Nat.zero_le _) (Nat.le_refl _)

/-- What stands behind a rule need not take anything. -/
theorem bind (h : Φ taken bound rule longer)
    (hnext : ∀ value, Φ 0 bound (next value) (next' value)) :
    Φ taken bound (rule >>= next) (longer >>= next') :=
  laws.andThen h fun value => laws.weaken (hnext value) (Nat.le_refl 0) (Nat.sub_le _ _)

/-- What stands before a rule need not take anything. -/
theorem skip (h : Φ 0 bound rule longer)
    (hnext : ∀ value, Φ taken bound (next value) (next' value)) :
    Φ taken bound (rule >>= next) (longer >>= next') := by
  have hboth := laws.andThen h hnext
  rwa [Nat.zero_add] at hboth

/-- Behind a rule that takes a token, a smaller bound will do. -/
theorem first (h : Φ 1 bound rule longer)
    (hnext : ∀ value, Φ 0 (bound - 1) (next value) (next' value)) :
    Φ 1 bound (rule >>= next) (longer >>= next') :=
  laws.andThen h hnext

theorem before (h : Φ taken bound rule longer) (result : α → β) :
    Φ taken bound (rule >>= fun value => pure (result value))
      (longer >>= fun value => pure (result value)) :=
  laws.bind h fun value => laws.done (result value)

theorem map (h : Φ taken bound rule longer) (result : α → β) :
    Φ taken bound (result <$> rule) (result <$> longer) := by
  rw [map_eq_pure_bind, map_eq_pure_bind]
  exact laws.before h result

theorem expect {test : Kind → Bool} (htest : ∀ kind ∈ barred, test kind = false)
    {fault : GrammarFault} (hgrave : fault.isMild = false) :
    Φ 1 bound (expect test fault) (expect test fault) := by
  apply laws.accept htest (Nat.le_refl 1)
  · exact fun token _ => laws.done token
  · exact laws.halt hgrave

end StepLaws

/-! ### Lists -/

/-- What lists of arguments and of parameters have in common. -/
def items {α : Type} (fault : GrammarFault) (item : Reader α) : Nat → Nat → Reader (List α)
  | 0, _ => exhausted
  | bound + 1, count => do
      limit count fault
      let first ← item
      match ← accept? (·.isMark .comma) with
      | none => return [first]
      | some _ => return first :: (← items fault item bound (count + 1))

theorem arguments_eq_items (inner : Reader Expr) (bound count : Nat) :
    arguments inner bound count = items .tooManyArguments inner bound count := by
  induction bound generalizing count with
  | zero => rfl
  | succ bound ih =>
      rewrite [arguments, items, ih]
      rfl

theorem parameters_eq_items (bound count : Nat) :
    parameters bound count =
      items .tooManyParameters (expect Kind.isIdentifier .parameterName) bound count := by
  induction bound generalizing count with
  | zero => rfl
  | succ bound ih =>
      rewrite [parameters, items, ih]
      rfl

/-! ### Expressions -/

namespace ExpressionLaws

variable {barred : List Kind} {Φ : Property} (laws : ExpressionLaws barred Φ) {α : Type}
  {bound rounds more depth deeper : Nat} {inner inner' operand operand' : Reader Expr}
include laws

/-- No token that an expression takes is a separator. -/
theorem flat {test : Kind → Bool} (htest : ∀ kind ∈ separators, test kind = false) :
    ∀ kind ∈ barred, test kind = false :=
  fun kind hkind => htest kind (laws.barred_subset hkind)

theorem chain (h : Φ 1 bound operand operand') {operators : Kind → Bool}
    (hoperators : ∀ kind ∈ separators, operators kind = false)
    (node : Expr → Token → Expr → Expr) (hrounds : bound ≤ rounds) (hmore : rounds ≤ more)
    (left : Expr) :
    Φ 0 bound (chain operators node operand rounds left)
      (chain operators node operand' more left) := by
  induction rounds generalizing bound more left with
  | zero =>
      obtain rfl := Nat.le_zero.mp hrounds
      exact laws.exhausted _
  | succ rounds ih =>
      obtain ⟨more, rfl⟩ := Nat.exists_eq_add_one_of_ne_zero (Nat.ne_zero_of_lt hmore)
      have hoperand := laws.weaken h (Nat.le_refl 1) (Nat.sub_le bound 1)
      apply laws.accept (laws.flat hoperators) (Nat.zero_le 1)
      · intro operator _
        apply laws.skip (laws.free hoperand)
        exact fun right => ih hoperand (by omega) (Nat.le_of_succ_le_succ hmore) _
      · exact laws.done left

theorem level (h : Φ 1 bound operand operand') {operators : Kind → Bool}
    (hoperators : ∀ kind ∈ separators, operators kind = false)
    (node : Expr → Token → Expr → Expr) (hrounds : bound ≤ rounds) (hmore : rounds ≤ more) :
    Φ 1 bound (level rounds operators node operand) (level more operators node operand') :=
  laws.bind h fun left => laws.chain h hoperators node hrounds hmore left

theorem limit (count : Nat) {fault : GrammarFault} (hmild : fault.isMild = true) :
    Φ 0 bound (limit count fault) (limit count fault) := by
  unfold Reader.limit
  split
  · exact laws.reportHere hmild
  · exact laws.done ()

theorem items {item item' : Reader α} (h : Φ 1 bound item item') {fault : GrammarFault}
    (hmild : fault.isMild = true) (hrounds : bound ≤ rounds) (hmore : rounds ≤ more) (count : Nat) :
    Φ 0 bound (items fault item rounds count) (items fault item' more count) := by
  induction rounds generalizing bound more count with
  | zero =>
      obtain rfl := Nat.le_zero.mp hrounds
      exact laws.exhausted _
  | succ rounds ih =>
      obtain ⟨more, rfl⟩ := Nat.exists_eq_add_one_of_ne_zero (Nat.ne_zero_of_lt hmore)
      have hlater := laws.weaken h (Nat.le_refl 1) (Nat.sub_le bound 1)
      apply laws.skip (laws.limit count hmild)
      intro _
      apply laws.free
      apply laws.first h
      intro first
      apply laws.accept (laws.flat (by decide)) (Nat.zero_le 1)
      · intro comma _
        exact laws.before (laws.weaken (ih hlater (by omega) (Nat.le_of_succ_le_succ hmore) _)
          (Nat.le_refl 0) (Nat.sub_le _ 1)) _
      · exact laws.done [first]

theorem argumentList (h : Φ 1 bound inner inner') (hrounds : bound ≤ rounds)
    (hmore : rounds ≤ more) :
    Φ 0 bound (argumentList rounds inner) (argumentList more inner') := by
  apply laws.skip (laws.looksAt _)
  intro closes
  cases closes with
  | true => exact laws.done []
  | false =>
      have hmild : GrammarFault.isMild .tooManyArguments = true := rfl
      have hitems := laws.items h hmild hrounds hmore 0
      rw [← arguments_eq_items, ← arguments_eq_items] at hitems
      exact hitems

/-- A nested expression stands behind a parenthesis, so its bound is smaller by one. -/
theorem calls (h : Φ 1 (bound - 1) inner inner') (hdepth : bound ≤ depth) (hdeeper : depth ≤ deeper)
    (hrounds : bound ≤ rounds) (hmore : rounds ≤ more) (callee : Expr) :
    Φ 0 bound (calls depth inner rounds callee) (calls deeper inner' more callee) := by
  induction rounds generalizing bound more callee with
  | zero =>
      obtain rfl := Nat.le_zero.mp hrounds
      exact laws.exhausted _
  | succ rounds ih =>
      obtain ⟨more, rfl⟩ := Nat.exists_eq_add_one_of_ne_zero (Nat.ne_zero_of_lt hmore)
      have hlater := laws.weaken h (Nat.le_refl 1) (Nat.sub_le (bound - 1) 1)
      have hless := Nat.le_of_succ_le_succ hmore
      apply laws.accept (laws.flat (by decide)) (Nat.zero_le 1)
      · intro paren _
        apply laws.skip (laws.argumentList h (by omega) hdeeper)
        intro arguments
        apply laws.skip (laws.free (laws.expect (laws.flat (by decide)) rfl))
        exact fun paren => ih hlater (by omega) (by omega) hless _
      · exact laws.done callee

theorem primary (h : Φ 1 (bound - 1) inner inner') :
    Φ 1 bound (primary inner) (primary inner') := by
  apply laws.accept (laws.flat (by decide)) (Nat.le_refl 1)
  · intro token _
    dsimp only
    split
    · exact laws.done _
    · exact laws.halt rfl
  apply laws.accept (laws.flat (by decide)) (Nat.le_refl 1)
  · exact fun name _ => laws.before laws.freshId _
  apply laws.accept (laws.flat (by decide)) (Nat.le_refl 1)
  · intro paren _
    apply laws.skip (laws.free h)
    exact fun value => laws.before (laws.free (laws.expect (laws.flat (by decide)) rfl)) _
  · exact laws.halt rfl

theorem call (h : Φ 1 (bound - 1) inner inner') (hrounds : bound ≤ rounds)
    (hmore : rounds ≤ more) : Φ 1 bound (call rounds inner) (call more inner') :=
  laws.bind (laws.primary h) fun callee => laws.calls h hrounds hmore hrounds hmore callee

theorem unary (h : Φ 1 bound operand operand') (hrounds : bound ≤ rounds) (hmore : rounds ≤ more) :
    Φ 1 bound (unary operand rounds) (unary operand' more) := by
  induction rounds generalizing bound more with
  | zero =>
      obtain rfl := Nat.le_zero.mp hrounds
      exact laws.exhausted _
  | succ rounds ih =>
      obtain ⟨more, rfl⟩ := Nat.exists_eq_add_one_of_ne_zero (Nat.ne_zero_of_lt hmore)
      have hlater := laws.weaken h (Nat.le_refl 1) (Nat.sub_le bound 1)
      apply laws.accept (laws.flat (by decide)) (Nat.le_refl 1)
      · intro operator _
        exact laws.before (laws.free (ih hlater (by omega) (Nat.le_of_succ_le_succ hmore))) _
      · exact h

theorem disjunction (h : Φ 1 (bound - 1) inner inner') (hrounds : bound ≤ rounds)
    (hmore : rounds ≤ more) :
    Φ 1 bound (disjunction rounds inner) (disjunction more inner') := by
  have hunary := laws.unary (laws.call h hrounds hmore) hrounds hmore
  have hfactor : Φ 1 bound (factor rounds inner) (factor more inner') :=
    laws.level hunary (by decide) .binary hrounds hmore
  have hterm : Φ 1 bound (term rounds inner) (term more inner') :=
    laws.level hfactor (by decide) .binary hrounds hmore
  have hcomparison : Φ 1 bound (comparison rounds inner) (comparison more inner') :=
    laws.level hterm (by decide) .binary hrounds hmore
  have hequality : Φ 1 bound (equality rounds inner) (equality more inner') :=
    laws.level hcomparison (by decide) .binary hrounds hmore
  have hconjunction : Φ 1 bound (conjunction rounds inner) (conjunction more inner') :=
    laws.level hequality (by decide) .logical hrounds hmore
  exact laws.level hconjunction (by decide) .logical hrounds hmore

theorem assignTo (target : Expr) (equals : Token) (value : Expr) :
    Φ 0 bound (assignTo target equals value) (assignTo target equals value) := by
  cases target with
  | «variable» _ name => exact laws.before laws.freshId _
  | _ => exact laws.before (laws.report rfl) _

theorem expression (hrounds : bound ≤ rounds) (hmore : rounds ≤ more) :
    Φ 1 bound (expression rounds) (expression more) := by
  induction rounds generalizing bound more with
  | zero =>
      obtain rfl := Nat.le_zero.mp hrounds
      exact laws.exhausted _
  | succ rounds ih =>
      obtain ⟨more, rfl⟩ := Nat.exists_eq_add_one_of_ne_zero (Nat.ne_zero_of_lt hmore)
      have hinner : Φ 1 (bound - 1) (Reader.expression rounds) (Reader.expression more) :=
        ih (by omega) (Nat.le_of_succ_le_succ hmore)
      apply laws.first (laws.disjunction hinner hrounds hmore)
      intro target
      apply laws.accept (laws.flat (by decide)) (Nat.zero_le 1)
      · intro equals _
        apply laws.skip
        · exact laws.weaken hinner (Nat.zero_le 1) (Nat.sub_le _ 1)
        · exact fun value => laws.assignTo target equals value
      · exact laws.done target

theorem optionalExpression (hrounds : bound ≤ rounds) (hmore : rounds ≤ more) (closing : Mark) :
    Φ 0 bound (optionalExpression rounds closing) (optionalExpression more closing) := by
  apply laws.skip (laws.looksAt _)
  intro closes
  cases closes with
  | true => exact laws.done none
  | false => exact laws.before (laws.free (laws.expression hrounds hmore)) _

theorem parameterList (hrounds : bound ≤ rounds) (hmore : rounds ≤ more) :
    Φ 0 bound (parameterList rounds) (parameterList more) := by
  apply laws.skip (laws.looksAt _)
  intro closes
  cases closes with
  | true => exact laws.done []
  | false =>
      have hname : Φ 1 bound (Reader.expect Kind.isIdentifier .parameterName)
          (Reader.expect Kind.isIdentifier .parameterName) :=
        laws.expect (laws.flat (by decide)) rfl
      have hmild : GrammarFault.isMild .tooManyParameters = true := rfl
      have hitems := laws.items hname hmild hrounds hmore 0
      rw [← parameters_eq_items, ← parameters_eq_items] at hitems
      exact hitems

end ExpressionLaws

/-! ### Statements -/

/-- What stands behind the condition of an `if`. -/
def branches (condition : Expr) (inner : Reader Stmt) : Reader Stmt := do
  let whenTrue ← inner
  match ← accept? (·.isKeyword .else_) with
  | some _ => return .branch condition whenTrue (some (← inner))
  | none => return .branch condition whenTrue none

def braces : List Kind :=
  [.mark .leftBrace, .mark .rightBrace]

/-- Statements may have another property `Ψ` than what they are made of, because blocks are rules
that go on after a fault.  Of declarations with such bounds it is known that they are `Members`. -/
structure StatementLaws (Φ : Property)
    (Ψ : (taken bound : Nat) → Reader Stmt → Reader Stmt → Prop)
    (Members : (bound rounds more : Nat) → Prop) : Prop where
  steps : StepLaws braces Φ
  expression {bound rounds more : Nat} :
    bound ≤ rounds → rounds ≤ more → Φ 1 bound (expression rounds) (expression more)
  parameterList {bound rounds more : Nat} :
    bound ≤ rounds → rounds ≤ more → Φ 0 bound (parameterList rounds) (parameterList more)
  lift {taken bound : Nat} {rule longer : Reader Stmt} :
    Φ taken bound rule longer → Ψ taken bound rule longer
  weaken {taken bound fewer less : Nat} {rule longer : Reader Stmt} :
    Ψ taken bound rule longer → fewer ≤ taken → less ≤ bound → Ψ fewer less rule longer
  andThen {α : Type} {taken more bound : Nat} {rule longer : Reader α}
    {next next' : α → Reader Stmt} :
    Φ taken bound rule longer → (∀ value, Ψ more (bound - taken) (next value) (next' value)) →
      Ψ (taken + more) bound (rule >>= next) (longer >>= next')
  before {taken bound : Nat} {rule longer : Reader Stmt} :
    Ψ taken bound rule longer → ∀ result : Stmt → Stmt,
      Ψ taken bound (rule >>= fun body => pure (result body))
        (longer >>= fun body => pure (result body))
  accept {taken bound : Nat} {test : Kind → Bool} {next next' : Option Token → Reader Stmt} :
    (∀ kind ∈ braces, test kind = false) → taken ≤ 1 →
      (∀ token, test token.kind = true →
        Ψ 0 (bound - 1) (next (some token)) (next' (some token))) →
      Ψ taken bound (next none) (next' none) →
        Ψ taken bound (accept? test >>= next) (accept? test >>= next')
  branches {bound rounds more : Nat} (condition : Expr) :
    Ψ 1 bound (statement rounds) (statement more) →
      Ψ 1 bound (branches condition (statement rounds)) (branches condition (statement more))
  /-- A rule that may begin with a block. -/
  block {taken bound rounds more : Nat} {test : Kind → Bool}
    {next next' : Option Token → Reader Stmt} {result : List Stmt → Stmt} :
    Members (bound - 1) rounds more → bound - 1 ≤ rounds → rounds ≤ more → taken ≤ 1 →
      test (.mark .rightBrace) = false →
      (∀ token, token.IsMark .leftBrace →
        next (some token) = result <$> blockBody (rounds + 1) (declaration rounds) ∧
          next' (some token) = result <$> blockBody (more + 1) (declaration more)) →
      (∀ token, test token.kind = true → ¬token.IsMark .leftBrace →
        Ψ 0 (bound - 1) (next (some token)) (next' (some token))) →
      Ψ taken bound (next none) (next' none) →
        Ψ taken bound (accept? test >>= next) (accept? test >>= next')
  noMember {more : Nat} : Members 0 0 more
  fewer {bound less rounds more : Nat} :
    Members bound rounds more → less ≤ bound → Members less rounds more
  member {bound rounds more : Nat} :
    Members (bound - 1) rounds more → Ψ 1 (bound - 1) (statement rounds) (statement more) →
      Ψ 1 bound (declarationRule (rounds + 1) (statement rounds) (declaration rounds))
        (declarationRule (more + 1) (statement more) (declaration more)) →
      Members bound (rounds + 1) (more + 1)

theorem halt_bind {α β : Type} (fault : GrammarFault) (next : α → Reader β) :
    (halt fault >>= next) = halt fault := by
  funext cursor
  rw [bind_apply]
  rfl

namespace StatementLaws

variable {Φ : Property} {Ψ : (taken bound : Nat) → Reader Stmt → Reader Stmt → Prop}
  {Members : (bound rounds more : Nat) → Prop} (laws : StatementLaws Φ Ψ Members) {α : Type}
  {taken bound rounds more : Nat}
include laws

theorem free {rule longer : Reader Stmt} (h : Ψ taken bound rule longer) : Ψ 0 bound rule longer :=
  laws.weaken h (Nat.zero_le _) (Nat.le_refl _)

theorem skip {rule longer : Reader α} {next next' : α → Reader Stmt} (h : Φ taken bound rule longer)
    (hnext : ∀ value, Ψ 0 bound (next value) (next' value)) :
    Ψ 0 bound (rule >>= next) (longer >>= next') := by
  have hboth := laws.andThen (laws.steps.free h) hnext
  rwa [Nat.zero_add] at hboth

/-- A token that must be there, and on behind it. -/
theorem expect {test : Kind → Bool} {fault : GrammarFault} {next next' : Token → Reader Stmt}
    (htest : ∀ kind ∈ braces, test kind = false) (hgrave : fault.isMild = false)
    (hnext : ∀ token, Ψ 0 bound (next token) (next' token)) :
    Ψ 0 bound (expect test fault >>= next) (expect test fault >>= next') :=
  laws.skip (laws.steps.expect htest hgrave) hnext

theorem optionalExpression (hrounds : bound ≤ rounds) (hmore : rounds ≤ more) (closing : Mark) :
    Φ 0 bound (optionalExpression rounds closing) (optionalExpression more closing) := by
  apply laws.steps.skip (laws.steps.looksAt _)
  intro closes
  cases closes with
  | true => exact laws.steps.done none
  | false => exact laws.steps.before (laws.steps.free (laws.expression hrounds hmore)) _

/-- A semicolon and the end of a statement. -/
theorem semicolon {fault : GrammarFault} (hgrave : fault.isMild = false) (tree : Stmt) :
    Φ 0 bound (Reader.expect (·.isMark .semicolon) fault >>= fun _ => pure tree)
      (Reader.expect (·.isMark .semicolon) fault >>= fun _ => pure tree) :=
  laws.steps.free (laws.steps.before (laws.steps.expect (by decide) hgrave) _)

theorem expressionStatement (hrounds : bound ≤ rounds) (hmore : rounds ≤ more) :
    Φ 1 bound (expressionStatement rounds) (expressionStatement more) :=
  laws.steps.bind (laws.expression hrounds hmore) fun _ => laws.semicolon rfl _

theorem printStatement (hrounds : bound ≤ rounds) (hmore : rounds ≤ more) :
    Φ 1 bound (printStatement rounds) (printStatement more) :=
  laws.steps.bind (laws.expression hrounds hmore) fun _ => laws.semicolon rfl _

theorem returnStatement (hrounds : bound ≤ rounds) (hmore : rounds ≤ more) (keyword : Token) :
    Φ 0 bound (returnStatement rounds keyword) (returnStatement more keyword) :=
  laws.steps.bind (laws.optionalExpression hrounds hmore _) fun _ => laws.semicolon rfl _

theorem initialValue (hrounds : bound ≤ rounds) (hmore : rounds ≤ more) :
    Φ 0 bound (initialValue rounds) (initialValue more) := by
  apply laws.steps.accept (by decide) (Nat.zero_le 1)
  · intro equals _
    exact laws.steps.free (laws.steps.map
      (laws.expression (Nat.le_trans (Nat.sub_le bound 1) hrounds) hmore) _)
  · exact laws.steps.done none

theorem variableDeclaration (hrounds : bound ≤ rounds) (hmore : rounds ≤ more) :
    Φ 1 bound (variableDeclaration rounds) (variableDeclaration more) := by
  apply laws.steps.bind (laws.steps.expect (by decide) rfl)
  intro name
  apply laws.steps.bind (laws.initialValue hrounds hmore)
  exact fun initial => laws.semicolon rfl _

theorem functionDeclaration (hmember : Members bound rounds more) (hrounds : bound ≤ rounds)
    (hmore : rounds ≤ more) :
    Ψ 0 bound (functionDeclaration (rounds + 1) (declaration rounds))
      (functionDeclaration (more + 1) (declaration more)) := by
  apply laws.expect (by decide) rfl
  intro name
  apply laws.expect (by decide) rfl
  intro _
  apply laws.skip
  · exact laws.parameterList (Nat.le_succ_of_le hrounds) (Nat.succ_le_succ hmore)
  intro params
  apply laws.expect (by decide) rfl
  intro _
  rw [Reader.expect, bind_assoc, bind_assoc]
  have hless := Nat.sub_le bound 1
  apply laws.block (laws.fewer hmember hless) (Nat.le_trans hless hrounds) hmore (Nat.zero_le 1) rfl
  · intro lbrace _
    dsimp only
    rw [pure_bind, pure_bind, map_eq_pure_bind, map_eq_pure_bind]
    exact ⟨rfl, rfl⟩
  · intro lbrace hkind hbrace
    exact absurd (Kind.isMark_iff.mp hkind) hbrace
  · dsimp only
    rw [halt_bind, halt_bind]
    exact laws.lift (laws.steps.halt rfl)

theorem ifStatement (hinner : Ψ 1 bound (statement rounds) (statement more))
    (hrounds : bound ≤ rounds + 1) (hmore : rounds ≤ more) :
    Ψ 0 bound (ifStatement (rounds + 1) (statement rounds))
      (ifStatement (more + 1) (statement more)) := by
  apply laws.expect (by decide) rfl
  intro _
  apply laws.skip (laws.expression hrounds (Nat.succ_le_succ hmore))
  intro condition
  apply laws.expect (by decide) rfl
  exact fun _ => laws.free (laws.branches condition hinner)

theorem whileStatement (hinner : Ψ 1 bound (statement rounds) (statement more))
    (hrounds : bound ≤ rounds + 1) (hmore : rounds ≤ more) :
    Ψ 0 bound (whileStatement (rounds + 1) (statement rounds))
      (whileStatement (more + 1) (statement more)) := by
  apply laws.expect (by decide) rfl
  intro _
  apply laws.skip (laws.expression hrounds (Nat.succ_le_succ hmore))
  intro condition
  apply laws.expect (by decide) rfl
  exact fun _ => laws.before (laws.free hinner) _

theorem forInitializer (hrounds : bound ≤ rounds) (hmore : rounds ≤ more) :
    Φ 0 bound (forInitializer rounds) (forInitializer more) := by
  have hless := Nat.le_trans (Nat.sub_le bound 1) hrounds
  apply laws.steps.accept (by decide) (Nat.zero_le 1)
  · exact fun semicolon _ => laws.steps.done none
  apply laws.steps.accept (by decide) (Nat.zero_le 1)
  · intro keyword _
    exact laws.steps.map (laws.steps.free (laws.variableDeclaration hless hmore)) _
  · exact laws.steps.map (laws.steps.free (laws.expressionStatement hrounds hmore)) _

theorem forStatement (hinner : Ψ 1 bound (statement rounds) (statement more))
    (hrounds : bound ≤ rounds + 1) (hmore : rounds ≤ more) :
    Ψ 0 bound (forStatement (rounds + 1) (statement rounds))
      (forStatement (more + 1) (statement more)) := by
  have hlater := Nat.succ_le_succ hmore
  apply laws.expect (by decide) rfl
  intro _
  apply laws.skip (laws.forInitializer hrounds hlater)
  intro initial
  apply laws.skip (laws.optionalExpression hrounds hlater _)
  intro condition
  apply laws.expect (by decide) rfl
  intro _
  apply laws.skip (laws.optionalExpression hrounds hlater _)
  intro increment
  apply laws.expect (by decide) rfl
  exact fun _ => laws.before (laws.free hinner) _

/-- A nested statement stands behind a token, so its bound is smaller by one. -/
theorem statementRule (hmember : Members (bound - 1) rounds more)
    (hinner : Ψ 1 (bound - 1) (statement rounds) (statement more)) (hrounds : bound - 1 ≤ rounds)
    (hmore : rounds ≤ more) :
    Ψ 1 bound (statementRule (rounds + 1) (statement rounds) (declaration rounds))
      (statementRule (more + 1) (statement more) (declaration more)) := by
  have hless := Nat.le_succ_of_le hrounds
  have hlater := Nat.succ_le_succ hmore
  apply laws.block hmember hrounds hmore (Nat.le_refl 1) rfl
  · intro lead hbrace
    dsimp only
    rw [hbrace]
    exact ⟨rfl, rfl⟩
  · intro lead hlead hbrace
    dsimp only
    split
    · exact laws.forStatement hinner hless hmore
    · exact laws.ifStatement hinner hless hmore
    · exact laws.lift (laws.steps.free (laws.printStatement hless hlater))
    · exact laws.lift (laws.returnStatement hless hlater lead)
    · exact laws.whileStatement hinner hless hmore
    · next hfor hif hprint hreturn hwhile =>
        rcases Grammar.leadsStatement_cases hlead with h | h | h | h | h | h
        · exact absurd h hfor
        · exact absurd h hif
        · exact absurd h hprint
        · exact absurd h hreturn
        · exact absurd h hwhile
        · exact absurd h hbrace
  · exact laws.lift (laws.expressionStatement (Nat.le_add_of_sub_le hrounds) hlater)

theorem declarationRule (hmember : Members (bound - 1) rounds more)
    (hinner : Ψ 1 (bound - 1) (statement rounds) (statement more)) (hrounds : bound - 1 ≤ rounds)
    (hmore : rounds ≤ more) :
    Ψ 1 bound (declarationRule (rounds + 1) (statement rounds) (declaration rounds))
      (declarationRule (more + 1) (statement more) (declaration more)) := by
  apply laws.accept (by decide) (Nat.le_refl 1)
  · exact fun fun_ _ => laws.functionDeclaration hmember hrounds hmore
  apply laws.accept (by decide) (Nat.le_refl 1)
  · intro var_ _
    exact laws.lift (laws.steps.free
      (laws.variableDeclaration (Nat.le_succ_of_le hrounds) (Nat.succ_le_succ hmore)))
  · exact laws.statementRule hmember hinner hrounds hmore

theorem statement_declaration (hrounds : bound ≤ rounds) (hmore : rounds ≤ more) :
    Ψ 1 bound (statement rounds) (statement more) ∧ Members bound rounds more := by
  induction rounds generalizing bound more with
  | zero =>
      obtain rfl := Nat.le_zero.mp hrounds
      exact ⟨laws.lift (laws.steps.exhausted _), laws.noMember⟩
  | succ rounds ih =>
      obtain ⟨more, rfl⟩ := Nat.exists_eq_add_one_of_ne_zero (Nat.ne_zero_of_lt hmore)
      have hless := Nat.le_of_succ_le_succ hmore
      have hnested : bound - 1 ≤ rounds := Nat.sub_le_of_le_add hrounds
      obtain ⟨hinner, hmember⟩ := ih hnested hless
      exact ⟨laws.statementRule hmember hinner hnested hless,
        laws.member hmember hinner (laws.declarationRule hmember hinner hnested hless)⟩

end StatementLaws

/-- A property that does not distinguish statements from what they are made of. -/
theorem StepLaws.statementLaws {Φ : Property} {Members : (bound rounds more : Nat) → Prop}
    (laws : StepLaws [] Φ)
    (hexpression : ∀ {bound rounds more : Nat}, bound ≤ rounds → rounds ≤ more →
      Φ 1 bound (expression rounds) (expression more))
    (hparameters : ∀ {bound rounds more : Nat}, bound ≤ rounds → rounds ≤ more →
      Φ 0 bound (parameterList rounds) (parameterList more))
    (hblock : ∀ {bound rounds more : Nat}, Members bound rounds more → bound ≤ rounds →
      rounds ≤ more → Φ 0 bound (blockBody (rounds + 1) (declaration rounds))
        (blockBody (more + 1) (declaration more)))
    (hnone : ∀ {more : Nat}, Members 0 0 more)
    (hfewer : ∀ {bound less rounds more : Nat}, Members bound rounds more → less ≤ bound →
      Members less rounds more)
    (hmember : ∀ {bound rounds more : Nat},
      Φ 1 bound (declarationRule (rounds + 1) (statement rounds) (declaration rounds))
        (declarationRule (more + 1) (statement more) (declaration more)) →
      Members bound (rounds + 1) (more + 1)) :
    StatementLaws Φ (fun taken bound rule longer => Φ taken bound rule longer) Members where
  steps :=
    { laws with accept := fun _ => laws.accept nofun }
  expression := hexpression
  parameterList := hparameters
  lift := id
  weaken := laws.weaken
  andThen := laws.andThen
  before := laws.before
  accept := fun _ => laws.accept nofun
  branches := by
    intro bound rounds more condition hinner
    apply laws.bind hinner
    intro whenTrue
    apply laws.accept nofun (Nat.zero_le 1)
    · intro keyword _
      exact laws.before (laws.weaken hinner (Nat.zero_le 1) (Nat.sub_le bound 1)) _
    · exact laws.done _
  block := by
    intro taken bound rounds more test next next' result hmembers hrounds hmore htaken _ hbody hsome
      hnext
    apply laws.accept nofun htaken
    · intro token htoken
      by_cases hbrace : token.IsMark .leftBrace
      · rw [(hbody token hbrace).1, (hbody token hbrace).2]
        exact laws.map (hblock hmembers hrounds hmore) result
      · exact hsome token htoken hbrace
    · exact hnext
  noMember := hnone
  fewer := hfewer
  member := fun _ _ => hmember

end Reading

end Scriptlet
