/-
The grammar in extended Backus-Naur form: one rule for each name, and the words that a form
describes.

It is the documented grammar with two things left out of account.  Anything that an operator could
be applied to may stand left of an equals sign, and there may be any number of parameters and of
arguments.  What the reader says about those two, it says without stopping.
-/
import Mathlib.Computability.Language
import Scriptlet.Token.Basic

namespace Scriptlet.Viable

/-- What the grammar tells apart of a token: the values of literals do not matter. -/
inductive Terminal where
  | mark (mark : Mark)
  | keyword (keyword : Keyword)
  | identifier
  | number
  | string
  | endOfInput
deriving DecidableEq, Repr

def terminal : Kind → Terminal
  | .mark mark => .mark mark
  | .keyword keyword => .keyword keyword
  | .identifier => .identifier
  | .number _ => .number
  | .string _ => .string
  | .endOfInput => .endOfInput

def word (tokens : List Token) : List Terminal :=
  tokens.map fun token => terminal token.kind

@[simp] theorem word_nil : word [] = [] := rfl

@[simp] theorem word_cons (token : Token) (tokens : List Token) :
    word (token :: tokens) = terminal token.kind :: word tokens := rfl

@[simp] theorem word_append (tokens others : List Token) :
    word (tokens ++ others) = word tokens ++ word others :=
  List.map_append

/-- What the rules describe, in their documented order.  A `disjunction` is a documented `logic_or`,
a `conjunction` a `logic_and`. -/
inductive Name where
  | program
  | declaration
  | functionDeclaration
  | variableDeclaration
  | statement
  | expressionStatement
  | forStatement
  | ifStatement
  | printStatement
  | returnStatement
  | whileStatement
  | block
  | parameters
  | expression
  | assignment
  | disjunction
  | conjunction
  | equality
  | comparison
  | term
  | factor
  | unary
  | call
  | arguments
  | primary
deriving DecidableEq, Repr

/-- The right-hand side of a rule. -/
inductive Form where
  /-- One of some terminals. -/
  | oneOf (terminals : List Terminal)
  | name (name : Name)
  /-- `first second` -/
  | sequence (first second : Form)
  /-- `one | other` -/
  | choice (one other : Form)
  /-- `form?` -/
  | maybe (form : Form)
  /-- `form*` -/
  | many (form : Form)

namespace Form

instance : Mul Form := ⟨sequence⟩

instance : Add Form := ⟨choice⟩

abbrev mark (mark : Mark) : Form := oneOf [.mark mark]

abbrev keyword (keyword : Keyword) : Form := oneOf [.keyword keyword]

abbrev identifier : Form := oneOf [.identifier]

abbrev endOfInput : Form := oneOf [.endOfInput]

/-- `operand ( operator operand )*` -/
abbrev level (operand : Name) (operators : List Terminal) : Form :=
  name operand * many (oneOf operators * name operand)

/-- `item ( "," item )*` -/
abbrev list (item : Form) : Form :=
  item * many (mark .comma * item)

end Form

open Form in
/-- The rules, line by line. -/
def rule : Name → Form
  | .program => many (name .declaration) * endOfInput
  | .declaration =>
      name .functionDeclaration + name .variableDeclaration + name .statement
  | .functionDeclaration =>
      keyword .fun_ * identifier * mark .leftParen * maybe (name .parameters) *
        mark .rightParen * name .block
  | .variableDeclaration =>
      keyword .var_ * identifier * maybe (mark .equal * name .expression) * mark .semicolon
  | .statement =>
      name .expressionStatement + name .forStatement + name .ifStatement +
        name .printStatement + name .returnStatement + name .whileStatement + name .block
  | .expressionStatement => name .expression * mark .semicolon
  | .forStatement =>
      keyword .for_ * mark .leftParen *
        (name .variableDeclaration + name .expressionStatement + mark .semicolon) *
        maybe (name .expression) * mark .semicolon * maybe (name .expression) *
        mark .rightParen * name .statement
  | .ifStatement =>
      keyword .if_ * mark .leftParen * name .expression * mark .rightParen * name .statement *
        maybe (keyword .else_ * name .statement)
  | .printStatement => keyword .print_ * name .expression * mark .semicolon
  | .returnStatement => keyword .return_ * maybe (name .expression) * mark .semicolon
  | .whileStatement =>
      keyword .while_ * mark .leftParen * name .expression * mark .rightParen * name .statement
  | .block => mark .leftBrace * many (name .declaration) * mark .rightBrace
  | .parameters => list identifier
  | .expression => name .assignment
  | .assignment => name .disjunction * maybe (mark .equal * name .assignment)
  | .disjunction => level .conjunction [.keyword .or_]
  | .conjunction => level .equality [.keyword .and_]
  | .equality => level .comparison [.mark .bangEqual, .mark .equalEqual]
  | .comparison =>
      level .term [.mark .greater, .mark .greaterEqual, .mark .less, .mark .lessEqual]
  | .term => level .factor [.mark .minus, .mark .plus]
  | .factor => level .unary [.mark .slash, .mark .star]
  | .unary => oneOf [.mark .bang, .mark .minus] * name .unary + name .call
  | .call =>
      name .primary * many (mark .leftParen * maybe (name .arguments) * mark .rightParen)
  | .arguments => list (name .expression)
  | .primary =>
      oneOf [.number, .string, .keyword .true_, .keyword .false_, .keyword .nil_] + identifier +
        mark .leftParen * name .expression * mark .rightParen

/-- The word is a phrase of the form. -/
inductive Matches : Form → List Terminal → Prop
  | oneOf {terminals : List Terminal} {terminal : Terminal} (mem : terminal ∈ terminals) :
      Matches (.oneOf terminals) [terminal]
  | name {name : Name} {w : List Terminal} (phrase : Matches (rule name) w) :
      Matches (.name name) w
  | sequence {first second : Form} {v w : List Terminal} (left : Matches first v)
      (right : Matches second w) : Matches (.sequence first second) (v ++ w)
  | one {one other : Form} {w : List Terminal} (phrase : Matches one w) :
      Matches (.choice one other) w
  | other {one other : Form} {w : List Terminal} (phrase : Matches other w) :
      Matches (.choice one other) w
  | absent {form : Form} : Matches (.maybe form) []
  | present {form : Form} {w : List Terminal} (phrase : Matches form w) :
      Matches (.maybe form) w
  | nothing {form : Form} : Matches (.many form) []
  | further {form : Form} {v w : List Terminal} (first : Matches form v)
      (rest : Matches (.many form) w) : Matches (.many form) (v ++ w)

open Computability

/-- The phrases of a form. -/
def language (form : Form) : Language Terminal :=
  {w | Matches form w}

/-- The words that one of the terminals leads, with a word behind it that depends on which. -/
def lead (terminals : List Terminal) (behind : Terminal → Language Terminal) : Language Terminal :=
  {w | ∃ t ∈ terminals, ∃ v ∈ behind t, w = t :: v}

section Lead

variable {terminals : List Terminal} {behind : Terminal → Language Terminal} {w : List Terminal}

theorem mem_lead : w ∈ lead terminals behind ↔ ∃ t ∈ terminals, ∃ v ∈ behind t, w = t :: v :=
  Iff.rfl

theorem cons_mem_lead {t : Terminal} :
    t :: w ∈ lead terminals behind ↔ t ∈ terminals ∧ w ∈ behind t := by
  rw [mem_lead]
  constructor
  · rintro ⟨_, ht, _, hv, heq⟩
    obtain ⟨rfl, rfl⟩ := List.cons.inj heq
    exact ⟨ht, hv⟩
  · rintro ⟨ht, hw⟩
    exact ⟨t, ht, w, hw, rfl⟩

theorem lead_mul (K : Language Terminal) :
    lead terminals behind * K = lead terminals fun t => behind t * K := by
  ext w
  rw [Language.mem_mul, mem_lead]
  constructor
  · rintro ⟨_, ⟨t, ht, v, hv, rfl⟩, u, hu, rfl⟩
    exact ⟨t, ht, v ++ u, Language.append_mem_mul hv hu, rfl⟩
  · rintro ⟨t, ht, _, ⟨v, hv, u, hu, rfl⟩, rfl⟩
    exact ⟨t :: v, ⟨t, ht, v, hv, rfl⟩, u, hu, rfl⟩

theorem lead_append (others : List Terminal) :
    lead (terminals ++ others) behind = lead terminals behind + lead others behind := by
  ext w
  simp only [Language.mem_add, mem_lead, List.mem_append, or_and_right, exists_or]

theorem lead_congr {behind' : Terminal → Language Terminal}
    (h : ∀ t ∈ terminals, behind t = behind' t) :
    lead terminals behind = lead terminals behind' := by
  ext w
  rw [mem_lead, mem_lead]
  exact exists_congr fun t => and_congr_right fun ht => by rw [h t ht]

end Lead

section Language

variable (form other : Form)

theorem language_oneOf (terminals : List Terminal) :
    language (.oneOf terminals) = lead terminals fun _ => 1 := by
  ext w
  rw [mem_lead]
  constructor
  · rintro (hmem | _)
    exact ⟨_, hmem, [], rfl, rfl⟩
  · rintro ⟨t, ht, _, rfl, rfl⟩
    exact .oneOf ht

theorem language_name (name : Name) : language (.name name) = language (rule name) := by
  ext w
  constructor
  · rintro (_ | hphrase)
    exact hphrase
  · exact .name

theorem language_mul : language (form * other) = language form * language other := by
  ext w
  rw [Language.mem_mul]
  constructor
  · rintro (_ | _ | ⟨hleft, hright⟩)
    exact ⟨_, hleft, _, hright, rfl⟩
  · rintro ⟨v, hv, u, hu, rfl⟩
    exact .sequence hv hu

theorem language_add : language (form + other) = language form + language other := by
  ext w
  rw [Language.mem_add]
  constructor
  · rintro (_ | _ | _ | hone | hother)
    · exact Or.inl hone
    · exact Or.inr hother
  · rintro (hone | hother)
    · exact .one hone
    · exact .other hother

theorem language_maybe : language (.maybe form) = language form + 1 := by
  ext w
  rw [Language.mem_add, Language.mem_one]
  constructor
  · intro h
    cases h with
    | absent => exact Or.inr rfl
    | present hphrase => exact Or.inl hphrase
  · rintro (hphrase | rfl)
    · exact .present hphrase
    · exact .absent

theorem language_many : language (.many form) = (language form)∗ := by
  ext w
  constructor
  · intro h
    -- Induction along the repetition, which asks for a form that is a variable.
    generalize hmany : Form.many form = whole at h
    induction h with
    | nothing => exact Language.nil_mem_kstar _
    | further hfirst _ _ ih =>
        cases hmany
        rw [← Language.one_add_self_mul_kstar_eq_kstar]
        exact Or.inr (Language.append_mem_mul hfirst (ih rfl))
    | _ => cases hmany
  · rintro ⟨phrases, rfl, hphrases⟩
    induction phrases with
    | nil => exact .nothing
    | cons first rest ih =>
        rw [List.forall_mem_cons] at hphrases
        exact .further hphrases.1 (ih hphrases.2)

theorem language_level (operand : Name) (operators : List Terminal) :
    language (.level operand operators) =
      language (.name operand) * (lead operators fun _ => language (.name operand))∗ := by
  rw [language_mul, language_many, language_mul, language_oneOf, lead_mul]
  simp only [one_mul]

theorem language_list : language (.list form) =
    language form * (lead [.mark .comma] fun _ => language form)∗ := by
  rw [language_mul, language_many, language_mul, language_oneOf, lead_mul]
  simp only [one_mul]

end Language

/-- One round more, or none. -/
theorem kstar_lead (terminals : List Terminal) (L : Language Terminal) :
    (lead terminals fun _ => L)∗ =
      (lead terminals fun _ => L * (lead terminals fun _ => L)∗) + 1 := by
  have hunfold := Language.one_add_self_mul_kstar_eq_kstar (lead terminals fun _ => L)
  rw [lead_mul, add_comm] at hunfold
  exact hunfold.symm

/-! ### How phrases begin -/

/-- What a constant or a name, or a parenthesis, begins with. -/
def operandHeads : List Terminal :=
  [.number, .string, .keyword .true_, .keyword .false_, .keyword .nil_, .identifier,
    .mark .leftParen]

def expressionHeads : List Terminal :=
  [.mark .bang, .mark .minus] ++ operandHeads

def statementHeads : List Terminal :=
  [.keyword .for_, .keyword .if_, .keyword .print_, .keyword .return_, .keyword .while_,
    .mark .leftBrace] ++ expressionHeads

def declarationHeads : List Terminal :=
  [.keyword .fun_, .keyword .var_] ++ statementHeads

/-- The terminals that phrases of a name begin with. -/
def heads : Name → List Terminal
  | .program => .endOfInput :: declarationHeads
  | .declaration => declarationHeads
  | .functionDeclaration => [.keyword .fun_]
  | .variableDeclaration => [.keyword .var_]
  | .statement => statementHeads
  | .forStatement => [.keyword .for_]
  | .ifStatement => [.keyword .if_]
  | .printStatement => [.keyword .print_]
  | .returnStatement => [.keyword .return_]
  | .whileStatement => [.keyword .while_]
  | .block => [.mark .leftBrace]
  | .parameters => [.identifier]
  | .call => operandHeads
  | .primary => operandHeads
  | _ => expressionHeads

namespace Form

/-- Whether the form has the empty phrase.  No name has. -/
def nullable : Form → Bool
  | .oneOf _ => false
  | .name _ => false
  | .sequence first second => first.nullable && second.nullable
  | .choice one other => one.nullable || other.nullable
  | .maybe _ => true
  | .many _ => true

/-- The terminals that phrases of the form begin with. -/
def first : Form → List Terminal
  | .oneOf terminals => terminals
  | .name symbol => heads symbol
  | .sequence one other => if one.nullable then one.first ++ other.first else one.first
  | .choice one other => one.first ++ other.first
  | .maybe form => form.first
  | .many form => form.first

/-- Whether no phrase has an end marker in it. -/
def endless : Form → Bool
  | .oneOf terminals => !terminals.contains .endOfInput
  | .name symbol => symbol != .program
  | .sequence one other => one.endless && other.endless
  | .choice one other => one.endless && other.endless
  | .maybe form => form.endless
  | .many form => form.endless

end Form

/-- The table of heads is right for every rule. -/
theorem first_rule_subset (name : Name) : (rule name).first ⊆ heads name := by
  cases name <;> decide

theorem nullable_rule (name : Name) : (rule name).nullable = false := by
  cases name <;> rfl

theorem endless_rule {name : Name} (h : name ≠ .program) : (rule name).endless = true := by
  cases name <;> first | rfl | exact absurd rfl h

theorem Matches.nullable {form : Form} (h : Matches form []) : form.nullable = true := by
  generalize hempty : ([] : List Terminal) = w at h
  induction h with
  | oneOf _ => cases hempty
  | @name name _ hphrase ih =>
      exact absurd (ih hempty) (by rw [nullable_rule]; exact Bool.false_ne_true)
  | sequence _ _ ihleft ihright =>
      obtain ⟨hleft, hright⟩ := List.append_eq_nil_iff.mp hempty.symm
      rw [Form.nullable, ihleft hleft.symm, ihright hright.symm, Bool.and_self]
  | one _ ih => rw [Form.nullable, ih hempty, Bool.true_or]
  | other _ ih => rw [Form.nullable, ih hempty, Bool.or_true]
  | _ => rfl

theorem Matches.head_mem {form : Form} {w : List Terminal} {t : Terminal} (h : Matches form w)
    (hhead : w.head? = some t) : t ∈ form.first := by
  induction h with
  | oneOf hmem =>
      obtain rfl := Option.some.inj hhead
      exact hmem
  | name _ ih => exact first_rule_subset _ (ih hhead)
  | @sequence one other v w hleft hright ihleft ihright =>
      rw [Form.first]
      cases v with
      | nil =>
          rw [if_pos hleft.nullable]
          exact List.mem_append_right _ (ihright hhead)
      | cons head tail =>
          split
          · exact List.mem_append_left _ (ihleft hhead)
          · exact ihleft hhead
  | one _ ih => exact List.mem_append_left _ (ih hhead)
  | other _ ih => exact List.mem_append_right _ (ih hhead)
  | absent => cases hhead
  | present _ ih => exact ih hhead
  | nothing => cases hhead
  | @further form v w _ _ ihfirst ihrest =>
      cases v with
      | nil => exact ihrest hhead
      | cons head tail => exact ihfirst hhead

theorem Matches.endless {form : Form} {w : List Terminal} (h : Matches form w)
    (hendless : form.endless = true) : .endOfInput ∉ w := by
  induction h with
  | @oneOf terminals terminal hmem =>
      rintro (_ | ⟨_, hnil⟩)
      · rw [Form.endless, List.contains_iff_mem.mpr hmem] at hendless
        cases hendless
      · cases hnil
  | name _ ih => exact ih (endless_rule (bne_iff_ne.mp hendless))
  | sequence _ _ ihleft ihright =>
      obtain ⟨hleft, hright⟩ := Bool.and_eq_true_iff.mp hendless
      exact List.not_mem_append (ihleft hleft) (ihright hright)
  | one _ ih => exact ih (Bool.and_eq_true_iff.mp hendless).1
  | other _ ih => exact ih (Bool.and_eq_true_iff.mp hendless).2
  | present _ ih => exact ih hendless
  | further _ _ ihfirst ihrest =>
      exact List.not_mem_append (ihfirst hendless) (ihrest hendless)
  | _ => exact List.not_mem_nil

/-- Every word begins with one of the terminals. -/
def Opens (terminals : List Terminal) (L : Language Terminal) : Prop :=
  ∀ w ∈ L, ∃ t ∈ terminals, w.head? = some t

/-- No word begins with one of the terminals. -/
def Avoids (terminals : List Terminal) (L : Language Terminal) : Prop :=
  ∀ w ∈ L, ∀ t ∈ terminals, w.head? ≠ some t

theorem opens_name (name : Name) : Opens (heads name) (language (.name name)) := by
  intro w hw
  cases w with
  | nil => exact absurd (Matches.nullable hw) Bool.false_ne_true
  | cons t rest => exact ⟨t, Matches.head_mem hw rfl, rfl⟩

section Opens

variable {terminals others : List Terminal} {L K : Language Terminal}

theorem opens_lead (behind : Terminal → Language Terminal) :
    Opens terminals (lead terminals behind) := by
  rintro _ ⟨t, ht, v, -, rfl⟩
  exact ⟨t, ht, rfl⟩

theorem Opens.mul (h : Opens terminals L) (K : Language Terminal) : Opens terminals (L * K) := by
  rintro _ ⟨v, hv, w, -, rfl⟩
  obtain ⟨t, ht, hhead⟩ := h v hv
  exact ⟨t, ht, by rw [List.head?_append, hhead, Option.some_or]⟩

theorem Opens.avoids (h : Opens terminals L) (hnone : ∀ t ∈ others, t ∉ terminals) :
    Avoids others L := by
  intro w hw t ht hhead
  obtain ⟨t', ht', hhead'⟩ := h w hw
  obtain rfl := Option.some.inj (hhead.symm.trans hhead')
  exact hnone t ht ht'

theorem Opens.add (hleft : Opens terminals L) (hright : Opens others K) :
    Opens (terminals ++ others) (L + K) := by
  rintro w (hw | hw)
  · obtain ⟨t, ht, hhead⟩ := hleft w hw
    exact ⟨t, List.mem_append_left _ ht, hhead⟩
  · obtain ⟨t, ht, hhead⟩ := hright w hw
    exact ⟨t, List.mem_append_right _ ht, hhead⟩

theorem Avoids.mono (h : Avoids terminals L) (hsub : others ⊆ terminals) : Avoids others L :=
  fun w hw t ht => h w hw t (hsub ht)

theorem Avoids.add (hleft : Avoids terminals L) (hright : Avoids terminals K) :
    Avoids terminals (L + K) := by
  rintro w (hw | hw)
  · exact hleft w hw
  · exact hright w hw

/-- What may be left out has to avoid the terminals, and what follows, too. -/
theorem Avoids.maybe (h : Avoids terminals K) (hopens : Opens others L)
    (hnone : ∀ t ∈ terminals, t ∉ others) : Avoids terminals ((L + 1) * K) := by
  rw [add_mul, one_mul]
  exact ((hopens.mul K).avoids hnone).add h

theorem Avoids.many (h : Avoids terminals K) (hopens : Opens others L)
    (hnone : ∀ t ∈ terminals, t ∉ others) : Avoids terminals (L∗ * K) := by
  rw [← Language.one_add_self_mul_kstar_eq_kstar, add_mul, one_mul, mul_assoc]
  exact h.add ((hopens.mul _).avoids hnone)

end Opens

end Scriptlet.Viable
