/-
Syntax errors are found at the first token that cannot be there.

A whole program is a rule like any other, with nothing behind it.  So the first fault that is not
mild is where the tokens cease to begin a sentence, and if there is none the list is a sentence.
-/
import Scriptlet.Proofs.Grammar.Accepts
import Scriptlet.Proofs.Viable.Statement

namespace Scriptlet

namespace Viable

open Reader Computability

variable {tokens : List Token}

/-- Some sentence begins with the tokens. -/
def BeginsSentence (tokens : List Token) : Prop :=
  ∃ more, word tokens ++ more ∈ language (.name .program)

/-- The first fault that is neither about the target of an assignment nor about a limit. -/
def firstGrave (faults : List Diagnostic) : Option Diagnostic :=
  faults.find? fun fault => !fault.isMild

/-- The fault is reported at the first token with which no sentence goes on. -/
def Earliest (tokens : List Token) (fault : Diagnostic) : Prop :=
  ∃ (k : Nat) (token : Token) (cause : GrammarFault), tokens[k]? = some token ∧
    fault = .grammar token.line token.location cause ∧
    (∀ j ≤ k, BeginsSentence (tokens.take j)) ∧ ¬BeginsSentence (tokens.take (k + 1))

theorem BeginsSentence.of_append {tokens others : List Token}
    (h : BeginsSentence (tokens ++ others)) : BeginsSentence tokens := by
  obtain ⟨more, hmore⟩ := h
  rw [word_append, List.append_assoc] at hmore
  exact ⟨_, hmore⟩

/-- A sentence is a row of declarations with an end marker behind it. -/
theorem mem_program {w : List Terminal} : w ∈ language (.name .program) ↔
    ∃ v ∈ (language (.name .declaration))∗, w = v ++ [.endOfInput] := by
  rw [language_name, rule, language_mul, language_many, language_oneOf, Language.mem_mul]
  constructor
  · rintro ⟨v, hv, _, ⟨t, ht, _, rfl, rfl⟩, rfl⟩
    obtain rfl := List.mem_singleton.mp ht
    exact ⟨v, hv, rfl⟩
  · rintro ⟨v, hv, rfl⟩
    exact ⟨v, hv, _, cons_mem_lead.mpr ⟨List.mem_singleton_self _, rfl⟩, rfl⟩

/-- There is no end marker inside of a sentence. -/
theorem endOfInput_not_mem {w : List Terminal} (h : w ∈ (language (.name .declaration))∗) :
    .endOfInput ∉ w := by
  rw [← language_many] at h
  exact Matches.endless h rfl

theorem firstGrave_mild {mild : List Diagnostic} (hmild : ∀ fault ∈ mild, fault.isMild = true) :
    firstGrave mild = none := by
  rw [firstGrave, List.find?_eq_none]
  intro fault hmem
  simp [hmild fault hmem]

theorem firstGrave_append {mild later : List Diagnostic} {fault : Diagnostic}
    (hmild : ∀ fault ∈ mild, fault.isMild = true) (hgrave : fault.isMild = false) :
    firstGrave (mild ++ fault :: later) = some fault := by
  have hnone : mild.find? (fun fault => !fault.isMild) = none := firstGrave_mild hmild
  rw [firstGrave, List.find?_append, hnone, Option.none_or, List.find?_cons, hgrave]
  rfl

theorem terminal_eq_endOfInput {kind : Kind} :
    terminal kind = .endOfInput ↔ kind = .endOfInput := by
  cases kind <;> simp [terminal]

section Program

variable {body used left : List Token} {marker token : Token}

theorem beginsSentence_of_viable
    (h : ∃ more, word used ++ more ∈ (language (.name .declaration))∗) : BeginsSentence used := by
  obtain ⟨more, hmore⟩ := h
  refine ⟨more ++ [.endOfInput], ?_⟩
  rw [← List.append_assoc]
  exact mem_program.mpr ⟨_, hmore, rfl⟩

/-- One more token either completes a sentence or goes on with the declarations. -/
theorem BeginsSentence.cases (h : BeginsSentence (used ++ [token])) :
    token.kind = .endOfInput ∧ word used ∈ (language (.name .declaration))∗ ∨
      ∃ more, word used ++ terminal token.kind :: more ∈ (language (.name .declaration))∗ := by
  obtain ⟨more, hmore⟩ := h
  obtain ⟨v, hv, heq⟩ := mem_program.mp hmore
  rw [word_append, List.append_assoc] at heq
  rcases List.eq_nil_or_concat more with rfl | ⟨before, last, rfl⟩
  · obtain ⟨rfl, hend⟩ := List.append_inj' heq rfl
    exact Or.inl ⟨terminal_eq_endOfInput.mp (List.singleton_inj.mp hend), hv⟩
  · have hwhole : (word used ++ terminal token.kind :: before) ++ [last] = v ++ [.endOfInput] := by
      rw [← heq]
      simp
    obtain ⟨rfl, -⟩ := List.append_inj' hwhole rfl
    exact Or.inr ⟨before, hv⟩

/-- A token with which no declarations go on does not go on with a sentence. -/
theorem not_beginsSentence (hopen : token.kind ≠ .endOfInput)
    (h : ∀ w, GoesOn (token :: left) w → word used ++ w ∉ (language (.name .declaration))∗) :
    ¬BeginsSentence (used ++ [token]) := by
  intro hbegins
  rcases hbegins.cases with ⟨hend, -⟩ | ⟨more, hmore⟩
  · exact hopen hend
  · exact h (terminal token.kind :: more) rfl hmore

/-- Neither does the end marker where the declarations are not complete. -/
theorem not_beginsSentence_end (hmarker : marker.kind = .endOfInput)
    (h : ∀ w, GoesOn [] w → word used ++ w ∉ (language (.name .declaration))∗) :
    ¬BeginsSentence (used ++ [marker]) := by
  intro hbegins
  rcases hbegins.cases with ⟨-, hwhole⟩ | ⟨more, hmore⟩
  · exact h [] rfl (by rwa [List.append_nil])
  · rw [terminal_eq_endOfInput.mpr hmarker] at hmore
    exact endOfInput_not_mem hmore (List.mem_append_right _ List.mem_cons_self)

theorem earliest_append (hused : BeginsSentence used) (htoken : ¬BeginsSentence (used ++ [token]))
    (left : List Token) (cause : GrammarFault) :
    Earliest (used ++ token :: left) (.grammar token.line token.location cause) := by
  refine ⟨used.length, token, cause, ?_, rfl, ?_, ?_⟩
  · simp
  · intro j hj
    rw [List.take_append_of_le_length hj]
    rw [← List.take_append_drop j used] at hused
    exact hused.of_append
  · rwa [List.take_length_add_append, List.take_succ_cons, List.take_zero]

/-- Where the reader is stuck is the first token with which no sentence goes on. -/
theorem Stuck.earliest {faults : List Diagnostic} {issued : Nat}
    (h : Stuck (language (.name .declaration))∗ (StopsAt []) ⟨body, marker.line, issued, []⟩ faults)
    (hmarker : marker.kind = .endOfInput) (hopen : ∀ token ∈ body, token.kind ≠ .endOfInput) :
    word body ∉ (language (.name .declaration))∗ ∧
      ∃ fault, firstGrave faults = some fault ∧ Earliest (body ++ [marker]) fault := by
  obtain ⟨used, left, mild, cause, later, hat⟩ := h
  obtain rfl : body = used ++ left := hat.rest
  have hnothing : StopsAt [] 1 := by
    rintro _ rfl _ ⟨⟩
  have hhopeless : ∀ w, GoesOn left w →
      word used ++ w ∉ (language (.name .declaration))∗ := by
    intro w hw hmem
    exact hat.hopeless 1 hnothing w hw (by rwa [mul_one])
  have hfirst : firstGrave faults = _ := hat.faults ▸ firstGrave_append hat.isMild
    ((Cursor.isMild_diagnose _ cause).trans hat.grave)
  have hused := beginsSentence_of_viable hat.viable
  refine ⟨?_, _, hfirst, ?_⟩
  · rw [word_append]
    exact hhopeless (word left) (goesOn_word left)
  · cases left with
    | nil =>
        have hlocation : marker.location = .atEnd := by
          simp [Token.location, hmarker, Kind.isEndOfInput]
        have hearliest := earliest_append hused (not_beginsSentence_end hmarker hhopeless) [] cause
        rw [hlocation] at hearliest
        rwa [List.append_nil]
    | cons token rest =>
        have htoken := not_beginsSentence (hopen token (by simp)) hhopeless
        rw [List.append_assoc]
        exact earliest_append hused htoken _ cause

theorem word_mem_program (hmarker : marker.kind = .endOfInput) :
    word (body ++ [marker]) ∈ language (.name .program) ↔
      word body ∈ (language (.name .declaration))∗ := by
  rw [mem_program, word_append, word_cons, word_nil, terminal_eq_endOfInput.mpr hmarker]
  constructor
  · rintro ⟨v, hv, heq⟩
    rwa [(List.append_inj' heq rfl).1]
  · exact fun hmem => ⟨_, hmem, rfl⟩

end Program

/-- The first fault of a parse that is neither about the target of an assignment nor about a limit
is there exactly if the tokens are no sentence, and it is reported at the first token with which no
sentence goes on. -/
theorem parse_earliest (hends : Grammar.EndsOnce tokens) (firstId : NodeId) :
    ((∃ fault, firstGrave (parseProgram tokens firstId).faults = some fault) ↔
        word tokens ∉ language (.name .program)) ∧
      ∀ fault, firstGrave (parseProgram tokens firstId).faults = some fault →
        Earliest tokens fault := by
  obtain ⟨body, marker, rfl, hmarker, hopen⟩ := hends
  rw [word_mem_program hmarker, parseProgram, Grammar.faults_parse,
    Grammar.ofTokens_append hmarker hopen]
  have hpredicted := (predicts_program (body.length + 1)).predicted
    ⟨body, marker.line, firstId.toNat, []⟩
  have hspent := Reading.spends_program (body.length + 1)
    ⟨body, marker.line, firstId.toNat, []⟩ (Nat.lt_succ_self _)
  have hstuck : ∀ {faults}, Stuck (language (.name .declaration))∗ (StopsAt [])
      ⟨body, marker.line, firstId.toNat, []⟩ faults →
      ((∃ fault, firstGrave faults = some fault) ↔
          word body ∉ (language (.name .declaration))∗) ∧
        ∀ fault, firstGrave faults = some fault → Earliest (body ++ [marker]) fault := by
    intro faults h
    obtain ⟨hnot, found, hfound, hearliest⟩ := h.earliest hmarker hopen
    refine ⟨⟨fun _ => hnot, fun _ => ⟨found, hfound⟩⟩, fun fault hfault => ?_⟩
    obtain rfl := Option.some.inj (hfound.symm.trans hfault)
    exact hearliest
  cases hresult : Reader.program (body.length + 1) ⟨body, marker.line, firstId.toNat, []⟩ with
  | ok value after =>
      rw [hresult] at hpredicted
      rcases hpredicted with ⟨used, mild, htook⟩ | h
      · -- Nothing is left, so what was taken is the whole list.
        have hall : body = used := by
          rw [← List.append_nil used, ← Grammar.declarationsUntil_rest hresult]
          exact htook.rest
        have hnone : firstGrave after.faults = none := by
          rw [htook.faults]
          exact firstGrave_mild htook.isMild
        simp [hnone, hall, htook.phrase]
      · exact hstuck h
  | error reason after =>
      rw [hresult] at hpredicted hspent
      cases reason with
      | fault diagnostic => exact hstuck hpredicted
      | exhausted => exact hspent.elim

/-- `"a" = b; print ;`, where the first fault is about the target and the second one is grave. -/
def lateFault : List Token :=
  [⟨.string "a", "\"a\"", 1⟩, ⟨.mark .equal, "=", 1⟩, ⟨.identifier, "b", 1⟩,
    ⟨.mark .semicolon, ";", 1⟩, ⟨.keyword .print_, "print", 2⟩, ⟨.mark .semicolon, ";", 2⟩,
    ⟨.endOfInput, "", 2⟩]

theorem parse_earliest_lateFault :
    Grammar.EndsOnce lateFault ∧
      (parseProgram lateFault 0).faults =
        [.grammar 1 (.token "=") .assignmentTarget, .grammar 2 (.token ";") .expression] ∧
      word lateFault ∉ language (.name .program) ∧
      Earliest lateFault (.grammar 2 (.token ";") .expression) := by
  have hends : Grammar.EndsOnce lateFault := by
    refine ⟨lateFault.dropLast, ⟨.endOfInput, "", 2⟩, rfl, rfl, ?_⟩
    simp [lateFault]
  have hfaults : (parseProgram lateFault 0).faults =
      [.grammar 1 (.token "=") .assignmentTarget, .grammar 2 (.token ";") .expression] := by
    decide +kernel
  have hfirst : firstGrave (parseProgram lateFault 0).faults =
      some (.grammar 2 (.token ";") .expression) := by
    rw [hfaults]
    rfl
  have hearliest := parse_earliest hends 0
  exact ⟨hends, hfaults, hearliest.1.mp ⟨_, hfirst⟩, hearliest.2 _ hfirst⟩

end Viable

end Scriptlet
