/-
A rule of the reader against the language it reads, one look ahead.

What a rule takes is a phrase of its language, and whatever the rest of the input is, no other
phrase could have been taken.  Where it gives up, what it took begins a phrase, and with the next
token no sentence goes on.  Both depend on what may stand behind the rule, so the condition on
that, under which the rule never errs, is part of the property.
-/
import Scriptlet.Proofs.Grammar.Complete.Expression
import Scriptlet.Proofs.Reading.Laws
import Scriptlet.Proofs.Viable.Ebnf

namespace Scriptlet

namespace Viable

open Reader Computability

variable {α β : Type}

/-- The word begins as the tokens do. -/
def GoesOn (tokens : List Token) (w : List Terminal) : Prop :=
  w.head? = (word tokens).head?

theorem GoesOn.append {tokens used left : List Token} {w : List Terminal} (h : GoesOn left w)
    (hrest : tokens = used ++ left) : GoesOn tokens (word used ++ w) := by
  subst hrest
  cases used with
  | nil => exact h
  | cons token rest => rfl

theorem goesOn_word (tokens : List Token) : GoesOn tokens (word tokens) := rfl

/-- The tokens `used` were taken as a phrase of `L`.  If a sentence goes on as the input does, with
a word behind the phrase that the condition allows, then that is where the phrase ends. -/
structure Took (L : Language Terminal) (C : Language Terminal → Prop) (cursor after : Cursor)
    (used : List Token) (mild : List Diagnostic) : Prop where
  rest : cursor.rest = used ++ after.rest
  endLine : after.endLine = cursor.endLine
  faults : after.faults = cursor.faults ++ mild
  isMild : ∀ fault ∈ mild, fault.isMild = true
  phrase : word used ∈ L
  committed : ∀ K, C K → ∀ w, GoesOn after.rest w → word used ++ w ∈ L * K → w ∈ K

/-- The first fault that is not mild is at the token behind `used`.  Up to there the tokens begin a
phrase of `L`; with that token no sentence goes on. -/
structure StuckAt (L : Language Terminal) (C : Language Terminal → Prop) (cursor : Cursor)
    (faults : List Diagnostic) (used left : List Token) (mild : List Diagnostic)
    (fault : GrammarFault) (later : List Diagnostic) : Prop where
  rest : cursor.rest = used ++ left
  faults : faults =
    cursor.faults ++ (mild ++ Cursor.diagnose { cursor with rest := left } fault :: later)
  isMild : ∀ fault ∈ mild, fault.isMild = true
  grave : fault.isMild = false
  viable : ∃ more, word used ++ more ∈ L
  hopeless : ∀ K, C K → ∀ w, GoesOn left w → word used ++ w ∉ L * K

def Stuck (L : Language Terminal) (C : Language Terminal → Prop) (cursor : Cursor)
    (faults : List Diagnostic) : Prop :=
  ∃ used left mild fault later, StuckAt L C cursor faults used left mild fault later

/-- The result is the one that the language asks for.  A rule that recovers goes on after a fault,
so it can be stuck and have a result. -/
def Predicted (L : Language Terminal) (C : Language Terminal → Prop) (cursor : Cursor) :
    EStateM.Result Halt Cursor α → Prop
  | .ok _ after => (∃ used mild, Took L C cursor after used mild) ∨ Stuck L C cursor after.faults
  | .error (.fault diagnostic) after => Stuck L C cursor (after.faults ++ [diagnostic])
  | .error .exhausted _ => True

/-- The rule reads the phrases of the language, which has some, wherever the words that may stand
behind it meet the condition. -/
structure Predicts (rule : Reader α) (L : Language Terminal) (C : Language Terminal → Prop) :
    Prop where
  phrase : ∃ w, w ∈ L
  predicted : ∀ cursor, Predicted L C cursor (rule cursor)

/-- The kinds are those of the terminals. -/
def Tells (kind : Kind → Bool) (terminals : List Terminal) : Prop :=
  ∀ k, kind k = true ↔ terminal k ∈ terminals

section Tells

variable {kind kind' : Kind → Bool} {terminals terminals' : List Terminal}

theorem tells_mark (mark : Mark) : Tells (·.isMark mark) [.mark mark] := by
  intro k
  cases k <;> simp [Kind.isMark, terminal]

theorem tells_keyword (keyword : Keyword) : Tells (·.isKeyword keyword) [.keyword keyword] := by
  intro k
  cases k <;> simp [Kind.isKeyword, terminal]

theorem tells_identifier : Tells Kind.isIdentifier [.identifier] := by
  intro k
  cases k <;> simp [Kind.isIdentifier, terminal]

theorem Tells.or (h : Tells kind terminals) (h' : Tells kind' terminals') :
    Tells (fun k => kind k || kind' k) (terminals ++ terminals') := by
  intro k
  rw [Bool.or_eq_true, List.mem_append, h k, h' k]

/-- The next token is of such a kind, or no word that goes on like the input begins so. -/
theorem Tells.next (h : Tells kind terminals) (tokens : List Token) :
    (∃ token rest, tokens = token :: rest ∧ kind token.kind = true) ∨
      (∀ token ∈ tokens.head?, kind token.kind = false) ∧
        ∀ w, GoesOn tokens w → ∀ t ∈ terminals, w.head? ≠ some t := by
  cases tokens with
  | nil =>
      refine Or.inr ⟨by simp, fun w hw t _ hhead => ?_⟩
      cases hw.symm.trans hhead
  | cons token rest =>
      by_cases hk : kind token.kind = true
      · exact Or.inl ⟨token, rest, rfl, hk⟩
      · refine Or.inr ⟨by simpa using hk, fun w hw t ht hhead => ?_⟩
        obtain rfl := Option.some.inj (hw.symm.trans hhead)
        exact hk ((h _).mpr ht)

end Tells

section Sequence

variable {L L' : Language Terminal} {C C' : Language Terminal → Prop} {cursor mid after : Cursor}
  {used used' : List Token} {mild mild' faults : List Diagnostic}

/-- Nothing was taken. -/
theorem took_nothing (hrest : after.rest = cursor.rest) (hline : after.endLine = cursor.endLine)
    (hfaults : after.faults = cursor.faults ++ mild) (hmild : ∀ fault ∈ mild, fault.isMild = true) :
    Took 1 C cursor after [] mild where
  rest := hrest.symm
  endLine := hline
  faults := hfaults
  isMild := hmild
  phrase := rfl
  committed := fun K _ w _ hw => by rwa [one_mul] at hw

/-- One token was taken, which had to be. -/
theorem took_token (token : Token) {rest : List Token} {endLine n : Nat} :
    Took (lead [terminal token.kind] fun _ => 1) C ⟨token :: rest, endLine, n, faults⟩
      ⟨rest, endLine, n, faults⟩ [token] [] where
  rest := rfl
  endLine := rfl
  faults := (List.append_nil _).symm
  isMild := List.forall_mem_nil _
  phrase := cons_mem_lead.mpr ⟨List.mem_singleton_self _, rfl⟩
  committed := fun K _ w _ hw => by
    rw [lead_mul] at hw
    have hbehind := (cons_mem_lead.mp hw).2
    rwa [one_mul] at hbehind

theorem Took.andThen (h : Took L C cursor mid used mild) (h' : Took L' C' mid after used' mild')
    (hC : ∀ K, C' K → C (L' * K)) :
    Took (L * L') C' cursor after (used ++ used') (mild ++ mild') where
  rest := by rw [h.rest, h'.rest, List.append_assoc]
  endLine := h'.endLine.trans h.endLine
  faults := by rw [h'.faults, h.faults, List.append_assoc]
  isMild := List.forall_mem_append.mpr ⟨h.isMild, h'.isMild⟩
  phrase := by
    rw [word_append]
    exact Language.append_mem_mul h.phrase h'.phrase
  committed := by
    -- The first rule was committed to leave what it left, whatever the second one makes of it.
    intro K hK w hw hmem
    rw [word_append, List.append_assoc, mul_assoc] at hmem
    exact h'.committed K hK w hw (h.committed _ (hC K hK) _ (hw.append h'.rest) hmem)

theorem Took.thenStuck (h : Took L C cursor mid used mild) (h' : Stuck L' C' mid faults)
    (hC : ∀ K, C' K → C (L' * K)) : Stuck (L * L') C' cursor faults := by
  obtain ⟨used', left, mild', fault, later, hat⟩ := h'
  refine ⟨used ++ used', left, mild ++ mild', fault, later, ?_, ?_, ?_, hat.grave, ?_, ?_⟩
  · rw [h.rest, hat.rest, List.append_assoc]
  · rw [hat.faults, h.faults, List.append_assoc, List.append_assoc]
    simp only [Cursor.diagnose, h.endLine]
  · exact List.forall_mem_append.mpr ⟨h.isMild, hat.isMild⟩
  · obtain ⟨more, hmore⟩ := hat.viable
    rw [word_append]
    exact ⟨more, by rw [List.append_assoc]; exact Language.append_mem_mul h.phrase hmore⟩
  · intro K hK w hw hmem
    rw [word_append, List.append_assoc, mul_assoc] at hmem
    exact hat.hopeless K hK w hw (h.committed _ (hC K hK) _ (hw.append hat.rest) hmem)

/-- What comes later does not matter, provided that there is something to come. -/
theorem Stuck.before (h : Stuck L C cursor faults) (hphrase : ∃ w, w ∈ L')
    (hC : ∀ K, C' K → C (L' * K)) : Stuck (L * L') C' cursor faults := by
  obtain ⟨used, left, mild, fault, later, hat⟩ := h
  obtain ⟨more, hmore⟩ := hat.viable
  obtain ⟨w', hw'⟩ := hphrase
  refine ⟨used, left, mild, fault, later, hat.rest, hat.faults, hat.isMild, hat.grave, ?_, ?_⟩
  · exact ⟨more ++ w', by rw [← List.append_assoc]; exact Language.append_mem_mul hmore hw'⟩
  · intro K hK w hw hmem
    rw [mul_assoc] at hmem
    exact hat.hopeless _ (hC K hK) w hw hmem

theorem Stuck.more (h : Stuck L C cursor faults) (others : List Diagnostic) :
    Stuck L C cursor (faults ++ others) := by
  obtain ⟨used, left, mild, fault, later, hat⟩ := h
  refine ⟨used, left, mild, fault, later ++ others, hat.rest, ?_, hat.isMild, hat.grave,
    hat.viable, hat.hopeless⟩
  rw [hat.faults, List.append_assoc, List.append_assoc, List.cons_append]

variable {result : EStateM.Result Halt Cursor α}

theorem Predicted.took (h : Predicted L' C' mid result) (htook : Took L C cursor mid used mild)
    (hC : ∀ K, C' K → C (L' * K)) : Predicted (L * L') C' cursor result := by
  match result with
  | .ok _ after =>
      rcases h with ⟨used', mild', h⟩ | h
      · exact Or.inl ⟨_, _, htook.andThen h hC⟩
      · exact Or.inr (htook.thenStuck h hC)
  | .error (.fault _) after => exact htook.thenStuck h hC
  | .error .exhausted _ => exact trivial

/-- Once the reader is stuck, faults can only be added. -/
theorem Predicted.stuck {L₀ : Language Terminal} {C₀ : Language Terminal → Prop}
    (h : Predicted L₀ C₀ mid result) (hstuck : Stuck L C cursor mid.faults) :
    Predicted L C cursor result := by
  match result with
  | .ok _ after =>
      rcases h with ⟨used', mild', h⟩ | ⟨_, _, _, _, _, h⟩
      · exact Or.inr (h.faults ▸ hstuck.more _)
      · exact Or.inr (h.faults ▸ hstuck.more _)
  | .error (.fault diagnostic) after =>
      obtain ⟨_, _, _, _, _, h⟩ := h
      have hmore := hstuck.more
      rw [Predicted, h.faults]
      exact hmore _
  | .error .exhausted _ => exact trivial

/-- A phrase of one language is all that it can be of another, given the next token. -/
theorem Predicted.among (h : Predicted L C cursor result) (hsub : ∀ w ∈ L, w ∈ L')
    (honly : ∀ K, C' K → C K ∧ ∀ w, GoesOn cursor.rest w → w ∈ L' * K → w ∈ L * K) :
    Predicted L' C' cursor result := by
  have hstuck : ∀ faults, Stuck L C cursor faults → Stuck L' C' cursor faults := by
    rintro faults ⟨used, left, mild, fault, later, hat⟩
    obtain ⟨more, hmore⟩ := hat.viable
    refine ⟨used, left, mild, fault, later, hat.rest, hat.faults, hat.isMild, hat.grave,
      ⟨more, hsub _ hmore⟩, ?_⟩
    intro K hK w hw hmem
    obtain ⟨hC, hL⟩ := honly K hK
    exact hat.hopeless K hC w hw (hL _ (hw.append hat.rest) hmem)
  match result with
  | .ok _ after =>
      rcases h with ⟨used, mild, h⟩ | h
      · refine Or.inl ⟨used, mild, h.rest, h.endLine, h.faults, h.isMild, hsub _ h.phrase, ?_⟩
        intro K hK w hw hmem
        obtain ⟨hC, hL⟩ := honly K hK
        exact h.committed K hC w hw (hL _ (hw.append h.rest) hmem)
      · exact Or.inr (hstuck _ h)
  | .error (.fault _) after => exact hstuck _ h
  | .error .exhausted _ => exact trivial

end Sequence

section Steps

variable {rule : Reader α} {next : α → Reader β} {L L' L₀ : Language Terminal}
  {C C' : Language Terminal → Prop}

theorem Predicts.mono (h : Predicts rule L C) (hC : ∀ K, C' K → C K) : Predicts rule L C' where
  phrase := h.phrase
  predicted := fun cursor =>
    (h.predicted cursor).among (fun _ hw => hw) fun K hK => ⟨hC K hK, fun _ _ hw => hw⟩

instance : Nonempty Token := ⟨⟨.endOfInput, "", 1⟩⟩

/-- The first rule has to bear what the second one may read. -/
theorem Predicts.bind [Nonempty α] (h : Predicts rule L C)
    (hnext : ∀ value, Predicts (next value) L' C') (hC : ∀ K, C' K → C (L' * K)) :
    Predicts (rule >>= next) (L * L') C' where
  phrase := by
    obtain ⟨v, hv⟩ := h.phrase
    obtain ⟨w, hw⟩ := (hnext (Classical.arbitrary α)).phrase
    exact ⟨v ++ w, Language.append_mem_mul hv hw⟩
  predicted := by
    intro cursor
    have hphrase := (hnext (Classical.arbitrary α)).phrase
    have hrule := h.predicted cursor
    rw [bind_apply]
    generalize rule cursor = result at hrule ⊢
    match result with
    | .ok value after =>
        have hafter := (hnext value).predicted after
        rcases hrule with ⟨used, mild, htook⟩ | hstuck
        · exact hafter.took htook hC
        · exact hafter.stuck (hstuck.before hphrase hC)
    | .error (.fault _) after => exact Stuck.before hrule hphrase hC
    | .error .exhausted _ => exact trivial

/-- A rule that takes nothing and reports no more than mild faults. -/
theorem predicts_quiet {change : Cursor → Cursor} {value : Cursor → α}
    (hrule : ∀ cursor, rule cursor = .ok (value cursor) (change cursor))
    (h : ∀ cursor, ∃ mild, Took 1 C cursor (change cursor) [] mild) : Predicts rule 1 C where
  phrase := ⟨[], rfl⟩
  predicted := by
    intro cursor
    obtain ⟨mild, htook⟩ := h cursor
    rw [hrule]
    exact Or.inl ⟨[], mild, htook⟩

theorem predicts_pure (value : α) : Predicts (pure value) 1 C :=
  predicts_quiet (fun _ => rfl) fun _ =>
    ⟨[], took_nothing rfl rfl (List.append_nil _).symm (List.forall_mem_nil _)⟩

theorem predicts_freshId : Predicts freshId 1 C :=
  predicts_quiet (fun _ => rfl) fun _ =>
    ⟨[], took_nothing rfl rfl (List.append_nil _).symm (List.forall_mem_nil _)⟩

theorem predicts_report {diagnostic : Cursor → Diagnostic}
    (h : ∀ cursor, (diagnostic cursor).isMild = true) :
    Predicts (fun cursor => report (diagnostic cursor) cursor) 1 C :=
  predicts_quiet (fun _ => rfl) fun cursor =>
    ⟨[diagnostic cursor], took_nothing rfl rfl rfl (List.forall_mem_singleton.mpr (h cursor))⟩

theorem predicts_exhausted (h : ∃ w, w ∈ L) : Predicts (exhausted : Reader α) L C :=
  ⟨h, fun _ => trivial⟩

theorem Predicts.andThen [Nonempty α] (h : Predicts rule L C)
    (hnext : ∀ value, Predicts (next value) 1 C) : Predicts (rule >>= next) L C := by
  have hbind := h.bind hnext fun K hK => by rwa [one_mul]
  rwa [mul_one] at hbind

/-- A rule that takes nothing may come first. -/
theorem Predicts.after [Nonempty α] (h : Predicts rule 1 fun _ => True)
    (hnext : ∀ value, Predicts (next value) L C) : Predicts (rule >>= next) L C := by
  have hbind := h.bind hnext fun _ _ => trivial
  rwa [one_mul] at hbind

theorem Predicts.map (h : Predicts rule L C) (result : α → β) : Predicts (result <$> rule) L C where
  phrase := h.phrase
  predicted := by
    intro cursor
    have hrule := h.predicted cursor
    rw [map_apply]
    generalize rule cursor = found at hrule ⊢
    match found with
    | .ok _ _ => exact hrule
    | .error (.fault _) _ => exact hrule
    | .error .exhausted _ => exact trivial

/-- What is skipped after a fault changes nothing: the reader was stuck before. -/
theorem Predicts.recover (h : Predicts rule L C) : Predicts (recover rule) L C where
  phrase := h.phrase
  predicted := by
    intro cursor
    have hrule := h.predicted cursor
    rw [Reader.recover]
    generalize rule cursor = found at hrule ⊢
    match found with
    | .ok _ _ => exact hrule
    | .error (.fault _) _ => exact Or.inr hrule
    | .error .exhausted _ => exact trivial

end Steps

section Choices

variable {kind : Kind → Bool} {terminals : List Terminal} {L L₀ : Language Terminal}
  {behind : Terminal → Language Terminal} {C : Language Terminal → Prop}
  {next : Option Token → Reader β}

/-- A token was taken, and no phrase that begins with it was left out of account. -/
theorem Predicted.step {token : Token} {rest : List Token} {endLine n : Nat}
    {faults : List Diagnostic} {result : EStateM.Result Halt Cursor α}
    (h : Predicted L C ⟨rest, endLine, n, faults⟩ result)
    (hsub : ∀ v ∈ L, terminal token.kind :: v ∈ L₀)
    (honly : ∀ K, C K → ∀ v, terminal token.kind :: v ∈ L₀ * K → v ∈ L * K) :
    Predicted L₀ C ⟨token :: rest, endLine, n, faults⟩ result := by
  have htook := h.took (took_token (C := fun _ => True) token) fun _ _ => trivial
  simp only [lead_mul, one_mul] at htook
  apply htook.among
  · rintro _ ⟨t, ht, v, hv, rfl⟩
    obtain rfl := List.mem_singleton.mp ht
    exact hsub v hv
  · refine fun K hK => ⟨hK, fun w hw hmem => ?_⟩
    cases w with
    | nil => cases hw
    | cons t v =>
        obtain rfl : t = terminal token.kind := Option.some.inj hw
        rw [lead_mul, cons_mem_lead]
        exact ⟨List.mem_singleton_self _, honly K hK v hmem⟩

/-- A choice between what some terminals lead and something else.  Where the other choice could
begin with one of the terminals, too, it must not be needed there. -/
theorem Predicts.accept (hkind : Tells kind terminals)
    (hsome : ∀ token, kind token.kind = true →
      Predicts (next (some token)) (behind (terminal token.kind)) C)
    (hnone : Predicts (next none) L₀ C)
    (hcommit : ∀ K, C K → ∀ t ∈ terminals, ∀ w, t :: w ∈ L₀ * K → w ∈ behind t * K) :
    Predicts (accept? kind >>= next) (lead terminals behind + L₀) C where
  phrase := by
    obtain ⟨w, hw⟩ := hnone.phrase
    exact ⟨w, Or.inr hw⟩
  predicted := by
    rintro ⟨rest, endLine, n, faults⟩
    rw [bind_apply]
    rcases hkind.next rest with ⟨token, rest, rfl, htoken⟩ | ⟨hhead, hother⟩
    · have hterminal := (hkind _).mp htoken
      rw [accept?_of_kind htoken]
      apply ((hsome token htoken).predicted _).step
      · exact fun v hv => Or.inl (cons_mem_lead.mpr ⟨hterminal, hv⟩)
      · -- A sentence of the other choice that begins so is one of this choice as well.
        intro K hK v hmem
        rw [add_mul, Language.mem_add] at hmem
        rcases hmem with hlead | hother
        · rw [lead_mul, cons_mem_lead] at hlead
          exact hlead.2
        · exact hcommit K hK _ hterminal v hother
    · rw [accept?_of_head hhead]
      apply (hnone.predicted _).among
      · exact fun w hw => Or.inr hw
      · refine fun K hK => ⟨hK, fun w hw hmem => ?_⟩
        rw [add_mul, Language.mem_add] at hmem
        rcases hmem with hlead | hrest
        · obtain ⟨t, ht, hhead⟩ := (opens_lead behind).mul K w hlead
          exact absurd hhead (hother w hw t ht)
        · exact hrest

/-- The other choice begins with something else. -/
theorem Predicts.orElse {heads : List Terminal} (hkind : Tells kind terminals)
    (hsome : ∀ token, kind token.kind = true →
      Predicts (next (some token)) (behind (terminal token.kind)) C)
    (hnone : Predicts (next none) L₀ C) (hopens : Opens heads L₀)
    (hnot : ∀ t ∈ terminals, t ∉ heads) :
    Predicts (accept? kind >>= next) (lead terminals behind + L₀) C :=
  Predicts.accept hkind hsome hnone fun K _ t ht _ hmem =>
    absurd rfl ((hopens.mul K).avoids hnot _ hmem t ht)

/-- The other choice is nothing, and what stands behind it begins with something else. -/
theorem Predicts.orNothing (hkind : Tells kind terminals)
    (hsome : ∀ token, kind token.kind = true →
      Predicts (next (some token)) (behind (terminal token.kind)) C)
    (hnone : Predicts (next none) 1 C) (hC : ∀ K, C K → Avoids terminals K) :
    Predicts (accept? kind >>= next) (lead terminals behind + 1) C :=
  Predicts.accept hkind hsome hnone fun K hK t ht _ hmem => by
    rw [one_mul] at hmem
    exact absurd rfl (hC K hK _ hmem t ht)

/-- No choice: the token has to be one of the terminals. -/
theorem Predicts.demand {fault : GrammarFault} (hkind : Tells kind terminals)
    (hgrave : fault.isMild = false) (hphrase : ∃ w, w ∈ lead terminals behind)
    (hsome : ∀ token, kind token.kind = true →
      Predicts (next (some token)) (behind (terminal token.kind)) C)
    (hnone : next none = halt fault) :
    Predicts (accept? kind >>= next) (lead terminals behind) C where
  phrase := hphrase
  predicted := by
    rintro ⟨rest, endLine, n, faults⟩
    rw [bind_apply]
    rcases hkind.next rest with ⟨token, rest, rfl, htoken⟩ | ⟨hhead, hother⟩
    · rw [accept?_of_kind htoken]
      apply ((hsome token htoken).predicted _).step
      · exact fun v hv => cons_mem_lead.mpr ⟨(hkind _).mp htoken, hv⟩
      · intro K hK v hmem
        rw [lead_mul, cons_mem_lead] at hmem
        exact hmem.2
    · rw [accept?_of_head hhead]
      dsimp only
      rw [hnone]
      refine ⟨[], rest, [], fault, [], rfl, rfl, List.forall_mem_nil _, hgrave, hphrase, ?_⟩
      intro K _ w hw hmem
      obtain ⟨t, ht, hhead⟩ := (opens_lead behind).mul K w hmem
      exact hother w hw t ht hhead

variable {t : Terminal} {rule : Reader α}

theorem exists_mem_lead (h : ∃ w, w ∈ L) : ∃ w, w ∈ lead [t] fun _ => L := by
  obtain ⟨w, hw⟩ := h
  exact ⟨t :: w, cons_mem_lead.mpr ⟨List.mem_singleton_self t, hw⟩⟩

theorem predicts_expect {fault : GrammarFault} (hkind : Tells kind [t])
    (hgrave : fault.isMild = false) : Predicts (expect kind fault) (lead [t] fun _ => 1) C :=
  Predicts.demand hkind hgrave (exists_mem_lead ⟨[], rfl⟩) (fun token _ => predicts_pure token) rfl

/-- Behind a token that has to be there, everything is as it would be without it. -/
theorem Predicts.expect {fault : GrammarFault} {next : Token → Reader β} (hkind : Tells kind [t])
    (hgrave : fault.isMild = false) (hnext : ∀ token, Predicts (next token) L C) :
    Predicts (expect kind fault >>= next) (lead [t] fun _ => L) C := by
  have hbind := (predicts_expect (C := fun _ => True) hkind hgrave).bind hnext fun _ _ => trivial
  simp only [lead_mul, one_mul] at hbind
  exact hbind

/-- Nothing is read before the terminal that has to stand behind the rule. -/
theorem Predicts.unless {heads : List Terminal} (hkind : Tells kind [t]) (value : α)
    (h : Predicts rule L (Opens [t])) (hopens : Opens heads L) (hnot : t ∉ heads) :
    Predicts (looksAt kind >>= fun found => if found = true then pure value else rule) (L + 1)
      (Opens [t]) where
  phrase := ⟨[], Or.inr rfl⟩
  predicted := by
    rintro ⟨rest, endLine, n, faults⟩
    rw [bind_apply]
    rcases hkind.next rest with ⟨token, rest, rfl, htoken⟩ | ⟨hhead, hother⟩
    · have hterminal := List.mem_singleton.mp ((hkind _).mp htoken)
      rw [looksAt_of_kind htoken]
      apply ((predicts_pure value).predicted _).among
      · exact fun w hw => Or.inr hw
      · refine fun K hK => ⟨hK, fun w hw hmem => ?_⟩
        rw [add_mul, Language.mem_add] at hmem
        refine hmem.resolve_left fun hphrase => ?_
        obtain ⟨t', ht', hhead'⟩ := hopens.mul K w hphrase
        obtain rfl := Option.some.inj (hw.symm.trans hhead')
        exact hnot (hterminal ▸ ht')
    · rw [looksAt_of_head hhead]
      apply (h.predicted _).among
      · exact fun w hw => Or.inl hw
      · refine fun K hK => ⟨hK, fun w hw hmem => ?_⟩
        rw [add_mul, one_mul, Language.mem_add] at hmem
        refine hmem.resolve_right fun hbehind => ?_
        obtain ⟨t', ht', hhead'⟩ := hK w hbehind
        exact hother w hw t' ht' hhead'

end Choices

end Viable

end Scriptlet
