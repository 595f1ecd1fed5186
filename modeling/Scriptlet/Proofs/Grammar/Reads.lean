/-
What it means that a rule reads phrases of one kind, and how this carries over
from the steps of a rule to the rule.

Only results without any fault count: a rule that reports a fault and goes on
may have read anything.
-/
import Scriptlet.Tree.Reader.Cursor

namespace Scriptlet

@[simp] theorem Kind.isMark_iff {kind : Kind} {mark : Mark} :
    kind.isMark mark = true ↔ kind = .mark mark := by
  cases kind <;> simp [Kind.isMark]

@[simp] theorem Kind.isKeyword_iff {kind : Kind} {keyword : Keyword} :
    kind.isKeyword keyword = true ↔ kind = .keyword keyword := by
  cases kind <;> simp [Kind.isKeyword]

@[simp] theorem Kind.isIdentifier_iff {kind : Kind} :
    kind.isIdentifier = true ↔ kind = .identifier := by
  cases kind <;> simp [Kind.isIdentifier]

@[simp] theorem Kind.isEndOfInput_iff {kind : Kind} :
    kind.isEndOfInput = true ↔ kind = .endOfInput := by
  cases kind <;> simp [Kind.isEndOfInput]

namespace Reader

variable {α β : Type}

/-- Whenever the rule ends without a fault, what it took is a phrase with its
result as tree. -/
def Reads (rule : Reader α) (Phrase : Nat → List Token → α → Nat → Prop) : Prop :=
  ∀ ⦃cursor after : Cursor⦄ ⦃value : α⦄, rule cursor = .ok value after → after.faults = [] →
    cursor.faults = [] ∧
      ∃ used, cursor.rest = used ++ after.rest ∧
        Phrase cursor.issued used value after.issued

variable {rule : Reader α} {next : α → Reader β}
  {P Q : Nat → List Token → α → Nat → Prop} {R : Nat → List Token → β → Nat → Prop}

theorem Reads.weaken (h : Reads rule P)
    (himp : ∀ n used value m, P n used value m → Q n used value m) : Reads rule Q := by
  intro cursor after value hrule hfaults
  obtain ⟨hstart, used, hrest, hphrase⟩ := h hrule hfaults
  exact ⟨hstart, used, hrest, himp _ _ _ _ hphrase⟩

theorem reads_pure {value : α} (h : ∀ n, P n [] value n) : Reads (pure value) P := by
  intro cursor after result hrule hfaults
  simp only [pure_apply, EStateM.Result.ok.injEq] at hrule
  obtain ⟨rfl, rfl⟩ := hrule
  exact ⟨hfaults, [], rfl, h _⟩

/-- The second rule reads what completes the phrase of the first. -/
theorem Reads.bind (hrule : Reads rule P)
    (hnext : ∀ value, Reads (next value) fun k others result m =>
      ∀ n first, P n first value k → R n (first ++ others) result m) :
    Reads (rule >>= next) R := by
  intro cursor after result h hfaults
  rw [bind_apply] at h
  split at h
  · next value between hfirst =>
      obtain ⟨hbetween, others, hothers, hR⟩ := hnext value h hfaults
      obtain ⟨hstart, first, hfirst', hP⟩ := hrule hfirst hbetween
      refine ⟨hstart, first ++ others, ?_, hR _ _ hP⟩
      rw [hfirst', hothers, List.append_assoc]
  · cases h

theorem Reads.map {result : α → β} (hrule : Reads rule P)
    (h : ∀ n used value m, P n used value m → R n used (result value) m) :
    Reads (result <$> rule) R := by
  intro cursor after value hmap hfaults
  rw [map_apply] at hmap
  split at hmap
  · next tree between hfirst =>
      simp only [EStateM.Result.ok.injEq] at hmap
      obtain ⟨rfl, rfl⟩ := hmap
      obtain ⟨hstart, used, hrest, hP⟩ := hrule hfirst hfaults
      exact ⟨hstart, used, hrest, h _ _ _ _ hP⟩
  · cases hmap

theorem reads_exhausted : Reads exhausted P := by
  intro cursor after value h
  simp [exhausted] at h

theorem reads_halt (fault : GrammarFault) : Reads (halt fault) P := by
  intro cursor after value h
  simp [halt] at h

/-- A rule that reports a fault on its way does not count. -/
theorem reads_report_bind (diagnostic : Diagnostic) {next : Unit → Reader β}
    {S : Nat → List Token → β → Nat → Prop} (hnext : Reads (next ()) S) :
    Reads (report diagnostic >>= next) R := by
  intro cursor after value h hfaults
  obtain ⟨hreported, _⟩ := hnext h hfaults
  simp at hreported

theorem reads_reportHere_bind (fault : GrammarFault) {next : Unit → Reader β}
    {S : Nat → List Token → β → Nat → Prop} (hnext : Reads (next ()) S) :
    Reads (reportHere fault >>= next) R := by
  intro cursor after value h hfaults
  exact reads_report_bind _ hnext h hfaults

theorem looksAt_cases (kind : Kind → Bool) (cursor : Cursor) :
    ∃ found, looksAt kind cursor = .ok found cursor := by
  unfold looksAt
  split
  · exact ⟨_, rfl⟩
  · exact ⟨_, rfl⟩

theorem reads_looksAt_bind {kind : Kind → Bool} {next : Bool → Reader β}
    (hnext : ∀ found, Reads (next found) R) : Reads (looksAt kind >>= next) R := by
  intro cursor after value h hfaults
  obtain ⟨found, hfound⟩ := looksAt_cases kind cursor
  rw [bind_apply, hfound] at h
  exact hnext found h hfaults

theorem reads_atEnd_bind {next : Bool → Reader β} (hnext : ∀ found, Reads (next found) R) :
    Reads (atEnd >>= next) R := by
  intro cursor after value h hfaults
  rw [bind_apply] at h
  exact hnext _ h hfaults

/-- The next token is taken, or there is none of that kind. -/
theorem accept?_cases (kind : Kind → Bool) (cursor : Cursor) :
    accept? kind cursor = .ok none cursor ∨
      ∃ token rest, cursor.rest = token :: rest ∧ kind token.kind = true ∧
        accept? kind cursor = .ok (some token) { cursor with rest := rest } := by
  unfold accept?
  split
  · next token rest hrest =>
      by_cases hkind : kind token.kind = true
      · exact Or.inr ⟨token, rest, hrest, hkind, by rw [if_pos hkind]⟩
      · exact Or.inl (by rw [if_neg hkind])
  · exact Or.inl rfl

theorem reads_accept?_bind {kind : Kind → Bool} {next : Option Token → Reader β}
    (hnone : Reads (next none) R)
    (hsome : ∀ token, kind token.kind = true → Reads (next (some token))
      fun n used value m => R n (token :: used) value m) :
    Reads (accept? kind >>= next) R := by
  intro cursor after value h hfaults
  rcases accept?_cases kind cursor with hnothing | ⟨token, rest, hrest, hkind, htaken⟩
  · rw [bind_apply, hnothing] at h
    exact hnone h hfaults
  · rw [bind_apply, htaken] at h
    obtain ⟨hstart, used, hused, hR⟩ := hsome token hkind h hfaults
    exact ⟨hstart, token :: used, hrest.trans (congrArg (token :: ·) hused), hR⟩

theorem reads_expect_bind {kind : Kind → Bool} {fault : GrammarFault}
    {next : Token → Reader β}
    (hnext : ∀ token, kind token.kind = true → Reads (next token)
      fun n used value m => R n (token :: used) value m) :
    Reads (expect kind fault >>= next) R := by
  intro cursor after value h hfaults
  rcases accept?_cases kind cursor with hnothing | ⟨token, rest, hrest, hkind, htaken⟩
  · rw [bind_apply, expect, bind_apply, hnothing] at h
    cases h
  · rw [bind_apply, expect, bind_apply, htaken] at h
    obtain ⟨hstart, used, hused, hR⟩ := hnext token hkind h hfaults
    exact ⟨hstart, token :: used, hrest.trans (congrArg (token :: ·) hused), hR⟩

theorem reads_freshId_bind {next : NodeId → Reader β}
    (hnext : ∀ n, Reads (next (.ofCount n)) fun k used value m =>
      k = n + 1 → R n used value m) :
    Reads (freshId >>= next) R := by
  intro cursor after value h hfaults
  rw [bind_apply] at h
  obtain ⟨hstart, used, hused, hR⟩ := hnext cursor.issued h hfaults
  exact ⟨hstart, used, hused, hR rfl⟩

/-- A rule that recovered has reported a fault. -/
theorem Reads.recover (h : Reads rule P) :
    Reads (recover rule) fun n used result m => ∃ tree ∈ result, P n used tree m := by
  intro cursor after value hrule hfaults
  unfold Reader.recover at hrule
  split at hrule
  · next tree between hfirst =>
      simp only [EStateM.Result.ok.injEq] at hrule
      obtain ⟨rfl, rfl⟩ := hrule
      obtain ⟨hstart, used, hrest, hP⟩ := h hfirst hfaults
      exact ⟨hstart, used, hrest, tree, rfl, hP⟩
  · simp only [EStateM.Result.ok.injEq] at hrule
    obtain ⟨rfl, rfl⟩ := hrule
    simp at hfaults
  · cases hrule

end Reader

end Scriptlet
