/-
Sessions: every step of a session gives what it gives with lexical scoping alone.

The invariant between two steps says that machine and store belong together, and
that the side table has no entry yet for identities that are still to be handed
out.
-/
import Scriptlet.Proofs.Lexical.Resolved
import Scriptlet.Proofs.Lexical.Simulation
import Scriptlet.Proofs.Source.Lexemes

namespace Scriptlet

/-- A value without what a closure can see, which shows only in what it does. -/
def ValueIn.withoutScope {Place : Type} : ValueIn Place → ValueIn Unit
  | .nil => .nil
  | .bool value => .bool value
  | .number value => .number value
  | .string text => .string text
  | .closure function =>
      .closure ⟨function.name, function.params, function.body, (), function.identity⟩
  | .host function => .host function

/-- What shows of a result. -/
def Yield.visible {Place : Type} : Yield Place → Yield Unit
  | .done => .done
  | .value result => .value result.withoutScope
  | .program body => .program body
  | .expression expr => .expression expr

def Answer.visible {Place : Type} (answer : Answer Place) : Answer Unit :=
  answer.map Yield.visible

/-- The failure has causes in the program, not in how it was resolved. -/
def Failure.Sound : Failure → Prop
  | .static _ => True
  | .stopped stop => stop.Sound

namespace Lexical

open Reference (Env Store Run)

variable {known later : Known} {homes : Homes} {machine : Machine} {store : Store}
  {session : Session} {ref : Reference.Session}

/-- What is known may grow between runs. -/
theorem Relates.extend (h : Relates known homes machine store) (hextends : known.Extends later) :
    Relates later homes { machine with table := later.table } store := by
  refine { h with table := rfl, globals := fun name => ?_, locals := ?_ }
  · exact rel_imp (h.globals name) fun _ _ hmatch => hmatch.extend hextends
  · intro scope name value hscope hvalue
    obtain ⟨cell, value', hhome, hcell, hmatch⟩ := h.locals scope name value hscope hvalue
    exact ⟨cell, value', hhome, hcell, hmatch.extend hextends⟩

/-- The two sessions have gone the same way so far. -/
structure Parallel (homes : Homes) (session : Session) (ref : Reference.Session) : Prop where
  relates : Relates ⟨session.machine.table, session.issued⟩ homes session.machine ref.store
  issued : ref.issued = session.issued
  current : session.machine.current = Machine.globals
  fresh : ∀ k, session.issued ≤ k → k < UInt32.size →
    session.machine.table.distance? (.ofCount k) = none

theorem parallel_initial (sink : Sink) (clock : Clock) :
    Parallel [] (.initial sink clock) (.initial sink clock) := by
  refine ⟨⟨rfl, rfl, rfl, List.nodup_nil, nofun, rfl, Nat.zero_lt_one, fun name => ?_, ?_⟩, rfl,
    rfl, fun k _ _ => Table.distance?_empty _⟩
  · show Option.Rel _ ((Machine.initial sink clock).scopes.own? _ _) _
    rw [Machine.own?_initial]
    by_cases hname : name = HostAction.clock.name
    · subst hname
      exact .some (.host _)
    · rw [if_neg fun h => hname h.2]
      have hlookup : List.lookup name
          [(HostAction.clock.name, (.host ⟨.clock, 0, 0⟩ : ValueIn Env))] = none := by
        rw [List.lookup_cons, beq_false_of_ne hname]
        rfl
      exact hlookup ▸ .none
  · intro scope name value hscope hvalue
    change (Machine.initial sink clock).scopes.own? _ _ = _ at hvalue
    rw [Machine.own?_initial, if_neg fun h => hscope h.1.symm] at hvalue
    cases hvalue

theorem Matches.withoutScope_eq {tree : ScopeTree Value} {value : Value} {value' : ValueIn Env}
    (h : Matches known homes tree value value') : value.withoutScope = value'.withoutScope := by
  cases h with
  | closure hclosure =>
      cases hclosure
      rfl
  | _ => rfl

/-- Both succeed with related values, or both fail for the same sound reason. -/
inductive SoundlySame {α β : Type} (R : α → β → Prop) : Except Failure α → Except Failure β → Prop
  | ok {a : α} {b : β} (related : R a b) : SoundlySame R (.ok a) (.ok b)
  | error {failure : Failure} (sound : failure.Sound) :
      SoundlySame R (.error failure) (.error failure)

theorem SoundlySame.map {α β γ δ : Type} {R : α → β → Prop} {S : γ → δ → Prop}
    {result : Except Failure α} {result' : Except Failure β} {change : α → γ} {change' : β → δ}
    (h : SoundlySame R result result') (himp : ∀ a b, R a b → S (change a) (change' b)) :
    SoundlySame S (result.map change) (result'.map change') := by
  cases h with
  | ok hrelated => exact .ok (himp _ _ hrelated)
  | error hsound => exact .error hsound

section Steps

variable {α β : Type} {rule : Nat → Reader α} {n m : Nat} {source : String}

/-- What is known has an older and a newer part. -/
theorem Parallel.read (h : Parallel homes session ref) (hle : session.issued ≤ m) :
    Parallel homes { session with issued := m } { ref with issued := m } where
  relates := h.relates.extend ⟨hle, fun _ _ => rfl⟩
  issued := rfl
  current := h.current
  fresh k hk := h.fresh k (Nat.le_trans hle hk)

/-- What is found before anything is run is no defect. -/
theorem sound_of_readSource {failure : Failure}
    (h : readSource rule n source = (.error failure, m)) : failure.Sound := by
  unfold readSource at h
  dsimp only at h
  obtain ⟨hresult, -⟩ := Prod.mk.inj h
  split at hresult
  · split at hresult
    · cases hresult
    · cases hresult
      trivial
  · cases hresult
    trivial

/-- Both sessions act, and have gone the same way again. -/
theorem Parallel.act {touched : Option Nat} {action : Eval α} {action' : Run β}
    {P : Homes → Machine → α → β → Prop} (h : Parallel homes session ref)
    (hsimulates : Simulates ⟨session.machine.table, session.issued⟩ touched homes session.machine
      ref.store action action' P) :
    ∃ homes', Parallel homes' (session.act action).2 (ref.act action').2 ∧
      SoundlySame (P homes' (session.act action).2.machine) (session.act action).1
        (ref.act action').1 := by
  obtain ⟨machine, issued⟩ := session
  unfold Simulates at hsimulates
  simp only [Session.act, Reference.Session.act]
  generalize action machine = result at hsimulates ⊢
  generalize action' ref.store = result' at hsimulates ⊢
  have hparallel : ∀ {homes' machine' store'}, Grows touched homes machine homes' machine' →
      Relates ⟨machine.table, issued⟩ homes' machine' store' →
      Parallel homes' ⟨machine', issued⟩ { ref with store := store' } := by
    intro homes' machine' store' hgrows hrelates
    have htable : machine'.table = machine.table := hrelates.table
    refine ⟨?_, h.issued, hgrows.current.trans h.current, ?_⟩
    · rw [htable]
      exact hrelates
    · rw [htable]
      exact h.fresh
  cases hsimulates with
  | ok hgrows hrelates hpost => exact ⟨_, hparallel hgrows hrelates, .ok hpost⟩
  | error hgrows hrelates hsound => exact ⟨_, hparallel hgrows hrelates, .error hsound⟩

theorem Parallel.readBy (h : Parallel homes session ref)
    (hcounts : ∀ bound, Reader.Counts (rule bound)) (source : String) :
    Parallel homes (session.read rule source).2 (ref.read rule source).2 ∧
      SoundlySame (fun tree tree' => tree = tree') (session.read rule source).1
        (ref.read rule source).1 := by
  have hle := Session.issued_le_readSource hcounts session.issued source
  unfold Session.read Reference.Session.read
  rw [h.issued]
  cases hread : readSource rule session.issued source with
  | mk result m =>
      rw [hread] at hle
      refine ⟨h.read hle, ?_⟩
      cases result with
      | error failure => exact .error (sound_of_readSource hread)
      | ok tree => exact .ok rfl

/-- A program that was read and resolved fits the table that it comes with. -/
theorem Parallel.resolved (h : Parallel homes session ref) {program : List Stmt} {added : Table}
    (hread : readSource Reader.program session.issued source = (.ok program, m))
    (hresolve : resolve program = .ok added) (hids : m ≤ UInt32.size) :
    Parallel homes ⟨session.machine.addTable added, m⟩ { ref with issued := m } ∧
      FitsStmts ⟨(session.machine.addTable added).table, m⟩ [] program := by
  have hderives := Grammar.parse_program_sound (Source.scan_endsOnce source)
    (Session.readSource_eq_ok_iff.mp hread).2
  obtain ⟨hformed, hnumbered⟩ := Grammar.derives_wellMade hderives
  obtain ⟨hfits, hextends, hfresh⟩ := fits_of_resolve hresolve hformed hnumbered hids h.fresh
  exact ⟨⟨h.relates.extend hextends, rfl, h.current, hfresh⟩, hfits⟩

/-- An expression that was read is not in the table, and needs not be. -/
theorem Parallel.unlisted (h : Parallel homes session ref) {expr : Expr}
    (hread : readSource Reader.wholeExpression session.issued source = (.ok expr, m))
    (hids : m ≤ UInt32.size) : FitsExpr ⟨session.machine.table, m⟩ [] none expr := by
  have hderives := Grammar.parse_lone_sound (Source.scan_endsOnce source)
    (Session.readSource_eq_ok_iff.mp hread).2
  obtain ⟨hformed, hnumbered⟩ := Grammar.derives_wellMade hderives
  apply fitsExpr_of_unlisted hformed
  intro id hid
  obtain ⟨k, hk, hkm, rfl⟩ := hnumbered.exists_count hid
  exact ⟨⟨k, hkm, rfl⟩, h.fresh k hk (Nat.lt_of_lt_of_le hkm hids)⟩

theorem Parallel.run (h : Parallel homes session ref) (bound : Nat) (source : String)
    (hids : (session.run bound source).2.issued ≤ UInt32.size) :
    ∃ homes', Parallel homes' (session.run bound source).2 (ref.run bound source).2 ∧
      SoundlySame (fun _ _ => True) (session.run bound source).1
        (ref.run bound source).1 := by
  have hle := Session.issued_le_readSource Reader.counts_program session.issued source
  rw [Session.issued_run] at hids
  unfold Session.run Session.readProgram Session.read Reference.Session.run Reference.Session.read
  rw [h.issued]
  cases hread : readSource Reader.program session.issued source with
  | mk result m =>
      rw [hread] at hids hle
      cases result with
      | error failure => exact ⟨homes, h.read hle, .error (sound_of_readSource hread)⟩
      | ok program =>
          dsimp only
          cases hresolve : resolve program with
          | error faults => exact ⟨homes, h.read hle, .error trivial⟩
          | ok added =>
              obtain ⟨hready, hfits⟩ := h.resolved hread hresolve hids
              exact hready.act (simulates_runProgram bound hready.relates hready.current hfits)

theorem Parallel.evaluate (h : Parallel homes session ref) (bound : Nat) (source : String)
    (hids : (session.evaluate bound source).2.issued ≤ UInt32.size) :
    ∃ homes', Parallel homes' (session.evaluate bound source).2 (ref.evaluate bound source).2 ∧
      SoundlySame (fun value value' => value.withoutScope = value'.withoutScope)
        (session.evaluate bound source).1 (ref.evaluate bound source).1 := by
  have hle := Session.issued_le_readSource Reader.counts_wholeExpression session.issued source
  rw [Session.issued_evaluate] at hids
  unfold Session.evaluate Session.readExpression Session.read Reference.Session.evaluate
    Reference.Session.read
  rw [h.issued]
  cases hread : readSource Reader.wholeExpression session.issued source with
  | mk result m =>
      rw [hread] at hids hle
      cases result with
      | error failure => exact ⟨homes, h.read hle, .error (sound_of_readSource hread)⟩
      | ok expr =>
          have hready := h.read hle
          have hfits := h.unlisted hread hids
          have hglobal : Mirrors homes session.machine.scopes none session.machine.current [] :=
            h.current
          have hvalue := (simulatesAt bound).evaluate hready.relates hglobal hfits
          exact hready.act (hvalue.weaken fun _ _ _ _ _ hmatch => hmatch.withoutScope_eq)

/-- One step, of any kind. -/
theorem Parallel.perform (h : Parallel homes session ref) (step : Step)
    (hids : (session.perform step).2.issued ≤ UInt32.size) :
    ∃ homes', Parallel homes' (session.perform step).2 (ref.perform step).2 ∧
      SoundlySame (fun result result' => result.visible = result'.visible)
        (session.perform step).1 (ref.perform step).1 := by
  cases step with
  | run bound source =>
      obtain ⟨homes', hparallel, hresult⟩ := h.run bound source hids
      exact ⟨homes', hparallel, hresult.map fun _ _ _ => rfl⟩
  | evaluate bound source =>
      obtain ⟨homes', hparallel, hresult⟩ := h.evaluate bound source hids
      exact ⟨homes', hparallel, hresult.map fun _ _ hsame => congrArg Yield.value hsame⟩
  | readProgram source =>
      obtain ⟨hparallel, hresult⟩ := h.readBy Reader.counts_program source
      exact ⟨homes, hparallel, hresult.map fun _ _ hsame => congrArg Yield.program hsame⟩
  | readExpression source =>
      obtain ⟨hparallel, hresult⟩ := h.readBy Reader.counts_wholeExpression source
      exact ⟨homes, hparallel, hresult.map fun _ _ hsame => congrArg Yield.expression hsame⟩

/-- What two entries of transcripts have in common. -/
def SameEntry (entry : Answer Nat × Outside) (entry' : Answer Env × Outside) : Prop :=
  SoundlySame (fun result result' => result.visible = result'.visible)
      entry.1 entry'.1 ∧
    entry.2 = entry'.2

theorem Parallel.afterSteps (h : Parallel homes session ref) (steps : List Step)
    (hids : (session.afterSteps steps).issued ≤ UInt32.size) :
    ∃ homes' ref', Parallel homes' (session.afterSteps steps) ref' := by
  induction steps generalizing homes session ref with
  | nil => exact ⟨homes, ref, h⟩
  | cons step rest ih =>
      have hstep : (session.perform step).2.issued ≤ UInt32.size :=
        Nat.le_trans (Session.issued_le_afterSteps _ rest) hids
      obtain ⟨homes', hparallel, -⟩ := h.perform step hstep
      exact ih hparallel hids

theorem Parallel.transcript (h : Parallel homes session ref) (steps : List Step)
    (hids : (session.afterSteps steps).issued ≤ UInt32.size) :
    List.Forall₂ SameEntry (session.transcript steps) (ref.transcript steps) := by
  induction steps generalizing homes session ref with
  | nil => exact .nil
  | cons step rest ih =>
      have hstep : (session.perform step).2.issued ≤ UInt32.size :=
        Nat.le_trans (Session.issued_le_afterSteps _ rest) hids
      obtain ⟨homes', hparallel, hanswer⟩ := h.perform step hstep
      exact .cons ⟨hanswer, hparallel.relates.outside⟩ (ih hparallel hids)

theorem sound_of_sameEntry {entries : List (Answer Nat × Outside)}
    {entries' : List (Answer Env × Outside)} (h : List.Forall₂ SameEntry entries entries') :
    ∀ entry ∈ entries, ∀ failure, entry.1 = .error failure → failure.Sound := by
  induction h with
  | nil => exact nofun
  | @cons first first' _ _ hsame _ ih =>
      intro entry hentry failure hfailure
      rcases List.mem_cons.mp hentry with rfl | hentry
      · obtain ⟨answer', outside'⟩ := first'
        have hanswer := hsame.1
        rw [hfailure] at hanswer
        dsimp only at hanswer
        cases hanswer with
        | error hsound => exact hsound
      · exact ih entry hentry failure hfailure

/-- What shows of an entry. -/
def shown {Place : Type} (entry : Answer Place × Outside) : Answer Unit × Outside :=
  (entry.1.visible, entry.2)

theorem SameEntry.shown_eq {entry : Answer Nat × Outside} {entry' : Answer Env × Outside}
    (h : SameEntry entry entry') : shown entry = shown entry' := by
  obtain ⟨answer, outside⟩ := entry
  obtain ⟨answer', outside'⟩ := entry'
  obtain ⟨hanswer, houtside⟩ := h
  dsimp only at hanswer houtside
  subst houtside
  cases hanswer with
  | ok hvisible => exact congrArg (fun result => (Except.ok result, outside)) hvisible
  | error _ => rfl

end Steps

/-! ### Whole sessions -/

/-- Whatever sources a session is given, in whatever order, and whether they fail or
not: a name that the resolver placed is found where the side table says, and an
operator is applied only if it is one. -/
theorem transcript_without_defect (sink : Sink) (clock : Clock) (steps : List Step)
    (hids : ((Session.initial sink clock).afterSteps steps).issued ≤ UInt32.size) :
    ∀ entry ∈ (Session.initial sink clock).transcript steps, ∀ stop,
      entry.1 = .error (.stopped stop) →
        (∀ defect, stop ≠ .defect defect) ∧
          ∀ line fault, stop = .fault (.runtime line fault) →
            fault.message ≠ "Invalid unary operator." ∧
              fault.message ≠ "Invalid binary operator." := by
  have hsame := (parallel_initial sink clock).transcript steps hids
  intro entry hentry stop hstop
  have hsound : stop.Sound := sound_of_sameEntry hsame entry hentry (.stopped stop) hstop
  constructor
  · rintro defect rfl
    exact hsound
  · rintro line fault rfl
    exact hsound

/-- A closure is made in one source and called in later ones, also behind a source
that stopped in the middle. -/
def counterSteps : List Step :=
  [.run 100 ("fun make() \x7b var n = 0; fun next() \x7b n = n + 1; return n; \x7d " ++
      "return next; \x7d"),
    .run 100 "var next = make(); next() - nil;", .run 100 "print next(", .evaluate 100 "next()"]

theorem transcript_without_defect_counter :
    ((Session.initial .unlimited 0).afterSteps counterSteps).issued ≤ UInt32.size ∧
      ∀ entry ∈ (Session.initial .unlimited 0).transcript counterSteps, ∀ stop,
        entry.1 = .error (.stopped stop) →
          (∀ defect, stop ≠ .defect defect) ∧
            ∀ line fault, stop = .fault (.runtime line fault) →
              fault.message ≠ "Invalid unary operator." ∧
                fault.message ≠ "Invalid binary operator." := by
  have hids : ((Session.initial .unlimited 0).afterSteps counterSteps).issued ≤ UInt32.size := by
    decide +kernel
  exact ⟨hids, transcript_without_defect .unlimited 0 counterSteps hids⟩

/-- A session gives what it would give if every declaration made a variable of its
own, and a function saw those declared before it: the same output, the same results
and the same faults, step by step. -/
theorem transcript_eq_reference (sink : Sink) (clock : Clock) (steps : List Step)
    (hids : ((Session.initial sink clock).afterSteps steps).issued ≤ UInt32.size) :
    ((Session.initial sink clock).transcript steps).map shown =
      ((Reference.Session.initial sink clock).transcript steps).map shown := by
  have hsame := (parallel_initial sink clock).transcript steps hids
  generalize (Session.initial sink clock).transcript steps = entries at hsame
  generalize (Reference.Session.initial sink clock).transcript steps = entries' at hsame
  induction hsame with
  | nil => rfl
  | cons hentry _ ih => exact congrArg₂ List.cons hentry.shown_eq ih

/-- The closure does not see the variable that is declared behind it. -/
def captureSteps : List Step :=
  [.run 100 ("var a = 1; \x7b fun show() \x7b print a == 1; \x7d var a = 2; show(); " ++
      "print a == 2; \x7d"),
    .evaluate 100 "a"]

theorem transcript_eq_reference_capture :
    ((Session.initial .unlimited 0).afterSteps captureSteps).issued ≤ UInt32.size ∧
      ((Session.initial .unlimited 0).transcript captureSteps).map shown =
        ((Reference.Session.initial .unlimited 0).transcript captureSteps).map shown := by
  have hids : ((Session.initial .unlimited 0).afterSteps captureSteps).issued ≤ UInt32.size := by
    decide +kernel
  exact ⟨hids, transcript_eq_reference .unlimited 0 captureSteps hids⟩

end Lexical

end Scriptlet
