/-
Sessions without loops end.

A source in which neither word for a loop stands is read as a program without loops, so each
run of such sources ends, and leaves only functions behind that have no loops either.
-/
import Scriptlet.Proofs.Lexical.Sessions
import Scriptlet.Proofs.Runs.LoopFree
import Scriptlet.Proofs.Session.Starts

namespace Scriptlet

/-- The words that loops begin with. -/
def Token.BeginsLoop (token : Token) : Prop :=
  token.IsKeyword .while_ ∨ token.IsKeyword .for_

instance : DecidablePred Token.BeginsLoop := fun token =>
  decidable_of_iff (token.kind.isKeyword .while_ = true ∨ token.kind.isKeyword .for_ = true)
    (or_congr Kind.isKeyword_iff Kind.isKeyword_iff)

namespace Grammar

/-- What holds of the tree of a phrase without loops. -/
def LoopFreeTree : (symbol : Symbol) → symbol.Tree → Prop
  | .program, body => LoopFreeStmts body
  | .declarations, body => LoopFreeStmts body
  | .declaration, tree => LoopFreeStmt tree
  | .statement _, tree => LoopFreeStmt tree
  | .block, body => LoopFreeStmts body
  | .variableDeclaration, tree => LoopFreeStmt tree
  | .expressionStatement, tree => LoopFreeStmt tree
  | _, _ => True

/-- Only the words for loops make loops. -/
theorem derives_loopFree {strict : Bool} {symbol : Symbol} {n m : Nat} {tokens : List Token}
    {tree : symbol.Tree} (h : Derives strict symbol n tokens tree m)
    (htokens : ∀ token ∈ tokens, ¬ token.BeginsLoop) : LoopFreeTree symbol tree := by
  induction h with
  | program _ _ ih => exact ih (List.forall_mem_append.mp htokens).1
  | declarations _ _ ihHead ihTail =>
      obtain ⟨hhead, htail⟩ := List.forall_mem_append.mp htokens
      exact ⟨ihHead hhead, ihTail htail⟩
  | function _ _ _ _ _ _ _ _ ihBlock =>
      simp only [List.forall_mem_cons, List.forall_mem_append] at htokens
      exact ihBlock htokens.2.2.2.2.2
  | var_ _ ih => exact ih htokens
  | statement _ ih => exact ih htokens
  | block _ _ _ ih =>
      simp only [List.forall_mem_cons, List.forall_mem_append] at htokens
      exact ih htokens.2.1
  | expression _ ih => exact ih htokens
  | for_ hlead => exact absurd (Or.inr hlead) (htokens _ List.mem_cons_self)
  | if_ _ _ _ _ _ _ ihInner =>
      simp only [List.forall_mem_cons, List.forall_mem_append] at htokens
      exact ihInner htokens.2.2.2.2
  | ifElse _ _ _ _ _ _ _ _ _ ihInner ihOther =>
      simp only [List.forall_mem_cons, List.forall_mem_append] at htokens
      exact ⟨ihInner htokens.2.2.2.2.1, ihOther htokens.2.2.2.2.2.2⟩
  | while_ hlead => exact absurd (Or.inl hlead) (htokens _ List.mem_cons_self)
  | blockStatement _ ih => exact ih htokens
  | _ => trivial

end Grammar

namespace Session

/-- No word for a loop stands in the source. -/
def LoopFreeSource (source : String) : Prop :=
  ∀ token ∈ (Source.scan source).tokens, ¬ token.BeginsLoop

instance (source : String) : Decidable (LoopFreeSource source) :=
  inferInstanceAs (Decidable (∀ token ∈ _, _))

theorem loopFree_of_read {n m : Nat} {source : String} {program : List Stmt}
    (hsource : LoopFreeSource source)
    (hread : readSource Reader.program n source = (.ok program, m)) : LoopFreeStmts program :=
  Grammar.derives_loopFree (Grammar.parse_program_sound (Source.scan_endsOnce source)
    (readSource_eq_ok_iff.mp hread).2) hsource

/-- The answer tells of an end: well, or with a fault. -/
def Answered (answer : Answer Nat) : Prop :=
  answer = .ok .done ∨ (∃ faults, answer = .error (.static faults)) ∨
    ∃ diagnostic, answer = .error (.stopped (.fault diagnostic))

theorem loopFree_initial (sink : Sink) (clock : Clock) :
    LoopFreeScopes (Session.initial sink clock).machine.scopes := by
  intro scope name value hvalue
  change (Machine.initial sink clock).scopes.own? scope name = some value at hvalue
  rw [Machine.own?_initial] at hvalue
  split at hvalue
  · cases hvalue
    trivial
  · cases hvalue

/-- The whole run of a loop-free program, with what comes behind its statements. -/
theorem runProgram_of_loopFree {program : List Stmt} (hprogram : LoopFreeStmts program)
    {machine : Machine} (hscopes : LoopFreeScopes machine.scopes) :
    ∃ enough, ∀ bound, enough ≤ bound →
      Eval.runProgram bound program machine = Eval.runProgram enough program machine ∧
        (∀ after, Eval.runProgram bound program machine ≠ .error .exhausted after) ∧
        LoopFreeScopes (Eval.final (Eval.runProgram bound program machine)).scopes := by
  have htask : (Task.program program).LoopFree := hprogram
  obtain ⟨enough, henough⟩ := Task.run_of_loopFree htask hscopes
  refine ⟨enough, fun bound hbound => ?_⟩
  obtain ⟨hsame, hbounded, hkept⟩ := henough bound hbound
  simp only [Task.run] at hsame hbounded hkept
  refine ⟨?_, ?_, ?_⟩
  · unfold Eval.runProgram
    rw [hsame]
  · intro after hexhausted
    unfold Eval.runProgram Eval.flush at hexhausted
    cases hrun : Eval.runAll bound program machine with
    | ok value later =>
        rw [hrun] at hexhausted
        dsimp only at hexhausted
        split at hexhausted
        · cases hexhausted
        · cases hexhausted
    | error stop later =>
        rw [hrun] at hexhausted
        cases hexhausted
        exact hbounded later hrun
  · obtain ⟨current, hfinal⟩ := Eval.final_runProgram bound program machine
    rw [hfinal]
    exact hkept

theorem static_of_readSource {α : Type} {rule : Nat → Reader α} {n m : Nat} {source : String}
    {failure : Failure} (h : readSource rule n source = (.error failure, m)) :
    ∃ faults, failure = .static faults := by
  unfold readSource at h
  dsimp only at h
  obtain ⟨hresult, -⟩ := Prod.mk.inj h
  split at hresult
  · split at hresult
    · cases hresult
    · cases hresult
      exact ⟨_, rfl⟩
  · cases hresult
    exact ⟨_, rfl⟩

/-- From where all functions are loop-free, running a loop-free source ends. -/
theorem run_of_loopFree {session : Session} (hscopes : LoopFreeScopes session.machine.scopes)
    {source : String} (hsource : LoopFreeSource source) :
    ∃ enough, ∀ bound, enough ≤ bound →
      session.run bound source = session.run enough source ∧
        (session.run bound source).1 ≠ .error (.stopped .exhausted) ∧
        LoopFreeScopes (session.run bound source).2.machine.scopes := by
  unfold run readProgram read
  cases hread : readSource Reader.program session.issued source with
  | mk result m =>
      cases result with
      | error failure =>
          obtain ⟨faults, rfl⟩ := static_of_readSource hread
          exact ⟨0, fun _ _ => ⟨rfl, nofun, hscopes⟩⟩
      | ok program =>
          dsimp only
          cases resolve program with
          | error faults => exact ⟨0, fun _ _ => ⟨rfl, nofun, hscopes⟩⟩
          | ok table =>
              have hstart : LoopFreeScopes (session.machine.addTable table).scopes := hscopes
              obtain ⟨enough, henough⟩ :=
                runProgram_of_loopFree (loopFree_of_read hsource hread) hstart
              refine ⟨enough, fun bound hbound => ?_⟩
              obtain ⟨hsame, hbounded, hkept⟩ := henough bound hbound
              refine ⟨?_, ?_, ?_⟩
              · dsimp only [act]
                rw [hsame]
              · dsimp only [act]
                cases hrun : Eval.runProgram bound program (session.machine.addTable table) with
                | ok value after => exact nofun
                | error stop after =>
                    intro hexhausted
                    cases hexhausted
                    exact hbounded after hrun
              · rw [machine_act]
                exact hkept

/-- Sources without loops come to their ends one after the other. -/
theorem transcript_of_loopFree {sources : List String}
    (hsources : ∀ source ∈ sources, LoopFreeSource source) {session : Session}
    (hscopes : LoopFreeScopes session.machine.scopes) :
    ∃ enough, ∀ bound, enough ≤ bound →
      session.transcript (sources.map (.run bound)) =
          session.transcript (sources.map (.run enough)) ∧
        ∀ entry ∈ session.transcript (sources.map (.run bound)),
          entry.1 ≠ .error (.stopped .exhausted) := by
  induction sources generalizing session with
  | nil => exact ⟨0, fun _ _ => ⟨rfl, nofun⟩⟩
  | cons source rest ih =>
      obtain ⟨hsource, hrest⟩ := List.forall_mem_cons.mp hsources
      obtain ⟨first, hfirst⟩ := run_of_loopFree hscopes hsource
      obtain ⟨later, hlater⟩ := ih hrest (hfirst first (Nat.le_refl _)).2.2
      have hstep : ∀ bound, max first later ≤ bound →
          session.transcript ((source :: rest).map (.run bound)) =
            ((session.perform (.run first source)).1,
                (session.run first source).2.machine.toOutside) ::
              (session.run first source).2.transcript (rest.map (.run later)) := by
        intro bound hbound
        have hrun := (hfirst bound (Nat.le_trans (Nat.le_max_left _ _) hbound)).1
        have htail := (hlater bound (Nat.le_trans (Nat.le_max_right _ _) hbound)).1
        rw [← htail]
        simp only [List.map_cons, transcript, perform, hrun]
      refine ⟨max first later, fun bound hbound => ⟨?_, ?_⟩⟩
      · rw [hstep bound hbound, hstep _ (Nat.le_refl _)]
      · rw [hstep bound hbound, List.forall_mem_cons]
        refine ⟨?_, (hlater later (Nat.le_refl _)).2⟩
        have hbounded := (hfirst first (Nat.le_refl _)).2.1
        intro hexhausted
        dsimp only [perform] at hexhausted
        cases hrun : (session.run first source).1 with
        | ok _ =>
            rw [hrun] at hexhausted
            cases hexhausted
        | error failure =>
            rw [hrun] at hexhausted
            cases hexhausted
            exact hbounded hrun

theorem done_of_run {session : Session} {bound : Nat} {sources : List String}
    {entry : Answer Nat × Outside} (h : entry ∈ session.transcript (sources.map (.run bound)))
    {result : Yield Nat} (hresult : entry.1 = .ok result) : result = .done := by
  induction sources generalizing session with
  | nil => cases h
  | cons source rest ih =>
      rcases List.mem_cons.mp h with rfl | h
      · have hmap : (session.run bound source).1.map (fun _ => Yield.done) = .ok result := hresult
        cases hrun : (session.run bound source).1 with
        | ok _ =>
            rw [hrun] at hmap
            cases hmap
            rfl
        | error _ =>
            rw [hrun] at hmap
            cases hmap
      · exact ih h

/-- Loop-free code ends wherever all functions that are stored are loop-free, and sources
without loops end one after the other: well, or with faults found before anything was run, or
with a fault of the run. -/
theorem loopFree_ends :
    (∀ (task : Task) (machine : Machine), task.LoopFree → LoopFreeScopes machine.scopes →
      ∃ enough, ∀ bound, enough ≤ bound →
        task.run bound machine = task.run enough machine ∧
          ∀ after, task.run bound machine ≠ .error .exhausted after) ∧
    ∀ (sink : Sink) (clock : Clock) (sources : List String),
      (∀ source ∈ sources, LoopFreeSource source) →
        ∃ enough, ∀ bound, enough ≤ bound →
          (initial sink clock).transcript (sources.map (.run bound)) =
              (initial sink clock).transcript (sources.map (.run enough)) ∧
            (∀ entry ∈ (initial sink clock).transcript (sources.map (.run bound)),
              entry.1 ≠ .error (.stopped .exhausted)) ∧
            (((initial sink clock).afterSteps (sources.map (.run bound))).issued ≤ UInt32.size →
              ∀ entry ∈ (initial sink clock).transcript (sources.map (.run bound)),
                Answered entry.1) := by
  refine ⟨fun task machine htask hscopes => ?_, fun sink clock sources hsources => ?_⟩
  · obtain ⟨enough, henough⟩ := Task.run_of_loopFree htask hscopes
    exact ⟨enough, fun bound hbound => ⟨(henough bound hbound).1, (henough bound hbound).2.1⟩⟩
  · obtain ⟨enough, henough⟩ := transcript_of_loopFree hsources (loopFree_initial sink clock)
    refine ⟨enough, fun bound hbound => ?_⟩
    obtain ⟨hsame, hbounded⟩ := henough bound hbound
    refine ⟨hsame, hbounded, fun hids entry hentry => ?_⟩
    have hsound := Lexical.sound_of_sameEntry
      ((Lexical.parallel_initial sink clock).transcript _ hids) entry hentry
    cases hanswer : entry.1 with
    | ok result => exact Or.inl (congrArg Except.ok (done_of_run hentry hanswer))
    | error failure =>
        cases failure with
        | static faults => exact Or.inr (Or.inl ⟨faults, rfl⟩)
        | stopped stop =>
            cases stop with
            | fault diagnostic => exact Or.inr (Or.inr ⟨diagnostic, rfl⟩)
            | defect defect => exact (hsound _ hanswer).elim
            | exhausted => exact absurd hanswer (hbounded entry hentry)

/-- Two functions call each other through a global that is assigned later on. -/
def redirectedSources : List String :=
  ["fun first() \x7b return second(); \x7d", "var second = first; print first();"]

theorem loopFree_ends_redirected :
    (∀ source ∈ redirectedSources, LoopFreeSource source) ∧
      ∃ enough, ∀ bound, enough ≤ bound →
        ∀ entry ∈ (initial .unlimited 0).transcript (redirectedSources.map (.run bound)),
          entry.1 ≠ .error (.stopped .exhausted) := by
  have hsources : ∀ source ∈ redirectedSources, LoopFreeSource source := by decide +kernel
  obtain ⟨enough, henough⟩ := loopFree_ends.2 .unlimited 0 redirectedSources hsources
  exact ⟨hsources, enough, fun bound hbound => (henough bound hbound).2.1⟩

end Session

end Scriptlet
