/-
Sessions that run every `for` as a node of its own, and sessions that rewrite it, cannot be told
apart.

Both give the same answers to the same steps, and leave the same bindings behind.  The bounds of
the steps need not be the same for both: a rewritten `for` takes more steps, but at most eight for
one.
-/
import Scriptlet.Proofs.Lexical.Sessions
import Scriptlet.Proofs.Loops.Resolved
import Scriptlet.Proofs.Loops.Simulation

namespace Scriptlet

/-- The step with another bound, if it has one. -/
def Step.withBound (change : Nat → Nat) : Step → Step
  | .run bound source => .run (change bound) source
  | .evaluate bound source => .evaluate (change bound) source
  | .readProgram source => .readProgram source
  | .readExpression source => .readExpression source

/-- The bound of the step was too small. -/
def Answer.isCutOff {Place : Type} : Answer Place → Bool
  | .error (.stopped .exhausted) => true
  | _ => false

namespace Session

theorem issued_perform_withBound {session other : Session} (h : session.issued = other.issued)
    (change : Nat → Nat) (step : Step) :
    (session.perform (step.withBound change)).2.issued = (other.perform step).2.issued := by
  cases step with
  | run bound source =>
      exact (issued_run session _ source).trans (h ▸ (issued_run other bound source).symm)
  | evaluate bound source =>
      exact (issued_evaluate session _ source).trans (h ▸ (issued_evaluate other bound source).symm)
  | readProgram source | readExpression source =>
      show (readSource _ session.issued source).2 = (readSource _ other.issued source).2
      rw [h]

/-- How many identities are handed out does not depend on the bounds. -/
theorem issued_afterSteps_withBound {session other : Session}
    (h : session.issued = other.issued) (change : Nat → Nat) (steps : List Step) :
    (session.afterSteps (steps.map (Step.withBound change))).issued =
      (other.afterSteps steps).issued := by
  induction steps generalizing session other with
  | nil => exact h
  | cons step rest ih => exact ih (issued_perform_withBound h change step)

end Session

namespace Loops

open Lexical (shown)

/-! ### Answers -/

/-- Both succeed with related values, or both fail for the same reason; the side tables may fail
to fit at different distances. -/
inductive SameAnswer {α β : Type} (R : α → β → Prop) : Except Failure α → Except Failure β → Prop
  | ok {a : α} {b : β} (related : R a b) : SameAnswer R (.ok a) (.ok b)
  | failure (failure : Failure) : SameAnswer R (.error failure) (.error failure)
  | defect (defect defect' : ScopeDefect) :
      SameAnswer R (.error (.stopped (.defect defect))) (.error (.stopped (.defect defect')))

theorem SameAnswer.map {α β γ δ : Type} {R : α → β → Prop} {S : γ → δ → Prop}
    {answer : Except Failure α} {answer' : Except Failure β} {change : α → γ} {change' : β → δ}
    (h : SameAnswer R answer answer') (himp : ∀ a b, R a b → S (change a) (change' b)) :
    SameAnswer S (answer.map change) (answer'.map change') := by
  cases h with
  | ok hrelated => exact .ok (himp _ _ hrelated)
  | failure reason => exact .failure reason
  | defect d d' => exact .defect d d'

def tablesOf (session : Scriptlet.Session) (direct : Session) : Tables :=
  ⟨session.machine.table, direct.state.table, session.issued⟩

/-- The two sessions have gone the same way so far. -/
structure Parallel (images : Images) (session : Scriptlet.Session) (direct : Session) :
    Prop where
  relates : Relates (tablesOf session direct) images session.machine direct.state
  issued : direct.issued = session.issued
  current : session.machine.current = Machine.globals
  current' : direct.state.current = Machine.globals
  fresh : (tablesOf session direct).Fresh

/-- The sessions gave the same answer and go the same way, or one of them was cut off, the first
one only under the first condition, the second one only under the second. -/
inductive Paired {α β : Type} (short long : Prop) (Post : Images → α → β → Prop) :
    Except Failure α × Scriptlet.Session → Except Failure β × Session → Prop
  | same {images : Images} {answer : Except Failure α} {answer' : Except Failure β}
      {session : Scriptlet.Session} {direct : Session} (parallel : Parallel images session direct)
      (same : SameAnswer (Post images) answer answer') :
      Paired short long Post (answer, session) (answer', direct)
  | short {session : Scriptlet.Session} {reply : Except Failure β × Session} (may : short) :
      Paired short long Post (.error (.stopped .exhausted), session) reply
  | long {reply : Except Failure α × Scriptlet.Session} {direct : Session} (may : long) :
      Paired short long Post reply (.error (.stopped .exhausted), direct)
  | both {session : Scriptlet.Session} {direct : Session} :
      Paired short long Post (.error (.stopped .exhausted), session)
        (.error (.stopped .exhausted), direct)

section Steps

variable {α β γ δ : Type} {short long short' long' : Prop} {images : Images}
  {session : Scriptlet.Session} {direct : Session} {m : Nat} {P : Images → α → β → Prop}

theorem Paired.map {Q : Images → γ → δ → Prop} {reply : Except Failure α × Scriptlet.Session}
    {reply' : Except Failure β × Session} {change : α → γ} {change' : β → δ}
    (h : Paired short long P reply reply')
    (himp : ∀ images a b, P images a b → Q images (change a) (change' b)) :
    Paired short long Q (reply.1.map change, reply.2) (reply'.1.map change', reply'.2) := by
  cases h with
  | same hparallel hsame => exact .same hparallel (hsame.map (himp _))
  | short hmay => exact .short hmay
  | long hmay => exact .long hmay
  | both => exact .both

theorem Paired.loosen {reply : Except Failure α × Scriptlet.Session}
    {reply' : Except Failure β × Session} (h : Paired short long P reply reply')
    (hshort : short → short') (hlong : long → long') : Paired short' long' P reply reply' := by
  cases h with
  | same hparallel hsame => exact .same hparallel hsame
  | short hmay => exact .short (hshort hmay)
  | long hmay => exact .long (hlong hmay)
  | both => exact .both

theorem Relates.extend {tables later : Tables} {machine : Machine} {state : State}
    (h : Relates tables images machine state) (hextends : tables.Extends later) :
    Relates later images { machine with table := later.rewritten }
      { state with table := later.written } :=
  ⟨h.outside, rfl, rfl, h.mirrors.extend hextends⟩

/-- Both sessions act. -/
theorem Parallel.act {action : Eval α} {action' : Run β} (h : Parallel images session direct)
    (hsimulates : Simulates short long (tablesOf session direct) images session.machine
      direct.state action action' P) :
    Paired short long P (session.act action) (direct.act action') := by
  obtain ⟨machine, issued⟩ := session
  unfold Simulates at hsimulates
  unfold Scriptlet.Session.act Session.act
  dsimp only at hsimulates ⊢
  generalize action machine = result at hsimulates ⊢
  generalize action' direct.state = result' at hsimulates ⊢
  have hparallel : ∀ {images' machine' state'},
      Grows images machine direct.state images' machine' state' →
      Relates (tablesOf ⟨machine, issued⟩ direct) images' machine' state' →
      Parallel images' ⟨machine', issued⟩ { direct with state := state' } := by
    intro images' machine' state' hgrows hrelates
    have htables : tablesOf ⟨machine', issued⟩ { direct with state := state' } =
        tablesOf ⟨machine, issued⟩ direct := by
      have hrewritten : machine'.table = machine.table := hrelates.rewritten
      have hwritten : state'.table = direct.state.table := hrelates.written
      unfold tablesOf
      rw [hrewritten, hwritten]
    exact ⟨htables.symm ▸ hrelates, h.issued, hgrows.current.trans h.current,
      hgrows.current'.trans h.current', htables.symm ▸ h.fresh⟩
  cases hsimulates with
  | ok hgrows hrelates hpost => exact .same (hparallel hgrows hrelates) (.ok hpost)
  | error hgrows hrelates hsame =>
      cases hsame with
      | fault diagnostic => exact .same (hparallel hgrows hrelates) (.failure _)
      | defect d d' => exact .same (hparallel hgrows hrelates) (.defect d d')
  | short hmay => exact .short hmay
  | long hmay => exact .long hmay
  | both => exact .both

/-- Identities have been handed out. -/
theorem Parallel.read (h : Parallel images session direct) (hle : session.issued ≤ m) :
    Parallel images { session with issued := m } { direct with issued := m } where
  relates := h.relates.extend ⟨hle, fun _ _ => rfl, fun _ _ => rfl⟩
  issued := rfl
  current := h.current
  current' := h.current'
  fresh k hk := h.fresh k (Nat.le_trans hle hk)

theorem Parallel.run (h : Parallel images session direct) (bound bound' : Nat) (source : String)
    (hids : (session.run bound source).2.issued ≤ UInt32.size) :
    Paired (bound < 8 * (bound' + 1)) (bound' < bound) (fun _ _ _ => True)
      (session.run bound source) (direct.run bound' source) := by
  have hle := Session.issued_le_readSource Reader.counts_program session.issued source
  rw [Session.issued_run] at hids
  have hmap := readSource_map map_program session.issued source
  unfold Scriptlet.Session.run Scriptlet.Session.readProgram Scriptlet.Session.read Session.run
    Session.read
  rw [h.issued]
  cases hread : readSource program session.issued source with
  | mk result m =>
      rw [hread] at hmap
      rw [hmap] at hids hle ⊢
      cases result with
      | error failure => exact .same (h.read hle) (.failure _)
      | ok body =>
          dsimp only [Except.map] at hmap ⊢
          have hderives := Grammar.parse_program_sound (Source.scan_endsOnce source)
            (Session.readSource_eq_ok_iff.mp hmap).2
          obtain ⟨-, hnumbered⟩ := Grammar.derives_wellMade hderives
          have hboth := bothResolve h.fresh hnumbered hids
          generalize Scriptlet.resolve (rewriteAll body) = resolved at hboth ⊢
          generalize resolve body = resolved' at hboth ⊢
          cases hboth with
          | error faults => exact .same (h.read hle) (.failure _)
          | @ok added added' hfits hgrows hfresh =>
              have hready : Parallel images ⟨session.machine.addTable added, m⟩
                  ⟨{ direct.state with table := direct.state.table.merge added' }, m⟩ :=
                ⟨h.relates.extend hgrows, rfl, h.current, h.current', hfresh⟩
              exact hready.act (simulates_runProgram bound bound' hready.relates hready.current
                hready.current' hfits)

theorem Matches.withoutScope_eq {tables : Tables} {value : Value} {value' : ValueIn Site}
    (h : Matches tables images value value') : value.withoutScope = value'.withoutScope := by
  cases h with
  | closure hclosure =>
      cases hclosure
      rfl
  | _ => rfl

theorem Parallel.evaluate (h : Parallel images session direct) (bound bound' : Nat)
    (source : String) (hids : (session.evaluate bound source).2.issued ≤ UInt32.size) :
    Paired (bound < 8 * bound') (bound' < bound)
      (fun _ value value' => value.withoutScope = value'.withoutScope)
      (session.evaluate bound source) (direct.evaluate bound' source) := by
  have hle := Session.issued_le_readSource Reader.counts_wholeExpression session.issued source
  rw [Session.issued_evaluate] at hids
  unfold Scriptlet.Session.evaluate Scriptlet.Session.readExpression Scriptlet.Session.read
    Session.evaluate Session.read
  rw [h.issued]
  cases hread : readSource Reader.wholeExpression session.issued source with
  | mk result m =>
      rw [hread] at hids hle
      cases result with
      | error failure => exact .same (h.read hle) (.failure _)
      | ok expr =>
          have hderives := Grammar.parse_lone_sound (Source.scan_endsOnce source)
            (Session.readSource_eq_ok_iff.mp hread).2
          obtain ⟨-, hnumbered⟩ := Grammar.derives_wellMade hderives
          have hready := h.read hle
          have hstands : Stands images session.machine direct.state [] := by
            rw [Stands, h.current, h.current']
            exact h.relates.mirrors.root
          have hvalue := (simulatesAt bound bound').evaluate hready.relates hstands
            (lead_of_fresh h.fresh hnumbered hids)
          exact hready.act (hvalue.weaken fun _ _ _ hmatch => hmatch.withoutScope_eq)

/-- What is read is the same, but for the form of a `for`. -/
theorem Parallel.readBy {rule : Nat → Reader α} {rule' : Nat → Reader β} {change : β → α}
    (h : Parallel images session direct) (hcounts : ∀ bound, Reader.Counts (rule bound))
    (hrule : ∀ bound, change <$> rule' bound = rule bound) (source : String) :
    Paired short long (fun _ tree tree' => tree = change tree') (session.read rule source)
      (direct.read rule' source) := by
  have hle := Session.issued_le_readSource hcounts session.issued source
  have hmap := readSource_map hrule session.issued source
  unfold Scriptlet.Session.read Session.read
  rw [h.issued]
  cases hread : readSource rule' session.issued source with
  | mk result m =>
      rw [hread] at hmap
      rw [hmap] at hle ⊢
      cases result with
      | error failure => exact .same (h.read hle) (.failure _)
      | ok tree => exact .same (h.read hle) (.ok rfl)

/-- One step, of any kind. -/
theorem Parallel.perform {change : Nat → Nat} (h : Parallel images session direct)
    (hshort : ∀ bound, change bound < 8 * (bound + 1) → short)
    (hlong : ∀ bound, bound < change bound → long) (step : Step)
    (hids : (session.perform (step.withBound change)).2.issued ≤ UInt32.size) :
    Paired short long (fun _ result result' => result.visible = result'.visible)
      (session.perform (step.withBound change)) (direct.perform step) := by
  cases step with
  | run bound source =>
      exact ((h.run (change bound) bound source hids).loosen (hshort bound) (hlong bound)).map
        fun _ _ _ _ => rfl
  | evaluate bound source =>
      have hstep := (h.evaluate (change bound) bound source hids).loosen
        (fun hlt => hshort bound (by omega)) (hlong bound)
      exact hstep.map fun _ _ _ hsame => congrArg Yield.value hsame
  | readProgram source =>
      exact (h.readBy Reader.counts_program map_program source).map
        fun _ _ _ hsame => congrArg Yield.program hsame
  | readExpression source =>
      have hread : Paired short long (fun _ tree tree' => tree = id tree')
          (session.read Reader.wholeExpression source)
          (direct.read Reader.wholeExpression source) :=
        h.readBy Reader.counts_wholeExpression (fun _ => id_map _) source
      exact hread.map fun _ _ _ hsame => congrArg Yield.expression hsame

end Steps

/-! ### Bindings -/

/-- The same function, made in a scope and in the image of it. -/
structure SameClosure (image : Nat → Nat) (f : Closure) (g : ClosureIn Site) : Prop where
  name : f.name = g.name
  params : f.params = g.params
  body : f.body = rewriteAll g.scope.body
  scope : image f.scope = g.scope.scope
  identity : f.identity = g.identity

/-- Every scope of the first tree has an image in the second one, in which all names that can be
seen there stand for the same values, and every scope of the second tree is an image. -/
structure SameBindings (image : Nat → Nat) (tree : ScopeTree Value)
    (tree' : ScopeTree (ValueIn Site)) : Prop where
  globals : image Machine.globals = Machine.globals
  lookups : ∀ scope < tree.size, ∀ name,
    Option.Rel (ValueIn.Rel (SameClosure image)) (tree.lookup? scope name)
      (tree'.lookup? (image scope) name)
  onto : ∀ scope' < tree'.size, ∃ scope < tree.size, image scope = scope'

/-- The scope in which the names of a scope are looked up. -/
def imageOf (images : Images) (scope : Nat) : Nat :=
  (images[scope]?.map Image.scope).getD scope

theorem imageOf_eq {images : Images} {scope : Nat} {image : Image}
    (h : images[scope]? = some image) : imageOf images scope = image.scope := by
  rw [imageOf, h]
  rfl

theorem Mirrors.sameBindings {tables : Tables} {images : Images} {tree : ScopeTree Value}
    {tree' : ScopeTree (ValueIn Site)} (h : Mirrors tables images tree tree') :
    SameBindings (imageOf images) tree tree' where
  globals := imageOf_eq h.root
  lookups scope hscope name := by
    have himage := List.getElem?_eq_getElem (h.length ▸ hscope)
    rw [imageOf_eq himage]
    refine rel_imp (h.lookup? name himage) fun value value' hmatch => hmatch.imp ?_
    rintro f g ⟨hclosed, -⟩
    exact ⟨rfl, rfl, rfl, imageOf_eq hclosed, rfl⟩
  onto scope' hscope' := by
    obtain ⟨scope, flags, himage, -⟩ := h.onto scope' hscope'
    exact ⟨scope, h.length ▸ (List.getElem?_eq_some_iff.mp himage).1, imageOf_eq himage⟩

/-! ### Whole sessions -/

/-- No bound was too small. -/
def Lasts {Place : Type} (entries : List (Answer Place × Outside)) : Prop :=
  ∀ entry ∈ entries, Answer.isCutOff entry.1 = false

instance {Place : Type} (entries : List (Answer Place × Outside)) : Decidable (Lasts entries) :=
  inferInstanceAs (Decidable (∀ entry ∈ entries, Answer.isCutOff entry.1 = false))

/-- What two entries of transcripts have in common. -/
def SameEntry (entry : Answer Nat × Outside) (entry' : Answer Site × Outside) : Prop :=
  SameAnswer (fun result result' => result.visible = result'.visible) entry.1 entry'.1 ∧
    entry.2 = entry'.2

theorem own?_root {α : Type} (scope : Nat) (name : String) :
    (ScopeTree.empty.root : ScopeTree α).own? scope name = none := by
  rw [ScopeTree.root, ScopeTree.own?_openScope]
  simp [ScopeTree.own?, ScopeTree.empty]

/-- A global scope that is empty is the image of another one. -/
theorem mirrors_root (tables : Tables) :
    Mirrors tables [⟨Machine.globals, []⟩] ScopeTree.empty.root ScopeTree.empty.root := by
  have honly : ∀ {scope : Nat} {image : Image},
      ([⟨Machine.globals, []⟩] : Images)[scope]? = some image →
        scope = Machine.globals ∧ image = ⟨Machine.globals, []⟩ := by
    intro scope image himage
    obtain ⟨hlt, heq⟩ := List.getElem?_eq_some_iff.mp himage
    obtain rfl := Nat.lt_one_iff.mp hlt
    exact ⟨rfl, heq.symm⟩
  constructor
  case length => rfl
  case root => rfl
  case linked =>
    intro scope image himage
    obtain ⟨rfl, rfl⟩ := honly himage
    exact ⟨rfl, rfl⟩
  case inside =>
    intro scope image himage
    obtain ⟨rfl, rfl⟩ := honly himage
    exact Nat.zero_lt_one
  case own =>
    intro scope image _ _ name
    rw [own?_root, own?_root]
    exact .none
  case empty => exact fun scope _ _ _ name => own?_root scope name
  case injective =>
    intro scope other image image' himage himage' _ _ _
    exact (honly himage).1.trans (honly himage').1.symm
  case onto =>
    intro scope' hscope'
    obtain rfl := Nat.lt_one_iff.mp hscope'
    exact ⟨Machine.globals, [], rfl, own_nil⟩

theorem parallel_initial (sink : Sink) (clock : Clock) :
    Parallel [⟨Machine.globals, []⟩] (.initial sink clock) (.initial sink clock) where
  relates := ⟨rfl, rfl, rfl, (mirrors_root _).define rfl own_nil (.host _) _⟩
  issued := rfl
  current := rfl
  current' := rfl
  fresh _ _ _ := ⟨Table.distance?_empty _, Table.distance?_empty _⟩

section Sessions

variable {short long : Prop} {images : Images} {session : Scriptlet.Session} {direct : Session}
  {change : Nat → Nat}

/-- All steps, as long as no bound is too small that may be. -/
theorem Parallel.steps (h : Parallel images session direct)
    (hshort : ∀ bound, change bound < 8 * (bound + 1) → short)
    (hlong : ∀ bound, bound < change bound → long) (hany : short ∨ long) (steps : List Step)
    (hids : (session.afterSteps (steps.map (Step.withBound change))).issued ≤ UInt32.size)
    (hlasts : short → Lasts (session.transcript (steps.map (Step.withBound change))))
    (hlasts' : long → Lasts (direct.transcript steps)) :
    List.Forall₂ SameEntry (session.transcript (steps.map (Step.withBound change)))
        (direct.transcript steps) ∧
      ∃ images', Parallel images' (session.afterSteps (steps.map (Step.withBound change)))
        (direct.afterSteps steps) := by
  induction steps generalizing images session direct with
  | nil => exact ⟨.nil, images, h⟩
  | cons step rest ih =>
      have hstep := h.perform hshort hlong step
        (Nat.le_trans (Session.issued_le_afterSteps _ _) hids)
      simp only [List.map_cons, Scriptlet.Session.transcript, Scriptlet.Session.afterSteps,
        Session.transcript, Session.afterSteps] at hids hlasts hlasts' ⊢
      generalize session.perform (step.withBound change) = reply at *
      generalize direct.perform step = reply' at *
      cases hstep with
      | same hparallel hsame =>
          obtain ⟨hentries, hafter⟩ := ih hparallel hids
            (fun hmay entry hentry => hlasts hmay entry (List.mem_cons_of_mem _ hentry))
            (fun hmay entry hentry => hlasts' hmay entry (List.mem_cons_of_mem _ hentry))
          exact ⟨.cons ⟨hsame, hparallel.relates.outside⟩ hentries, hafter⟩
      | short hmay => exact nomatch hlasts hmay _ List.mem_cons_self
      | long hmay => exact nomatch hlasts' hmay _ List.mem_cons_self
      | both =>
          rcases hany with hmay | hmay
          · exact nomatch hlasts hmay _ List.mem_cons_self
          · exact nomatch hlasts' hmay _ List.mem_cons_self

/-- Where the side table is not to blame, the same answers show the same. -/
theorem shown_eq {entries : List (Answer Nat × Outside)} {entries' : List (Answer Site × Outside)}
    (h : List.Forall₂ SameEntry entries entries')
    (hsound : ∀ entry ∈ entries, ∀ failure, entry.1 = .error failure → failure.Sound) :
    entries.map shown = entries'.map shown := by
  induction h with
  | nil => rfl
  | @cons entry entry' _ _ hsame _ ih =>
      obtain ⟨answer, outside⟩ := entry
      obtain ⟨answer', outside'⟩ := entry'
      obtain ⟨hanswer, rfl⟩ := hsame
      have hfirst : shown (answer, outside) = shown (answer', outside) := by
        cases hanswer with
        | ok hvisible => exact congrArg (fun result => (Except.ok result, outside)) hvisible
        | failure _ => rfl
        | defect _ _ => exact (hsound _ List.mem_cons_self _ rfl).elim
      exact congrArg₂ List.cons hfirst
        (ih fun entry hentry => hsound entry (List.mem_cons_of_mem _ hentry))

end Sessions

/-- Both sessions give the same answers, show the same on the outside after every step, and leave
the same bindings behind. -/
structure SameRun (session : Scriptlet.Session) (steps : List Step) (direct : Session)
    (steps' : List Step) : Prop where
  answers : (session.transcript steps).map shown = (direct.transcript steps').map shown
  bindings : ∃ image, SameBindings image (session.afterSteps steps).machine.scopes
    (direct.afterSteps steps').state.scopes

/-- Sessions with suitable bounds. -/
theorem sameRun {short long : Prop} {change : Nat → Nat}
    (hshort : ∀ bound, change bound < 8 * (bound + 1) → short)
    (hlong : ∀ bound, bound < change bound → long) (hany : short ∨ long) (sink : Sink)
    (clock : Clock) (steps : List Step)
    (hids : ((Scriptlet.Session.initial sink clock).afterSteps steps).issued ≤ UInt32.size)
    (hlasts : short → Lasts ((Scriptlet.Session.initial sink clock).transcript
      (steps.map (Step.withBound change))))
    (hlasts' : long → Lasts ((Session.initial sink clock).transcript steps)) :
    SameRun (.initial sink clock) (steps.map (Step.withBound change)) (.initial sink clock)
      steps := by
  rw [← Session.issued_afterSteps_withBound rfl change steps] at hids
  obtain ⟨hentries, images, hparallel⟩ := (parallel_initial sink clock).steps hshort hlong hany
    steps hids hlasts hlasts'
  have hsound := Lexical.sound_of_sameEntry
    ((Lexical.parallel_initial sink clock).transcript _ hids)
  exact ⟨shown_eq hentries hsound, imageOf images, hparallel.relates.mirrors.sameBindings⟩

theorem withBound_id (step : Step) : step.withBound (fun bound => bound) = step := by
  cases step <;> rfl

/-- A session that rewrites every `for` and one that runs it as it is written give the same:
if no bound is too small for the one that does not rewrite, then with bounds `8 * (bound + 1)` for
the other one, and if no bound is too small for the one that rewrites, then with the same bounds.
Runs that never end are compared by what they print into sinks with little room, where they do
end. -/
theorem rewriting_faithful (sink : Sink) (clock : Clock) (steps : List Step)
    (hids : ((Scriptlet.Session.initial sink clock).afterSteps steps).issued ≤ UInt32.size) :
    (Lasts ((Session.initial sink clock).transcript steps) →
      SameRun (.initial sink clock) (steps.map (Step.withBound fun bound => 8 * (bound + 1)))
        (.initial sink clock) steps) ∧
    (Lasts ((Scriptlet.Session.initial sink clock).transcript steps) →
      SameRun (.initial sink clock) steps (.initial sink clock) steps) := by
  constructor
  · intro hlasts
    exact sameRun (fun bound => Nat.lt_irrefl _) (fun _ _ => trivial) (Or.inr trivial) sink clock
      steps hids False.elim fun _ => hlasts
  · intro hlasts
    have hsteps : steps.map (Step.withBound fun bound => bound) = steps := by
      rw [List.map_congr_left fun step _ => withBound_id step]
      exact List.map_id' steps
    have hrun := sameRun (fun _ _ => trivial) (fun bound => Nat.lt_irrefl bound) (Or.inl trivial)
      sink clock steps hids (fun _ => hsteps.symm ▸ hlasts) False.elim
    rw [hsteps] at hrun
    exact hrun

/-- A closure keeps the variable of a loop, of which there is one for all rounds, and the second
loop returns before its increment. -/
def loopSteps : List Step :=
  [.run 60 ("var f = nil; for (var go = true; go; go = false) \x7b fun g() \x7b return go; \x7d " ++
      "f = g; \x7d print f();"),
    .evaluate 30 "f()",
    .run 50 ("var left = true; fun h() \x7b for (;; left = false) return left; \x7d " ++
      "print h(); print left;")]

theorem rewriting_faithful_captured :
    ((Scriptlet.Session.initial .unlimited 0).afterSteps loopSteps).issued ≤ UInt32.size ∧
      SameRun (.initial .unlimited 0) (loopSteps.map (Step.withBound fun bound => 8 * (bound + 1)))
        (.initial .unlimited 0) loopSteps ∧
      SameRun (.initial .unlimited 0) loopSteps (.initial .unlimited 0) loopSteps := by
  have hids : ((Scriptlet.Session.initial .unlimited 0).afterSteps loopSteps).issued ≤
      UInt32.size := by
    decide +kernel
  have hboth := rewriting_faithful .unlimited 0 loopSteps hids
  exact ⟨hids, hboth.1 (by decide +kernel), hboth.2 (by decide +kernel)⟩

end Loops

end Scriptlet
