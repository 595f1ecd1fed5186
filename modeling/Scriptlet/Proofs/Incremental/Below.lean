/-
A source on later lines.

It does there what it does on the first lines, and its functions are the same but for the
lines of their tokens.  A fault moves along with the source if it is at a token of it; at a
token of code from before it stays where it is.
-/
import Scriptlet.Proofs.Incremental.Joined

namespace Scriptlet

/-- The stop at a token that stands so many lines further down. -/
def Stop.below (lines : Nat) : Stop → Stop
  | .fault (.runtime line cause) => .fault (.runtime (line + lines) cause)
  | stop => stop

namespace Incremental

open Grammar Source

/-- Everything stands for itself, but a token of the given ones may be moved down; side
tables say the same. -/
def lineLink (seen : Token → Prop) (tokens : List Token) (lines : Nat) : Link where
  tokens a b := (seen a ∧ b = a) ∨ (a ∈ tokens ∧ b = moved lines a)
  ids a b := b = a
  tables a b := ∀ id, b.distance? id = a.distance? id
  sinks a b := b = a
  kind_eq := by
    rintro a b (⟨-, rfl⟩ | ⟨-, rfl⟩)
    · rfl
    · rfl
  lexeme_eq := by
    rintro a b (⟨-, rfl⟩ | ⟨-, rfl⟩)
    · rfl
    · rfl
  distance?_eq h := distance?_of_eq h
  fits_eq := fits_of_eq
  flushFails_eq := flushFails_of_eq
  write := write_of_eq

/-- Both answers tell of an end without a fault, or of stops that are alike. -/
inductive AlikeAnswer (link : Link) : Except Failure Unit → Except Failure Unit → Prop
  | ok : AlikeAnswer link (.ok ()) (.ok ())
  | stopped {stop stop' : Stop} (stops : AlikeStop link stop stop') :
      AlikeAnswer link (.error (.stopped stop)) (.error (.stopped stop'))

theorem AlikeAnswer.eq {link : Link} {answer answer' : Except Failure Unit}
    (h : AlikeAnswer link answer answer') (htokens : ∀ a b, link.tokens a b → a = b) :
    answer' = answer := by
  cases h with
  | ok => rfl
  | stopped hstops => rw [hstops.eq htokens]

theorem AlikeAnswer.of_ok {link : Link} {answer answer' : Except Failure Unit}
    (h : AlikeAnswer link answer answer') (hok : answer = .ok ()) : answer' = .ok () := by
  subst hok
  cases h with
  | ok => rfl

/-- The runs end alike, and so do the sessions. -/
structure AlikeEnd (link : Link) (ended ended' : Except Failure Unit × Session) : Prop where
  answer : AlikeAnswer link ended.1 ended'.1
  issued : ended'.2.issued = ended.2.issued
  machines : AlikeMachine link ended.2.machine ended'.2.machine

theorem alikeEnd_act {link : Link} {R : Unit → Unit → Prop} {action action' : Eval Unit}
    {machine machine' : Machine} {issued : Nat}
    (h : AlikeResult link R (action machine) (action' machine')) :
    AlikeEnd link (Session.act ⟨machine, issued⟩ action)
      (Session.act ⟨machine', issued⟩ action') := by
  unfold Session.act
  dsimp only
  generalize action machine = result at h ⊢
  generalize action' machine' = result' at h ⊢
  cases h with
  | ok hmachines _ => exact ⟨.ok, rfl, hmachines⟩
  | error hmachines hstops => exact ⟨.stopped hstops, rfl, hmachines⟩

section Lines

variable {seen : Token → Prop} {session : Session} {source : String}

/-- A source does on later lines what it does on the first ones. -/
theorem run_below (h : Settled seen session) (hsource : Accepted source) (bound lines : Nat) :
    AlikeEnd (lineLink seen (scan source).tokens lines) (session.run bound source)
      (session.run bound (below lines source)) := by
  obtain ⟨program, m, table, hread, hresolve⟩ := (accepted_iff session.issued).mp hsource
  obtain ⟨program', hread', halike⟩ := readSource_below lines hread
  rw [Session.run_of_read hread hresolve bound,
    Session.run_of_read hread' (resolve_below halike hresolve) bound]
  have hprogram : AlikeStmts (lineLink seen (scan source).tokens lines) program program' := by
    apply AlikeStmts.imp halike
    · exact fun _ _ htokens => Or.inr htokens
    · rintro id _ id' ⟨k, hid, hid'⟩
      exact hid'.trans hid.symm
  apply alikeEnd_act (alikeRun_runProgram bound hprogram _)
  apply AlikeMachine.imp h
  · exact fun _ _ htokens => Or.inl htokens
  · exact fun _ _ hids => hids.2
  · rfl
  · exact fun _ => rfl

/-! ### The line of a fault -/

/-- The line of a token that is seen nowhere but within a text, or nowhere but before it,
depends on the line of the text always or never. -/
theorem lines_uniform {line : Nat → Nat} {last : Nat}
    (h : ∀ n d, (line (n + d) = line n ∧ line n ≤ last) ∨
      (line (n + d) = line n + d ∧ n < line n)) :
    (∀ n, line n = line 0) ∨ ∀ n, line n = line 0 + n := by
  -- Far down, a line tells of which kind its token is.
  rcases Nat.lt_or_ge last (line (last + 1)) with hfar | hnear
  · right
    have hmoves : ∀ n, line n + (last + 1) = line (last + 1) + n := by
      intro n
      have hfrom := h (last + 1) n
      have hto := h n (last + 1)
      rw [Nat.add_comm n (last + 1)] at hto
      omega
    intro n
    have hn := hmoves n
    have hzero := hmoves 0
    omega
  · left
    have hstays : ∀ n, line n = line (last + 1) := by
      intro n
      have hfrom := h (last + 1) n
      have hto := h n (last + 1)
      rw [Nat.add_comm n (last + 1)] at hto
      omega
    intro n
    rw [hstays n, hstays 0]

theorem line_of_alikeStop {last n d line line' : Nat} {cause cause' : RuntimeFault}
    (hlast : ∀ token, seen token → token.line ≤ last)
    (h : AlikeStop (lineLink seen (scan (below n source)).tokens d)
      (.fault (.runtime line cause)) (.fault (.runtime line' cause'))) :
    (line' = line ∧ line ≤ last) ∨ (line' = line + d ∧ n < line) := by
  cases h with
  | runtime _ htokens =>
      rcases htokens with ⟨hseen, rfl⟩ | ⟨hmem, rfl⟩
      · exact Or.inl ⟨rfl, hlast _ hseen⟩
      · exact Or.inr ⟨rfl, lt_line_of_below hmem⟩

/-- An answer that tells of no runtime fault is the same on all lines. -/
theorem AlikeAnswer.eq_of_ne {link : Link} {answer answer' : Except Failure Unit}
    (h : AlikeAnswer link answer answer')
    (hanswer : ∀ line cause, answer ≠ .error (.stopped (.fault (.runtime line cause)))) :
    answer' = answer := by
  cases h with
  | ok => rfl
  | stopped hstops =>
      cases hstops with
      | runtime cause _ => exact absurd rfl (hanswer _ cause)
      | _ => rfl

theorem AlikeAnswer.runtime {link : Link} {line : Nat} {cause : RuntimeFault}
    {answer' : Except Failure Unit}
    (h : AlikeAnswer link (.error (.stopped (.fault (.runtime line cause)))) answer') :
    ∃ line', answer' = .error (.stopped (.fault (.runtime line' cause))) := by
  cases h with
  | stopped hstops =>
      cases hstops with
      | runtime _ _ => exact ⟨_, rfl⟩

/-- Whether the line of a fault moves along with the source is the same for all lines. -/
theorem answer_below (h : Settled seen session) {last : Nat}
    (hlast : ∀ token, seen token → token.line ≤ last) (hsource : Accepted source) (bound : Nat) :
    (∀ lines, (session.run bound (below lines source)).1 = (session.run bound source).1) ∨
      ∃ stop : Stop, ∀ lines,
        (session.run bound (below lines source)).1 = .error (.stopped (stop.below lines)) := by
  have hmoved : ∀ n d, AlikeAnswer (lineLink seen (scan (below n source)).tokens d)
      (session.run bound (below n source)).1 (session.run bound (below (n + d) source)).1 := by
    intro n d
    have hend := run_below h (accepted_below n hsource) bound d
    rw [below_below, Nat.add_comm d n] at hend
    exact hend.answer
  have hfirst : ∀ d, AlikeAnswer (lineLink seen (scan source).tokens d)
      (session.run bound source).1 (session.run bound (below d source)).1 :=
    fun d => (run_below h hsource bound d).answer
  by_cases hruntime : ∃ line cause,
      (session.run bound source).1 = .error (.stopped (.fault (.runtime line cause)))
  · obtain ⟨line, cause, hanswer⟩ := hruntime
    have hfaults : ∀ n, ∃ line,
        (session.run bound (below n source)).1 = .error (.stopped (.fault (.runtime line cause))) :=
      fun n => (hanswer ▸ hfirst n).runtime
    choose lineAt hlineAt using hfaults
    have hzero : lineAt 0 = line := by
      have hsame := hlineAt 0
      rw [below_zero, hanswer] at hsame
      cases hsame
      rfl
    have hlines : ∀ n d, (lineAt (n + d) = lineAt n ∧ lineAt n ≤ last) ∨
        (lineAt (n + d) = lineAt n + d ∧ n < lineAt n) := by
      intro n d
      have hstops := hmoved n d
      rw [hlineAt n, hlineAt (n + d)] at hstops
      cases hstops with
      | stopped hstops => exact line_of_alikeStop hlast hstops
    rcases lines_uniform hlines with hstays | hmoves
    · left
      intro lines
      rw [hlineAt, hstays, hzero, hanswer]
    · right
      refine ⟨.fault (.runtime line cause), fun lines => ?_⟩
      rw [hlineAt, hmoves, hzero]
      rfl
  · left
    intro lines
    exact (hfirst lines).eq_of_ne fun line cause hanswer => hruntime ⟨line, cause, hanswer⟩

theorem exists_last_line (steps : List Step) :
    ∃ last, ∀ token, SeenBy steps token → token.line ≤ last := by
  have htokens : ∀ tokens : List Token, ∃ last, ∀ token ∈ tokens, token.line ≤ last := by
    intro tokens
    induction tokens with
    | nil => exact ⟨0, nofun⟩
    | cons first rest ih =>
        obtain ⟨last, hlast⟩ := ih
        refine ⟨max first.line last, fun token htoken => ?_⟩
        rcases List.mem_cons.mp htoken with rfl | htoken
        · exact Nat.le_max_left _ _
        · exact Nat.le_trans (hlast token htoken) (Nat.le_max_right _ _)
  obtain ⟨last, hlast⟩ := htokens (steps.flatMap fun step => (scan step.source).tokens)
  refine ⟨last, ?_⟩
  rintro token ⟨step, hstep, htoken⟩
  exact hlast token (List.mem_flatMap.mpr ⟨step, hstep, htoken⟩)

end Lines

end Incremental

namespace Session

open Incremental Source

/-- Where the source stands makes no difference but to the lines of its tokens. -/
structure OnAnyLines (session : Session) (bound : Nat) (source : String) : Prop where
  answer : (∀ lines, (session.run bound (below lines source)).1 = (session.run bound source).1) ∨
    ∃ stop : Stop, ∀ lines,
      (session.run bound (below lines source)).1 = .error (.stopped (stop.below lines))
  issued : ∀ lines,
    (session.run bound (below lines source)).2.issued = (session.run bound source).2.issued
  machines : ∀ lines, AlikeMachine (lineLink (fun _ => True) (scan source).tokens lines)
    (session.run bound source).2.machine (session.run bound (below lines source)).2.machine

theorem onAnyLines {seen : Token → Prop} {session : Session} {source : String} {last : Nat}
    (h : Settled seen session) (hlast : ∀ token, seen token → token.line ≤ last)
    (hsource : Accepted source) (bound : Nat) : session.OnAnyLines bound source where
  answer := answer_below h hlast hsource bound
  issued lines := (run_below h hsource bound lines).issued
  machines lines := by
    have hmachines := (run_below h hsource bound lines).machines
    apply AlikeMachine.imp hmachines
    · exact fun _ _ htokens => htokens.imp_left fun hseen => ⟨trivial, hseen.2⟩
    · exact fun _ _ => id
    · exact hmachines.sink
    · exact hmachines.table

theorem OnAnyLines.answer_of_ok {session : Session} {bound : Nat} {source : String}
    (h : session.OnAnyLines bound source) (hok : (session.run bound source).1 = .ok ())
    (lines : Nat) : (session.run bound (below lines source)).1 = .ok () := by
  rcases h.answer with hstays | ⟨stop, hmoves⟩
  · rw [hstays, hok]
  · have hstops := hmoves 0
    rw [below_zero, hok] at hstops
    cases hstops

end Session

end Scriptlet
