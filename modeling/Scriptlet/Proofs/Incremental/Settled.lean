/-
Every session is alike itself under a link that allows nothing but the tokens of
sources it was given and the identities it has handed out.  So code that comes later
can be told apart from everything the session holds already.
-/
import Scriptlet.Proofs.Incremental.Evaluate
import Scriptlet.Proofs.Session.Steps
import Scriptlet.Proofs.Source.Joined

namespace Scriptlet.Incremental

open Grammar Source

/-- The tokens of a list stand so many lines further down, and identities are handed out so
much later. -/
def treeLink (tokens : List Token) (lines later : Nat) : Link :=
  .ofTrees (fun a b => a ∈ tokens ∧ b = moved lines a)
    (fun a b => ∃ k, a = .ofCount k ∧ b = .ofCount (k + later))
    (fun h => h.2 ▸ rfl) (fun h => h.2 ▸ rfl)

/-- The second side table has entries of another one besides. -/
def Adds (extra table table' : Table) : Prop :=
  ∀ id, table'.distance? id = (extra.distance? id).or (table.distance? id)

theorem adds_empty (table : Table) : Adds .empty table table :=
  fun id => by rw [Table.distance?_empty, Option.none_or]

/-- Tokens that were seen and identities that were handed out stand for themselves.  The
second side table may have more entries, but about none of those identities. -/
def ownLink (seen : Token → Prop) (issued : Nat) (extra : Table)
    (hextra : ∀ k < issued, extra.distance? (.ofCount k) = none) : Link where
  tokens a b := seen a ∧ b = a
  ids a b := (∃ k < issued, a = .ofCount k) ∧ b = a
  tables := Adds extra
  sinks a b := b = a
  kind_eq h := congrArg Token.kind h.2
  lexeme_eq h := congrArg Token.lexeme h.2
  distance?_eq := by
    rintro table table' htables id id' ⟨⟨k, hk, rfl⟩, rfl⟩
    rw [htables, hextra k hk, Option.none_or]
  fits_eq := fits_of_eq
  flushFails_eq := flushFails_of_eq
  write := write_of_eq

/-- The tokens stand so many lines further down, behind so many more identities. -/
def furtherPairing (tokens : List Token) (lines later : Nat) : Pairing where
  link := treeLink tokens lines later
  lines _ _ := True
  later := later
  line_of_tokens _ := trivial
  firstLine := trivial
  ids_ofCount := exists_count_later later

section Trees

variable {α : Type} {rule : Nat → Reader α} {produce : Pairing → Produce α} {tree : α}
  {seen : Token → Prop} {n m : Nat} {tokens : List Token} {source : String} {extra : Table}
  {hextra : ∀ k < m, extra.distance? (.ofCount k) = none}

theorem parse_further
    (hsteady : ∀ pairing bound, Steady pairing [] (produce pairing) (rule bound) (rule bound))
    (h : Reader.parse rule tokens n = ⟨.ok tree, m⟩) (lines later : Nat) :
    Numbered n m ((produce (furtherPairing tokens lines later)).ids tree) ∧
      ∃ tree', Reader.parse rule (tokens.map (moved lines)) (n + later) =
          ⟨.ok tree', m + later⟩ ∧
        (produce (furtherPairing tokens lines later)).alike tree tree' := by
  have htokens : List.Forall₂ (treeLink tokens lines later).tokens tokens
      (tokens.map (moved lines)) := by
    rw [List.forall₂_map_right_iff, List.forall₂_same]
    exact fun token htoken => ⟨htoken, rfl⟩
  have hsame : SameParsed (furtherPairing tokens lines later) _ n (Reader.parse rule tokens n)
      (Reader.parse rule (tokens.map (moved lines)) (n + later)) :=
    sameParsed_parse (hsteady _) htokens n
  rw [h] at hsame
  generalize Reader.parse rule (tokens.map _) _ = parsed' at hsame ⊢
  cases hsame with
  | ok hids halike => exact ⟨hids, _, rfl, halike⟩

/-- A tree that is read is alike itself. -/
theorem parse_here
    (hsteady : ∀ pairing bound, Steady pairing [] (produce pairing) (rule bound) (rule bound))
    (h : Reader.parse rule tokens n = ⟨.ok tree, m⟩) :
    Numbered n m ((produce (furtherPairing tokens 0 0)).ids tree) ∧
      (produce (furtherPairing tokens 0 0)).alike tree tree := by
  obtain ⟨hids, tree', hparse, halike⟩ := parse_further hsteady h 0 0
  rw [show moved 0 = id from rfl, List.map_id] at hparse
  cases h.symm.trans hparse
  exact ⟨hids, halike⟩

theorem own_tokens (hseen : ∀ token ∈ tokens, seen token) (a b : Token)
    (h : (treeLink tokens 0 0).tokens a b) : (ownLink seen m extra hextra).tokens a b :=
  ⟨hseen a h.1, h.2⟩

theorem own_ids {ids : List NodeId} (hids : Numbered n m ids) (id : NodeId) (hid : id ∈ ids)
    (id' : NodeId) (h : (treeLink tokens 0 0).ids id id') :
    (ownLink seen m extra hextra).ids id id' := by
  obtain ⟨k, rfl, rfl⟩ := h
  obtain ⟨other, -, hother, heq⟩ := hids.exists_count hid
  exact ⟨⟨other, hother, heq⟩, rfl⟩

/-- A program that is read has only tokens of its source, and identities that were
handed out by then. -/
theorem alike_program {program : List Stmt}
    (h : readSource Reader.program n source = (.ok program, m))
    (hseen : ∀ token ∈ (scan source).tokens, seen token) :
    AlikeStmts (ownLink seen m extra hextra) program program := by
  obtain ⟨hids, halike⟩ :=
    parse_here (fun _ => steady_program) (Session.readSource_eq_ok_iff.mp h).2
  exact AlikeStmts.imp halike (own_tokens hseen) (own_ids hids)

/-- Under a link that allows it, a program that is read stands for itself. -/
theorem alike_program_self {link : Link} (htokens : ∀ token, link.tokens token token)
    (hids : ∀ id, link.ids id id) {program : List Stmt}
    (h : readSource Reader.program n source = (.ok program, m)) :
    AlikeStmts link program program := by
  have hown : AlikeStmts (ownLink (fun _ => True) m .empty fun _ _ => Table.distance?_empty _)
      program program := alike_program h fun _ _ => trivial
  apply hown.imp
  · rintro token _ ⟨-, rfl⟩
    exact htokens _
  · rintro id - _ ⟨-, rfl⟩
    exact hids _

theorem alike_expression {expr : Expr}
    (h : readSource Reader.wholeExpression n source = (.ok expr, m))
    (hseen : ∀ token ∈ (scan source).tokens, seen token) :
    AlikeExpr (ownLink seen m extra hextra) expr expr := by
  obtain ⟨hids, halike⟩ :=
    parse_here (fun _ => steady_wholeExpression) (Session.readSource_eq_ok_iff.mp h).2
  exact AlikeExpr.imp halike (own_tokens hseen) (own_ids hids)

end Trees

/-! ### Sessions -/

theorem empty_adds_none (issued : Nat) :
    ∀ k < issued, Table.empty.distance? (.ofCount k) = none :=
  fun _ _ => Table.distance?_empty _

/-- What the session holds has tokens that were seen and identities that it has handed
out. -/
def Settled (seen : Token → Prop) (session : Session) : Prop :=
  AlikeMachine (ownLink seen session.issued .empty (empty_adds_none _)) session.machine
    session.machine

section Sessions

variable {seen : Token → Prop} {session : Session} {α : Type}

theorem settled_initial (sink : Sink) (clock : Clock) :
    Settled (fun _ => False) (.initial sink clock) where
  sink := rfl
  depth := rfl
  clock := rfl
  nextIdentity := rfl
  current := rfl
  scopes := by
    refine ⟨rfl, fun _ => rfl, fun scope name => ?_⟩
    show Option.Rel _ ((Machine.initial sink clock).scopes.own? _ _)
      ((Machine.initial sink clock).scopes.own? _ _)
    rw [Machine.own?_initial]
    split
    · exact .some (.host _)
    · exact .none
  table := adds_empty _

/-- Sources are read and side tables are added: more may be seen, and handed out. -/
theorem Settled.grow (h : Settled seen session) {later : Token → Prop} {m : Nat}
    (hseen : ∀ token, seen token → later token) (hm : session.issued ≤ m) (table : Table) :
    Settled later ⟨{ session.machine with table := table }, m⟩ := by
  apply AlikeMachine.imp h
  · exact fun _ _ htokens => ⟨hseen _ htokens.1, htokens.2⟩
  · rintro _ _ ⟨⟨k, hk, hid⟩, hsame⟩
    exact ⟨⟨k, Nat.lt_of_lt_of_le hk hm, hid⟩, hsame⟩
  · rfl
  · exact adds_empty table

/-- An action that is alike itself changes nothing about that. -/
theorem Settled.act (h : Settled seen session) {action : Eval α} {R : α → α → Prop}
    (hrun : AlikeRun (ownLink seen session.issued .empty (empty_adds_none _)) R action action) :
    Settled seen (session.act action).2 := by
  obtain ⟨machine, issued⟩ := session
  have hresult := hrun h
  unfold Session.act
  dsimp only at hresult ⊢
  generalize action machine = result at hresult ⊢
  cases result with
  | ok value after =>
      cases hresult with
      | ok hafter _ => exact hafter
  | error stop after =>
      cases hresult with
      | error hafter _ => exact hafter

theorem Settled.read (h : Settled seen session) {rule : Nat → Reader α}
    (hcounts : ∀ bound, Reader.Counts (rule bound)) {later : Token → Prop}
    (hseen : ∀ token, seen token → later token) (source : String) :
    Settled later (session.read rule source).2 :=
  h.grow hseen (Session.issued_le_readSource hcounts session.issued source) session.machine.table

theorem Settled.run (h : Settled seen session) {later : Token → Prop} {source : String}
    (hseen : ∀ token, seen token → later token)
    (hsource : ∀ token ∈ (scan source).tokens, later token) (bound : Nat) :
    Settled later (session.run bound source).2 := by
  have hle := Session.issued_le_readSource Reader.counts_program session.issued source
  have hcases := session.run_cases bound source
  generalize session.run bound source = ended at hcases ⊢
  cases hcases with
  | unread hread | unresolved hread _ =>
      rw [hread] at hle
      exact h.grow hseen hle session.machine.table
  | @runs program table m hread _ =>
      rw [hread] at hle
      have hready := h.grow hseen hle (session.machine.table.merge table)
      exact hready.act (alikeRun_runProgram bound (alike_program hread hsource))

theorem Settled.evaluate (h : Settled seen session) {later : Token → Prop} {source : String}
    (hseen : ∀ token, seen token → later token)
    (hsource : ∀ token ∈ (scan source).tokens, later token) (bound : Nat) :
    Settled later (session.evaluate bound source).2 := by
  have hle := Session.issued_le_readSource Reader.counts_wholeExpression session.issued source
  have hcases := session.evaluate_cases bound source
  generalize session.evaluate bound source = ended at hcases ⊢
  cases hcases with
  | unread hread =>
      rw [hread] at hle
      exact h.grow hseen hle session.machine.table
  | @runs expr m hread =>
      rw [hread] at hle
      have hready := h.grow hseen hle session.machine.table
      exact hready.act ((alikeAt bound).evaluate (alike_expression hread hsource))

/-- The token stands in the source of one of the steps. -/
def SeenBy (steps : List Step) (token : Token) : Prop :=
  ∃ step ∈ steps, token ∈ (scan step.source).tokens

theorem Settled.perform (h : Settled seen session) {later : Token → Prop} {step : Step}
    (hseen : ∀ token, seen token → later token)
    (hsource : ∀ token ∈ (scan step.source).tokens, later token) :
    Settled later (session.perform step).2 := by
  cases step with
  | run bound source => exact h.run hseen hsource bound
  | evaluate bound source => exact h.evaluate hseen hsource bound
  | readProgram source => exact h.read Reader.counts_program hseen source
  | readExpression source => exact h.read Reader.counts_wholeExpression hseen source

theorem Settled.afterSteps (steps : List Step) (h : Settled seen session) {later : Token → Prop}
    (hseen : ∀ token, seen token → later token)
    (hsteps : ∀ token, SeenBy steps token → later token) :
    Settled later (session.afterSteps steps) := by
  induction steps generalizing seen session with
  | nil => exact h.grow hseen (Nat.le_refl _) session.machine.table
  | cons step rest ih =>
      have hstep : Settled later (session.perform step).2 :=
        h.perform hseen fun token htoken => hsteps token ⟨step, List.mem_cons_self, htoken⟩
      apply ih hstep (fun _ => id)
      rintro token ⟨other, hother, htoken⟩
      exact hsteps token ⟨other, List.mem_cons_of_mem _ hother, htoken⟩

theorem settled_afterSteps (sink : Sink) (clock : Clock) (steps : List Step) :
    Settled (SeenBy steps) ((Session.initial sink clock).afterSteps steps) :=
  (settled_initial sink clock).afterSteps steps nofun fun _ => id

end Sessions

end Scriptlet.Incremental
