/-
The identities that a session hands out.

Each step takes the next ones, whether its source has faults or not, and no two occurrences
in the trees of a session share one.  So a side table that is added meets no entry of an
earlier one.
-/
import Scriptlet.Proofs.Session.Tables

namespace Scriptlet

open Grammar Incremental

namespace Reader

variable {α : Type} {rule : Nat → Reader α} {tokens : List Token} {issued : Nat} {tree : α}

/-- The tree that a rule makes of a token list, also if faults were found on the way; none if
the rule gives up. -/
def built? (rule : Nat → Reader α) (tokens : List Token) (issued : Nat) : Option α :=
  let start := Cursor.ofTokens tokens issued
  match rule (start.rest.length + 1) start with
  | .ok tree _ => some tree
  | .error _ _ => none

theorem built?_of_parse {stop : Nat} (h : parse rule tokens issued = ⟨.ok tree, stop⟩) :
    built? rule tokens issued = some tree := by
  unfold parse at h
  unfold built?
  dsimp only at h ⊢
  generalize rule _ _ = result at h ⊢
  cases result with
  | ok value after =>
      rw [Parsed.mk.injEq] at h
      obtain ⟨hresult, -⟩ := h
      split at hresult
      · cases hresult
        rfl
      · cases hresult
  | error reason after => cases reason <;> cases h

/-- Whatever was built has identities that were handed out while it was read. -/
theorem numbered_built {produce : Produce α}
    (h : ∀ bound, Steady (.behind 0) [] produce (rule bound) (rule bound))
    (hbuilt : built? rule tokens issued = some tree) :
    Numbered issued (parse rule tokens issued).issued (produce.ids tree) := by
  have hrule := h ((Cursor.ofTokens tokens issued).rest.length + 1) issued
    (Cursor.ofTokens tokens issued) _ (numbered_nil issued) (aligned_shift 0 _)
  unfold built? at hbuilt
  unfold parse
  dsimp only at hbuilt ⊢
  generalize rule _ (Cursor.ofTokens tokens issued) = result at hrule hbuilt ⊢
  generalize rule _ (Cursor.shift _ _) = result' at hrule
  cases hrule with
  | ok hids _ _ =>
      cases hbuilt
      exact hids
  | error _ _ _ => cases hbuilt

end Reader

section Built

variable {α : Type} {rule : Nat → Reader α} {issued stop : Nat} {source : String} {tree : α}

/-- The identities in the tree that is read, whether it is accepted or not. -/
def builtIds (rule : Nat → Reader α) (ids : α → List NodeId) (issued : Nat) (source : String) :
    List NodeId :=
  ((Reader.built? rule (Source.scan source).tokens issued).map ids).getD []

theorem numbered_builtIds {produce : Produce α}
    (h : ∀ bound, Steady (.behind 0) [] produce (rule bound) (rule bound))
    (hcounts : ∀ bound, Reader.Counts (rule bound)) (issued : Nat) (source : String) :
    Numbered issued (readSource rule issued source).2
      (builtIds rule produce.ids issued source) := by
  unfold builtIds
  cases hbuilt : Reader.built? rule (Source.scan source).tokens issued with
  | none =>
      have hle := Session.issued_le_readSource hcounts issued source
      exact (numbered_nil _).of_le hle
  | some tree => exact Reader.numbered_built h hbuilt

theorem builtIds_of_readSource (h : readSource rule issued source = (.ok tree, stop))
    (ids : α → List NodeId) : builtIds rule ids issued source = ids tree := by
  rw [builtIds, Reader.built?_of_parse (Session.readSource_eq_ok_iff.mp h).2]
  rfl

end Built

namespace Session

/-- The identities in the tree that is read in a step. -/
def treeIds (session : Session) : Step → List NodeId
  | .run _ source | .readProgram source =>
      builtIds Reader.program stmtsIds session.issued source
  | .evaluate _ source | .readExpression source =>
      builtIds Reader.wholeExpression exprIds session.issued source

/-- The identities in the trees that are read in some steps. -/
def identities (session : Session) : List Step → List NodeId
  | [] => []
  | step :: rest => session.treeIds step ++ (session.perform step).2.identities rest

variable {session : Session}

theorem numbered_treeIds (session : Session) (step : Step) :
    Numbered session.issued (session.perform step).2.issued (session.treeIds step) := by
  have hprogram := numbered_builtIds steady_program Reader.counts_program session.issued step.source
  have hexpression := numbered_builtIds steady_wholeExpression Reader.counts_wholeExpression
    session.issued step.source
  cases step with
  | run bound source => exact (issued_run session bound source).symm ▸ hprogram
  | evaluate bound source => exact (issued_evaluate session bound source).symm ▸ hexpression
  | readProgram source => exact hprogram
  | readExpression source => exact hexpression

theorem numbered_identities (session : Session) (steps : List Step) :
    Numbered session.issued (session.afterSteps steps).issued (session.identities steps) := by
  induction steps generalizing session with
  | nil => exact numbered_nil _
  | cons step rest ih => exact (numbered_treeIds session step).append (ih _)

/-- The identities in a tree that a step gives. -/
def Yield.ids {Place : Type} : Yield Place → List NodeId
  | .program body => stmtsIds body
  | .expression expr => exprIds expr
  | _ => []

/-- A tree that is given away is the one that was read. -/
theorem ids_sublist_treeIds {step : Step} {result : Yield Nat}
    (h : (session.perform step).1 = .ok result) :
    (Yield.ids result).Sublist (session.treeIds step) := by
  cases step with
  | run bound source =>
      dsimp only [perform] at h
      generalize (session.run bound source).1 = outcome at h
      cases outcome with
      | error failure => cases h
      | ok value =>
          cases h
          exact List.nil_sublist _
  | evaluate bound source =>
      dsimp only [perform] at h
      generalize (session.evaluate bound source).1 = outcome at h
      cases outcome with
      | error failure => cases h
      | ok value =>
          cases h
          exact List.nil_sublist _
  | readProgram source =>
      dsimp only [perform, readProgram, read] at h
      cases hread : readSource Reader.program session.issued source with
      | mk outcome issued =>
          rw [hread] at h
          cases outcome with
          | error failure => cases h
          | ok program =>
              cases h
              exact Eq.subst (builtIds_of_readSource hread stmtsIds).symm (List.Sublist.refl _)
  | readExpression source =>
      dsimp only [perform, readExpression, read] at h
      cases hread : readSource Reader.wholeExpression session.issued source with
      | mk outcome issued =>
          rw [hread] at h
          cases outcome with
          | error failure => cases h
          | ok expr =>
              cases h
              exact Eq.subst (builtIds_of_readSource hread exprIds).symm (List.Sublist.refl _)

/-- The side table that resolving a program gave, about the identities in it. -/
theorem distance?_run_of_resolve {bound issued : Nat} {source : String} {program : List Stmt}
    {table : Table} (hfresh : session.Fresh)
    (hids : (session.perform (.run bound source)).2.issued ≤ UInt32.size)
    (hread : readSource Reader.program session.issued source = (.ok program, issued))
    (hresolve : resolve program = .ok table) {id : NodeId} (hid : id ∈ stmtsIds program) :
    (session.perform (.run bound source)).2.machine.table.distance? id = table.distance? id := by
  have hadded : session.added (.run bound source) = table := by
    dsimp only [added]
    rw [hread]
    dsimp only
    rw [hresolve]
    rfl
  have hnumbered := numbered_treeIds session (.run bound source)
  rw [show session.treeIds (.run bound source) = stmtsIds program from
    builtIds_of_readSource hread stmtsIds] at hnumbered
  obtain ⟨k, hle, hlt, rfl⟩ := hnumbered.exists_count hid
  rw [distance?_perform, hadded, hfresh k hle (Nat.lt_of_lt_of_le hlt hids), Option.or_none]

/-- An entry has an identity that was handed out. -/
theorem Fresh.exists_count (h : session.Fresh) {id : NodeId} {distance : Nat}
    (hentry : session.machine.table.distance? id = some distance) :
    ∃ k < session.issued, id = .ofCount k := by
  have hid : id = .ofCount id.toNat := UInt32.ofNat_toNat.symm
  by_cases hlt : id.toNat < session.issued
  · exact ⟨id.toNat, hlt, hid⟩
  · have hnone := h id.toNat (Nat.le_of_not_lt hlt) (UInt32.toNat_lt_size id)
    rw [← hid, hentry] at hnone
    cases hnone

/-- No two occurrences in the trees that a session reads have the same identity.  A step takes
the next identities, also if its source has faults; it changes no entry of the side table; and
what the resolver said about the occurrences of a program that is run is what the table says
about them from then on. -/
theorem identities_distinct_and_stable (sink : Sink) (clock : Clock) (steps : List Step)
    (hids : ((Session.initial sink clock).afterSteps steps).issued ≤ UInt32.size) :
    ((Session.initial sink clock).identities steps).Nodup ∧
      ∀ before step rest, steps = before ++ step :: rest →
        let here := (Session.initial sink clock).afterSteps before
        let next := (here.perform step).2
        (here.issued ≤ next.issued ∧
          ∀ id ∈ here.treeIds step, ∃ k, here.issued ≤ k ∧ k < next.issued ∧ id = .ofCount k) ∧
        (∀ result, (here.perform step).1 = .ok result →
          (Yield.ids result).Sublist (here.treeIds step)) ∧
        (∀ id distance, here.machine.table.distance? id = some distance →
          next.machine.table.distance? id = some distance) ∧
        ∀ bound source program issued table, step = .run bound source →
          readSource Reader.program here.issued source = (.ok program, issued) →
          resolve program = .ok table →
          ∀ id ∈ stmtsIds program,
            (next.afterSteps rest).machine.table.distance? id = table.distance? id := by
  refine ⟨(numbered_identities _ steps).nodup hids, ?_⟩
  rintro before step rest rfl here next
  have hwhole : (Session.initial sink clock).afterSteps (before ++ step :: rest) =
      next.afterSteps rest := afterSteps_append _ before (step :: rest)
  rw [hwhole] at hids
  have hnext : next.issued ≤ UInt32.size := Nat.le_trans (issued_le_afterSteps next rest) hids
  have hhere : here.issued ≤ UInt32.size := Nat.le_trans (issued_le_perform here step) hnext
  have hfresh : here.Fresh := (fresh_initial sink clock).afterSteps hhere
  refine ⟨⟨issued_le_perform here step, ?_⟩, fun _ => ids_sublist_treeIds, ?_, ?_⟩
  · intro id hid
    exact (numbered_treeIds here step).exists_count hid
  · intro id distance hentry
    obtain ⟨k, hk, rfl⟩ := hfresh.exists_count hentry
    exact (distance?_perform_of_lt hnext hk).trans hentry
  · rintro bound source program issued table rfl hread hresolve id hid
    have hnumbered := numbered_treeIds here (.run bound source)
    rw [show here.treeIds (.run bound source) = stmtsIds program from
      builtIds_of_readSource hread stmtsIds] at hnumbered
    obtain ⟨k, -, hlt, rfl⟩ := hnumbered.exists_count hid
    exact (distance?_afterSteps_of_lt hids hlt).trans
      (distance?_run_of_resolve hfresh hnext hread hresolve hid)

/-- A function is declared, a source with a fault follows, and the function is called. -/
def stableSteps : List Step :=
  [.run 100 "var a = 1; fun f(b) \x7b return a = b; \x7d", .readProgram "a = (b",
    .run 100 "print f(a);"]

theorem identities_distinct_and_stable_call :
    ((Session.initial .unlimited 0).afterSteps stableSteps).issued ≤ UInt32.size ∧
      ((Session.initial .unlimited 0).identities stableSteps).Nodup := by
  have hids : ((Session.initial .unlimited 0).afterSteps stableSteps).issued ≤ UInt32.size := by
    decide +kernel
  exact ⟨hids, (identities_distinct_and_stable .unlimited 0 stableSteps hids).1⟩

end Session

end Scriptlet
