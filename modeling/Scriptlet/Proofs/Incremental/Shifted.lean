/-
Two sessions that were given the same sources, of which one has handed out more identities.

Their identities are paired as they are handed out.  The side tables agree on pairs, so the
same steps have the same results in both, but for the identities in trees.
-/
import Scriptlet.Proofs.Incremental.Settled
import Scriptlet.Proofs.Incremental.Resolved
import Scriptlet.Proofs.Session.Tables

namespace Scriptlet.Incremental

open Binding Grammar

/-- Paired identities at the same tokens, and side tables that say the same about them. -/
def pairLink (pairs : NodeId → NodeId → Prop) : Link where
  tokens a b := b = a
  ids := pairs
  tables a b := ∀ id id', pairs id id' → b.distance? id' = a.distance? id
  sinks a b := b = a
  kind_eq h := congrArg Token.kind h
  lexeme_eq h := congrArg Token.lexeme h
  distance?_eq h := h _ _
  fits_eq := fits_of_eq
  flushFails_eq := flushFails_of_eq
  write := write_of_eq

/-- The second session is where the first one is, behind more identities. -/
structure Shifted (pairs : NodeId → NodeId → Prop) (session session' : Session) : Prop where
  machines : AlikeMachine (pairLink pairs) session.machine session'.machine
  handed : ∀ id id', pairs id id' →
    (∃ k < session.issued, id = .ofCount k) ∧ ∃ k < session'.issued, id' = .ofCount k
  le : session.issued ≤ session'.issued
  fresh : session.Fresh
  fresh' : session'.Fresh

section Tables

variable {later : Nat} {program program' : List Stmt} {table table' : Table}

theorem ofCount_add_inj {j k : Nat} :
    NodeId.ofCount (j + later) = .ofCount (k + later) ↔ NodeId.ofCount j = .ofCount k := by
  simp only [NodeId.ofCount, UInt32.ofNat_add, UInt32.add_left_inj]

theorem lookup_of_alike {entries entries' : List (NodeId × Nat)}
    (h : List.Forall₂ (fun entry entry' => (laterLink later).ids entry.1 entry'.1 ∧
      entry.2 = entry'.2) entries entries') (k : Nat) :
    entries'.lookup (.ofCount (k + later)) = entries.lookup (.ofCount k) := by
  induction h with
  | nil => rfl
  | @cons entry entry' _ _ hentry _ ih =>
      obtain ⟨id, distance⟩ := entry
      obtain ⟨id', distance'⟩ := entry'
      obtain ⟨⟨j, hid, hid'⟩, hdistance⟩ := hentry
      dsimp only at hid hid' hdistance
      subst hid hid' hdistance
      rw [List.lookup_cons, List.lookup_cons, ih]
      by_cases hsame : NodeId.ofCount k = .ofCount j
      · rw [hsame, beq_self_eq_true, ofCount_add_inj.mpr hsame, beq_self_eq_true]
      · rw [beq_false_of_ne hsame, beq_false_of_ne fun hadd => hsame (ofCount_add_inj.mp hadd)]

/-- The tables of programs that are alike say the same. -/
theorem distance?_of_alike (h : AlikeStmts (laterLink later) program program')
    (hresolve : resolve program = .ok table) (hresolve' : resolve program' = .ok table') (k : Nat) :
    table'.distance? (.ofCount (k + later)) = table.distance? (.ofCount k) := by
  obtain ⟨-, rfl⟩ := Lexical.resolve_eq_ok_iff.mp hresolve
  obtain ⟨-, rfl⟩ := Lexical.resolve_eq_ok_iff.mp hresolve'
  have hentries := (alike_inStmts h false []).1.entries
  simp only [Table.ofList, Table.distance?_enter, Table.distance?_empty, Option.or_none]
  exact lookup_of_alike (List.rel_reverse hentries) k

/-- Where only identities differ, the same faults are found. -/
theorem resolve_of_alike (h : AlikeStmts (laterLink later) program program') :
    (∃ table table', resolve program = .ok table ∧ resolve program' = .ok table') ∨
      ∃ faults, resolve program = .error faults ∧ resolve program' = .error faults := by
  have hfaults : (findings program').faults = (findings program).faults := by
    have hsame : List.Forall₂ (fun fault fault' => fault' = fault) (findings program).faults
        (findings program').faults := by
      apply (alike_inStmts h false []).1.faults.imp
      rintro _ _ ⟨cause, htoken⟩
      rw [htoken]
    rw [← List.forall₂_eq_eq_eq]
    exact hsame.flip
  unfold resolve
  dsimp only
  rw [hfaults]
  split
  · exact Or.inl ⟨_, _, rfl, rfl⟩
  · exact Or.inr ⟨_, rfl, rfl⟩

end Tables

/-! ### Reading -/

/-- The same of reading a source two times, the second time behind so many more identities. -/
inductive SameRead {α : Type} (later : Nat) (produce : Produce α) (start : Nat) :
    Except Failure α × Nat → Except Failure α × Nat → Prop
  | ok {value value' : α} {stop : Nat} (ids : Numbered start stop (produce.ids value))
      (alike : produce.alike value value') :
      SameRead later produce start (.ok value, stop) (.ok value', stop + later)
  | error {faults : List Diagnostic} {stop : Nat} (le : start ≤ stop) :
      SameRead later produce start (.error (.static faults), stop)
        (.error (.static faults), stop + later)

theorem sameRead_readSource {α : Type} {later : Nat} {produce : Produce α}
    {rule : Nat → Reader α}
    (h : ∀ bound, Steady (.behind later) [] produce (rule bound) (rule bound))
    (start : Nat) (source : String) :
    SameRead later produce start (readSource rule start source)
      (readSource rule (start + later) source) := by
  have hparsed := sameParsed_behind h (Source.scan source).tokens start
  unfold readSource
  dsimp only
  generalize Reader.parse rule _ start = parsed at hparsed ⊢
  generalize Reader.parse rule _ (start + later) = parsed' at hparsed ⊢
  cases hparsed with
  | ok hids halike =>
      dsimp only
      split
      · exact .ok hids halike
      · exact .error hids.1
  | error hle hsame =>
      obtain rfl := forall₂_sameFault_iff.mp hsame
      exact .error hle

/-! ### Steps -/

section Steps

variable {pairs : NodeId → NodeId → Prop} {session session' : Session} {n m later : Nat}

/-- Both sessions have handed out more. -/
theorem Shifted.advance (h : Shifted pairs session session') (hm : session.issued ≤ m)
    (hlater : session'.issued = session.issued + later) :
    Shifted pairs { session with issued := m } { session' with issued := m + later } where
  machines := h.machines
  handed id id' hpair := by
    obtain ⟨⟨k, hk, hid⟩, k', hk', hid'⟩ := h.handed id id' hpair
    refine ⟨⟨k, Nat.lt_of_lt_of_le hk hm, hid⟩, k', ?_, hid'⟩
    exact Nat.lt_of_lt_of_le hk' (hlater ▸ Nat.add_le_add_right hm later)
  le := Nat.le_add_right m later
  fresh k hk := h.fresh k (Nat.le_trans hm hk)
  fresh' k hk := h.fresh' k (Nat.le_trans (hlater ▸ Nat.add_le_add_right hm later) hk)

/-- Both sessions act alike and are where they were. -/
theorem Shifted.act {α β : Type} {R : α → β → Prop} {action : Eval α} {action' : Eval β}
    (h : Shifted pairs session session') (hrun : AlikeRun (pairLink pairs) R action action')
    (hkeeps : KeepsTable action)
    (hkeeps' : KeepsTable action') :
    Shifted pairs (session.act action).2 (session'.act action').2 ∧
      SameResult R (session.act action).1 (session'.act action').1 := by
  have hresult := hrun h.machines
  have htable := hkeeps session.machine
  have htable' := hkeeps' session'.machine
  obtain ⟨machine, issued⟩ := session
  obtain ⟨machine', issued'⟩ := session'
  unfold Session.act
  dsimp only at hresult htable htable' ⊢
  generalize action machine = result at hresult htable ⊢
  generalize action' machine' = result' at hresult htable' ⊢
  cases hresult with
  | ok hmachines hrelated =>
      refine ⟨⟨hmachines, h.handed, h.le, ?_, ?_⟩, .ok hrelated⟩
      · exact fun k hk hlt => (congrArg (Table.distance? · _) htable).trans (h.fresh k hk hlt)
      · exact fun k hk hlt => (congrArg (Table.distance? · _) htable').trans (h.fresh' k hk hlt)
  | @error after after' stop stop' hmachines hstops =>
      obtain rfl := hstops.eq fun _ _ hsame => hsame.symm
      refine ⟨⟨hmachines, h.handed, h.le, ?_, ?_⟩, .error _⟩
      · exact fun k hk hlt => (congrArg (Table.distance? · _) htable).trans (h.fresh k hk hlt)
      · exact fun k hk hlt => (congrArg (Table.distance? · _) htable').trans (h.fresh' k hk hlt)

/-- The pairs of before, and those of the identities that a source takes. -/
def addPairs (pairs : NodeId → NodeId → Prop) (n m later : Nat) (id id' : NodeId) : Prop :=
  pairs id id' ∨ ∃ k, n ≤ k ∧ k < m ∧ id = .ofCount k ∧ id' = .ofCount (k + later)

/-- Trees that were read have identities that are paired from then on. -/
theorem addPairs_of_later {ids : List NodeId} (hids : Numbered n m ids) (id : NodeId)
    (hid : id ∈ ids) (id' : NodeId) (h : (laterLink later).ids id id') :
    (pairLink (addPairs pairs n m later)).ids id id' := by
  obtain ⟨j, rfl, rfl⟩ := h
  obtain ⟨k, hle, hlt, hsame⟩ := hids.exists_count hid
  exact Or.inr ⟨k, hle, hlt, hsame, ofCount_add_inj.mpr hsame⟩

/-- Both sessions have read a source, and their side tables may have entries of it. -/
theorem Shifted.grow (h : Shifted pairs session session') (hm : session.issued ≤ m)
    (hlater : session'.issued = session.issued + later) (hids : m + later ≤ UInt32.size)
    {added added' table table' : Table} (hadds : Adds added session.machine.table table)
    (hadds' : Adds added' session'.machine.table table')
    (hsame : ∀ k, added'.distance? (.ofCount (k + later)) = added.distance? (.ofCount k))
    (hunused : ∀ k < UInt32.size, k < session.issued ∨ m ≤ k →
      added.distance? (.ofCount k) = none)
    (hunused' : ∀ k < UInt32.size, k < session'.issued ∨ m + later ≤ k →
      added'.distance? (.ofCount k) = none) :
    Shifted (addPairs pairs session.issued m later) ⟨{ session.machine with table := table }, m⟩
      ⟨{ session'.machine with table := table' }, m + later⟩ := by
  have hmLater : session'.issued ≤ m + later := hlater ▸ Nat.add_le_add_right hm later
  refine ⟨?_, ?_, Nat.le_add_right m later, ?_, ?_⟩
  · apply AlikeMachine.imp h.machines
    · exact fun _ _ htokens => htokens
    · exact fun _ _ hpair => Or.inl hpair
    · exact h.machines.sink
    · rintro id id' (hpair | ⟨k, hle, hlt, rfl, rfl⟩)
      · obtain ⟨⟨k, hk, rfl⟩, k', hk', rfl⟩ := h.handed id id' hpair
        have hold : session'.machine.table.distance? (.ofCount k') =
            session.machine.table.distance? (.ofCount k) := h.machines.table _ _ hpair
        rw [hadds, hadds', hunused k (by omega) (Or.inl hk), hunused' k' (by omega) (Or.inl hk'),
          hold]
      · rw [hadds, hadds', hsame k, h.fresh k hle (by omega),
          h.fresh' (k + later) (by omega) (by omega)]
  · rintro id id' (hpair | ⟨k, hle, hlt, rfl, rfl⟩)
    · obtain ⟨⟨k, hk, hid⟩, k', hk', hid'⟩ := h.handed id id' hpair
      exact ⟨⟨k, Nat.lt_of_lt_of_le hk hm, hid⟩, k', Nat.lt_of_lt_of_le hk' hmLater, hid'⟩
    · exact ⟨⟨k, hlt, rfl⟩, k + later, Nat.add_lt_add_right hlt later, rfl⟩
  · intro k hk hlt
    show table.distance? _ = none
    rw [hadds, hunused k hlt (Or.inr hk), h.fresh k (Nat.le_trans hm hk) hlt]
    rfl
  · intro k hk hlt
    show table'.distance? _ = none
    rw [hadds', hunused' k hlt (Or.inr hk), h.fresh' k (Nat.le_trans hmLater hk) hlt]
    rfl

theorem Shifted.read {α : Type} {rule : Nat → Reader α} {produce : Pairing → Produce α}
    (h : Shifted pairs session session')
    (hsteady : ∀ pairing bound, Steady pairing [] (produce pairing) (rule bound) (rule bound))
    (source : String) :
    Shifted pairs (session.read rule source).2 (session'.read rule source).2 ∧
      SameResult (fun tree tree' => ∃ later, (produce (.behind later)).alike tree tree')
        (session.read rule source).1 (session'.read rule source).1 := by
  obtain ⟨later, hlater⟩ := Nat.exists_eq_add_of_le h.le
  have hsame := sameRead_readSource (hsteady (.behind later)) session.issued source
  rw [← hlater] at hsame
  unfold Session.read
  generalize readSource rule session.issued source = result at hsame ⊢
  generalize readSource rule session'.issued source = result' at hsame ⊢
  cases hsame with
  | ok hids halike => exact ⟨h.advance hids.1 hlater, .ok ⟨later, halike⟩⟩
  | error hle => exact ⟨h.advance hle hlater, .error _⟩

theorem Shifted.run (h : Shifted pairs session session') (bound : Nat) (source : String)
    (hids : (session'.run bound source).2.issued ≤ UInt32.size) :
    ∃ pairs', Shifted pairs' (session.run bound source).2 (session'.run bound source).2 ∧
      SameResult (fun _ _ => True) (session.run bound source).1 (session'.run bound source).1 := by
  obtain ⟨later, hlater⟩ := Nat.exists_eq_add_of_le h.le
  have hsame : SameRead later _ _ _ _ := sameRead_readSource steady_program session.issued source
  rw [← hlater] at hsame
  rw [Session.issued_run] at hids
  unfold Session.run Session.readProgram Session.read
  generalize hread : readSource Reader.program session.issued source = result at hsame ⊢
  generalize hread' : readSource Reader.program session'.issued source = result' at hsame hids ⊢
  cases hsame with
  | error hle => exact ⟨pairs, h.advance hle hlater, .error _⟩
  | @ok program program' m hnumbered halike =>
      have hderives := parse_program_sound (Source.scan_endsOnce source)
        (Session.readSource_eq_ok_iff.mp hread').2
      have hnumbered' := (derives_wellMade hderives).2
      rcases resolve_of_alike halike with
        ⟨table, table', hresolve, hresolve'⟩ | ⟨faults, hresolve, hresolve'⟩
      · dsimp only
        rw [hresolve, hresolve']
        have hready := h.grow hnumbered.1 hlater hids
          (Table.distance?_merge session.machine.table table)
          (Table.distance?_merge session'.machine.table table')
          (distance?_of_alike halike hresolve hresolve')
          (fun k => Lexical.distance?_of_unused hresolve hnumbered (by omega))
          (fun k => Lexical.distance?_of_unused hresolve' hnumbered' hids)
        have hprogram : AlikeStmts (pairLink (addPairs pairs session.issued m later)) program
            program' := halike.imp (fun _ _ => id) (addPairs_of_later hnumbered)
        exact ⟨_, hready.act (alikeRun_runProgram bound hprogram) (table_runProgram bound program)
          (table_runProgram bound program')⟩
      · dsimp only
        rw [hresolve, hresolve']
        exact ⟨pairs, h.advance hnumbered.1 hlater, .error _⟩

theorem Shifted.evaluate (h : Shifted pairs session session') (bound : Nat) (source : String)
    (hids : (session'.evaluate bound source).2.issued ≤ UInt32.size) :
    ∃ pairs', Shifted pairs' (session.evaluate bound source).2
        (session'.evaluate bound source).2 ∧
      SameResult (AlikeValue (pairLink pairs')) (session.evaluate bound source).1
        (session'.evaluate bound source).1 := by
  obtain ⟨later, hlater⟩ := Nat.exists_eq_add_of_le h.le
  have hsame : SameRead later _ _ _ _ :=
    sameRead_readSource steady_wholeExpression session.issued source
  rw [← hlater] at hsame
  rw [Session.issued_evaluate] at hids
  unfold Session.evaluate Session.readExpression Session.read
  generalize readSource Reader.wholeExpression session.issued source = result at hsame ⊢
  generalize readSource Reader.wholeExpression session'.issued source = result' at hsame hids ⊢
  cases hsame with
  | error hle => exact ⟨pairs, h.advance hle hlater, .error _⟩
  | @ok expr expr' m hnumbered halike =>
      have hready := h.grow hnumbered.1 hlater hids (adds_empty session.machine.table)
        (adds_empty session'.machine.table)
        (fun k => (Table.distance?_empty _).trans (Table.distance?_empty _).symm)
        (fun k _ _ => Table.distance?_empty _) (fun k _ _ => Table.distance?_empty _)
      have hexpr : AlikeExpr (pairLink (addPairs pairs session.issued m later)) expr expr' :=
        halike.imp (fun _ _ => id) (addPairs_of_later hnumbered)
      exact ⟨_, hready.act ((alikeAt bound).evaluate hexpr) (table_evaluate bound expr)
        (table_evaluate bound expr')⟩

end Steps

end Scriptlet.Incremental
