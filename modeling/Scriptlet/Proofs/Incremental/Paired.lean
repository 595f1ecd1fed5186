/-
Two readings of the same tokens, on the same lines or on others, of which the second one may be
behind more identities.

Neither makes a difference to what is read: a rule takes the tokens that stand for each other,
finds the same faults and gives a tree that is alike.  The identities in a tree are some of those
that were handed out while it was read, each of them once, also where the reader went on after a
fault.
-/
import Scriptlet.Proofs.Incremental.Alike
import Scriptlet.Tree.Reader.Statement

namespace Scriptlet

/-- The same place, after so many more identities. -/
def Cursor.shift (later : Nat) (cursor : Cursor) : Cursor :=
  { cursor with issued := cursor.issued + later }

namespace Incremental

open Grammar Reader

/-- Identities that are handed out so much later, at the same tokens. -/
def laterLink (later : Nat) : Link :=
  .ofTrees (fun a b => b = a) (fun a b => ∃ k, a = .ofCount k ∧ b = .ofCount (k + later))
    (congrArg Token.kind) (congrArg Token.lexeme)

theorem exists_count_later (later k : Nat) :
    ∃ j, NodeId.ofCount k = .ofCount j ∧ NodeId.ofCount (k + later) = .ofCount (j + later) :=
  ⟨k, rfl, rfl⟩

/-- What two readings have in common: which tokens stand for each other, on which lines, and how
many identities more were handed out before the second one. -/
structure Pairing where
  link : Link
  lines : Nat → Nat → Prop
  later : Nat
  line_of_tokens : ∀ {a b}, link.tokens a b → lines a.line b.line
  /-- An empty list ends on the first line. -/
  firstLine : lines 1 1
  ids_ofCount : ∀ k, link.ids (.ofCount k) (.ofCount (k + later))

/-- The same tokens, behind so many more identities. -/
def Pairing.behind (later : Nat) : Pairing where
  link := laterLink later
  lines := Eq
  later := later
  line_of_tokens h := congrArg Token.line h.symm
  firstLine := rfl
  ids_ofCount := exists_count_later later

/-- The same fault, on lines that stand for each other. -/
inductive SameFault (lines : Nat → Nat → Prop) : Diagnostic → Diagnostic → Prop
  | lexical {line line' : Nat} (h : lines line line') (fault : LexicalFault) :
      SameFault lines (.lexical line fault) (.lexical line' fault)
  | grammar {line line' : Nat} (h : lines line line') (location : Location)
      (fault : GrammarFault) :
      SameFault lines (.grammar line location fault) (.grammar line' location fault)
  | binding {line line' : Nat} (h : lines line line') (location : Location)
      (fault : BindingFault) :
      SameFault lines (.binding line location fault) (.binding line' location fault)
  | runtime {line line' : Nat} (h : lines line line') (fault : RuntimeFault) :
      SameFault lines (.runtime line fault) (.runtime line' fault)
  | sink (fault : SinkFault) : SameFault lines (.sink fault) (.sink fault)

inductive SameHalt (lines : Nat → Nat → Prop) : Halt → Halt → Prop
  | fault {diagnostic diagnostic' : Diagnostic} (h : SameFault lines diagnostic diagnostic') :
      SameHalt lines (.fault diagnostic) (.fault diagnostic')
  | exhausted : SameHalt lines .exhausted .exhausted

/-- Both readings are at the same place and have found the same faults. -/
structure Aligned (pairing : Pairing) (cursor cursor' : Cursor) : Prop where
  rest : List.Forall₂ pairing.link.tokens cursor.rest cursor'.rest
  endLine : pairing.lines cursor.endLine cursor'.endLine
  issued : cursor'.issued = cursor.issued + pairing.later
  faults : List.Forall₂ (SameFault pairing.lines) cursor.faults cursor'.faults

section Behind

variable {later : Nat} {cursor cursor' : Cursor} {faults faults' : List Diagnostic}

theorem forall₂_same_iff {α : Type} {all all' : List α} :
    List.Forall₂ (fun a b => b = a) all all' ↔ all' = all := by
  constructor
  · intro h
    have hflip : List.Forall₂ (· = ·) all' all := h.flip
    rwa [List.forall₂_eq_eq_eq] at hflip
  · rintro rfl
    exact List.forall₂_same.mpr fun _ _ => rfl

theorem sameFault_refl {lines : Nat → Nat → Prop} (h : ∀ line, lines line line)
    (diagnostic : Diagnostic) : SameFault lines diagnostic diagnostic := by
  cases diagnostic with
  | lexical line fault => exact .lexical (h line) fault
  | grammar line location fault => exact .grammar (h line) location fault
  | binding line location fault => exact .binding (h line) location fault
  | runtime line fault => exact .runtime (h line) fault
  | sink fault => exact .sink fault

theorem sameFault_iff {diagnostic diagnostic' : Diagnostic} :
    SameFault (Pairing.behind later).lines diagnostic diagnostic' ↔
      diagnostic' = diagnostic := by
  constructor
  · rintro (⟨rfl, _⟩ | ⟨rfl, _, _⟩ | ⟨rfl, _, _⟩ | ⟨rfl, _⟩ | _) <;> rfl
  · rintro rfl
    exact sameFault_refl (fun _ => rfl) diagnostic'

theorem forall₂_sameFault_iff :
    List.Forall₂ (SameFault (Pairing.behind later).lines) faults faults' ↔ faults' = faults := by
  rw [← forall₂_same_iff]
  exact ⟨fun h => h.imp fun _ _ => sameFault_iff.mp, fun h => h.imp fun _ _ => sameFault_iff.mpr⟩

theorem aligned_shift (later : Nat) (cursor : Cursor) :
    Aligned (.behind later) cursor (cursor.shift later) :=
  ⟨forall₂_same_iff.mpr rfl, rfl, rfl, forall₂_sameFault_iff.mpr rfl⟩

theorem Aligned.eq_shift (h : Aligned (.behind later) cursor cursor') :
    cursor' = cursor.shift later := by
  obtain ⟨rest, endLine, issued, faults⟩ := cursor'
  obtain ⟨hrest, hendLine, hissued, hfaults⟩ := h
  obtain rfl := forall₂_same_iff.mp hrest
  obtain rfl := forall₂_sameFault_iff.mp hfaults
  obtain rfl : cursor.endLine = endLine := hendLine
  obtain rfl : issued = cursor.issued + later := hissued
  rfl

end Behind

section Aligned

variable {pairing : Pairing} {cursor cursor' : Cursor}

theorem Link.location_eq (link : Link) {token token' : Token} (h : link.tokens token token') :
    token'.location = token.location := by
  rw [Token.location, Token.location, link.kind_eq h, link.lexeme_eq h]

theorem Aligned.diagnose (h : Aligned pairing cursor cursor') (fault : GrammarFault) :
    SameFault pairing.lines (cursor.diagnose fault) (cursor'.diagnose fault) := by
  obtain ⟨rest, endLine, issued, faults⟩ := cursor
  obtain ⟨rest', endLine', issued', faults'⟩ := cursor'
  obtain ⟨hrest, hendLine, -, -⟩ := h
  unfold Cursor.diagnose
  cases hrest with
  | nil => exact .grammar hendLine _ fault
  | cons htoken _ =>
      dsimp only
      rw [pairing.link.location_eq htoken]
      exact .grammar (pairing.line_of_tokens htoken) _ fault

theorem Aligned.report (h : Aligned pairing cursor cursor') {diagnostic diagnostic' : Diagnostic}
    (hsame : SameFault pairing.lines diagnostic diagnostic') :
    Aligned pairing { cursor with faults := cursor.faults ++ [diagnostic] }
      { cursor' with faults := cursor'.faults ++ [diagnostic'] } :=
  ⟨h.rest, h.endLine, h.issued, List.rel_append h.faults (.cons hsame .nil)⟩

/-- After a fault, both go on behind the same semicolon or at the same keyword. -/
theorem forall₂_boundary {link : Link} {skipped skipped' : Token} {rest rest' : List Token}
    (hskipped : link.tokens skipped skipped') (h : List.Forall₂ link.tokens rest rest') :
    List.Forall₂ link.tokens (Cursor.boundary skipped rest) (Cursor.boundary skipped' rest') := by
  induction h generalizing skipped skipped' with
  | nil => exact .nil
  | cons htoken hrest ih =>
      rw [Cursor.boundary, Cursor.boundary, link.kind_eq hskipped, link.kind_eq htoken]
      split
      · exact .cons htoken hrest
      · exact ih htoken

theorem forall₂_resume {link : Link} {rest rest' : List Token}
    (h : List.Forall₂ link.tokens rest rest') :
    List.Forall₂ link.tokens (Cursor.resume rest) (Cursor.resume rest') := by
  cases h with
  | nil => exact .nil
  | cons htoken hrest => exact forall₂_boundary htoken hrest

end Aligned

/-! ### Rules -/

/-- What rules of a kind give: the identities in a result, and which results are alike. -/
structure Produce (α : Type) where
  ids : α → List NodeId
  alike : α → α → Prop

namespace Produce

/-- No trees, but what is told by tokens. -/
def told {α : Type} (alike : α → α → Prop) : Produce α :=
  ⟨fun _ => [], alike⟩

variable (pairing : Pairing)

/-- The identity of a new occurrence. -/
def fresh : Produce NodeId :=
  ⟨fun id => [id], pairing.link.ids⟩

def expr : Produce Expr :=
  ⟨exprIds, AlikeExpr pairing.link⟩

def exprs : Produce (List Expr) :=
  ⟨exprsIds, AlikeExprs pairing.link⟩

def optionalExpr : Produce (Option Expr) :=
  ⟨fun value => exprsIds value.toList,
    fun value value' => AlikeExprs pairing.link value.toList value'.toList⟩

def stmt : Produce Stmt :=
  ⟨stmtIds, AlikeStmt pairing.link⟩

def stmts : Produce (List Stmt) :=
  ⟨stmtsIds, AlikeStmts pairing.link⟩

def optionalStmt : Produce (Option Stmt) :=
  ⟨fun tree => stmtsIds tree.toList,
    fun tree tree' => AlikeStmts pairing.link tree.toList tree'.toList⟩

end Produce

/-- Whatever numbers identities of the first list have, those of the second one have, too. -/
def Covers (ids others : List NodeId) : Prop :=
  ∀ ⦃n m : Nat⦄, Numbered n m ids → Numbered n m others

theorem covers_of_sublist {ids others : List NodeId} (h : others.Sublist ids) :
    Covers ids others := by
  rintro n m ⟨hle, counts, rfl, hnodup, hcounts⟩
  obtain ⟨kept, hkept, rfl⟩ := List.sublist_map_iff.mp h
  exact ⟨hle, kept, rfl, hnodup.sublist hkept, fun k hk => hcounts k (hkept.subset hk)⟩

/-- The same end of a rule in both readings. -/
inductive SameEnd {α : Type} (pairing : Pairing) (produce : Produce α) (start : Nat) :
    EStateM.Result Halt Cursor α → EStateM.Result Halt Cursor α → Prop
  | ok {value value' : α} {after after' : Cursor}
      (ids : Numbered start after.issued (produce.ids value))
      (alike : produce.alike value value') (aligned : Aligned pairing after after') :
      SameEnd pairing produce start (.ok value after) (.ok value' after')
  | error {reason reason' : Halt} {after after' : Cursor} (le : start ≤ after.issued)
      (halt : SameHalt pairing.lines reason reason') (aligned : Aligned pairing after after') :
      SameEnd pairing produce start (.error reason after) (.error reason' after')

/-- Both rules do the same in their readings.  The result has no other identities than those in
`before`, of trees that were read already, and new ones. -/
def Steady {α : Type} (pairing : Pairing) (before : List NodeId) (produce : Produce α)
    (rule rule' : Reader α) : Prop :=
  ∀ start cursor cursor', Numbered start cursor.issued before → Aligned pairing cursor cursor' →
    SameEnd pairing produce start (rule cursor) (rule' cursor')

section Combinators

variable {α β : Type} {pairing : Pairing} {before : List NodeId} {produce : Produce α}
  {other : Produce β} {rule rule' : Reader α} {next next' : α → Reader β} {R : α → α → Prop}

theorem Steady.bind (h : Steady pairing before produce rule rule')
    (hnext : ∀ value value', produce.alike value value' →
      Steady pairing (produce.ids value) other (next value) (next' value')) :
    Steady pairing before other (rule >>= next) (rule' >>= next') := by
  intro start cursor cursor' hbefore haligned
  have hrule := h start cursor cursor' hbefore haligned
  rw [bind_apply, bind_apply]
  generalize rule cursor = result at hrule ⊢
  generalize rule' cursor' = result' at hrule ⊢
  cases hrule with
  | ok hids halike hafter => exact hnext _ _ halike start _ _ hids hafter
  | error hle hhalt hafter => exact .error hle hhalt hafter

/-- What was read before comes along. -/
theorem Steady.frame (h : Steady pairing [] produce rule rule') (before : List NodeId) :
    Steady pairing before ⟨fun value => before ++ produce.ids value, produce.alike⟩ rule rule' := by
  intro start cursor cursor' hbefore haligned
  have hrule := h cursor.issued cursor cursor' (numbered_nil _) haligned
  generalize rule cursor = result at hrule ⊢
  generalize rule' cursor' = result' at hrule ⊢
  cases hrule with
  | ok hids halike hafter => exact .ok (hbefore.append hids) halike hafter
  | error hle hhalt hafter => exact .error (Nat.le_trans hbefore.1 hle) hhalt hafter

/-- A tree is read behind others. -/
theorem Steady.andThen (h : Steady pairing [] produce rule rule')
    (hnext : ∀ value value', produce.alike value value' →
      Steady pairing (before ++ produce.ids value) other (next value) (next' value')) :
    Steady pairing before other (rule >>= next) (rule' >>= next') :=
  (h.frame before).bind hnext

/-- No tree is read, but tokens. -/
theorem Steady.skip (h : Steady pairing [] (.told R) rule rule')
    (hnext : ∀ value value', R value value' →
      Steady pairing before other (next value) (next' value')) :
    Steady pairing before other (rule >>= next) (rule' >>= next') := by
  apply h.andThen
  intro value value' hsame
  rw [show before ++ (Produce.told R).ids value = before from List.append_nil before]
  exact hnext value value' hsame

theorem steady_pure {value value' : α} (halike : produce.alike value value')
    (hcovers : Covers before (produce.ids value)) :
    Steady pairing before produce (pure value) (pure value') :=
  fun _ _ _ hbefore haligned => .ok (hcovers hbefore) halike haligned

theorem steady_done {value value' : α} (h : R value value') :
    Steady pairing before (.told R) (pure value) (pure value') :=
  steady_pure h (covers_of_sublist (List.nil_sublist _))

theorem Steady.map {result : α → β} (h : Steady pairing before produce rule rule')
    (hresult : ∀ value value', produce.alike value value' →
      other.alike (result value) (result value') ∧ other.ids (result value) = produce.ids value) :
    Steady pairing before other (result <$> rule) (result <$> rule') := by
  rw [map_eq_pure_bind, map_eq_pure_bind]
  apply h.bind
  intro value value' halike
  obtain ⟨hother, hids⟩ := hresult value value' halike
  apply steady_pure hother
  rw [hids]
  exact fun _ _ => id

/-! ### Single steps -/

theorem steady_exhausted : Steady pairing before produce exhausted exhausted :=
  fun _ _ _ hbefore haligned => .error hbefore.1 .exhausted haligned

theorem steady_halt (fault : GrammarFault) :
    Steady pairing before produce (halt fault) (halt fault) :=
  fun _ _ _ hbefore haligned => .error hbefore.1 (.fault (haligned.diagnose fault)) haligned

theorem steady_report {diagnostic diagnostic' : Diagnostic}
    (h : SameFault pairing.lines diagnostic diagnostic') :
    Steady pairing [] (.told Eq) (report diagnostic) (report diagnostic') :=
  fun _ _ _ hbefore haligned => .ok hbefore rfl (haligned.report h)

theorem steady_reportHere (fault : GrammarFault) :
    Steady pairing [] (.told Eq) (reportHere fault) (reportHere fault) :=
  fun _ _ _ hbefore haligned => .ok hbefore rfl (haligned.report (haligned.diagnose fault))

theorem steady_looksAt (kind : Kind → Bool) :
    Steady pairing [] (.told Eq) (looksAt kind) (looksAt kind) := by
  rintro start ⟨rest, endLine, issued, faults⟩ ⟨rest', endLine', issued', faults'⟩ hbefore haligned
  unfold looksAt
  dsimp only
  cases haligned.rest with
  | nil => exact .ok hbefore rfl haligned
  | cons htoken _ => exact .ok hbefore (congrArg kind (pairing.link.kind_eq htoken).symm) haligned

theorem steady_atEnd : Steady pairing [] (.told Eq) atEnd atEnd := by
  rintro start ⟨rest, endLine, issued, faults⟩ ⟨rest', endLine', issued', faults'⟩ hbefore haligned
  unfold atEnd
  cases haligned.rest with
  | nil => exact .ok hbefore rfl haligned
  | cons _ _ => exact .ok hbefore rfl haligned

theorem steady_accept? (kind : Kind → Bool) :
    Steady pairing [] (.told (Option.Rel pairing.link.tokens)) (accept? kind) (accept? kind) := by
  rintro start ⟨rest, endLine, issued, faults⟩ ⟨rest', endLine', issued', faults'⟩ hbefore haligned
  unfold accept?
  dsimp only
  cases haligned.rest with
  | nil => exact .ok hbefore .none haligned
  | cons htoken hrest =>
      dsimp only
      rw [pairing.link.kind_eq htoken]
      split
      · exact .ok hbefore (.some htoken) ⟨hrest, haligned.endLine, haligned.issued, haligned.faults⟩
      · exact .ok hbefore .none haligned

theorem steady_expect (kind : Kind → Bool) (fault : GrammarFault) :
    Steady pairing [] (.told pairing.link.tokens) (expect kind fault) (expect kind fault) := by
  apply (steady_accept? kind).skip
  intro _ _ hfound
  cases hfound with
  | none => exact steady_halt fault
  | some htoken => exact steady_done htoken

theorem steady_freshId : Steady pairing [] (.fresh pairing) freshId freshId := by
  intro start cursor cursor' hbefore haligned
  have hids := hbefore.append (numbered_one cursor.issued)
  have halike : pairing.link.ids (.ofCount cursor.issued) (.ofCount cursor'.issued) :=
    haligned.issued ▸ pairing.ids_ofCount cursor.issued
  have hissued : cursor'.issued + 1 = cursor.issued + 1 + pairing.later := by
    rw [haligned.issued, Nat.add_right_comm]
  exact .ok hids halike ⟨haligned.rest, haligned.endLine, hissued, haligned.faults⟩

theorem Steady.recover {rule rule' : Reader Stmt}
    (h : Steady pairing [] (.stmt pairing) rule rule') :
    Steady pairing [] (.optionalStmt pairing) (recover rule) (recover rule') := by
  intro start cursor cursor' hbefore haligned
  have hrule := h start cursor cursor' hbefore haligned
  unfold Reader.recover
  generalize rule cursor = result at hrule ⊢
  generalize rule' cursor' = result' at hrule ⊢
  cases hrule with
  | @ok value value' _ _ hids halike hafter =>
      have hone : stmtsIds [value] = stmtIds value := List.append_nil _
      exact .ok (show Numbered _ _ (stmtsIds [value]) from hone ▸ hids) (.cons halike .nil) hafter
  | error hle hhalt hafter =>
      cases hhalt with
      | fault hsame =>
          obtain ⟨hrest, hendLine, hissued, hfaults⟩ := hafter.report hsame
          exact .ok ((numbered_nil _).of_le hle) .nil
            ⟨forall₂_resume hrest, hendLine, hissued, hfaults⟩
      | exhausted => exact .error hle .exhausted hafter

end Combinators

end Incremental

end Scriptlet
