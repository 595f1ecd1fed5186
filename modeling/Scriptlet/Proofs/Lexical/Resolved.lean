/-
A resolved program fits its side table.

The entries that a part of a tree contributes are for identities of that part, so
the table of the whole program says about them what the part says.
-/
import Scriptlet.Proofs.Lexical.Fits

namespace Scriptlet.Lexical

open Binding Grammar

/-! ### Findings -/

theorem entries_append (a b : Findings) : (a ++ b).entries = a.entries ++ b.entries := rfl

theorem faults_append (a b : Findings) : (a ++ b).faults = a.faults ++ b.faults := rfl

def Findings.ids (found : Findings) : List NodeId :=
  found.entries.map Prod.fst

theorem ids_append (a b : Findings) :
    Findings.ids (a ++ b) = Findings.ids a ++ Findings.ids b :=
  List.map_append ..

theorem ids_append_sublist {a b : Findings} {ids others : List NodeId}
    (ha : List.Sublist (Findings.ids a) ids) (hb : List.Sublist (Findings.ids b) others) :
    List.Sublist (Findings.ids (a ++ b)) (ids ++ others) := by
  rw [ids_append]
  exact ha.append hb

theorem ids_fault_if (condition : Prop) [Decidable condition] (token : Token)
    (fault : BindingFault) :
    Findings.ids (if condition then .fault token fault else .empty) = [] := by
  split <;> rfl

theorem ids_redeclaration (scopes : Scopes) (name : Token) :
    Findings.ids (redeclaration scopes name) = [] :=
  ids_fault_if ..

theorem ids_occurrence (scopes : Scopes) (id : NodeId) (name : Token) :
    List.Sublist (Findings.ids (occurrence scopes id name)) [id] := by
  unfold occurrence
  split
  · exact List.Sublist.refl _
  · exact List.nil_sublist _

mutual

theorem ids_inExpr (scopes : Scopes) (pending : Option String) (expr : Expr) :
    List.Sublist (Findings.ids (inExpr scopes pending expr)) (exprIds expr) := by
  cases expr with
  | constant _ => exact List.nil_sublist _
  | group inner => exact ids_inExpr scopes pending inner
  | unary _ operand => exact ids_inExpr scopes pending operand
  | binary left _ right | logical left _ right =>
      exact ids_append_sublist (ids_inExpr scopes pending left)
        (ids_inExpr scopes pending right)
  | «variable» id name =>
      rw [inExpr, ids_append, ids_fault_if, List.nil_append]
      exact ids_occurrence scopes id name
  | assign id name value =>
      exact ids_append_sublist (ids_inExpr scopes pending value)
        (ids_occurrence scopes id name)
  | call callee _ arguments =>
      exact ids_append_sublist (ids_inExpr scopes pending callee)
        (ids_inExprs scopes pending arguments)

theorem ids_inExprs (scopes : Scopes) (pending : Option String) (exprs : List Expr) :
    List.Sublist (Findings.ids (inExprs scopes pending exprs)) (exprsIds exprs) := by
  cases exprs with
  | nil => exact List.nil_sublist _
  | cons first rest =>
      exact ids_append_sublist (ids_inExpr scopes pending first)
        (ids_inExprs scopes pending rest)

end

theorem declaredHere_of_redeclaration {scopes : Scopes} {name : Token}
    (h : (redeclaration scopes name).faults = []) : declaredHere scopes name.lexeme = false := by
  unfold redeclaration at h
  split at h
  · cases h
  · next hnot => exact Bool.not_eq_true _ ▸ hnot

theorem ids_inParams (scopes : Scopes) (params : List Token) :
    Findings.ids (inParams scopes params).1 = [] := by
  induction params generalizing scopes with
  | nil => rfl
  | cons param rest ih => rw [inParams, ids_append, ids_redeclaration, ih]; rfl

/-- Parameters that are declared without fault are new, and different from each
other. -/
theorem inParams_scopes {names : List String} {outer : Scopes} {params : List Token}
    (h : (inParams (names :: outer) params).1.faults = []) :
    (params.map Token.lexeme).Nodup ∧ (∀ name ∈ params.map Token.lexeme, name ∉ names) ∧
      (inParams (names :: outer) params).2 =
        ((params.map Token.lexeme).reverse ++ names) :: outer := by
  induction params generalizing names with
  | nil => exact ⟨List.nodup_nil, fun _ hname => (by cases hname), rfl⟩
  | cons param rest ih =>
      rw [inParams, faults_append, List.append_eq_nil_iff] at h
      obtain ⟨hparam, hrest⟩ := h
      have hnew : names.contains param.lexeme = false := declaredHere_of_redeclaration hparam
      have hdeclare : declare (names :: outer) param.lexeme = (param.lexeme :: names) :: outer := by
        rw [declare, if_neg (Bool.eq_false_iff.mp hnew)]
      rw [hdeclare] at hrest
      obtain ⟨hnodup, hdisjoint, hscopes⟩ := ih hrest
      refine ⟨?_, ?_, ?_⟩
      · rw [List.map_cons, List.nodup_cons]
        exact ⟨fun hmem => hdisjoint _ hmem List.mem_cons_self, hnodup⟩
      · intro name hname
        rcases List.mem_cons.mp hname with rfl | hname
        · simpa using hnew
        · exact fun hmem => hdisjoint name hname (List.mem_cons_of_mem _ hmem)
      · rw [inParams, hdeclare]
        simp only [hscopes, List.map_cons, List.reverse_cons, List.append_assoc,
          List.singleton_append]

/-- The scopes that the walk gives are those behind the statement. -/
theorem inStmt_scopes {inFunction : Bool} {scopes : Scopes} {stmt : Stmt} (h : FormedStmt stmt) :
    (inStmt inFunction scopes stmt).2 = after scopes stmt := by
  match stmt, h with
  | .expression _, _ | .print _, _ | .declare _ none, _ | .declare _ (some _), _
  | .block _, _ | .function _ _ _, _ | .leave _ none, _ | .leave _ (some _), _ => rfl
  | .branch _ whenTrue none, h =>
      have htrue : (inStmt inFunction scopes whenTrue).2 = _ := inStmt_scopes h.2.2
      rw [after_of_none h.2.1] at htrue
      exact htrue
  | .branch _ whenTrue (some whenFalse), h =>
      have htrue : (inStmt inFunction scopes whenTrue).2 = _ := inStmt_scopes h.2.1.2
      have hfalse : (inStmt inFunction scopes whenFalse).2 = _ := inStmt_scopes h.2.2.2
      rw [after_of_none h.2.1.1] at htrue
      rw [after_of_none h.2.2.1] at hfalse
      show (inStmt inFunction (inStmt inFunction scopes whenTrue).2 whenFalse).2 = scopes
      rw [htrue, hfalse]
  | .loop _ body, h =>
      have hbody : (inStmt inFunction scopes body).2 = _ := inStmt_scopes h.2.2
      rw [after_of_none h.2.1] at hbody
      exact hbody

theorem ids_returnFault (inFunction : Bool) (keyword : Token) :
    Findings.ids (if inFunction then .empty else .fault keyword .returnOutsideFunction) = [] := by
  cases inFunction <;> rfl

mutual

theorem ids_inStmt (inFunction : Bool) (scopes : Scopes) (stmt : Stmt) :
    List.Sublist (Findings.ids (inStmt inFunction scopes stmt).1) (stmtIds stmt) := by
  match stmt with
  | .expression value => exact ids_inExpr scopes none value
  | .print value => exact ids_inExpr scopes none value
  | .declare name none => exact (ids_redeclaration scopes name).symm ▸ List.nil_sublist _
  | .declare name (some initial) =>
      rw [inStmt, ids_append, ids_redeclaration]
      exact ids_inExpr _ _ initial
  | .block body => exact ids_inStmts inFunction ([] :: scopes) body
  | .branch condition whenTrue none =>
      exact ids_append_sublist (ids_inExpr scopes none condition)
        (ids_inStmt inFunction scopes whenTrue)
  | .branch condition whenTrue (some whenFalse) =>
      exact ids_append_sublist (ids_append_sublist (ids_inExpr scopes none condition)
        (ids_inStmt inFunction scopes whenTrue)) (ids_inStmt inFunction _ whenFalse)
  | .loop condition body =>
      exact ids_append_sublist (ids_inExpr scopes none condition)
        (ids_inStmt inFunction scopes body)
  | .function name params body =>
      rw [inStmt, ids_append, ids_append, ids_redeclaration, ids_inParams]
      exact ids_inStmts true _ body
  | .leave keyword none =>
      rw [inStmt, ids_returnFault]
      exact List.nil_sublist _
  | .leave keyword (some value) =>
      rw [inStmt, ids_append, ids_returnFault]
      exact ids_inExpr scopes none value

theorem ids_inStmts (inFunction : Bool) (scopes : Scopes) (stmts : List Stmt) :
    List.Sublist (Findings.ids (inStmts inFunction scopes stmts).1) (stmtsIds stmts) := by
  match stmts with
  | [] => exact List.nil_sublist _
  | first :: rest =>
      exact ids_append_sublist (ids_inStmt inFunction scopes first)
        (ids_inStmts inFunction _ rest)

end

/-! ### From findings to a table that fits -/

/-- About these identities the table says what the findings say. -/
structure Settles (known : Known) (ids : List NodeId) (found : Findings) : Prop where
  lookup : ∀ id ∈ ids, known.table.distance? id = found.entries.lookup id
  nodup : ids.Nodup
  issued : ∀ id ∈ ids, ∃ k < known.issued, id = .ofCount k

section Settles

variable {known : Known} {ids others : List NodeId} {a b found : Findings}

theorem lookup_of_not_mem_ids {id : NodeId} (h : id ∉ Findings.ids found) :
    found.entries.lookup id = none := by
  rw [List.lookup_eq_none_iff]
  intro entry hentry
  rw [bne_iff_ne]
  exact fun heq => h (List.mem_map.mpr ⟨entry, hentry, heq.symm⟩)

/-- No part speaks about the identities of another. -/
theorem Settles.split (h : Settles known (ids ++ others) (a ++ b))
    (ha : List.Sublist (Findings.ids a) ids) (hb : List.Sublist (Findings.ids b) others) :
    Settles known ids a ∧ Settles known others b := by
  obtain ⟨hnodup, hnodupOthers, hdisjoint⟩ := List.nodup_append.mp h.nodup
  refine ⟨⟨?_, hnodup, ?_⟩, ⟨?_, hnodupOthers, ?_⟩⟩
  · intro id hid
    have hnot : id ∉ Findings.ids b := fun hmem => hdisjoint id hid id (hb.subset hmem) rfl
    rw [h.lookup id (List.mem_append_left _ hid), entries_append, List.lookup_append,
      lookup_of_not_mem_ids hnot, Option.or_none]
  · exact fun id hid => h.issued id (List.mem_append_left _ hid)
  · intro id hid
    have hnot : id ∉ Findings.ids a := fun hmem => hdisjoint id (ha.subset hmem) id hid rfl
    rw [h.lookup id (List.mem_append_right _ hid), entries_append, List.lookup_append,
      lookup_of_not_mem_ids hnot, Option.none_or]
  · exact fun id hid => h.issued id (List.mem_append_right _ hid)

/-- What contributes no entries can be left out. -/
theorem Settles.drop (h : Settles known ids (a ++ b)) (ha : Findings.ids a = []) :
    Settles known ids b := by
  have hentries : a.entries = [] := List.map_eq_nil_iff.mp ha
  refine ⟨fun id hid => ?_, h.nodup, h.issued⟩
  rw [h.lookup id hid, entries_append, hentries, List.nil_append]

theorem Settles.places {scopes : Scopes} {id : NodeId} {name : Token}
    (h : Settles known [id] (occurrence scopes id name)) : known.Places scopes id name := by
  refine ⟨h.issued id (List.mem_singleton_self id), ?_⟩
  rw [h.lookup id (List.mem_singleton_self id), occurrence]
  split
  · next distance hdistance => simp [hdistance]
  · next hnone => rw [hnone]; rfl

mutual

theorem fitsExpr_of_settles {scopes : Scopes} {pending : Option String} {expr : Expr}
    (hformed : FormedExpr expr) (hfaults : (inExpr scopes pending expr).faults = [])
    (h : Settles known (exprIds expr) (inExpr scopes pending expr)) :
    FitsExpr known scopes pending expr := by
  cases expr with
  | constant _ => trivial
  | group inner =>
      have hinner : FitsExpr known scopes pending inner := fitsExpr_of_settles hformed hfaults h
      exact hinner
  | unary _ operand =>
      exact ⟨hformed.1, fitsExpr_of_settles hformed.2 hfaults h⟩
  | binary left _ right =>
      obtain ⟨hleft, hright⟩ := List.append_eq_nil_iff.mp hfaults
      obtain ⟨hl, hr⟩ := h.split (ids_inExpr ..) (ids_inExpr ..)
      exact ⟨hformed.1, fitsExpr_of_settles hformed.2.1 hleft hl,
        fitsExpr_of_settles hformed.2.2 hright hr⟩
  | logical left _ right =>
      obtain ⟨hleft, hright⟩ := List.append_eq_nil_iff.mp hfaults
      obtain ⟨hl, hr⟩ := h.split (ids_inExpr ..) (ids_inExpr ..)
      exact ⟨fitsExpr_of_settles hformed.1 hleft hl, fitsExpr_of_settles hformed.2 hright hr⟩
  | «variable» id name =>
      obtain ⟨hread, -⟩ := List.append_eq_nil_iff.mp hfaults
      refine ⟨fun hpending => ?_, (h.drop (ids_fault_if ..)).places⟩
      rw [if_pos hpending] at hread
      cases hread
  | assign id name value =>
      obtain ⟨hvalue, -⟩ := List.append_eq_nil_iff.mp hfaults
      obtain ⟨hv, hname⟩ := h.split (ids_inExpr ..) (ids_occurrence ..)
      exact ⟨fitsExpr_of_settles hformed hvalue hv, hname.places⟩
  | call callee _ arguments =>
      obtain ⟨hcallee, harguments⟩ := List.append_eq_nil_iff.mp hfaults
      obtain ⟨hc, ha⟩ := h.split (ids_inExpr ..) (ids_inExprs ..)
      exact ⟨fitsExpr_of_settles hformed.1 hcallee hc, fitsExprs_of_settles hformed.2 harguments ha⟩

theorem fitsExprs_of_settles {scopes : Scopes} {pending : Option String} {exprs : List Expr}
    (hformed : FormedExprs exprs) (hfaults : (inExprs scopes pending exprs).faults = [])
    (h : Settles known (exprsIds exprs) (inExprs scopes pending exprs)) :
    FitsExprs known scopes pending exprs := by
  cases exprs with
  | nil => trivial
  | cons first rest =>
      obtain ⟨hfirst, hrest⟩ := List.append_eq_nil_iff.mp hfaults
      obtain ⟨hf, hr⟩ := h.split (ids_inExpr ..) (ids_inExprs ..)
      exact ⟨fitsExpr_of_settles hformed.1 hfirst hf, fitsExprs_of_settles hformed.2 hrest hr⟩

end

mutual

theorem fitsStmt_of_settles {inFunction : Bool} {scopes : Scopes} {stmt : Stmt}
    (hformed : FormedStmt stmt) (hfaults : (inStmt inFunction scopes stmt).1.faults = [])
    (h : Settles known (stmtIds stmt) (inStmt inFunction scopes stmt).1) :
    FitsStmt known scopes stmt := by
  match stmt, hformed, hfaults, h with
  | .expression _, hformed, hfaults, h => exact fitsExpr_of_settles hformed hfaults h
  | .print _, hformed, hfaults, h => exact fitsExpr_of_settles hformed hfaults h
  | .declare _ none, _, hfaults, _ => exact declaredHere_of_redeclaration hfaults
  | .declare _ (some initial), hformed, hfaults, h =>
      obtain ⟨hname, hinitial⟩ := List.append_eq_nil_iff.mp hfaults
      exact ⟨declaredHere_of_redeclaration hname,
        fitsExpr_of_settles hformed hinitial (h.drop (ids_redeclaration ..))⟩
  | .block _, hformed, hfaults, h =>
      have hbody : FitsStmts known ([] :: scopes) _ := fitsStmts_of_settles hformed hfaults h
      exact hbody
  | .branch _ whenTrue none, hformed, hfaults, h =>
      obtain ⟨hcondition, htrue⟩ := List.append_eq_nil_iff.mp hfaults
      obtain ⟨hc, ht⟩ := h.split (ids_inExpr ..) (ids_inStmt ..)
      exact ⟨fitsExpr_of_settles hformed.1 hcondition hc, hformed.2.1,
        fitsStmt_of_settles hformed.2.2 htrue ht⟩
  | .branch _ whenTrue (some whenFalse), hformed, hfaults, h =>
      have hbetween : (inStmt inFunction scopes whenTrue).2 = scopes :=
        (inStmt_scopes hformed.2.1.2).trans (after_of_none hformed.2.1.1)
      obtain ⟨hboth, hfalse⟩ := List.append_eq_nil_iff.mp hfaults
      obtain ⟨hcondition, htrue⟩ := List.append_eq_nil_iff.mp hboth
      obtain ⟨hb, hf⟩ := h.split
        (ids_append_sublist (ids_inExpr ..) (ids_inStmt ..)) (ids_inStmt ..)
      obtain ⟨hc, ht⟩ := hb.split (ids_inExpr ..) (ids_inStmt ..)
      rw [hbetween] at hfalse hf
      exact ⟨fitsExpr_of_settles hformed.1 hcondition hc,
        ⟨hformed.2.1.1, fitsStmt_of_settles hformed.2.1.2 htrue ht⟩,
        hformed.2.2.1, fitsStmt_of_settles hformed.2.2.2 hfalse hf⟩
  | .loop _ body, hformed, hfaults, h =>
      obtain ⟨hcondition, hbody⟩ := List.append_eq_nil_iff.mp hfaults
      obtain ⟨hc, hb⟩ := h.split (ids_inExpr ..) (ids_inStmt ..)
      exact ⟨fitsExpr_of_settles hformed.1 hcondition hc, hformed.2.1,
        fitsStmt_of_settles hformed.2.2 hbody hb⟩
  | .function name params body, hformed, hfaults, h =>
      obtain ⟨hheads, hbody⟩ := List.append_eq_nil_iff.mp hfaults
      obtain ⟨hname, hparams⟩ := List.append_eq_nil_iff.mp hheads
      obtain ⟨hnodup, -, hscopes⟩ := inParams_scopes hparams
      have hsettled := h.drop (by rw [ids_append, ids_redeclaration, ids_inParams]; rfl)
      have hfits := fitsStmts_of_settles hformed hbody hsettled
      rw [hscopes, List.append_nil] at hfits
      exact ⟨declaredHere_of_redeclaration hname, hnodup, hfits⟩
  | .leave _ none, _, _, _ => trivial
  | .leave _ (some value), hformed, hfaults, h =>
      obtain ⟨-, hvalue⟩ := List.append_eq_nil_iff.mp hfaults
      exact fitsExpr_of_settles hformed hvalue (h.drop (ids_returnFault ..))

theorem fitsStmts_of_settles {inFunction : Bool} {scopes : Scopes} {stmts : List Stmt}
    (hformed : FormedStmts stmts) (hfaults : (inStmts inFunction scopes stmts).1.faults = [])
    (h : Settles known (stmtsIds stmts) (inStmts inFunction scopes stmts).1) :
    FitsStmts known scopes stmts := by
  match stmts, hformed, hfaults, h with
  | [], _, _, _ => trivial
  | first :: rest, hformed, hfaults, h =>
      obtain ⟨hfirst, hrest⟩ := List.append_eq_nil_iff.mp hfaults
      obtain ⟨hf, hr⟩ := h.split (ids_inStmt ..) (ids_inStmts ..)
      rw [inStmt_scopes hformed.1] at hrest hr
      exact ⟨fitsStmt_of_settles hformed.1 hfirst hf, fitsStmts_of_settles hformed.2 hrest hr⟩

end

end Settles

/-! ### Programs -/

theorem lookup_reverse {entries : List (NodeId × Nat)} (h : (entries.map Prod.fst).Nodup)
    (id : NodeId) : entries.reverse.lookup id = entries.lookup id := by
  induction entries with
  | nil => rfl
  | cons entry rest ih =>
      obtain ⟨key, distance⟩ := entry
      rw [List.map_cons, List.nodup_cons] at h
      rw [List.reverse_cons, List.lookup_append, ih h.2]
      by_cases hkey : id = key
      · subst hkey
        have hnone : rest.lookup id = none :=
          lookup_of_not_mem_ids (fun hmem => h.1 hmem : id ∉ Findings.ids ⟨rest, []⟩)
        simp [hnone]
      · simp [List.lookup_cons, beq_false_of_ne hkey]

variable {table added : Table} {program : List Stmt} {n m : Nat}

theorem resolve_eq_ok_iff :
    resolve program = .ok added ↔
      (findings program).faults = [] ∧ added = .ofList (findings program).entries := by
  unfold resolve
  dsimp only
  cases hfaults : (findings program).faults with
  | nil =>
      rw [List.isEmpty_nil, if_pos rfl, Except.ok.injEq]
      exact ⟨fun h => ⟨rfl, h.symm⟩, fun h => h.2.symm⟩
  | cons first rest => simp

/-- The table of a program says nothing about identities that were handed out before or
after those in it. -/
theorem distance?_of_unused (hresolve : resolve program = .ok added)
    (hnumbered : Numbered n m (stmtsIds program)) (hm : m ≤ UInt32.size) {k : Nat}
    (hk : k < UInt32.size) (hout : k < n ∨ m ≤ k) : added.distance? (.ofCount k) = none := by
  obtain ⟨-, rfl⟩ := resolve_eq_ok_iff.mp hresolve
  rw [Table.ofList, Table.distance?_enter, Table.distance?_empty, Option.or_none,
    List.lookup_eq_none_iff]
  intro entry hentry
  rw [bne_iff_ne]
  intro hid
  have hmem : entry.1 ∈ stmtsIds program :=
    (ids_inStmts false [] program).subset (List.mem_map_of_mem (List.mem_reverse.mp hentry))
  obtain ⟨l, hnl, hlm, heq⟩ := hnumbered.exists_count hmem
  have hsame := ofCount_injective hk (Nat.lt_of_lt_of_le hlm hm) (hid.trans heq)
  omega

/-- The entries for a part of a tree that was read last settle what the table of all trees so far
says about that part.  It says what it said before about older identities and nothing yet about
newer ones. -/
theorem settles_of_entries {found : Findings} {ids : List NodeId}
    (hids : List.Sublist (Findings.ids found) ids) (hnumbered : Numbered n m ids)
    (hm : m ≤ UInt32.size)
    (hfresh : ∀ k, n ≤ k → k < UInt32.size → table.distance? (.ofCount k) = none) :
    Settles ⟨table.merge (.ofList found.entries), m⟩ ids found ∧
      Known.Extends ⟨table, n⟩ ⟨table.merge (.ofList found.entries), m⟩ ∧
      ∀ k, m ≤ k → k < UInt32.size →
        (table.merge (.ofList found.entries)).distance? (.ofCount k) = none := by
  have hlookup : ∀ id, (table.merge (.ofList found.entries)).distance? id =
      (found.entries.lookup id).or (table.distance? id) := by
    intro id
    have hnodup : (Findings.ids found).Nodup := (hnumbered.nodup hm).sublist hids
    rw [Table.distance?_merge, Table.ofList, Table.distance?_enter, lookup_reverse hnodup,
      Table.distance?_empty, Option.or_none]
  have hother : ∀ k, k < UInt32.size → (k < n ∨ m ≤ k) →
      (table.merge (.ofList found.entries)).distance? (.ofCount k) =
        table.distance? (.ofCount k) := by
    intro k hk hout
    have hnot : NodeId.ofCount k ∉ Findings.ids found := by
      intro hmem
      obtain ⟨l, hnl, hlm, heq⟩ := hnumbered.exists_count (hids.subset hmem)
      have hsame := ofCount_injective hk (Nat.lt_of_lt_of_le hlm hm) heq
      omega
    rw [hlookup, lookup_of_not_mem_ids hnot, Option.none_or]
  refine ⟨⟨?_, hnumbered.nodup hm, ?_⟩, ⟨hnumbered.1, ?_⟩, ?_⟩
  · intro id hid
    obtain ⟨k, hnk, hkm, rfl⟩ := hnumbered.exists_count hid
    show Table.distance? _ _ = _
    rw [hlookup, hfresh k hnk (Nat.lt_of_lt_of_le hkm hm), Option.or_none]
  · intro id hid
    obtain ⟨k, -, hkm, rfl⟩ := hnumbered.exists_count hid
    exact ⟨k, hkm, rfl⟩
  · exact fun k hk => hother k (Nat.lt_of_lt_of_le hk (Nat.le_trans hnumbered.1 hm)) (Or.inl hk)
  · intro k hmk hk
    rw [hother k hk (Or.inr hmk), hfresh k (Nat.le_trans hnumbered.1 hmk) hk]

/-- A resolved program fits the table that is built from all programs so far. -/
theorem fits_of_resolve (hresolve : resolve program = .ok added)
    (hformed : FormedStmts program) (hnumbered : Numbered n m (stmtsIds program))
    (hm : m ≤ UInt32.size)
    (hfresh : ∀ k, n ≤ k → k < UInt32.size → table.distance? (.ofCount k) = none) :
    FitsStmts ⟨table.merge added, m⟩ [] program ∧
      Known.Extends ⟨table, n⟩ ⟨table.merge added, m⟩ ∧
      ∀ k, m ≤ k → k < UInt32.size → (table.merge added).distance? (.ofCount k) = none := by
  obtain ⟨hfaults, rfl⟩ := resolve_eq_ok_iff.mp hresolve
  obtain ⟨hsettles, hextends⟩ :=
    settles_of_entries (ids_inStmts false [] program) hnumbered hm hfresh
  exact ⟨fitsStmts_of_settles hformed hfaults hsettles, hextends⟩

/-! ### Lone expressions -/

section Lone

variable {known : Known}

mutual

/-- Outside all scopes every name is global, so nothing must be listed. -/
theorem fitsExpr_of_unlisted {expr : Expr} (hformed : FormedExpr expr)
    (h : ∀ id ∈ exprIds expr,
      (∃ k < known.issued, id = .ofCount k) ∧ known.table.distance? id = none) :
    FitsExpr known [] none expr := by
  cases expr with
  | constant _ => trivial
  | group inner =>
      have hinner : FitsExpr known [] none inner := fitsExpr_of_unlisted hformed h
      exact hinner
  | unary operator operand => exact ⟨hformed.1, fitsExpr_of_unlisted hformed.2 h⟩
  | binary left operator right =>
      exact ⟨hformed.1,
        fitsExpr_of_unlisted hformed.2.1 fun id hid => h id (List.mem_append_left _ hid),
        fitsExpr_of_unlisted hformed.2.2 fun id hid => h id (List.mem_append_right _ hid)⟩
  | logical left operator right =>
      exact ⟨fitsExpr_of_unlisted hformed.1 fun id hid => h id (List.mem_append_left _ hid),
        fitsExpr_of_unlisted hformed.2 fun id hid => h id (List.mem_append_right _ hid)⟩
  | «variable» id name => exact ⟨nofun, h id List.mem_cons_self⟩
  | assign id name value =>
      exact ⟨fitsExpr_of_unlisted hformed
          fun other hother => h other (List.mem_append_left _ hother),
        h id (List.mem_append_right _ List.mem_cons_self)⟩
  | call callee paren arguments =>
      exact ⟨fitsExpr_of_unlisted hformed.1 fun id hid => h id (List.mem_append_left _ hid),
        fitsExprs_of_unlisted hformed.2 fun id hid => h id (List.mem_append_right _ hid)⟩

theorem fitsExprs_of_unlisted {exprs : List Expr} (hformed : FormedExprs exprs)
    (h : ∀ id ∈ exprsIds exprs,
      (∃ k < known.issued, id = .ofCount k) ∧ known.table.distance? id = none) :
    FitsExprs known [] none exprs := by
  cases exprs with
  | nil => trivial
  | cons first rest =>
      exact ⟨fitsExpr_of_unlisted hformed.1 fun id hid => h id (List.mem_append_left _ hid),
        fitsExprs_of_unlisted hformed.2 fun id hid => h id (List.mem_append_right _ hid)⟩

end

end Lone

end Scriptlet.Lexical
