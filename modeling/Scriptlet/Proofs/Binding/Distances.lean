/-
What the side table of a program says: for an occurrence, how many scopes out the innermost one is
that has declared its name before.
-/
import Scriptlet.Proofs.Binding.Walked

namespace Scriptlet.Binding

/-- The identity of a variable that is read or assigned here. -/
def Site.id? (site : Site) : Option NodeId :=
  site.item.occurrence?.map Prod.fst

section Entries

variable {before list : List Site} {site : Site} {id : NodeId} {name : Token} {distance : Nat}

theorem listed?_eq_some_iff :
    site.listed? before = some (id, distance) ↔ ∃ name, site.item.occurrence? = some (id, name) ∧
      (site.scopes.findIdx? fun scope => Declared before scope name.lexeme) = some distance := by
  unfold Site.listed?
  rw [Option.bind_eq_some_iff]
  constructor
  · rintro ⟨⟨id', name⟩, hoccurrence, hlisted⟩
    obtain ⟨distance', hdistance, hsame⟩ := Option.map_eq_some_iff.mp hlisted
    cases hsame
    exact ⟨name, hoccurrence, hdistance⟩
  · rintro ⟨name, hoccurrence, hdistance⟩
    exact ⟨(id, name), hoccurrence, Option.map_eq_some_iff.mpr ⟨distance, hdistance, rfl⟩⟩

theorem id?_eq_some_iff : site.id? = some id ↔ ∃ name, site.item.occurrence? = some (id, name) := by
  unfold Site.id?
  simp

theorem id?_of_listed? {entry : NodeId × Nat} (h : site.listed? before = some entry) :
    site.id? = some entry.1 := by
  obtain ⟨name, hoccurrence, -⟩ := listed?_eq_some_iff.mp h
  exact id?_eq_some_iff.mpr ⟨name, hoccurrence⟩

/-- Each occurrence has one entry or none. -/
theorem ids_gather_sublist (before list : List Site) :
    List.Sublist ((gather Site.listed? before list).map Prod.fst) (list.filterMap Site.id?) := by
  induction list generalizing before with
  | nil => exact .slnil
  | cons site rest ih =>
      rw [gather, List.map_append]
      cases hlisted : site.listed? before with
      | some entry =>
          rw [List.filterMap_cons_some (id?_of_listed? hlisted)]
          exact (ih _).cons_cons _
      | none =>
          refine (ih _).trans ?_
          rw [List.filterMap_cons]
          split
          · exact .refl _
          · exact List.sublist_cons_self _ _

/-- An identity stands at one site only. -/
theorem index_eq_of_nodup (hids : (list.filterMap Site.id?).Nodup) {i j : Nat} {other : Site}
    (hsite : list[i]? = some site) (hother : list[j]? = some other) (hid : site.id? = some id)
    (hid' : other.id? = some id) : i = j := by
  have hpairs := List.pairwise_iff_getElem.mp (List.pairwise_filterMap.mp hids)
  obtain ⟨hi, rfl⟩ := List.getElem?_eq_some_iff.mp hsite
  obtain ⟨hj, rfl⟩ := List.getElem?_eq_some_iff.mp hother
  rcases Nat.lt_trichotomy i j with hlt | heq | hgt
  · exact absurd rfl (hpairs i j hi hj hlt id hid id hid')
  · exact heq
  · exact absurd rfl (hpairs j i hj hi hgt id hid' id hid)

theorem lookup_eq_some_iff_mem {entries : List (NodeId × Nat)} (h : (entries.map Prod.fst).Nodup) :
    entries.lookup id = some distance ↔ (id, distance) ∈ entries := by
  rw [List.lookup_eq_some_iff]
  constructor
  · rintro ⟨first, rest, rfl, -⟩
    exact List.mem_append_right _ List.mem_cons_self
  · intro hmem
    obtain ⟨first, rest, rfl⟩ := List.append_of_mem hmem
    refine ⟨first, rest, rfl, fun entry hlisted => ?_⟩
    rw [List.map_append, List.nodup_append] at h
    rw [bne_iff_ne]
    exact (h.2.2 entry.1 (List.mem_map_of_mem hlisted) id List.mem_cons_self).symm

/-- The distance is that of the innermost scope that declares the name. -/
theorem findIdx?_declared_iff {scopes : List Scope} {name : String} :
    (scopes.findIdx? fun scope => Declared before scope name) = some distance ↔
      (∃ scope ∈ scopes[distance]?, Declared before scope name) ∧
        ∀ scope ∈ scopes.take distance, ¬ Declared before scope name := by
  rw [List.findIdx?_eq_some_iff_getElem]
  simp only [decide_eq_true_eq]
  constructor
  · rintro ⟨hlt, hdeclared, hnearer⟩
    refine ⟨⟨_, List.getElem?_eq_getElem hlt, hdeclared⟩, fun scope hscope => ?_⟩
    obtain ⟨nearer, hnear, rfl⟩ := List.mem_take_iff_getElem.mp hscope
    exact hnearer nearer (Nat.lt_min.mp hnear).1
  · rintro ⟨⟨scope, hscope, hdeclared⟩, hnearer⟩
    obtain ⟨hlt, rfl⟩ := List.getElem?_eq_some_iff.mp hscope
    refine ⟨hlt, hdeclared, fun nearer hnear => hnearer _ ?_⟩
    exact List.mem_take_iff_getElem.mpr
      ⟨nearer, Nat.lt_min.mpr ⟨hnear, Nat.lt_trans hnear hlt⟩, rfl⟩

theorem exists_findIdx?_iff {scopes : List Scope} {name : String} :
    (∃ distance, (scopes.findIdx? fun scope => Declared before scope name) = some distance) ↔
      ∃ scope ∈ scopes, Declared before scope name := by
  rw [← Option.isSome_iff_exists, List.findIdx?_isSome, List.any_eq_true]
  simp only [decide_eq_true_eq]

end Entries

section Tables

variable {program : List Stmt} {table : Table}

/-- The table has the entries that the sites of the program are told. -/
theorem distance?_of_resolve (hresolve : resolve program = .ok table)
    (hids : ((sites program).filterMap Site.id?).Nodup) (id : NodeId) (distance : Nat) :
    table.distance? id = some distance ↔
      ∃ i site, (sites program)[i]? = some site ∧
        Site.listed? ((sites program).take i) site = some (id, distance) := by
  have hentries : (findings program).entries.Perm (gather Site.listed? [] (sites program)) :=
    (follows_findings program).entries
  obtain ⟨-, rfl⟩ := Lexical.resolve_eq_ok_iff.mp hresolve
  have hnodup : ((findings program).entries.map Prod.fst).Nodup :=
    (hentries.map Prod.fst).nodup_iff.mpr ((ids_gather_sublist _ _).nodup hids)
  rw [Table.ofList, Table.distance?_enter, Table.distance?_empty, Option.or_none,
    Lexical.lookup_reverse hnodup, lookup_eq_some_iff_mem hnodup, hentries.mem_iff, mem_gather_iff]
  rfl

/-- What the table says of an occurrence is what its own site is told. -/
theorem distance?_of_occurrence (hresolve : resolve program = .ok table)
    (hids : ((sites program).filterMap Site.id?).Nodup) {i : Nat} {site : Site} {id : NodeId}
    {name : Token} (hsite : (sites program)[i]? = some site)
    (hoccurrence : site.item.occurrence? = some (id, name)) (distance : Nat) :
    table.distance? id = some distance ↔ (site.scopes.findIdx? fun scope =>
      Declared ((sites program).take i) scope name.lexeme) = some distance := by
  rw [distance?_of_resolve hresolve hids]
  constructor
  · rintro ⟨j, other, hother, htold⟩
    have hid : site.id? = some id := id?_eq_some_iff.mpr ⟨name, hoccurrence⟩
    obtain rfl := index_eq_of_nodup hids hsite hother hid (id?_of_listed? htold)
    obtain rfl : site = other := Option.some.inj (hsite.symm.trans hother)
    obtain ⟨name', hoccurrence', hfound⟩ := listed?_eq_some_iff.mp htold
    cases hoccurrence.symm.trans hoccurrence'
    exact hfound
  · intro hfound
    exact ⟨i, site, hsite, listed?_eq_some_iff.mpr ⟨name, hoccurrence, hfound⟩⟩

/-- In the table of a program whose occurrences have different identities, an occurrence has an
entry if and only if one of the scopes around it has declared its name before, where a variable is
declared before its initializer and a function before its parameters and its body.  The entry is
the number of scopes inside the innermost of them, and nothing else has one. -/
theorem resolve_distances (hresolve : resolve program = .ok table)
    (hids : ((sites program).filterMap Site.id?).Nodup) :
    (∀ i site, (sites program)[i]? = some site → ∀ id name,
      site.item.occurrence? = some (id, name) →
      let before := (sites program).take i
      ((∃ distance, table.distance? id = some distance) ↔
        ∃ scope ∈ site.scopes, Declared before scope name.lexeme) ∧
      ∀ distance, table.distance? id = some distance ↔
        (∃ scope ∈ site.scopes[distance]?, Declared before scope name.lexeme) ∧
          ∀ scope ∈ site.scopes.take distance, ¬ Declared before scope name.lexeme) ∧
    ∀ id distance, table.distance? id = some distance →
      ∃ site ∈ sites program, site.id? = some id := by
  constructor
  · intro i site hsite id name hoccurrence before
    have hfind := distance?_of_occurrence hresolve hids hsite hoccurrence
    refine ⟨?_, fun distance => (hfind distance).trans findIdx?_declared_iff⟩
    simp only [hfind]
    exact exists_findIdx?_iff
  · intro id distance hdistance
    obtain ⟨i, site, hsite, htold⟩ := (distance?_of_resolve hresolve hids id distance).mp hdistance
    exact ⟨site, List.mem_of_getElem? hsite, id?_of_listed? htold⟩

end Tables

/-- A parameter in its function, and a variable that is read from outside before the function
declares its own. -/
def shadowingProgram : List Stmt :=
  let token (lexeme : String) : Token := ⟨.identifier, lexeme, 1⟩
  [.block [.declare (token "a") none,
    .function (token "f") [token "p"]
      [.print (.variable 0 (token "a")),
        .declare (token "a") (some (.assign 1 (token "a") (.variable 2 (token "p")))),
        .block [.print (.variable 3 (token "a"))]]]]

theorem resolve_distances_shadowing :
    ∃ table, resolve shadowingProgram = .ok table ∧
      ((sites shadowingProgram).filterMap Site.id?).Nodup ∧
      table.distance? 0 = some 1 ∧ table.distance? 1 = some 0 ∧ table.distance? 3 = some 1 := by
  have hids : ((sites shadowingProgram).filterMap Site.id?).Nodup := by decide
  have hresolve : resolve shadowingProgram = .ok _ := rfl
  have hall := (resolve_distances hresolve hids).1
  refine ⟨_, hresolve, hids, ?_, ?_, ?_⟩
  · exact ((hall 5 _ rfl 0 _ rfl).2 1).mpr (by decide)
  · exact ((hall 7 _ rfl 1 _ rfl).2 0).mpr (by decide)
  · exact ((hall 10 _ rfl 3 _ rfl).2 1).mpr (by decide)

end Scriptlet.Binding
