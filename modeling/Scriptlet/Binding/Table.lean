/-
The side table: for an occurrence of a local variable, how many scopes out its
binding lives.  An occurrence without entry is global.
-/
import Std.Data.TreeMap.Lemmas
import Scriptlet.Tree.Basic

namespace Scriptlet

structure Table where
  distances : Std.TreeMap NodeId Nat

namespace Table

def empty : Table := ⟨∅⟩

def distance? (table : Table) (id : NodeId) : Option Nat :=
  table.distances[id]?

/-- Enter a list of entries, of which a later one replaces an earlier one. -/
def enter (table : Table) (entries : List (NodeId × Nat)) : Table :=
  ⟨table.distances.insertMany entries⟩

def ofList (entries : List (NodeId × Nat)) : Table :=
  empty.enter entries

/-- The entries by ascending identity. -/
def toList (table : Table) : List (NodeId × Nat) :=
  table.distances.toList

/-- Add the entries of `other`, which replace those of `table`. -/
def merge (table other : Table) : Table :=
  table.enter other.toList

@[simp] theorem distance?_empty (id : NodeId) : empty.distance? id = none :=
  Std.TreeMap.getElem?_emptyc

/-- The last entry for an identity counts. -/
theorem distance?_enter (table : Table) (entries : List (NodeId × Nat)) (id : NodeId) :
    (table.enter entries).distance? id =
      (entries.reverse.lookup id).or (table.distance? id) := by
  induction entries generalizing table with
  | nil => simp [enter, distance?]
  | cons entry rest ih =>
      obtain ⟨key, distance⟩ := entry
      have hstep : table.enter ((key, distance) :: rest) =
          (Table.mk (table.distances.insert key distance)).enter rest := by
        simp [enter, Std.TreeMap.insertMany_cons]
      rw [hstep, ih, List.reverse_cons, List.lookup_append]
      by_cases h : id = key
      · subst h
        simp [distance?]
      · have hkey : key ≠ id := fun heq => h heq.symm
        simp [distance?, Std.TreeMap.getElem?_insert, List.lookup_cons, beq_false_of_ne h,
          hkey]

/-- The entries that are added count first. -/
theorem distance?_merge (table other : Table) (id : NodeId) :
    (table.merge other).distance? id = (other.distance? id).or (table.distance? id) := by
  have hlookup : other.toList.reverse.lookup id = other.distance? id := by
    cases hfound : other.toList.reverse.lookup id with
    | some distance =>
        obtain ⟨before, behind, hsplit, -⟩ := List.lookup_eq_some_iff.mp hfound
        have hmem : (id, distance) ∈ other.toList := by
          rw [← List.mem_reverse, hsplit]
          exact List.mem_append_right _ List.mem_cons_self
        exact (Std.TreeMap.mem_toList_iff_getElem?_eq_some.mp hmem).symm
    | none =>
        cases hentry : other.distance? id with
        | none => rfl
        | some distance =>
            have hmem : (id, distance) ∈ other.toList :=
              Std.TreeMap.mem_toList_iff_getElem?_eq_some.mpr hentry
            have hne := List.lookup_eq_none_iff.mp hfound _ (List.mem_reverse.mpr hmem)
            simp at hne
  rw [merge, distance?_enter, hlookup]

end Table

end Scriptlet
