/-
When a program is resolved, and what is reported when it is not.
-/
import Scriptlet.Proofs.Binding.Walked

namespace Scriptlet.Binding

/-- No scope declares a name twice. -/
def DeclaresOnce (list : List Site) : Prop :=
  list.Pairwise fun earlier later =>
    ∀ scope name, earlier.Declares scope name → ¬ later.Declares scope name

/-- Where the initializer of a variable reads one of the same name, the variable is global. -/
def ReadsOthers (list : List Site) : Prop :=
  ∀ site ∈ list, ∀ id name index, site.item = .read id name (some index) →
    ∀ declaration ∈ list[index]?,
      declaration.item.declaration?.map Token.lexeme = some name.lexeme → declaration.scopes = []

/-- Every `return` is in a function. -/
def ReturnsInside (list : List Site) : Prop :=
  ∀ site ∈ list, ∀ keyword, site.item = .leave keyword →
    ∃ scope ∈ site.scopes, scope.ofFunction = true

section Verdict

variable {before list : List Site} {site : Site}

theorem fault?_declaration {name : Token} (hitem : site.item = .declaration name) :
    site.fault? before = none ↔ ¬ Redeclares before site.scopes name.lexeme := by
  unfold Site.fault?
  rw [hitem]
  simp

theorem fault?_read {id : NodeId} {name : Token} {index : Nat}
    (hitem : site.item = .read id name (some index)) :
    site.fault? before = none ↔ ¬ Initializes before index name.lexeme := by
  unfold Site.fault?
  rw [hitem]
  simp

theorem fault?_leave {keyword : Token} (hitem : site.item = .leave keyword) :
    site.fault? before = none ↔ ∃ scope ∈ site.scopes, scope.ofFunction = true := by
  unfold Site.fault?
  rw [hitem]
  simp

theorem declaration?_eq_some_iff {item : Item} {name : Token} :
    item.declaration? = some name ↔ item = .declaration name := by
  cases item <;> simp [Item.declaration?]

/-- The declarations without fault are those of names that are new in their scopes. -/
theorem declaresOnce_iff :
    DeclaresOnce list ↔ ∀ i site, list[i]? = some site → ∀ name, site.item = .declaration name →
      ¬ Redeclares (list.take i) site.scopes name.lexeme := by
  unfold DeclaresOnce
  rw [List.pairwise_iff_getElem]
  constructor
  · rintro h i site hsite name hitem ⟨scope, hscope, earlier, hearlier, hdeclares⟩
    obtain ⟨hi, rfl⟩ := List.getElem?_eq_some_iff.mp hsite
    obtain ⟨j, hj, rfl⟩ := List.mem_take_iff_getElem.mp hearlier
    refine h j i (by omega) hi (by omega) scope name.lexeme hdeclares ⟨hscope, ?_⟩
    rw [hitem]
    rfl
  · rintro h i j hi hj hlt scope name hdeclares ⟨hscope, hname⟩
    obtain ⟨token, htoken, rfl⟩ := Option.map_eq_some_iff.mp hname
    have hitem := declaration?_eq_some_iff.mp htoken
    have hbefore : list[i] ∈ list.take j :=
      List.mem_take_iff_getElem.mpr ⟨i, by omega, rfl⟩
    exact h j list[j] (List.getElem?_eq_getElem hj) token hitem
      ⟨scope, hscope, list[i], hbefore, hdeclares⟩

theorem initializes_take {i index : Nat} (h : index < i) {name : String} :
    Initializes (list.take i) index name ↔ Initializes list index name := by
  unfold Initializes
  rw [List.getElem?_take_of_lt h, List.take_take, Nat.min_eq_left (Nat.le_of_lt h)]

/-- Where no name is declared twice, every local declaration is of a new name. -/
theorem DeclaresOnce.initializes_iff (h : DeclaresOnce list) {index : Nat} {name : String} :
    Initializes list index name ↔ ∃ declaration ∈ list[index]?,
      declaration.item.declaration?.map Token.lexeme = some name ∧ declaration.scopes ≠ [] := by
  refine exists_congr fun declaration => and_congr_right fun hdeclaration => ?_
  refine and_congr_right fun hname => and_iff_left ?_
  obtain ⟨token, htoken, rfl⟩ := Option.map_eq_some_iff.mp hname
  exact declaresOnce_iff.mp h index declaration hdeclaration token
    (declaration?_eq_some_iff.mp htoken)

theorem Refers.lt (h : Refers [] list) {i index : Nat} {id : NodeId} {name : Token}
    (hsite : list[i]? = some site) (hitem : site.item = .read id name (some index)) :
    index < i := by
  obtain ⟨token, htoken⟩ := h i site hsite id name index hitem
  have hlt := (List.getElem?_eq_some_iff.mp htoken).1
  rw [List.nil_append, List.length_take] at hlt
  exact (Nat.lt_min.mp hlt).1

/-- A list of sites is without fault if it meets the three rules. -/
theorem gather_fault?_eq_nil_iff (hrefers : Refers [] list) :
    gather Site.fault? [] list = [] ↔
      DeclaresOnce list ∧ ReadsOthers list ∧ ReturnsInside list := by
  rw [gather_eq_nil_iff]
  simp only [List.nil_append]
  constructor
  · intro h
    have hdeclares : DeclaresOnce list := declaresOnce_iff.mpr fun i site hsite name hitem =>
      (fault?_declaration hitem).mp (h i site hsite)
    refine ⟨hdeclares, ?_, ?_⟩
    · intro site hmem id name index hitem declaration hdeclaration hname
      obtain ⟨i, hsite⟩ := List.mem_iff_getElem?.mp hmem
      have hindex := hrefers.lt hsite hitem
      have hnot := (fault?_read hitem).mp (h i site hsite)
      rw [initializes_take hindex, hdeclares.initializes_iff] at hnot
      by_contra hlocal
      exact hnot ⟨declaration, hdeclaration, hname, hlocal⟩
    · intro site hmem keyword hitem
      obtain ⟨i, hsite⟩ := List.mem_iff_getElem?.mp hmem
      exact (fault?_leave hitem).mp (h i site hsite)
  · rintro ⟨hdeclares, hreads, hreturns⟩ i site hsite
    have hmem : site ∈ list := List.mem_of_getElem? hsite
    cases hitem : site.item with
    | opening | assignment _ _ =>
        unfold Site.fault?
        rw [hitem]
    | declaration name =>
        exact (fault?_declaration hitem).mpr (declaresOnce_iff.mp hdeclares i site hsite name hitem)
    | read id name initializing =>
        cases initializing with
        | none =>
            unfold Site.fault?
            rw [hitem]
        | some index =>
            have hindex := hrefers.lt hsite hitem
            rw [fault?_read hitem, initializes_take hindex, hdeclares.initializes_iff]
            rintro ⟨declaration, hdeclaration, hname, hlocal⟩
            exact hlocal (hreads site hmem id name index hitem declaration hdeclaration hname)
    | leave keyword => exact (fault?_leave hitem).mpr (hreturns site hmem keyword hitem)

end Verdict

/-- A program is resolved if and only if no scope declares a name twice, no initializer of a local
variable reads its name, and no `return` is outside all functions.  Else what is reported is, in
the order of the text, a fault for each declaration of a name that its scope had already, for each
`return` outside all functions, and for each reading of a local variable in the initializer of its
declaration, unless that declaration is at fault itself. -/
theorem resolve_verdict (program : List Stmt) :
    ((∃ table, resolve program = .ok table) ↔
      DeclaresOnce (sites program) ∧ ReadsOthers (sites program) ∧
        ReturnsInside (sites program)) ∧
    ∀ faults, resolve program = .error faults ↔
      faults ≠ [] ∧ faults = gather Site.fault? [] (sites program) := by
  have hfollows := follows_findings program
  have hfaults : (findings program).faults = gather Site.fault? [] (sites program) :=
    hfollows.faults
  have hrefers : Refers [] (sites program) := hfollows.refers
  refine ⟨?_, fun faults => ?_⟩
  · rw [← gather_fault?_eq_nil_iff hrefers, ← hfaults]
    exact ⟨fun ⟨_, htable⟩ => (Lexical.resolve_eq_ok_iff.mp htable).1,
      fun hnone => ⟨_, Lexical.resolve_eq_ok_iff.mpr ⟨hnone, rfl⟩⟩⟩
  · rw [← hfaults]
    unfold resolve
    dsimp only
    cases (findings program).faults with
    | nil => exact ⟨nofun, fun h => absurd h.2 h.1⟩
    | cons first rest =>
        rw [List.isEmpty_cons, if_neg Bool.false_ne_true, Except.error.injEq]
        exact ⟨fun h => ⟨h ▸ List.cons_ne_nil _ _, h.symm⟩, fun h => h.2.symm⟩

/-- The second declaration is at fault and so its initializer is not, and the `return` in the block
is as much outside as one behind it. -/
example :
    let token (lexeme : String) : Token := ⟨.identifier, lexeme, 1⟩
    (gather Site.fault? [] (sites
      [.block [.declare (token "a") (some (.variable 0 (token "a"))),
        .declare (token "a") (some (.variable 1 (token "a"))),
        .function (token "f") [token "p", token "p"] [.leave (token "return") none],
        .leave (token "return") none]])).map Diagnostic.message =
      [BindingFault.readInOwnInitializer, .declaredTwice, .declaredTwice,
        .returnOutsideFunction].map BindingFault.message := by
  decide

end Scriptlet.Binding
