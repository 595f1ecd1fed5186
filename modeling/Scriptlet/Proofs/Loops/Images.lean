/-
What the scopes of a rewritten program are in the program as it is written.

A scope that only the rewriting opens has the image of the scope around it, and binds nothing.
All others have images of their own, which bind the same names to the same values and lie in each
other in the same order.
-/
import Scriptlet.Proofs.Loops.Distances
import Scriptlet.Proofs.Scopes.Chains
import Scriptlet.Proofs.Values

namespace Scriptlet.Loops

/-- The image of a scope.  The flags tell which of the scopes around a place in this scope are
additional ones, the scope itself included and the global one left out. -/
structure Image where
  scope : Nat
  flags : List Bool

abbrev Images := List Image

/-- The same function, declared in a scope and in the image of it. -/
inductive ClosureMatches (tables : Tables) (images : Images) : Closure → ClosureIn Site → Prop
  | same {name : Token} {params : List Token} {body : List Declaration} {identity scope : Nat}
      {image : Image} (image_ : images[scope]? = some image)
      (fits : FitsDeclarations tables (false :: image.flags) body) :
      ClosureMatches tables images ⟨name, params, rewriteAll body, scope, identity⟩
        ⟨name, params, rewriteAll body, ⟨image.scope, body⟩, identity⟩

/-- Values that differ at most in where closures were made. -/
abbrev Matches (tables : Tables) (images : Images) : Value → ValueIn Site → Prop :=
  ValueIn.Rel (ClosureMatches tables images)

/-- The scope around a scope has the image that lies around the image of the scope. -/
def Linked (images : Images) (tree : ScopeTree Value) (tree' : ScopeTree (ValueIn Site))
    (scope scope' : Nat) : List Bool → Prop
  | [] => tree.parent? scope = none ∧ tree'.parent? scope' = none
  | false :: flags =>
      ∃ parent parent' : Nat, tree.parent? scope = some parent ∧
        tree'.parent? scope' = some parent' ∧ images[parent]? = some ⟨parent', flags⟩
  | true :: flags =>
      ∃ parent : Nat, tree.parent? scope = some parent ∧ images[parent]? = some ⟨scope', flags⟩

/-- A scope that is none of the additional ones, and its image. -/
abbrev OwnImage (images : Images) (scope scope' : Nat) : Prop :=
  ∃ flags : List Bool, images[scope]? = some ⟨scope', flags⟩ ∧ Own flags

/-- The second tree is the first one without the additional scopes, which bind nothing. -/
structure Mirrors (tables : Tables) (images : Images) (tree : ScopeTree Value)
    (tree' : ScopeTree (ValueIn Site)) : Prop where
  length : images.length = tree.size
  root : images[Machine.globals]? = some ⟨Machine.globals, []⟩
  linked : ∀ (scope : Nat) (image : Image), images[scope]? = some image →
    Linked images tree tree' scope image.scope image.flags
  inside : ∀ (scope : Nat) (image : Image), images[scope]? = some image → image.scope < tree'.size
  own : ∀ (scope : Nat) (image : Image), images[scope]? = some image → Own image.flags → ∀ name,
    Option.Rel (Matches tables images) (tree.own? scope name) (tree'.own? image.scope name)
  empty : ∀ (scope : Nat) (image : Image), images[scope]? = some image → ¬ Own image.flags → ∀ name,
    tree.own? scope name = none
  injective : ∀ (scope other : Nat) (image image' : Image), images[scope]? = some image →
    images[other]? = some image' → Own image.flags → Own image'.flags →
      image.scope = image'.scope → scope = other
  onto : ∀ scope', scope' < tree'.size → ∃ scope : Nat, OwnImage images scope scope'

section Mirrors

variable {tables later : Tables} {images images' : Images} {tree : ScopeTree Value}
  {tree' : ScopeTree (ValueIn Site)} {scope : Nat} {image : Image} {flags : List Bool}
  {value : Value} {value' : ValueIn Site}

theorem own_nil : Own [] :=
  nofun

theorem own_false (flags : List Bool) : Own (false :: flags) :=
  nofun

theorem not_own_true (flags : List Bool) : ¬ Own (true :: flags) :=
  fun h => h rfl

theorem ClosureMatches.sameFace {f : Closure} {g : ClosureIn Site}
    (h : ClosureMatches tables images f g) : f.SameFace g := by
  cases h with
  | same _ _ => exact ⟨rfl, rfl, rfl⟩

theorem image_kept (h : images <+: images') (himage : images[scope]? = some image) :
    images'[scope]? = some image := by
  obtain ⟨more, rfl⟩ := h
  rw [List.getElem?_append_left (List.getElem?_eq_some_iff.mp himage).1]
  exact himage

theorem Matches.grow (h : Matches tables images value value') (hgrows : images <+: images') :
    Matches tables images' value value' := by
  refine h.imp fun f g hsame => ?_
  cases hsame with
  | same himage hfits => exact .same (image_kept hgrows himage) hfits

theorem Matches.extend (h : Matches tables images value value')
    (hextends : tables.Extends later) : Matches later images value value' := by
  refine h.imp fun f g hsame => ?_
  cases hsame with
  | same himage hfits => exact .same himage (hfits.extend hextends)

theorem Mirrors.extend (h : Mirrors tables images tree tree') (hextends : tables.Extends later) :
    Mirrors later images tree tree' where
  __ := h
  own scope image himage hown name :=
    rel_imp (h.own scope image himage hown name) fun _ _ hmatch => hmatch.extend hextends

/-! ### Ways out -/

/-- The number of scopes to go out leads to a scope and to its image. -/
theorem Mirrors.ancestor? (h : Mirrors tables images tree tree') (distance : Nat) {scope' : Nat}
    (himage : images[scope]? = some ⟨scope', flags⟩) :
    Option.Rel (OwnImage images)
      (tree.ancestor? (lift flags distance) scope) (tree'.ancestor? distance scope') := by
  induction flags generalizing scope scope' distance with
  | nil =>
      obtain ⟨hparent, hparent'⟩ := h.linked scope _ himage
      cases distance with
      | zero => exact .some ⟨[], himage, own_nil⟩
      | succ distance =>
          rw [lift, ScopeTree.ancestor?, ScopeTree.ancestor?, hparent, hparent']
          exact .none
  | cons flag flags ih =>
      cases flag with
      | true =>
          obtain ⟨parent, hparent, hmirror⟩ := h.linked scope _ himage
          rw [lift, ScopeTree.ancestor?, hparent]
          exact ih distance hmirror
      | false =>
          cases distance with
          | zero => exact .some ⟨false :: flags, himage, own_false flags⟩
          | succ distance =>
              obtain ⟨parent, parent', hparent, hparent', hmirror⟩ := h.linked scope _ himage
              rw [lift, ScopeTree.ancestor?, ScopeTree.ancestor?, hparent, hparent']
              exact ih distance hmirror

/-- A name is looked up in a scope and in its image, and found in a scope and in its image. -/
theorem Mirrors.holder? (h : Mirrors tables images tree tree') (name : String) {scope' : Nat}
    (himage : images[scope]? = some ⟨scope', flags⟩) :
    Option.Rel (OwnImage images)
      (tree.holder? name scope) (tree'.holder? name scope') := by
  -- A scope of its own either binds the name on both sides, or leaves it to the scopes around it.
  have hhere : ∀ {scope scope' flags}, images[scope]? = some ⟨scope', flags⟩ → Own flags →
      ((tree.own? scope name).isSome = true ∧ (tree'.own? scope' name).isSome = true) ∨
        ((tree.own? scope name).isSome = false ∧ (tree'.own? scope' name).isSome = false) := by
    intro scope scope' flags hscope hown
    have hvalue : Option.Rel _ (tree.own? scope name) (tree'.own? scope' name) :=
      h.own _ _ hscope hown name
    generalize tree.own? scope name = found at hvalue ⊢
    generalize tree'.own? scope' name = found' at hvalue ⊢
    cases hvalue with
    | some _ => exact Or.inl ⟨rfl, rfl⟩
    | none => exact Or.inr ⟨rfl, rfl⟩
  induction flags generalizing scope scope' with
  | nil =>
      obtain ⟨hparent, hparent'⟩ := h.linked scope _ himage
      dsimp only at hparent'
      rw [ScopeTree.holder?_eq, ScopeTree.holder?_eq, hparent, hparent']
      rcases hhere himage own_nil with ⟨hfound, hfound'⟩ | ⟨hfound, hfound'⟩
      · rw [if_pos hfound, if_pos hfound']
        exact .some ⟨[], himage, own_nil⟩
      · rw [if_neg (ne_true_of_eq_false hfound), if_neg (ne_true_of_eq_false hfound')]
        exact .none
  | cons flag flags ih =>
      cases flag with
      | true =>
          obtain ⟨parent, hparent, hmirror⟩ := h.linked scope _ himage
          rw [ScopeTree.holder?_eq, h.empty scope _ himage (not_own_true flags), hparent]
          exact ih hmirror
      | false =>
          obtain ⟨parent, parent', hparent, hparent', hmirror⟩ := h.linked scope _ himage
          dsimp only at hparent'
          rw [ScopeTree.holder?_eq, ScopeTree.holder?_eq tree', hparent, hparent']
          rcases hhere himage (own_false flags) with ⟨hfound, hfound'⟩ | ⟨hfound, hfound'⟩
          · rw [if_pos hfound, if_pos hfound']
            exact .some ⟨false :: flags, himage, own_false flags⟩
          · rw [if_neg (ne_true_of_eq_false hfound), if_neg (ne_true_of_eq_false hfound')]
            exact ih hmirror

theorem Mirrors.lookup? (h : Mirrors tables images tree tree') (name : String) {scope' : Nat}
    (himage : images[scope]? = some ⟨scope', flags⟩) :
    Option.Rel (Matches tables images) (tree.lookup? scope name) (tree'.lookup? scope' name) := by
  have hholder := h.holder? name himage
  unfold ScopeTree.lookup?
  generalize tree.holder? name scope = found at hholder ⊢
  generalize tree'.holder? name scope' = found' at hholder ⊢
  cases hholder with
  | none => exact .none
  | some hfound =>
      obtain ⟨flags', htarget, hown⟩ := hfound
      exact h.own _ _ htarget hown name

/-- A name is read where the distance leads to, if it leads anywhere. -/
theorem Mirrors.readAt (h : Mirrors tables images tree tree') (distance : Nat) (name : String)
    {scope' : Nat} (himage : images[scope]? = some ⟨scope', flags⟩) :
    (∃ value value', tree.readAt scope (lift flags distance) name = .ok value ∧
        tree'.readAt scope' distance name = .ok value' ∧ Matches tables images value value') ∨
      ∃ defect defect', tree.readAt scope (lift flags distance) name = .error defect ∧
        tree'.readAt scope' distance name = .error defect' := by
  have htarget := h.ancestor? distance himage
  unfold ScopeTree.readAt ScopeTree.scopeAt
  generalize tree.ancestor? _ scope = found at htarget ⊢
  generalize tree'.ancestor? _ scope' = found' at htarget ⊢
  cases htarget with
  | none => exact Or.inr ⟨_, _, rfl, rfl⟩
  | @some target target' hfound =>
      obtain ⟨flags', hlinked, hown⟩ := hfound
      have hvalue : Option.Rel _ (tree.own? target name) (tree'.own? target' name) :=
        h.own _ _ hlinked hown name
      simp only [bind, Except.bind]
      generalize tree.own? target name = found at hvalue ⊢
      generalize tree'.own? target' name = found' at hvalue ⊢
      cases hvalue with
      | some hmatch => exact Or.inl ⟨_, _, rfl, rfl, hmatch⟩
      | none => exact Or.inr ⟨_, _, rfl, rfl⟩

/-! ### Changes -/

/-- A name is bound in a scope and in its image. -/
theorem Mirrors.define (h : Mirrors tables images tree tree') {target target' : Nat}
    (himage : images[target]? = some ⟨target', flags⟩) (hown : Own flags)
    (hmatch : Matches tables images value value') (name : String) :
    Mirrors tables images (tree.define target name value) (tree'.define target' name value') where
  length := by rw [ScopeTree.size_define, h.length]
  root := h.root
  linked scope image hscope := by
    have hlinked := h.linked scope image hscope
    unfold Linked at hlinked ⊢
    simp only [ScopeTree.parent?_define]
    exact hlinked
  inside scope image hscope := by
    rw [ScopeTree.size_define]
    exact h.inside scope image hscope
  own scope image hscope hreal key := by
    have htarget : target < tree.size := h.length ▸ (List.getElem?_eq_some_iff.mp himage).1
    have htarget' : target' < tree'.size := h.inside _ _ himage
    have hsame : target = scope ↔ target' = image.scope := by
      constructor
      · rintro rfl
        obtain rfl := Option.some.inj (himage.symm.trans hscope)
        rfl
      · exact fun heq => h.injective _ _ _ _ himage hscope hown hreal heq
    rw [ScopeTree.own?_define, ScopeTree.own?_define]
    by_cases hhere : target = scope ∧ key = name
    · rw [if_pos ⟨hhere.1, hhere.2, htarget⟩, if_pos ⟨hsame.mp hhere.1, hhere.2, htarget'⟩]
      exact .some hmatch
    · rw [if_neg fun hall => hhere ⟨hall.1, hall.2.1⟩,
        if_neg fun hall => hhere ⟨hsame.mpr hall.1, hall.2.1⟩]
      exact h.own scope image hscope hreal key
  empty scope image hscope hadded key := by
    have hne : target ≠ scope := by
      rintro rfl
      obtain rfl := Option.some.inj (himage.symm.trans hscope)
      exact hadded hown
    rw [ScopeTree.own?_define, if_neg fun hall => hne hall.1]
    exact h.empty scope image hscope hadded key
  injective := h.injective
  onto scope' hscope' := h.onto scope' (by rwa [ScopeTree.size_define] at hscope')

theorem own?_size {α : Type} (tree : ScopeTree α) (name : String) :
    tree.own? tree.size name = none :=
  Option.not_isSome_iff_eq_none.mp fun h => Nat.lt_irrefl _ (ScopeTree.lt_size_of_own? h)

/-- An image of a scope that was there before, or the one that was added. -/
theorem image_append (himage : (images ++ [image])[scope]? = some image') :
    images[scope]? = some image' ∨ (scope = images.length ∧ image' = image) := by
  rw [List.getElem?_append] at himage
  split at himage
  · exact Or.inl himage
  · next hle =>
      rw [List.getElem?_singleton] at himage
      split at himage
      · cases himage
        exact Or.inr ⟨by omega, rfl⟩
      · cases himage

theorem Mirrors.image_added (h : Mirrors tables images tree tree') (image : Image) :
    (images ++ [image])[tree.size]? = some image := by
  rw [← h.length, List.getElem?_append_right (Nat.le_refl _), Nat.sub_self]
  rfl

theorem Linked.grow {more : ScopeTree Value} {more' : ScopeTree (ValueIn Site)}
    {scope' : Nat} (h : Linked images tree tree' scope scope' flags) (hgrows : images <+: images')
    (hparent : more.parent? scope = tree.parent? scope)
    (hparent' : more'.parent? scope' = tree'.parent? scope') :
    Linked images' more more' scope scope' flags := by
  match flags, h with
  | [], h => exact ⟨hparent.trans h.1, hparent'.trans h.2⟩
  | false :: _, ⟨parent, parent', h, h', himage⟩ =>
      exact ⟨parent, parent', hparent.trans h, hparent'.trans h', image_kept hgrows himage⟩
  | true :: _, ⟨parent, h, himage⟩ =>
      exact ⟨parent, hparent.trans h, image_kept hgrows himage⟩

/-- A scope is opened that binds nothing yet.  Its image is either the only scope that is new on
the other side, or a scope that has been there, which it is then an addition to. -/
theorem Mirrors.opened (h : Mirrors tables images tree tree') {parent : Nat} {image : Image}
    {more' : ScopeTree (ValueIn Site)}
    (hparents : ∀ scope', scope' < tree'.size → more'.parent? scope' = tree'.parent? scope')
    (hkept : ∀ scope' name, more'.own? scope' name = tree'.own? scope' name)
    (hlinked : Linked (images ++ [image]) (tree.child parent) more' tree.size image.scope
      image.flags)
    (hinside : image.scope < more'.size) (hfresh : Own image.flags → image.scope = tree'.size)
    (hsize : tree'.size ≤ more'.size)
    (honto : ∀ scope', scope' < more'.size → tree'.size ≤ scope' →
      scope' = image.scope ∧ Own image.flags) :
    Mirrors tables (images ++ [image]) (tree.child parent) more' := by
  have hgrows : images <+: images ++ [image] := List.prefix_append ..
  have hlt : ∀ {scope image}, images[scope]? = some image → scope < tree.size :=
    fun hscope => h.length ▸ (List.getElem?_eq_some_iff.mp hscope).1
  constructor
  case length => rw [ScopeTree.child, ScopeTree.size_openScope, List.length_append, h.length]; rfl
  case root => exact image_kept hgrows h.root
  case linked =>
    intro scope image hscope
    rcases image_append hscope with hscope | ⟨rfl, rfl⟩
    · exact (h.linked _ _ hscope).grow hgrows
        (ScopeTree.parent?_openScope_of_lt (hlt hscope) _) (hparents _ (h.inside _ _ hscope))
    · rw [h.length]
      exact hlinked
  case inside =>
    intro scope image hscope
    rcases image_append hscope with hscope | ⟨rfl, rfl⟩
    · exact Nat.lt_of_lt_of_le (h.inside _ _ hscope) hsize
    · exact hinside
  case own =>
    intro scope image hscope hown name
    rw [ScopeTree.child, ScopeTree.own?_openScope, hkept]
    rcases image_append hscope with hscope | ⟨rfl, rfl⟩
    · exact rel_imp (h.own _ _ hscope hown name) fun _ _ hmatch => hmatch.grow hgrows
    · rw [h.length, hfresh hown, own?_size, own?_size]
      exact .none
  case empty =>
    intro scope image hscope hadded name
    rw [ScopeTree.child, ScopeTree.own?_openScope]
    rcases image_append hscope with hscope | ⟨rfl, rfl⟩
    · exact h.empty _ _ hscope hadded name
    · rw [h.length, own?_size]
  case injective =>
    intro scope other image image' hscope hother hown hown' heq
    rcases image_append hscope with hold | ⟨rfl, rfl⟩
    · rcases image_append hother with hold' | ⟨rfl, rfl⟩
      · exact h.injective _ _ _ _ hold hold' hown hown' heq
      · rw [hfresh hown'] at heq
        exact absurd heq (Nat.ne_of_lt (h.inside _ _ hold))
    · rcases image_append hother with hold' | ⟨rfl, -⟩
      · rw [hfresh hown] at heq
        exact absurd heq.symm (Nat.ne_of_lt (h.inside _ _ hold'))
      · rfl
  case onto =>
    intro scope' hscope'
    rcases Nat.lt_or_ge scope' tree'.size with hold | hnew
    · obtain ⟨scope, flags', hscope, hown⟩ := h.onto scope' hold
      exact ⟨scope, flags', image_kept hgrows hscope, hown⟩
    · obtain ⟨rfl, hown⟩ := honto scope' hscope' hnew
      exact ⟨tree.size, image.flags, h.image_added image, hown⟩

/-- A scope is opened in a scope and in its image. -/
theorem Mirrors.child (h : Mirrors tables images tree tree') {parent parent' : Nat}
    (himage : images[parent]? = some ⟨parent', flags⟩) :
    Mirrors tables (images ++ [⟨tree'.size, false :: flags⟩]) (tree.child parent)
      (tree'.child parent') := by
  have hparent : parent < tree.size := h.length ▸ (List.getElem?_eq_some_iff.mp himage).1
  have hparent' : parent' < tree'.size := h.inside _ _ himage
  have hsize : (tree'.child parent').size = tree'.size + 1 := ScopeTree.size_openScope ..
  apply h.opened
  case hparents => exact fun _ hlt => ScopeTree.parent?_openScope_of_lt hlt _
  case hkept => exact fun _ _ => ScopeTree.own?_openScope ..
  case hlinked =>
    exact ⟨parent, parent', ScopeTree.parent?_openScope_self hparent,
      ScopeTree.parent?_openScope_self hparent', image_kept (List.prefix_append ..) himage⟩
  case hinside => exact hsize ▸ Nat.lt_succ_self _
  case hfresh => exact fun _ => rfl
  case hsize => exact hsize ▸ Nat.le_succ _
  case honto =>
    intro scope' hlt hnew
    rw [hsize] at hlt
    exact ⟨Nat.le_antisymm (Nat.le_of_lt_succ hlt) hnew, own_false flags⟩

/-- An additional scope is opened, which has the image of the scope it lies in. -/
theorem Mirrors.childAdded (h : Mirrors tables images tree tree') {parent parent' : Nat}
    (himage : images[parent]? = some ⟨parent', flags⟩) :
    Mirrors tables (images ++ [⟨parent', true :: flags⟩]) (tree.child parent) tree' := by
  have hparent : parent < tree.size := h.length ▸ (List.getElem?_eq_some_iff.mp himage).1
  have hparent' : parent' < tree'.size := h.inside _ _ himage
  apply h.opened
  case hparents => exact fun _ _ => rfl
  case hkept => exact fun _ _ => rfl
  case hlinked =>
    exact ⟨parent, ScopeTree.parent?_openScope_self hparent,
      image_kept (List.prefix_append ..) himage⟩
  case hinside => exact hparent'
  case hfresh => exact fun hown => absurd hown (not_own_true flags)
  case hsize => exact Nat.le_refl _
  case honto => exact fun _ hlt hnew => absurd hlt (Nat.not_lt.mpr hnew)

/-- Parameters are bound in a scope and in its image. -/
theorem Mirrors.defineAll (h : Mirrors tables images tree tree') {target target' : Nat}
    (himage : images[target]? = some ⟨target', flags⟩) (hown : Own flags) (names : List String)
    {values : List Value} {values' : List (ValueIn Site)}
    (hvalues : List.Forall₂ (Matches tables images) values values') :
    Mirrors tables images (tree.defineAll target names values)
      (tree'.defineAll target' names values') := by
  unfold ScopeTree.defineAll
  induction hvalues generalizing tree tree' names with
  | nil =>
      rw [List.zip_nil_right, List.zip_nil_right]
      exact h
  | cons hmatch _ ih =>
      cases names with
      | nil => exact h
      | cons name names => exact ih (h.define himage hown hmatch name) names

end Mirrors

end Scriptlet.Loops
