/-
Programs that differ in names only are resolved alike: if nothing is wrong with the first, the
second is accepted too, and with the same side table.

Names that mean the same stand in the same scope, so they are equally far away.
-/
import Scriptlet.Proofs.Lexical.Resolved
import Scriptlet.Proofs.Renaming.Alpha

namespace Scriptlet.Renaming

open Binding Lexical

variable {new : String} {pairs : Pairs} {name name' : String}

namespace Pairs

/-- Either both names are declared in the scope, or both mean something outside. -/
theorem SameIn.cases {outside : Prop} {frame : List (String × String)}
    (h : SameIn outside name name' frame) :
    (name ∈ frame.map Prod.fst ∧ name' ∈ frame.map Prod.snd) ∨
      (name ∉ frame.map Prod.fst ∧ name' ∉ frame.map Prod.snd ∧ outside) := by
  induction frame with
  | nil => exact Or.inr ⟨List.not_mem_nil, List.not_mem_nil, h⟩
  | cons pair rest ih =>
      rcases h with ⟨hname, hname'⟩ | ⟨hne, hne', h⟩
      · exact Or.inl ⟨hname ▸ List.mem_cons_self, hname' ▸ List.mem_cons_self⟩
      · rcases ih h with ⟨hmem, hmem'⟩ | ⟨hnot, hnot', houtside⟩
        · exact Or.inl ⟨List.mem_cons_of_mem _ hmem, List.mem_cons_of_mem _ hmem'⟩
        · exact Or.inr ⟨List.not_mem_cons_of_ne_of_not_mem hne hnot,
            List.not_mem_cons_of_ne_of_not_mem hne' hnot', houtside⟩

theorem Same.distance?_eq (h : pairs.Same name name') :
    distance? pairs.right name' = distance? pairs.left name := by
  induction pairs with
  | nil => rfl
  | cons frame outer ih =>
      show List.findIdx? _ (frame.map Prod.snd :: Pairs.right outer) =
        List.findIdx? _ (frame.map Prod.fst :: Pairs.left outer)
      rw [List.findIdx?_cons, List.findIdx?_cons]
      rcases SameIn.cases h with ⟨hmem, hmem'⟩ | ⟨hnot, hnot', houtside⟩
      · rw [if_pos (List.contains_iff_mem.mpr hmem), if_pos (List.contains_iff_mem.mpr hmem')]
      · rw [if_neg (fun hmem => hnot (List.contains_iff_mem.mp hmem)),
          if_neg (fun hmem => hnot' (List.contains_iff_mem.mp hmem))]
        exact congrArg _ (ih houtside)

theorem after_of_bare {stmt stmt' : Stmt} (h : stmt.declared? = none) :
    pairs.after stmt stmt' = pairs := by
  rw [Pairs.after, h]

theorem Fresh.declaredHere_left (h : pairs.Fresh name name') :
    declaredHere pairs.left name = false := by
  cases pairs with
  | nil => rfl
  | cons frame outer => exact declaredHere_cons.mpr h.1

theorem Fresh.declaredHere_right (h : pairs.Fresh name name') :
    declaredHere pairs.right name' = false := by
  cases pairs with
  | nil => rfl
  | cons frame outer => exact declaredHere_cons.mpr h.2

theorem isEmpty_right (pairs : Pairs) : pairs.right.isEmpty = pairs.left.isEmpty := by
  cases pairs <;> rfl

end Pairs

/-- Where the first part has no fault, the second one says the same. -/
def Follows (found found' : Findings) : Prop :=
  found.faults = [] → found' = found

theorem Follows.append {a a' b b' : Findings} (ha : Follows a a') (hb : Follows b b') :
    Follows (a ++ b) (a' ++ b') := by
  intro hfaults
  obtain ⟨hafaults, hbfaults⟩ := List.append_eq_nil_iff.mp hfaults
  rw [ha hafaults, hb hbfaults]

theorem Follows.refl (found : Findings) : Follows found found :=
  fun _ => rfl

theorem redeclaration_of_new {scopes : Scopes} {token : Token}
    (h : declaredHere scopes token.lexeme = false) : redeclaration scopes token = .empty := by
  rw [redeclaration, if_neg (Bool.eq_false_iff.mp h)]

theorem follows_redeclaration {token token' : Token} (h : pairs.Fresh token.lexeme token'.lexeme) :
    Follows (redeclaration pairs.left token) (redeclaration pairs.right token') := by
  rw [redeclaration_of_new h.declaredHere_left, redeclaration_of_new h.declaredHere_right]
  exact .refl _

theorem follows_occurrence {id : NodeId} {token token' : Token}
    (h : pairs.Same token.lexeme token'.lexeme) :
    Follows (occurrence pairs.left id token) (occurrence pairs.right id token') := by
  rw [occurrence, occurrence, h.distance?_eq]
  exact .refl _

/-- What must not be read yet in the second program must not be read in the first. -/
def Awaits (pairs : Pairs) (pending pending' : Option String) : Prop :=
  ∀ name name', pairs.Same name name' → pending' = some name' → pending = some name

theorem awaits_none : Awaits pairs none none := nofun

theorem awaits_pendingOf (h : pairs.Fresh name name') :
    Awaits (pairs.declare name name') (pendingOf pairs.left name)
      (pendingOf pairs.right name') := by
  intro other other' hsame hpending
  rw [pendingOf, Pairs.isEmpty_right, h.declaredHere_right] at hpending
  rw [pendingOf, h.declaredHere_left]
  cases pairs with
  | nil => cases hpending
  | cons frame outer =>
      cases hpending
      rcases hsame with ⟨hother, -⟩ | ⟨-, hne, -⟩
      · exact congrArg some hother.symm
      · exact absurd rfl hne

section Exprs

variable {pending pending' : Option String}

mutual

theorem follows_inExpr {expr expr' : Expr} (h : AlphaExpr new pairs expr expr')
    (hpending : Awaits pairs pending pending') :
    Follows (inExpr pairs.left pending expr) (inExpr pairs.right pending' expr') := by
  cases h with
  | constant _ => exact .refl _
  | @group inner inner' hinner =>
      have hfollows : Follows (inExpr pairs.left pending inner) _ := follows_inExpr hinner hpending
      exact hfollows
  | @unary _ operand operand' hoperand =>
      have hfollows : Follows (inExpr pairs.left pending operand) _ :=
        follows_inExpr hoperand hpending
      exact hfollows
  | binary hleft hright | logical hleft hright =>
      exact (follows_inExpr hleft hpending).append (follows_inExpr hright hpending)
  | «variable» _ hsame =>
      refine Follows.append ?_ (follows_occurrence hsame)
      intro hread
      split at hread
      · cases hread
      · next hnot => rw [if_neg hnot, if_neg (fun heq => hnot (hpending _ _ hsame heq))]
  | assign _ hsame hvalue =>
      exact (follows_inExpr hvalue hpending).append (follows_occurrence hsame)
  | call hcallee harguments =>
      exact (follows_inExpr hcallee hpending).append (follows_inExprs harguments hpending)

theorem follows_inExprs {exprs exprs' : List Expr} (h : AlphaExprs new pairs exprs exprs')
    (hpending : Awaits pairs pending pending') :
    Follows (inExprs pairs.left pending exprs) (inExprs pairs.right pending' exprs') := by
  cases h with
  | nil => exact .refl _
  | cons hfirst hrest =>
      exact (follows_inExpr hfirst hpending).append (follows_inExprs hrest hpending)

end

end Exprs

/-- What both walks have found, and where they go on. -/
structure FollowsTo (behind : Pairs) (walk walk' : Findings × Scopes) : Prop where
  found : Follows walk.1 walk'.1
  left : walk.2 = behind.left
  right : walk'.2 = behind.right

theorem followsTo_inParams {inside : Pairs} {params params' : List Token}
    (h : AlphaParams new true pairs params params' inside) :
    FollowsTo inside (inParams pairs.left params) (inParams pairs.right params') := by
  induction h with
  | nil => exact ⟨.refl _, rfl, rfl⟩
  | cons _ hfresh _ _ ih =>
      rw [Pairs.left_declare (hfresh rfl), Pairs.right_declare (hfresh rfl)] at ih
      exact ⟨(follows_redeclaration (hfresh rfl)).append ih.found, ih.left, ih.right⟩

theorem followsTo_bare {stmt stmt' : Stmt} {walk walk' : Findings × Scopes}
    (hbare : stmt.declared? = none) (h : FollowsTo (pairs.after stmt stmt') walk walk') :
    FollowsTo pairs walk walk' := by
  rwa [Pairs.after_of_bare hbare] at h

mutual

theorem followsTo_inStmt (inFunction : Bool) {pairs : Pairs} {stmt stmt' : Stmt}
    (h : AlphaStmt new true pairs stmt stmt') :
    FollowsTo (pairs.after stmt stmt') (inStmt inFunction pairs.left stmt)
      (inStmt inFunction pairs.right stmt') := by
  match stmt, h with
  | .expression _, .expression hvalue => exact ⟨follows_inExpr hvalue awaits_none, rfl, rfl⟩
  | .print _, .print hvalue => exact ⟨follows_inExpr hvalue awaits_none, rfl, rfl⟩
  | .declare _ none, .declare _ hdeclared _ =>
      have hfresh := hdeclared rfl
      exact ⟨follows_redeclaration hfresh, (Pairs.left_declare hfresh).symm,
        (Pairs.right_declare hfresh).symm⟩
  | .declare _ (some _), .declareWith _ hdeclared _ hinitial =>
      have hfresh := hdeclared rfl
      have hinside := follows_inExpr hinitial (awaits_pendingOf hfresh)
      rw [Pairs.left_declare hfresh, Pairs.right_declare hfresh] at hinside
      exact ⟨(follows_redeclaration hfresh).append hinside, (Pairs.left_declare hfresh).symm,
        (Pairs.right_declare hfresh).symm⟩
  | .block _, .block hbody =>
      exact ⟨follows_inStmts inFunction hbody, rfl, rfl⟩
  | .branch _ _ none, .branch hcondition hbare hwhenTrue =>
      have htrue := followsTo_bare (hbare rfl) (followsTo_inStmt inFunction hwhenTrue)
      exact ⟨(follows_inExpr hcondition awaits_none).append htrue.found, htrue.left, htrue.right⟩
  | .branch _ _ (some _), .branchElse hcondition hbare hwhenTrue hbareElse hwhenFalse =>
      have htrue := followsTo_bare (hbare rfl) (followsTo_inStmt inFunction hwhenTrue)
      have hfalse :=
        followsTo_bare (hbareElse rfl) (followsTo_inStmt inFunction hwhenFalse)
      rw [← htrue.left, ← htrue.right] at hfalse
      exact ⟨((follows_inExpr hcondition awaits_none).append htrue.found).append hfalse.found,
        hfalse.left, hfalse.right⟩
  | .loop _ _, .loop hcondition hbare hbody =>
      have hround := followsTo_bare (hbare rfl) (followsTo_inStmt inFunction hbody)
      exact ⟨(follows_inExpr hcondition awaits_none).append hround.found, hround.left, hround.right⟩
  | .function _ _ _, .function hdeclared hparams hbody =>
      have hfresh := hdeclared rfl
      have hinside := followsTo_inParams hparams
      have hinner := follows_inStmts true hbody
      rw [← hinside.left, ← hinside.right] at hinner
      have hscopes := Pairs.left_declare hfresh
      have hscopes' := Pairs.right_declare hfresh
      refine ⟨((follows_redeclaration hfresh).append ?_).append ?_, hscopes.symm, hscopes'.symm⟩
      · rw [← hscopes, ← hscopes']
        exact hinside.found
      · rw [← hscopes, ← hscopes']
        exact hinner
  | .leave _ none, .leave => exact ⟨.refl _, rfl, rfl⟩
  | .leave _ (some _), .leaveWith hvalue =>
      exact ⟨(Follows.refl _).append (follows_inExpr hvalue awaits_none), rfl, rfl⟩

theorem follows_inStmts (inFunction : Bool) {pairs : Pairs} {stmts stmts' : List Stmt}
    (h : AlphaStmts new true pairs stmts stmts') :
    Follows (inStmts inFunction pairs.left stmts).1 (inStmts inFunction pairs.right stmts').1 := by
  match stmts, h with
  | [], .nil => exact .refl _
  | first :: rest, .cons hfirst hrest =>
      have hhead := followsTo_inStmt inFunction hfirst
      have htail := follows_inStmts inFunction hrest
      rw [← hhead.left, ← hhead.right] at htail
      exact hhead.found.append htail

end

/-- The second program is accepted with the side table of the first. -/
theorem resolve_of_alpha {program program' : List Stmt} {table : Table}
    (h : AlphaStmts new true [] program program') (hresolve : resolve program = .ok table) :
    resolve program' = .ok table := by
  obtain ⟨hfaults, rfl⟩ := resolve_eq_ok_iff.mp hresolve
  have hsame : findings program' = findings program := follows_inStmts false h hfaults
  exact resolve_eq_ok_iff.mpr ⟨hsame ▸ hfaults, hsame ▸ rfl⟩

end Scriptlet.Renaming
