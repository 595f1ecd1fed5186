/-
Two sources on lines of their own, as one source: it is accepted if both are, and its
program is the program of the first one and that of the second one, on its lines.
-/
import Scriptlet.Proofs.Incremental.Shifted

namespace Scriptlet.Incremental

open Binding Grammar Source

/-- Nothing is found wrong with the source before it is run. -/
def Accepted (source : String) : Prop :=
  ∃ program issued table, readSource Reader.program 0 source = (.ok program, issued) ∧
    resolve program = .ok table

instance (source : String) : Decidable (Accepted source) :=
  match hread : readSource Reader.program 0 source with
  | (.error _, _) => isFalse (by
      rintro ⟨_, _, _, hok, -⟩
      rw [hread] at hok
      cases hok)
  | (.ok program, issued) =>
      match hresolve : resolve program with
      | .ok table => isTrue ⟨program, issued, table, hread, hresolve⟩
      | .error _ => isFalse (by
          rintro ⟨_, _, _, hok, htable⟩
          rw [hread] at hok
          cases hok
          rw [hresolve] at htable
          cases htable)

section Static

variable {n k m : Nat} {source first second ending : String} {program rest : List Stmt}
  {table tableRest : Table}

/-- It does not matter how many identities were handed out before. -/
theorem accepted_iff (n : Nat) :
    Accepted source ↔ ∃ program m table, readSource Reader.program n source = (.ok program, m) ∧
      resolve program = .ok table := by
  have hsame : SameRead n _ _ _ _ := sameRead_readSource steady_program 0 source
  rw [Nat.zero_add] at hsame
  unfold Accepted
  generalize readSource Reader.program 0 source = result at hsame ⊢
  generalize readSource Reader.program n source = result' at hsame ⊢
  cases hsame with
  | error _ => exact iff_of_false nofun nofun
  | @ok program program' m hids halike =>
      rcases resolve_of_alike halike with
        ⟨table, table', hresolve, hresolve'⟩ | ⟨faults, hresolve, hresolve'⟩
      · exact iff_of_true ⟨program, m, table, rfl, hresolve⟩
          ⟨program', m + n, table', rfl, hresolve'⟩
      · apply iff_of_false
        · rintro ⟨_, _, _, hread, hok⟩
          cases hread
          rw [hresolve] at hok
          cases hok
        · rintro ⟨_, _, _, hread, hok⟩
          cases hread
          rw [hresolve'] at hok
          cases hok

/-! ### Reading -/

theorem readSource_iff_derives :
    readSource Reader.program n source = (.ok program, m) ↔
      (scan source).faults = [] ∧ Derives true .program n (scan source).tokens program m := by
  rw [Session.readSource_eq_ok_iff, parse_program_iff (scan_endsOnce source)]

/-- On later lines, a source is read as it is on the first ones. -/
theorem readSource_below (lines : Nat)
    (h : readSource Reader.program n source = (.ok program, m)) :
    ∃ program', readSource Reader.program n (below lines source) = (.ok program', m) ∧
      AlikeStmts (treeLink (scan source).tokens lines 0) program program' := by
  obtain ⟨hfaults, hparse⟩ := Session.readSource_eq_ok_iff.mp h
  obtain ⟨hbelow, htokens⟩ := scan_below lines source
  obtain ⟨-, program', hmoved, halike⟩ := parse_further (fun _ => steady_program) hparse lines 0
  rw [← htokens] at hmoved
  exact ⟨program', Session.readSource_eq_ok_iff.mpr ⟨hbelow.mpr hfaults, hmoved⟩, halike⟩

/-- No declaration is changed by what follows. -/
theorem derives_append {strict : Bool} {n k m : Nat} {tokens others : List Token}
    {first second : List Stmt} (hfirst : Derives strict .declarations n tokens first k)
    (hsecond : Derives strict .declarations k others second m) :
    Derives strict .declarations n (tokens ++ others) (first ++ second) m := by
  induction first generalizing n tokens with
  | nil =>
      cases hfirst with
      | nothing => exact hsecond
  | cons stmt rest ih =>
      cases hfirst with
      | declarations hhead htail =>
          rw [List.append_assoc]
          exact .declarations hhead (ih htail)

/-- The program of the second source stands behind that of the first, on later lines. -/
theorem readSource_joined (hending : IsEnding ending.toList)
    (hfirst : readSource Reader.program n first = (.ok program, k))
    (hsecond : readSource Reader.program k (below (newlines first + 1) second) = (.ok rest, m)) :
    readSource Reader.program n (first ++ ending ++ second) = (.ok (program ++ rest), m) := by
  obtain ⟨hfaults, hderives⟩ := readSource_iff_derives.mp hfirst
  obtain ⟨hfaultsBelow, hmoved⟩ := readSource_iff_derives.mp hsecond
  obtain ⟨hbelow, htokensBelow⟩ := scan_below (newlines first + 1) second
  obtain ⟨hfaultsJoined, htokens⟩ := scan_joined hending hfaults (hbelow.mp hfaultsBelow)
  refine readSource_iff_derives.mpr ⟨hfaultsJoined, ?_⟩
  rw [htokens, ← htokensBelow]
  rw [scan_tokens] at hderives
  generalize hwhole : body first ++ [_] = whole at hderives
  cases hderives with
  | program hdeclarations _ =>
      obtain ⟨rfl, -⟩ := List.append_singleton_inj.mp hwhole
      generalize (scan (below (newlines first + 1) second)).tokens = others at hmoved ⊢
      cases hmoved with
      | program hdeclarationsRest hmarker =>
          rw [← List.append_assoc]
          exact .program (derives_append hdeclarations hdeclarationsRest) hmarker

/-! ### Resolving -/

/-- The lines of a program make no difference to its side table. -/
theorem resolve_below {tokens : List Token} {lines : Nat} {program' : List Stmt}
    (h : AlikeStmts (treeLink tokens lines 0) program program')
    (hresolve : resolve program = .ok table) :
    resolve program' = .ok table := by
  obtain ⟨hfaults, rfl⟩ := Lexical.resolve_eq_ok_iff.mp hresolve
  have hfindings : AlikeFindings _ (findings program) (findings program') :=
    (alike_inStmts h false []).1
  have hentries : List.Forall₂ (fun a b => a = b) (findings program).entries
      (findings program').entries := by
    apply hfindings.entries.imp
    rintro ⟨id, distance⟩ ⟨id', distance'⟩ ⟨⟨k, hid, hid'⟩, hdistance⟩
    exact Prod.ext (hid.trans hid'.symm) hdistance
  rw [List.forall₂_eq_eq_eq] at hentries
  rw [hentries]
  exact Lexical.resolve_eq_ok_iff.mpr ⟨hfindings.faults_iff.mp hfaults, rfl⟩

/-- The side table has the entries of both programs. -/
theorem resolve_joined (hformed : FormedStmts program) (hresolve : resolve program = .ok table)
    (hresolveRest : resolve rest = .ok tableRest) :
    ∃ joined, resolve (program ++ rest) = .ok joined ∧ Adds tableRest table joined := by
  obtain ⟨hfaults, rfl⟩ := Lexical.resolve_eq_ok_iff.mp hresolve
  obtain ⟨hfaultsRest, rfl⟩ := Lexical.resolve_eq_ok_iff.mp hresolveRest
  have hboth := findings_append hformed rest
  refine ⟨_, Lexical.resolve_eq_ok_iff.mpr ⟨?_, rfl⟩, fun id => ?_⟩
  · rw [hboth]
    exact List.append_eq_nil_iff.mpr ⟨hfaults, hfaultsRest⟩
  · have hentries : (findings (program ++ rest)).entries =
        (findings program).entries ++ (findings rest).entries := by
      rw [hboth]
      rfl
    simp only [hentries, Table.ofList, Table.distance?_enter, Table.distance?_empty,
      List.reverse_append, List.lookup_append, Option.or_none]

/-- Two accepted sources, read and resolved one after the other and as one. -/
structure Prepared (n : Nat) (first ending second : String) where
  program : List Stmt
  rest : List Stmt
  between : Nat
  last : Nat
  table : Table
  tableRest : Table
  joined : Table
  readFirst : readSource Reader.program n first = (.ok program, between)
  readSecond :
    readSource Reader.program between (below (newlines first + 1) second) = (.ok rest, last)
  readBoth : readSource Reader.program n (first ++ ending ++ second) = (.ok (program ++ rest), last)
  resolveFirst : resolve program = .ok table
  resolveSecond : resolve rest = .ok tableRest
  resolveBoth : resolve (program ++ rest) = .ok joined
  adds : Adds tableRest table joined

theorem prepared (hending : IsEnding ending.toList) (hfirst : Accepted first)
    (hsecond : Accepted second) (n : Nat) : Nonempty (Prepared n first ending second) := by
  obtain ⟨program, between, table, hread, hresolve⟩ := (accepted_iff n).mp hfirst
  obtain ⟨alone, last, tableRest, hreadAlone, hresolveAlone⟩ := (accepted_iff between).mp hsecond
  obtain ⟨rest, hreadRest, halike⟩ := readSource_below (newlines first + 1) hreadAlone
  have hresolveRest := resolve_below halike hresolveAlone
  have hderives := (readSource_iff_derives.mp hread).2
  obtain ⟨joined, hresolveJoined, hadds⟩ :=
    resolve_joined (derives_wellMade hderives).1 hresolve hresolveRest
  exact ⟨⟨program, rest, between, last, table, tableRest, joined, hread, hreadRest,
    readSource_joined hending hread hreadRest, hresolve, hresolveRest, hresolveJoined, hadds⟩⟩

theorem accepted_joined (hending : IsEnding ending.toList) (hfirst : Accepted first)
    (hsecond : Accepted second) : Accepted (first ++ ending ++ second) := by
  obtain ⟨both⟩ := prepared hending hfirst hsecond 0
  exact ⟨_, _, _, both.readBoth, both.resolveBoth⟩

theorem accepted_below (lines : Nat) (h : Accepted source) : Accepted (below lines source) := by
  obtain ⟨program, m, table, hread, hresolve⟩ := h
  obtain ⟨program', hread', halike⟩ := readSource_below lines hread
  exact ⟨program', m, table, hread', resolve_below halike hresolve⟩

end Static

end Scriptlet.Incremental
