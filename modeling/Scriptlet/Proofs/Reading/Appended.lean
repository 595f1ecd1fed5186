/-
Complete programs one behind the other.

A rule stops behind the last token of its phrase whatever follows, an `else` aside, which an
`if` would take.  So behind the declarations of a program the reader stands where it would stand
at the beginning of what follows, and the faults found from there on, and the places where
reading goes on behind them, have nothing to do with the program before.
-/
import Scriptlet.Proofs.Incremental.Reading
import Scriptlet.Proofs.Reading.Bounds
import Scriptlet.Proofs.Reading.Total

namespace Scriptlet

/-- The same behind statements that were read before. -/
def Parsed.prepend (body : List Stmt) (parsed : Parsed (List Stmt)) : Parsed (List Stmt) :=
  ⟨parsed.result.map (body ++ ·), parsed.issued⟩

namespace Reading

open Grammar Reader

/-- No `else` comes up behind a declaration if none stands behind all of them. -/
theorem stops_else_append {n m : Nat} {tokens rest : List Token} {body : List Stmt}
    (h : Derives true .declarations n tokens body m) (helse : Stops [.keyword .else_] rest) :
    Stops [.keyword .else_] (tokens ++ rest) := by
  cases hrest : tokens with
  | nil => exact helse
  | cons first others =>
      have hnone : ∀ kind : Kind, false = true → kind = .mark .rightBrace := nofun
      have hstops : Stops [.keyword .else_] (tokens ++ []) :=
        stops_else_of_declarations h hnone (Or.inl rfl)
      rw [List.append_nil, hrest, stops_cons] at hstops
      exact stops_cons.mpr hstops

/-- Once the declarations are read, reading goes on with what stands behind them. -/
theorem declarationsUntil_append {n m : Nat} {tokens rest : List Token} {body : List Stmt}
    (h : Derives true .declarations n tokens body m) (helse : Stops [.keyword .else_] rest)
    {bound rounds : Nat} (hbound : (tokens ++ rest).length < bound)
    (hrounds : (tokens ++ rest).length < rounds) (endLine : Nat) (faults : List Diagnostic) :
    ∃ left, rest.length < left ∧
      declarationsUntil (fun _ => false) (declaration bound) rounds
          ⟨tokens ++ rest, endLine, n, faults⟩ =
        ((body ++ ·) <$> declarationsUntil (fun _ => false) (declaration bound) left)
          ⟨rest, endLine, m, faults⟩ := by
  induction body generalizing n tokens rounds with
  | nil =>
      cases h
      refine ⟨rounds, hrounds, ?_⟩
      simp only [List.nil_append, id_map']
  | cons first body ih =>
      cases h with
      | @declarations _ k _ tokens others _ _ hhead htail =>
      obtain ⟨rounds, rfl⟩ := Nat.exists_eq_add_one_of_ne_zero (Nat.ne_zero_of_lt hrounds)
      have hopens : StartsIn opensDeclaration tokens := derives_opens hhead
      obtain ⟨token, htoken, -⟩ := hopens.append (others ++ rest)
      have hlength : 0 < tokens.length := by
        obtain ⟨token, htoken, -⟩ := hopens
        exact List.length_pos_of_mem (List.mem_of_mem_head? htoken)
      rw [List.append_assoc] at hbound hrounds ⊢
      have hfirst := derives_complete hhead bound (others ++ rest) (stops_else_append htail helse)
        hbound endLine faults
      rw [List.length_append] at hbound hrounds
      have hothers : (others ++ rest).length < rounds := by omega
      obtain ⟨left, hleft, hlater⟩ := ih htail (by omega) hothers
      refine ⟨left, hleft, ?_⟩
      rw [declarationsUntil_apply, htoken, if_neg (by simp), bind_apply, hfirst]
      dsimp only
      rw [bind_apply, hlater, map_apply, map_apply]
      cases declarationsUntil _ _ left _ with
      | ok body after => rfl
      | error reason after => rfl

/-- The bounds are those of all the tokens, and do as well as those of what is left of them. -/
theorem program_append {n m : Nat} {tokens rest : List Token} {body : List Stmt}
    (h : Derives true .declarations n tokens body m) (helse : Stops [.keyword .else_] rest)
    (endLine : Nat) :
    program ((tokens ++ rest).length + 1) ⟨tokens ++ rest, endLine, n, []⟩ =
      ((body ++ ·) <$> program (rest.length + 1)) ⟨rest, endLine, m, []⟩ := by
  obtain ⟨left, hleft, hrun⟩ := declarationsUntil_append h helse (Nat.lt_succ_self _)
    (Nat.lt_succ_self _) endLine []
  have hle : rest.length + 1 ≤ (tokens ++ rest).length + 1 := by
    rw [List.length_append]
    omega
  have hmember := (prolonged_statement_declaration hle).2
  have hsame := (hmember.declarationsUntil (fun _ => false) hleft).eq
    (spends_program (rest.length + 1)) (Nat.lt_succ_self (Cursor.mk rest endLine m []).rest.length)
  rw [program, hrun, map_apply, map_apply, hsame]
  rfl

/-- The end marker is the one of the tokens behind, and so is what stands before it. -/
theorem ofTokens_appended {before behind : List Token}
    (hopen : ∀ token ∈ before, token.kind ≠ .endOfInput) (hsome : behind ≠ []) (n m : Nat) :
    Cursor.ofTokens (before ++ behind) n =
      ⟨before ++ (Cursor.ofTokens behind m).rest, (Cursor.ofTokens behind m).endLine, n, []⟩ := by
  have hnot : ∀ token ∈ before, (!token.kind.isEndOfInput) = true := by
    intro token htoken
    rw [isEndOfInput_eq_false (hopen token htoken), Bool.not_false]
  have hlast : (before ++ behind).getLast? = behind.getLast? := by
    rw [List.getLast?_append, List.getLast?_eq_some_getLast hsome, Option.some_or]
  simp only [Cursor.ofTokens, List.takeWhile_append_of_pos hnot, List.dropWhile_append_of_pos hnot,
    hlast]

/-- A program without end marker is derived from the grammar as it stands. -/
theorem derives_of_open {tokens : List Token} {n m : Nat} {body : List Stmt}
    (hopen : ∀ token ∈ tokens, token.kind ≠ .endOfInput)
    (h : Reader.parse program tokens n = ⟨.ok body, m⟩) :
    Derives true .declarations n tokens body m := by
  obtain ⟨marker, hsplit⟩ := split_of_open hopen
  have hmarker := Kind.isEndOfInput_iff.mp hsplit.marker_
  have hcursor : Cursor.ofTokens (tokens ++ [marker]) n = Cursor.ofTokens tokens n :=
    (ofTokens_append hmarker hopen n).trans (hsplit.cursor n).symm
  rw [Reader.parse, ← hcursor] at h
  have hderives := (parse_program_iff ⟨tokens, marker, rfl, hmarker, hopen⟩ body).mp h
  generalize hclosed : tokens ++ [marker] = closed at hderives
  cases hderives with
  | program hderives _ =>
      obtain ⟨rfl, -⟩ := List.append_singleton_inj.mp hclosed
      exact hderives

/-- Reading goes on behind a complete program as it would begin there. -/
theorem parse_append {before behind : List Token} {n m : Nat} {body : List Stmt}
    (hopen : ∀ token ∈ before, token.kind ≠ .endOfInput)
    (h : Reader.parse program before n = ⟨.ok body, m⟩)
    (helse : Stops [.keyword .else_] behind) :
    Reader.parse program (before ++ behind) n =
      (Reader.parse program behind m).prepend body := by
  by_cases hsome : behind = []
  · subst hsome
    rw [List.append_nil, h]
    simp [Parsed.prepend, Reader.parse, Cursor.ofTokens, program, declarationsUntil, looksAt,
      atEnd, Except.map]
  have helse' : Stops [.keyword .else_] (Cursor.ofTokens behind m).rest := by
    intro token htoken
    have hhead : (behind.takeWhile fun token => !token.kind.isEndOfInput).head? = some token :=
      htoken
    rw [List.head?_takeWhile, Option.filter_eq_some_iff] at hhead
    exact helse token hhead.1
  have hrun := program_append (derives_of_open hopen h) helse' (Cursor.ofTokens behind m).endLine
  have hstart : Cursor.mk (Cursor.ofTokens behind m).rest (Cursor.ofTokens behind m).endLine m [] =
      Cursor.ofTokens behind m := rfl
  rw [map_apply, hstart] at hrun
  unfold Reader.parse
  rw [ofTokens_appended hopen hsome n m]
  dsimp only
  rw [hrun]
  generalize program _ (Cursor.ofTokens behind m) = result
  cases result with
  | ok value stop =>
      dsimp only [Parsed.prepend]
      split
      · rfl
      · rfl
  | error halt stop =>
      cases halt with
      | fault diagnostic => rfl
      | exhausted => rfl

/-- Identities are words, so whole rounds of them make no difference. -/
theorem ofCount_add_rounds (k rounds : Nat) :
    NodeId.ofCount (k + UInt32.size * rounds) = .ofCount k := by
  apply UInt32.toNat_inj.mp
  simp only [NodeId.ofCount, UInt32.toNat_ofNat']
  exact Nat.add_mul_mod_self_left k (2 ^ 32) rounds

theorem parse_wrapped (tokens : List Token) (m : Nat) :
    (Reader.parse program tokens (NodeId.ofCount m).toNat).result =
        (Reader.parse program tokens m).result ∧
      (Reader.parse program tokens (NodeId.ofCount m).toNat).nextId =
        (Reader.parse program tokens m).nextId := by
  have hrounds : m = (NodeId.ofCount m).toNat + UInt32.size * (m / UInt32.size) := by
    simp only [NodeId.ofCount, UInt32.toNat_ofNat']
    exact (Nat.mod_add_div m UInt32.size).symm
  have hsame : Incremental.SameParsed (.behind (UInt32.size * (m / UInt32.size))) (.stmts _)
      (NodeId.ofCount m).toNat (Reader.parse program tokens (NodeId.ofCount m).toNat)
      (Reader.parse program tokens ((NodeId.ofCount m).toNat +
        UInt32.size * (m / UInt32.size))) :=
    Incremental.sameParsed_behind Incremental.steady_program tokens _
  rw [← hrounds] at hsame
  generalize Reader.parse program tokens (NodeId.ofCount m).toNat = wrapped at hsame ⊢
  generalize Reader.parse program tokens m = parsed at hsame ⊢
  cases hsame with
  | @ok body body' stop _ halike =>
      have hids : ∀ id id', (Incremental.laterLink (UInt32.size * (m / UInt32.size))).ids id id' →
          id = id' := by
        rintro _ _ ⟨k, rfl, rfl⟩
        exact (ofCount_add_rounds k _).symm
      have hbody : body = body' := halike.eq (fun _ _ h => h.symm) hids
      exact ⟨congrArg Except.ok hbody, (ofCount_add_rounds stop _).symm⟩
  | error _ hfaults =>
      obtain rfl := Incremental.forall₂_sameFault_iff.mp hfaults
      exact ⟨rfl, (ofCount_add_rounds _ _).symm⟩

/-- What stands behind a complete program is read as if it stood alone, from the next identity
on: its statements come behind those of the program, and its faults are all there are. -/
theorem parseProgram_append {before behind : List Token} {firstId : NodeId} {body : List Stmt}
    (hopen : ∀ token ∈ before, token.kind ≠ .endOfInput)
    (hbody : (parseProgram before firstId).result = .ok body)
    (helse : Stops [.keyword .else_] behind) :
    (parseProgram (before ++ behind) firstId).result =
        (parseProgram behind (parseProgram before firstId).nextId).result.map (body ++ ·) ∧
      (parseProgram (before ++ behind) firstId).nextId =
        (parseProgram behind (parseProgram before firstId).nextId).nextId := by
  have hjoined := parse_append hopen (parsed_eq hbody) helse
  obtain ⟨hresult, hnext⟩ := parse_wrapped behind (parseProgram before firstId).issued
  constructor
  · exact (congrArg Parsed.result hjoined).trans (congrArg (Except.map _) hresult).symm
  · exact (congrArg Parsed.nextId hjoined).trans hnext.symm

/-- `if (a) b;` -/
def loneBranch : List Token :=
  [⟨.keyword .if_, "if", 1⟩, ⟨.mark .leftParen, "(", 1⟩, ⟨.identifier, "a", 1⟩,
    ⟨.mark .rightParen, ")", 1⟩, ⟨.identifier, "b", 1⟩, ⟨.mark .semicolon, ";", 1⟩]

/-- `print ; c;` -/
def emptyPrint : List Token :=
  [⟨.keyword .print_, "print", 2⟩, ⟨.mark .semicolon, ";", 2⟩, ⟨.identifier, "c", 2⟩,
    ⟨.mark .semicolon, ";", 2⟩]

/-- Behind a branch that could go on, the fault of a later line is the only one. -/
theorem parseProgram_append_emptyPrint :
    (∀ token ∈ loneBranch, token.kind ≠ .endOfInput) ∧ Stops [.keyword .else_] emptyPrint ∧
      (∃ body, (parseProgram loneBranch 0).result = .ok body) ∧
        (parseProgram (loneBranch ++ emptyPrint) 0).result =
          .error [.grammar 2 (.token ";") .expression] := by
  have hopen : ∀ token ∈ loneBranch, token.kind ≠ .endOfInput := by simp [loneBranch]
  have helse : Stops [.keyword .else_] emptyPrint := by simp [emptyPrint, stops_cons]
  have hshape : (parseProgram loneBranch 0).result.toOption.any (fun _ => true) = true := by
    decide +kernel
  obtain ⟨body, hbody, -⟩ := ok_of_any hshape
  refine ⟨hopen, helse, ⟨body, hbody⟩, ?_⟩
  rw [(parseProgram_append hopen hbody helse).1]
  rfl

end Reading

end Scriptlet
