/-
Simple statements one behind the other, right or wrong.

A fault in a simple statement is recovered from inside of it, or at its semicolon, and what stands
behind was not looked at by then.  So each of the statements has the faults that it has alone.
-/
import Scriptlet.Proofs.Reading.Appended
import Scriptlet.Proofs.Reading.Confined

namespace Scriptlet

namespace Reading

open Grammar Reader

/-- An end marker, whatever stands behind it, or nothing at all. -/
def AtEnd (tokens : List Token) : Prop :=
  ∀ token ∈ tokens.head?, token.kind = .endOfInput

/-- What is left of a segment while its declarations are read. -/
def Unread (left : List Token) : Prop :=
  Closed left ∨ Segment left

section Segments

variable {tokens rest tail : List Token} {token skipped : Token} {bound : Nat}

theorem Segment.ne_nil (h : Segment tokens) : tokens ≠ [] := by
  cases h with
  | last _ _ => exact List.cons_ne_nil _ _
  | cons _ _ _ _ => exact List.cons_ne_nil _ _

/-- The semicolon is the last token and the only one, and nothing else is forbidden before it. -/
theorem segment_iff :
    Segment tokens ↔ ∃ before token, tokens = before ++ [token] ∧ token.kind = .mark .semicolon ∧
      ∀ other ∈ before, isInner other.kind = true := by
  constructor
  · intro h
    induction h with
    | last token hsemicolon => exact ⟨[], token, rfl, hsemicolon, nofun⟩
    | cons token rest hinner _ ih =>
        obtain ⟨before, last, rfl, hlast, hbefore⟩ := ih
        exact ⟨token :: before, last, rfl, hlast, List.forall_mem_cons.mpr ⟨hinner, hbefore⟩⟩
  · rintro ⟨before, last, rfl, hlast, hbefore⟩
    induction before with
    | nil => exact .last last hlast
    | cons token before ih =>
        obtain ⟨hinner, hothers⟩ := List.forall_mem_cons.mp hbefore
        exact .cons token _ hinner (ih hothers)

theorem Segment.not_endOfInput (h : Segment tokens) :
    ∀ token ∈ tokens, token.kind ≠ .endOfInput := by
  induction h with
  | last token hsemicolon =>
      intro other hother hend
      rw [List.mem_singleton.mp hother, hsemicolon] at hend
      cases hend
  | cons token rest hinner _ ih =>
      refine List.forall_mem_cons.mpr ⟨fun hend => ?_, ih⟩
      rw [hend] at hinner
      cases hinner

theorem Segment.stops (h : Segment tokens) : Stops [.keyword .else_] tokens := by
  cases h with
  | last token hsemicolon =>
      refine stops_cons.mpr fun helse => ?_
      rw [List.mem_singleton.mp helse] at hsemicolon
      cases hsemicolon
  | cons token rest hinner _ =>
      refine stops_cons.mpr fun helse => ?_
      rw [List.mem_singleton.mp helse] at hinner
      cases hinner

theorem stops_flatten {segments : List (List Token)} (h : ∀ segment ∈ segments, Segment segment) :
    Stops [.keyword .else_] segments.flatten := by
  cases segments with
  | nil => exact stops_nil
  | cons segment segments =>
      have hsegment := h segment List.mem_cons_self
      obtain ⟨token, rest, rfl⟩ := List.exists_cons_of_ne_nil hsegment.ne_nil
      exact stops_cons.mpr (stops_cons.mp hsegment.stops)

/-- The end marker of a list adds its line only. -/
theorem ofTokens_atEnd (hopen : ∀ token ∈ tokens, token.kind ≠ .endOfInput) (hend : AtEnd tail)
    (n : Nat) : ∃ endLine, Cursor.ofTokens (tokens ++ tail) n = ⟨tokens, endLine, n, []⟩ := by
  cases tail with
  | nil =>
      obtain ⟨marker, hsplit⟩ := split_of_open hopen
      exact ⟨marker.line, by rw [List.append_nil, hsplit.cursor]⟩
  | cons marker behind =>
      have hmarker : marker.kind = .endOfInput := hend marker rfl
      exact ⟨marker.line, ofTokens_append hmarker hopen n⟩

/-! ### Recovery -/

/-- Right behind a semicolon, reading goes on whatever stands there. -/
theorem boundary_semicolon (h : skipped.kind = .mark .semicolon) (rest : List Token) :
    Cursor.boundary skipped rest = rest := by
  cases rest with
  | nil => rfl
  | cons token rest =>
      have hmark : skipped.kind.isMark .semicolon = true := Kind.isMark_iff.mpr h
      rw [Cursor.boundary, hmark, Bool.true_or, if_pos rfl]

/-- The next boundary is inside the segment, or right behind it. -/
theorem Segment.boundary (h : Segment rest) (skipped : Token) :
    ∃ left, Unread left ∧ left.length ≤ rest.length ∧
      ∀ tail, Cursor.boundary skipped (rest ++ tail) = left ++ tail := by
  induction h generalizing skipped with
  | last token hsemicolon =>
      by_cases hstop : (skipped.kind.isMark .semicolon || Cursor.startsStatement token.kind) = true
      · exact ⟨[token], Or.inr (.last token hsemicolon), Nat.le_refl _, fun tail => if_pos hstop⟩
      · refine ⟨[], Or.inl rfl, Nat.zero_le _, fun tail => ?_⟩
        have hnext := boundary_semicolon hsemicolon tail
        exact (if_neg hstop).trans hnext
  | cons token rest hinner hrest ih =>
      by_cases hstop : (skipped.kind.isMark .semicolon || Cursor.startsStatement token.kind) = true
      · exact ⟨token :: rest, Or.inr (.cons token rest hinner hrest), Nat.le_refl _,
          fun tail => if_pos hstop⟩
      · obtain ⟨left, hleft, hlength, hboundary⟩ := ih token
        exact ⟨left, hleft, Nat.le_succ_of_le hlength,
          fun tail => (if_neg hstop).trans (hboundary tail)⟩

/-- After a fault inside a segment, reading goes on with fewer tokens of it, or right behind. -/
theorem Segment.resume (h : Segment tokens) :
    ∃ left, Unread left ∧ left.length < tokens.length ∧
      ∀ tail, Cursor.resume (tokens ++ tail) = left ++ tail := by
  cases h with
  | last token hsemicolon =>
      exact ⟨[], Or.inl rfl, Nat.zero_lt_one, fun tail => boundary_semicolon hsemicolon tail⟩
  | cons token rest hinner hrest =>
      obtain ⟨left, hleft, hlength, hboundary⟩ := hrest.boundary token
      exact ⟨left, hleft, Nat.lt_succ_of_le hlength, hboundary⟩

/-! ### Declarations -/

/-- What a declaration does that begins inside a segment, it does whatever stands behind. -/
theorem declaration_segment (h : Segment tokens) (hbound : tokens.length < bound) (n : Nat) :
    ∃ result left m new, Unread left ∧ left.length < tokens.length ∧
      ∀ tail, Stops [.keyword .else_] tail → ∀ endLine faults,
        declaration bound ⟨tokens ++ tail, endLine, n, faults⟩ =
          .ok result ⟨left ++ tail, endLine, m, faults ++ new⟩ := by
  obtain ⟨bound, rfl⟩ := Nat.exists_eq_add_one_of_ne_zero (Nat.ne_zero_of_lt hbound)
  obtain ⟨hstatement, hdeclaration⟩ := spends_statement_declaration bound
  have hrule : Spends 1 (bound + 1)
      (declarationRule (bound + 1) (statement bound) (declaration bound)) :=
    statementLaws_spends.declarationRule hdeclaration hstatement (Nat.le_refl _) (Nat.le_refl _)
  have hspent := hrule ⟨tokens ++ [], 0, n, []⟩
  rw [List.append_nil] at hspent
  cases (confined_statement bound).declarationRule (bound + 1) tokens h n with
  | ok value left m new hleaves hrun =>
      obtain rfl : left = [] := hleaves
      refine ⟨some value, [], m, new, Or.inl rfl, List.length_pos_iff.mpr h.ne_nil, ?_⟩
      intro tail htail endLine faults
      rw [declaration, recover, hrun tail htail]
  | error reason left m new hinside hrun =>
      have hhere := hrun [] stops_nil 0 []
      rw [List.append_nil, List.append_nil] at hhere
      have hend := hspent hbound
      rw [hhere] at hend
      cases reason with
      | fault diagnostic =>
          have hlength : left.length ≤ tokens.length := hend
          obtain ⟨left', hleft', hfewer, hresume⟩ := hinside.resume
          refine ⟨none, left', m, new ++ [diagnostic], hleft',
            Nat.lt_of_lt_of_le hfewer hlength, ?_⟩
          intro tail htail endLine faults
          rw [declaration, recover, hrun tail htail]
          dsimp only
          rw [hresume, List.append_assoc]
      | exhausted => exact hend.elim

/-- Nothing is read where no token is left. -/
theorem declarationsUntil_nil (stop : Kind → Bool) (member : Reader (Option Stmt))
    (rounds endLine n : Nat) (faults : List Diagnostic) :
    declarationsUntil stop member (rounds + 1) ⟨[], endLine, n, faults⟩ =
      .ok [] ⟨[], endLine, n, faults⟩ := by
  rw [declarationsUntil_apply]
  exact if_pos rfl

/-- Once a segment is read, reading goes on with what stands behind it. -/
theorem declarationsUntil_unread (h : Unread tokens) (hbound : tokens.length < bound) (n : Nat) :
    ∃ body rounds m new, rounds ≤ tokens.length ∧
      ∀ later tail, Stops [.keyword .else_] tail → ∀ endLine faults,
        declarationsUntil (fun _ => false) (declaration bound) (later + rounds)
            ⟨tokens ++ tail, endLine, n, faults⟩ =
          ((body ++ ·) <$> declarationsUntil (fun _ => false) (declaration bound) later)
            ⟨tail, endLine, m, faults ++ new⟩ := by
  induction hlength : tokens.length using Nat.strongRecOn generalizing tokens n with
  | ind length ih =>
      rcases h with rfl | hsegment
      · refine ⟨[], 0, n, [], Nat.zero_le _, fun later tail _ endLine faults => ?_⟩
        simp only [List.nil_append, List.append_nil, Nat.add_zero, id_map']
      · obtain ⟨first, left, k, new, hleft, hfewer, hfirst⟩ :=
          declaration_segment hsegment hbound n
        obtain ⟨body, rounds, m, new', hrounds, hothers⟩ :=
          ih left.length (hlength ▸ hfewer) hleft (Nat.lt_trans hfewer hbound) k rfl
        refine ⟨first.toList ++ body, rounds + 1, m, new ++ new', by omega, ?_⟩
        intro later tail htail endLine faults
        obtain ⟨token, htoken⟩ : ∃ token, (tokens ++ tail).head? = some token := by
          obtain ⟨token, rest, rfl⟩ := List.exists_cons_of_ne_nil hsegment.ne_nil
          exact ⟨token, rfl⟩
        rw [← Nat.add_assoc, declarationsUntil_apply, htoken, if_neg (by simp), bind_apply,
          hfirst tail htail]
        dsimp only
        rw [bind_apply, hothers later tail htail, map_apply, map_apply, List.append_assoc]
        cases declarationsUntil _ _ later _ with
        | ok rest after => simp only [pure_apply, List.append_assoc]
        | error reason after => rfl

/-! ### Faults -/

/-- The faults do not depend on the identities handed out before. -/
theorem faults_parse_program (tokens : List Token) (n m : Nat) :
    (Reader.parse program tokens n).faults = (Reader.parse program tokens m).faults := by
  have hzero : ∀ k, (Reader.parse program tokens 0).faults =
      (Reader.parse program tokens k).faults := by
    intro k
    have hsame : Incremental.SameParsed (.behind k) (.stmts _) 0 (Reader.parse program tokens 0)
        (Reader.parse program tokens (0 + k)) :=
      Incremental.sameParsed_behind Incremental.steady_program tokens 0
    rw [Nat.zero_add] at hsame
    generalize Reader.parse program tokens 0 = parsed at hsame ⊢
    generalize Reader.parse program tokens k = parsed' at hsame ⊢
    cases hsame with
    | ok _ _ => rfl
    | error _ hfaults => exact (Incremental.forall₂_sameFault_iff.mp hfaults).symm
  exact (hzero n).symm.trans (hzero m)

theorem faults_of_ok {body : List Stmt} {endLine n m : Nat} {faults : List Diagnostic}
    (hcursor : Cursor.ofTokens tokens n = ⟨rest, endLine, n, []⟩)
    (hrun : program (rest.length + 1) ⟨rest, endLine, n, []⟩ =
      .ok body ⟨[], endLine, m, faults⟩) :
    (Reader.parse program tokens n).faults = faults := by
  rw [faults_parse, hcursor, hrun]

/-- What a segment adds to the faults is what there is to report when it stands alone. -/
theorem declarationsUntil_segment (h : Segment tokens) (hbound : tokens.length < bound) (n : Nat)
    {alone : List Token} (halone : AtEnd alone) (firstId : NodeId) :
    ∃ body rounds m, rounds ≤ tokens.length ∧
      ∀ later tail, Stops [.keyword .else_] tail → ∀ endLine faults,
        declarationsUntil (fun _ => false) (declaration bound) (later + rounds)
            ⟨tokens ++ tail, endLine, n, faults⟩ =
          ((body ++ ·) <$> declarationsUntil (fun _ => false) (declaration bound) later)
            ⟨tail, endLine, m, faults ++ (parseProgram (tokens ++ alone) firstId).faults⟩ := by
  obtain ⟨body, rounds, m, new, hrounds, hrun⟩ := declarationsUntil_unread (Or.inr h) hbound n
  obtain ⟨endLine, hcursor⟩ := ofTokens_atEnd h.not_endOfInput halone n
  have hle : tokens.length + 1 ≤ bound := hbound
  have hsame := ((prolonged_statement_declaration hle).2.declarationsUntil (fun _ => false) hle).eq
    (spends_program (tokens.length + 1))
    (Nat.lt_succ_self (Cursor.mk tokens endLine n []).rest.length)
  obtain ⟨later, hlater⟩ : ∃ later, bound = later + 1 + rounds :=
    ⟨bound - rounds - 1, by omega⟩
  have hnew := hrun (later + 1) [] stops_nil endLine []
  rw [List.append_nil, ← hlater, hsame, List.nil_append, map_apply, declarationsUntil_nil] at hnew
  have hfaults : (parseProgram (tokens ++ alone) firstId).faults = new :=
    (faults_parse_program _ _ n).trans (faults_of_ok hcursor hnew)
  rw [hfaults]
  exact ⟨body, rounds, m, hrounds, hrun⟩

theorem declarationsUntil_segments {segments : List (List Token)}
    (h : ∀ segment ∈ segments, Segment segment) (hbound : segments.flatten.length < bound)
    {rounds : Nat} (hrounds : segments.flatten.length < rounds) (n : Nat) {alone : List Token}
    (halone : AtEnd alone) (firstId : NodeId) (endLine : Nat) (faults : List Diagnostic) :
    ∃ body m,
      declarationsUntil (fun _ => false) (declaration bound) rounds
          ⟨segments.flatten, endLine, n, faults⟩ =
        .ok body ⟨[], endLine, m, faults ++ segments.flatMap fun segment =>
          (parseProgram (segment ++ alone) firstId).faults⟩ := by
  induction segments generalizing rounds n faults with
  | nil =>
      obtain ⟨rounds, rfl⟩ := Nat.exists_eq_add_one_of_ne_zero (Nat.ne_zero_of_lt hrounds)
      exact ⟨[], n, by rw [List.flatMap_nil, List.append_nil]; exact declarationsUntil_nil ..⟩
  | cons segment segments ih =>
      obtain ⟨hsegment, hsegments⟩ := List.forall_mem_cons.mp h
      rw [List.flatten_cons, List.length_append] at hbound hrounds
      have hfirst : segment.length < bound := by omega
      obtain ⟨body, used, k, hused, hrun⟩ :=
        declarationsUntil_segment hsegment hfirst n halone firstId
      obtain ⟨later, rfl⟩ : ∃ later, rounds = later + used := ⟨rounds - used, by omega⟩
      have hless : segments.flatten.length < later := by omega
      obtain ⟨others, m, hothers⟩ := ih hsegments (by omega) hless k
        (faults ++ (parseProgram (segment ++ alone) firstId).faults)
      refine ⟨body ++ others, m, ?_⟩
      rw [List.flatten_cons, hrun later _ (stops_flatten hsegments), map_apply, hothers,
        List.flatMap_cons, List.append_assoc]

/-- Recovery is local to a simple statement: the faults of segments one behind the other are those
of each segment alone, in their order, message, line and location included. -/
theorem faults_flatten {segments : List (List Token)}
    (h : ∀ segment ∈ segments, Segment segment) {closing alone : List Token}
    (hclosing : AtEnd closing) (halone : AtEnd alone) (firstId other : NodeId) :
    (parseProgram (segments.flatten ++ closing) firstId).faults =
      segments.flatMap fun segment => (parseProgram (segment ++ alone) other).faults := by
  have hopen : ∀ token ∈ segments.flatten, token.kind ≠ .endOfInput := by
    intro token htoken
    obtain ⟨segment, hsegment, htoken⟩ := List.mem_flatten.mp htoken
    exact (h segment hsegment).not_endOfInput token htoken
  obtain ⟨endLine, hcursor⟩ := ofTokens_atEnd hopen hclosing firstId.toNat
  obtain ⟨body, m, hrun⟩ := declarationsUntil_segments h (Nat.lt_succ_self _) (Nat.lt_succ_self _)
    firstId.toNat halone other endLine []
  rw [List.nil_append] at hrun
  exact faults_of_ok hcursor hrun

end Segments

/-- `a b if (c) ;` -/
def strayName : List Token :=
  [⟨.identifier, "a", 1⟩, ⟨.identifier, "b", 1⟩, ⟨.keyword .if_, "if", 1⟩,
    ⟨.mark .leftParen, "(", 1⟩, ⟨.identifier, "c", 1⟩, ⟨.mark .rightParen, ")", 1⟩,
    ⟨.mark .semicolon, ";", 1⟩]

/-- `true = d;` -/
def constantTarget : List Token :=
  [⟨.keyword .true_, "true", 2⟩, ⟨.mark .equal, "=", 2⟩, ⟨.identifier, "d", 2⟩,
    ⟨.mark .semicolon, ";", 2⟩]

/-- Two faults in one segment, the second at a semicolon behind a keyword where reading went on,
and a fault of the next segment that does not stop its rule. -/
theorem faults_flatten_strayName :
    (∀ segment ∈ [strayName, constantTarget], Segment segment) ∧
      AtEnd [⟨.endOfInput, "", 2⟩] ∧ AtEnd [] ∧
        (parseProgram ([strayName, constantTarget].flatten ++ [⟨.endOfInput, "", 2⟩]) 0).faults =
          [.grammar 1 (.token "b") .semicolonAfterExpression, .grammar 1 (.token ";") .expression,
            .grammar 2 (.token "=") .assignmentTarget] := by
  have hfirst : Segment strayName :=
    segment_iff.mpr ⟨strayName.dropLast, _, rfl, rfl, by decide⟩
  have hsecond : Segment constantTarget :=
    segment_iff.mpr ⟨constantTarget.dropLast, _, rfl, rfl, by decide⟩
  have hsegments : ∀ segment ∈ [strayName, constantTarget], Segment segment := by
    simp [hfirst, hsecond]
  have hclosing : AtEnd [⟨.endOfInput, "", 2⟩] := by simp [AtEnd]
  have halone : AtEnd [] := by simp [AtEnd]
  refine ⟨hsegments, hclosing, halone, ?_⟩
  rw [faults_flatten hsegments hclosing halone 0 7]
  rfl

end Reading

end Scriptlet
