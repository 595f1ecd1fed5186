/-
How many faults follow where one token of a program is missing.

Behind the gap reading goes on at most three times before it is among whole declarations again, and
one equals sign may have lost its target.  After that only what began before the gap leads to
faults: the braces of the blocks that are open there, and the branches.  No number is enough for
all programs: where a semicolon is missing before the end of nested blocks, each of them has a
fault.
-/
import Scriptlet.Proofs.Reading.Segments
import Scriptlet.Proofs.Recovery.Ledgers
import Scriptlet.Proofs.Recovery.Strays

namespace Scriptlet.Recovery

open Grammar Reader Reading

/-! ### What is reported -/

/-- With any bound above the number of tokens, a program is read the same. -/
theorem program_bound {bound : Nat} {cursor : Cursor} (h : cursor.rest.length < bound) :
    program bound cursor = program (cursor.rest.length + 1) cursor :=
  ((prolonged_statement_declaration h).2.declarationsUntil _ h).eq (spends_program _)
    (Nat.lt_succ_self _)

/-- What was reported by the end. -/
def reports {α : Type} : EStateM.Result Halt Cursor α → List Diagnostic
  | .ok _ after => after.faults
  | .error (.fault diagnostic) after => after.faults ++ [diagnostic]
  | .error .exhausted after => after.faults

theorem faults_parseProgram {tokens rest : List Token} {firstId : NodeId} {endLine bound : Nat}
    (hcursor : Cursor.ofTokens tokens firstId.toNat = ⟨rest, endLine, firstId.toNat, []⟩)
    (hbound : rest.length < bound) :
    (parseProgram tokens firstId).faults =
      reports (program bound ⟨rest, endLine, firstId.toNat, []⟩) := by
  have hsame : program bound ⟨rest, endLine, firstId.toNat, []⟩ =
      program (rest.length + 1) ⟨rest, endLine, firstId.toNat, []⟩ := program_bound hbound
  rw [parseProgram, faults_parse, hcursor, hsame]
  rfl

section Gap

variable {ledger : Ledger} {near far other : List Token} {credit n bound : Nat}

/-- The faults that stop no rule come from tokens that lead to them. -/
theorem milds_reports_le (bound : Nat) (cursor : Cursor) (hbound : cursor.rest.length < bound) :
    milds (reports (program bound cursor)) ≤
      milds cursor.faults + countAlong earns [] cursor.rest := by
  have hearned := earns_program bound [] cursor
  have hspent := spends_program bound cursor hbound
  generalize program bound cursor = result at hearned hspent ⊢
  match result with
  | .ok body after =>
      obtain ⟨taken, hrest, hle, -⟩ := hearned
      rw [hrest]
      exact hle.trans (Nat.add_le_add_left (countAlong_le_append _ _ _) _)
  | .error (.fault diagnostic) after =>
      obtain ⟨hgrave, taken, hrest, hle⟩ := hearned
      rw [reports, milds_grave hgrave, hrest]
      exact hle.trans (Nat.add_le_add_left (countAlong_le_append _ _ _) _)
  | .error .exhausted after => exact hspent.elim

/-- If nothing is wrong with the tokens before the gap when others follow, then the ledger bounds
the faults that stop a rule when these follow. -/
theorem graves_reports_le (hbound : (near ++ far).length < bound) {endLine otherLine : Nat}
    {body : List Stmt} {after : Cursor}
    (hother : program bound ⟨near ++ other, endLine, n, []⟩ = .ok body after)
    (hclean : after.faults = [])
    (hfar : ∀ blocks : Nat, depth near = blocks → ledger.within blocks ⟨far, otherLine, n, []⟩)
    (hresumed : ∀ cursor, ledger.resumed 0 cursor → graves cursor.faults ≤ credit)
    (hthrown : ∀ cursor, ledger.thrown 0 cursor → graves cursor.faults + 1 ≤ credit) :
    graves (reports (program bound ⟨near ++ far, otherLine, n, []⟩)) ≤ credit := by
  rcases tallies_program ledger hother hclean hfar with ⟨value, last, hrun, hnone⟩ | htallies
  · rw [hrun, reports, hnone]
    exact Nat.zero_le _
  · have hspent := spends_program bound ⟨near ++ far, otherLine, n, []⟩ hbound
    generalize program bound ⟨near ++ far, otherLine, n, []⟩ = result at htallies hspent ⊢
    match result with
    | .ok body after => exact hresumed after htallies
    | .error (.fault diagnostic) after =>
        exact (graves_append_le after.faults diagnostic).trans (hthrown after htallies)
    | .error .exhausted after => exact hspent.elim

end Gap

/-! ### What is read -/

/-- The tokens that are read: those before the first end marker. -/
def readPart (tokens : List Token) : List Token :=
  tokens.takeWhile fun token => !token.kind.isEndOfInput

theorem readPart_append {before : List Token} (hopen : ∀ token ∈ before, token.kind ≠ .endOfInput)
    (behind : List Token) : readPart (before ++ behind) = before ++ readPart behind := by
  refine List.takeWhile_append_of_pos fun token htoken => ?_
  rw [isEndOfInput_eq_false (hopen token htoken)]
  rfl

theorem not_endOfInput_of_readPart {tokens : List Token} :
    ∀ token ∈ readPart tokens, token.kind ≠ .endOfInput := by
  intro token htoken hend
  have hopen := List.mem_takeWhile_imp htoken
  rw [hend] at hopen
  cases hopen

theorem derives_readPart {tokens : List Token} {firstId : NodeId} {body : List Stmt}
    (h : (parseProgram tokens firstId).result = .ok body) :
    ∃ m, Derives true .declarations firstId.toNat (readPart tokens) body m := by
  obtain ⟨endLine, hcursor⟩ : ∃ endLine, Cursor.ofTokens tokens firstId.toNat =
      ⟨readPart tokens, endLine, firstId.toNat, []⟩ := ⟨_, rfl⟩
  have hmarked : Cursor.ofTokens (readPart tokens ++ [⟨.endOfInput, "", endLine⟩]) firstId.toNat =
      Cursor.ofTokens tokens firstId.toNat :=
    (ofTokens_append rfl not_endOfInput_of_readPart _).trans hcursor.symm
  have hparsed : Reader.parse program tokens firstId.toNat = ⟨.ok body, _⟩ := parsed_eq h
  rw [Reader.parse, ← hmarked] at hparsed
  have hderives := (parse_program_iff
    ⟨readPart tokens, _, rfl, rfl, not_endOfInput_of_readPart⟩ body).mp hparsed
  generalize hclosed : readPart tokens ++ [⟨.endOfInput, "", endLine⟩] = closed at hderives
  cases hderives with
  | program hderives _ =>
      obtain ⟨rfl, -⟩ := List.append_singleton_inj.mp hclosed
      exact ⟨_, hderives⟩

/-! ### Braces that are met too early -/

def name (lexeme : String) : Token :=
  ⟨.identifier, lexeme, 1⟩

def leftParen : Token :=
  ⟨.mark .leftParen, "(", 1⟩

def rightParen : Token :=
  ⟨.mark .rightParen, ")", 1⟩

def leftBrace : Token :=
  ⟨.mark .leftBrace, "\x7b", 1⟩

def rightBrace : Token :=
  ⟨.mark .rightBrace, "\x7d", 1⟩

def semicolon : Token :=
  ⟨.mark .semicolon, ";", 1⟩

def endMarker : Token :=
  ⟨.endOfInput, "", 1⟩

def minus : Token :=
  ⟨.mark .minus, "-", 1⟩

def equals : Token :=
  ⟨.mark .equal, "=", 1⟩

/-- `for (-` -/
def heading : List Token :=
  [⟨.keyword .for_, "for", 1⟩, leftParen, minus]

/-- `a = b);;)` -/
def assigning : List Token :=
  [name "a", equals, name "b", rightParen, semicolon, semicolon, rightParen]

/-- So many blocks, one in the other, with a statement behind each. -/
def stacked : Nat → List Token
  | 0 => [name "c", semicolon]
  | count + 1 => leftBrace :: (stacked count ++ [rightBrace, name "c", semicolon])

/-- The ends of these blocks. -/
def ends : Nat → List Token
  | 0 => []
  | count + 1 => rightBrace :: name "c" :: semicolon :: ends count

/-- What stands behind `for (-(` in `for (-(a = b);;)` and the blocks. -/
def unopened (count : Nat) : List Token :=
  assigning ++ stacked count ++ [endMarker]

section Stacked

variable {bound n : Nat} {faults : List Diagnostic}

theorem stacked_eq (count : Nat) :
    stacked count = List.replicate count leftBrace ++ name "c" :: semicolon :: ends count := by
  have hsnoc : ∀ count, ends count ++ [rightBrace, name "c", semicolon] = ends (count + 1) := by
    intro count
    induction count with
    | zero => rfl
    | succ count ih => simpa [ends] using ih
  induction count with
  | zero => rfl
  | succ count ih => simp [stacked, ih, List.replicate_succ, hsnoc]

theorem derives_name (lexeme : String) (n : Nat) :
    Derives true (.expr .unary) n [name lexeme] (.variable (.ofCount n) (name lexeme)) (n + 1) :=
  (Derives.name rfl).unary_of_primary

/-- The `for` ends with the first block. -/
theorem derives_stacked (count n : Nat) :
    ∃ first rest tree others k m, stacked count = first ++ rest ∧
      Derives true (.statement false) n first tree k ∧
        Derives true .declarations k rest others m := by
  have hlast : ∀ n, Derives true (.statement false) n [name "c", semicolon] _ (n + 1) :=
    fun n => .expression (.expressionStatement (derives_name "c" n).expression_of_unary rfl)
  induction count generalizing n with
  | zero => exact ⟨_, [], _, _, _, _, rfl, hlast n, .nothing⟩
  | succ count ih =>
      obtain ⟨first, rest, tree, others, k, m, hsplit, hfirst, hrest⟩ := ih n
      have hbody := Derives.declarations (.statement hfirst) hrest
      rw [← hsplit] at hbody
      have hblock : Derives true .block n (leftBrace :: (stacked count ++ [rightBrace])) _ m :=
        .block rfl hbody rfl
      exact ⟨_, [name "c", semicolon], _, _, m, _, by simp [stacked], .blockStatement hblock,
        .declarations (.statement (hlast m)) .nothing⟩

theorem derives_unopened (count n : Nat) :
    ∃ body m, Derives true .program n (heading ++ leftParen :: unopened count) body m := by
  have hvalue : Derives true (.expr .expression) n [name "a", equals, name "b"] _ (n + 3) :=
    .tighter rfl (.assign rfl rfl (derives_name "b" (n + 1)).assignment_of_unary)
  have hgroup : Derives true (.expr .primary) n
      (leftParen :: ([name "a", equals, name "b"] ++ [rightParen])) _ _ :=
    .group rfl hvalue rfl
  have hminus : minus.IsMark .bang ∨ minus.IsMark .minus := Or.inr rfl
  have hnegated := (Derives.unary hminus hgroup.unary_of_primary).expression_of_unary
  have hinitial : Derives true .initializer n
      (minus :: leftParen :: [name "a", equals, name "b", rightParen, semicolon]) _ _ :=
    .initialExpression (.expressionStatement hnegated rfl)
  obtain ⟨first, rest, tree, others, k, m, hsplit, hfirst, hrest⟩ := derives_stacked count (n + 3)
  have hfor : Derives true (.statement false) n
      (heading ++ leftParen :: (assigning ++ first)) _ _ :=
    .for_ rfl rfl hinitial .noExpression rfl .noExpression rfl hfirst
  have hbody := Derives.declarations (.statement hfor) hrest
  have hprogram : Derives true .program n (_ ++ [endMarker]) _ m := .program hbody rfl
  have htokens : heading ++ leftParen :: (assigning ++ first) ++ rest ++ [endMarker] =
      heading ++ leftParen :: unopened count := by simp [unopened, hsplit]
  exact ⟨_, m, htokens ▸ hprogram⟩

theorem forall_mem_stacked (count : Nat) {p : Token → Prop}
    (h : ∀ token ∈ [leftBrace, name "c", semicolon, rightBrace], p token) :
    ∀ token ∈ stacked count, p token := by
  simp only [List.forall_mem_cons] at h
  obtain ⟨hopen, hname, hend, hclose, -⟩ := h
  induction count with
  | zero => simp [stacked, hname, hend]
  | succ count ih =>
      simp only [stacked, List.forall_mem_cons, List.forall_mem_append]
      exact ⟨hopen, ih, hclose, hname, hend, List.forall_mem_nil _⟩

theorem stacked_open (count : Nat) :
    ∀ token ∈ assigning ++ stacked count, token.kind ≠ .endOfInput := by
  have hstart : ∀ token ∈ assigning, token.kind ≠ .endOfInput := by
    simp [assigning, name, equals, rightParen, semicolon]
  refine List.forall_mem_append.mpr ⟨hstart, forall_mem_stacked count ?_⟩
  simp [leftBrace, name, semicolon, rightBrace]

/-- `for (-(a = b);;)` and the blocks are a program. -/
theorem unopened_accepted (count : Nat) (firstId : NodeId) :
    ∃ body, (parseProgram (heading ++ leftParen :: unopened count) firstId).result = .ok body := by
  obtain ⟨body, m, hderives⟩ := derives_unopened count firstId.toNat
  have hopen : ∀ token ∈ heading ++ leftParen :: (assigning ++ stacked count),
      token.kind ≠ .endOfInput := by
    refine List.forall_mem_append.mpr ⟨?_, List.forall_mem_cons.mpr ⟨?_, stacked_open count⟩⟩ <;>
      simp [heading, leftParen, minus]
  have hends : EndsOnce (heading ++ leftParen :: unopened count) :=
    ⟨_, endMarker, by simp [unopened], rfl, hopen⟩
  exact ⟨body, congrArg Parsed.result (parse_program_complete hends hderives)⟩

def braceFault : Diagnostic :=
  .grammar 1 (.token "\x7d") .expression

theorem declarationsUntil_none {member : Reader (Option Stmt)} {rounds : Nat} {token : Token}
    {rest : List Token} {after last : Cursor} {body : List Stmt}
    (hmember : member ⟨token :: rest, 1, n, faults⟩ = .ok none after)
    (hlater : declarationsUntil (fun _ => false) member rounds after = .ok body last) :
    declarationsUntil (fun _ => false) member (rounds + 1) ⟨token :: rest, 1, n, faults⟩ =
      .ok body last := by
  rw [declarationsUntil_apply]
  refine (if_neg Bool.false_ne_true).trans ?_
  rw [bind_apply, hmember]
  dsimp only
  rw [bind_apply, hlater]
  rfl

/-- Each brace is reported, and reading goes on behind the statement that follows it. -/
theorem declarationsUntil_ends {count rounds : Nat} (hrounds : count < rounds) :
    ∃ body, declarationsUntil (fun _ => false) (declaration (bound + 1)) rounds
        ⟨ends count, 1, n, faults⟩ =
      .ok body ⟨[], 1, n, faults ++ List.replicate count braceFault⟩ := by
  obtain ⟨rounds, rfl⟩ := Nat.exists_eq_add_one_of_ne_zero (Nat.ne_zero_of_lt hrounds)
  induction count generalizing rounds faults with
  | zero => exact ⟨[], by rw [ends, declarationsUntil_nil, List.replicate_zero, List.append_nil]⟩
  | succ count ih =>
      obtain ⟨rounds, rfl⟩ :=
        Nat.exists_eq_add_one_of_ne_zero (Nat.ne_zero_of_lt (Nat.lt_of_succ_lt_succ hrounds))
      have hmember : declaration (bound + 1) ⟨ends (count + 1), 1, n, faults⟩ =
          .ok none ⟨Cursor.boundary semicolon (ends count), 1, n, faults ++ [braceFault]⟩ := rfl
      rw [boundary_semicolon rfl] at hmember
      obtain ⟨body, hlater⟩ := ih rounds (Nat.lt_of_succ_lt_succ hrounds)
      refine ⟨body, declarationsUntil_none hmember (hlater.trans ?_)⟩
      rw [List.append_assoc, List.replicate_succ]
      rfl

theorem closings_stacked (count : Nat) : closings (stacked count) = count := by
  induction count with
  | zero => rfl
  | succ count ih =>
      simp only [stacked, closings, List.countP_cons, List.countP_append] at ih ⊢
      rw [ih]
      rfl

/-- Without the inner parenthesis four faults are found before the blocks: the target of the
assignment, the semicolon that is missing behind it, and twice the rest of the parentheses. -/
theorem length_faults_unopened (count : Nat) (firstId : NodeId) :
    (parseProgram (heading ++ unopened count) firstId).faults.length = 4 + count := by
  have hopen : ∀ token ∈ heading ++ (assigning ++ stacked count), token.kind ≠ .endOfInput := by
    refine List.forall_mem_append.mpr ⟨?_, stacked_open count⟩
    simp [heading, leftParen, minus]
  have hcursor : Cursor.ofTokens (heading ++ unopened count) firstId.toNat =
      ⟨heading ++ (assigning ++ stacked count), 1, firstId.toNat, []⟩ := by
    rw [unopened, ← List.append_assoc]
    exact ofTokens_append rfl hopen firstId.toNat
  obtain ⟨bound, hlt, hcount⟩ : ∃ bound,
      (heading ++ (assigning ++ stacked count)).length < bound + 6 ∧ count < bound + 3 :=
    ⟨(heading ++ (assigning ++ stacked count)).length + count, by omega, by omega⟩
  let found : List Diagnostic :=
    [.grammar 1 (.token "=") .assignmentTarget, .grammar 1 (.token ")") .semicolonAfterExpression,
      .grammar 1 (.token ";") .expression, .grammar 1 (.token ")") .expression]
  obtain ⟨body, hends⟩ : ∃ body, declarationsUntil (fun _ => false) (declaration (bound + 6))
      (bound + 3) ⟨ends count, 1, firstId.toNat + 2, found⟩ = .ok body _ :=
    declarationsUntil_ends hcount
  have hskip : Cursor.boundary rightParen (stacked count) = ends count := by
    rw [stacked_eq, List.append_cons]
    refine boundary_skipAll (by simp [rightParen]) (fun token htoken => ?_) rfl _
    rcases List.mem_append.mp htoken with hbrace | hname
    · rw [List.eq_of_mem_replicate hbrace]
      rfl
    · rw [List.mem_singleton.mp hname]
      rfl
  have hfirst : declaration (bound + 6)
      ⟨heading ++ (assigning ++ stacked count), 1, firstId.toNat, []⟩ =
        .ok none ⟨semicolon :: rightParen :: stacked count, 1, firstId.toNat + 2, found.take 2⟩ :=
    rfl
  have hsecond : declaration (bound + 6)
      ⟨semicolon :: rightParen :: stacked count, 1, firstId.toNat + 2, found.take 2⟩ =
        .ok none ⟨rightParen :: stacked count, 1, firstId.toNat + 2, found.take 3⟩ := rfl
  have hthird : declaration (bound + 6)
      ⟨rightParen :: stacked count, 1, firstId.toNat + 2, found.take 3⟩ =
        .ok none ⟨Cursor.boundary rightParen (stacked count), 1, firstId.toNat + 2, found⟩ := rfl
  rw [hskip] at hthird
  have hrun : program (bound + 6)
      ⟨heading ++ (assigning ++ stacked count), 1, firstId.toNat, []⟩ = _ :=
    declarationsUntil_none hfirst (declarationsUntil_none hsecond
      (declarationsUntil_none hthird hends))
  rw [faults_parseProgram hcursor hlt, hrun, reports, List.length_append, List.length_replicate]
  rfl

end Stacked

/-! ### One token less -/

section Missing

variable {before behind : List Token} {missing : Token} {firstId : NodeId} {body : List Stmt}

/-- How many commas stand behind as many elements as a list may have. -/
def lateCommas (tokens : List Token) : Nat :=
  countAlong lateComma [] tokens

/-- How many faults there may be but for the late commas.  Where the end marker is missing, what
stands behind it need not belong to a program: there each semicolon may lead to a fault, each token
with which a statement or a block begins, and each equals sign. -/
def faultsBehind (missing : Kind) (tokens : List Token) : Nat :=
  if missing.isEndOfInput then
    1 + (tokens.countP fun token => pays token.kind) +
      tokens.countP fun token => token.kind.isMark .equal
  else 4 + closings tokens + branchings tokens

section Counted

variable (ledger : Ledger) {credit strays : Nat}
  (hopen : ∀ token ∈ before, token.kind ≠ .endOfInput)
  (h : (parseProgram (before ++ missing :: behind) firstId).result = .ok body)
include hopen h

/-- A ledger bounds the faults that stop a rule, and the stray equals signs and late commas are as
many as the other ones at least. -/
theorem length_faults_le
    (hfar : ∀ (blocks endLine : Nat), depth before = blocks →
      ledger.within blocks ⟨readPart behind, endLine, firstId.toNat, []⟩)
    (hresumed : ∀ cursor, ledger.resumed 0 cursor → graves cursor.faults ≤ credit)
    (hthrown : ∀ cursor, ledger.thrown 0 cursor → graves cursor.faults + 1 ≤ credit)
    (hstrays : countAlong strayEqual [] (before ++ readPart behind) ≤ strays) :
    (parseProgram (before ++ behind) firstId).faults.length ≤
      credit + strays + lateCommas (before ++ readPart behind) := by
  obtain ⟨other, hother⟩ : ∃ other,
      readPart (before ++ missing :: behind) = before ++ other :=
    ⟨_, readPart_append hopen _⟩
  obtain ⟨endLine, hcursor⟩ : ∃ endLine,
      Cursor.ofTokens (before ++ missing :: behind) firstId.toNat =
        ⟨before ++ other, endLine, firstId.toNat, []⟩ := ⟨_, by rw [← hother]; rfl⟩
  obtain ⟨otherLine, hcursor'⟩ : ∃ otherLine,
      Cursor.ofTokens (before ++ behind) firstId.toNat =
        ⟨before ++ readPart behind, otherLine, firstId.toNat, []⟩ :=
    ⟨_, by rw [← readPart_append hopen]; rfl⟩
  -- Both lists are read with the same bound.
  obtain ⟨bound, hlt, hlt'⟩ : ∃ bound, (before ++ other).length < bound ∧
      (before ++ readPart behind).length < bound :=
    ⟨max (before ++ other).length (before ++ readPart behind).length + 1,
      Nat.lt_succ_of_le (Nat.le_max_left _ _), Nat.lt_succ_of_le (Nat.le_max_right _ _)⟩
  obtain ⟨after, hrun, hclean, -⟩ := parse_eq_ok_iff.mp (parsed_eq h)
  rw [hcursor] at hrun
  have hbound : program bound ⟨before ++ other, endLine, firstId.toNat, []⟩ =
      program ((before ++ other).length + 1) ⟨before ++ other, endLine, firstId.toNat, []⟩ :=
    program_bound hlt
  have hgraves := graves_reports_le hlt' (hbound.trans hrun) hclean
    (fun blocks => hfar blocks otherLine) hresumed hthrown
  have hmilds := milds_reports_le bound
    ⟨before ++ readPart behind, otherLine, firstId.toNat, []⟩ hlt'
  have hearns := countAlong_earns [] (before ++ readPart behind)
  have hnone : milds [] = 0 := rfl
  rw [faults_parseProgram hcursor' hlt', length_eq_milds_add_graves, lateCommas]
  dsimp only at hmilds
  omega

/-- Behind the end of a program. -/
theorem length_faults_le_of_end (hmissing : missing.kind = .endOfInput) :
    (parseProgram (before ++ behind) firstId).faults.length ≤
      1 + ((readPart behind).countP fun token => pays token.kind) +
        ((readPart behind).countP fun token => token.kind.isMark .equal) +
          lateCommas (before ++ readPart behind) := by
  obtain ⟨m, hderives⟩ := derives_readPart h
  have hwhole : readPart (before ++ missing :: behind) = before := by
    have hstop : readPart (missing :: behind) = [] := by
      apply List.takeWhile_cons_of_neg
      rw [hmissing]
      exact Bool.false_ne_true
    rw [readPart_append hopen, hstop, List.append_nil]
  rw [hwhole] at hderives
  refine length_faults_le
    (trailingLedger (1 + (readPart behind).countP fun token => pays token.kind))
    hopen h ?_ ?_ ?_ ?_
  · intro blocks endLine hblocks
    obtain rfl : blocks = 0 := by
      rw [(derives_braced hderives rfl).balance] at hblocks
      omega
    exact solvent_start endLine firstId.toNat
  · exact fun _ => Settled.le
  · exact fun cursor (hsolvent : Solvent _ 0 cursor) => hsolvent.le
  · have hcalm := (derives_orderly hderives).calm [] fun _ => rfl
    have hnone := strayEqual_le_awry [] before
    have hequals := strayEqual_le_equals (before.reverse ++ []) (readPart behind)
    rw [countAlong_append]
    omega

/-- Behind any other token of one. -/
theorem length_faults_le_of_token (hmissing : missing.kind ≠ .endOfInput) :
    (parseProgram (before ++ behind) firstId).faults.length ≤
      4 + closings (readPart behind) + branchings (readPart behind) +
        lateCommas (before ++ readPart behind) := by
  obtain ⟨m, hderives⟩ := derives_readPart h
  have hwhole : readPart (before ++ missing :: behind) = before ++ missing :: readPart behind := by
    rw [readPart_append hopen, readPart, List.takeWhile_cons_of_pos
      (by rw [isEndOfInput_eq_false hmissing]; rfl)]
    rfl
  rw [hwhole] at hderives
  have hsuffix : readPart behind <:+ before ++ missing :: readPart behind :=
    (List.suffix_cons missing _).trans (List.suffix_append before _)
  have hbraced := derives_braced hderives rfl
  have hstrays := strays_of_missing ((derives_orderly hderives).calm [] fun _ => rfl)
  -- If the missing token closed a block there is one more open block, and no stray equals sign.
  have hblocks : ∀ blocks : Nat, depth before = blocks →
      blocks ≤ closings (readPart behind) + if missing.kind.isMark .rightBrace then 1 else 0 := by
    intro blocks hblocks
    have hbalance := hbraced.balance
    rw [depth_append, hblocks, depth_token, depth] at hbalance
    unfold closings
    by_cases hclose : missing.kind.isMark .rightBrace = true
    · rw [if_pos hclose] at hbalance ⊢
      split at hbalance <;> omega
    · rw [if_neg hclose] at hbalance ⊢
      split at hbalance <;> omega
  have hle := length_faults_le
    (programLedger (3 + (closings (readPart behind) +
      if missing.kind.isMark .rightBrace then 1 else 0) + branchings (readPart behind)))
    hopen h (fun blocks endLine hdepth => ⟨hbraced.enclosing.suffix hsuffix,
      (derives_landing hderives).suffix hsuffix, affords_start (hblocks blocks hdepth)⟩)
    (fun _ => Resumed.le) (fun _ => Thrown.le) hstrays
  refine hle.trans ?_
  split <;> omega

end Counted

/-- A program that lacks one token has at most four faults, one more for each brace behind the gap
that closes a block, one for each `else` there, and one for each comma behind which a list has too
many elements. -/
theorem faults_of_missing
    (h : (parseProgram (before ++ missing :: behind) firstId).result = .ok body) :
    (parseProgram (before ++ behind) firstId).faults.length ≤
      faultsBehind missing.kind (readPart behind) + lateCommas (before ++ readPart behind) := by
  rcases split_tokens before with hopen | ⟨read, marker, unread, rfl, hmarker, hread⟩
  · by_cases hmissing : missing.kind = .endOfInput
    · rw [faultsBehind, if_pos (by rw [hmissing]; rfl)]
      exact length_faults_le_of_end hopen h hmissing
    · rw [faultsBehind, if_neg (by rw [isEndOfInput_eq_false hmissing]; exact Bool.false_ne_true)]
      exact length_faults_le_of_token hopen h hmissing
  · -- What is missing was not read.
    have hclean : (parseProgram (read ++ marker :: unread ++ missing :: behind) firstId).faults =
        [] := by rw [Parsed.faults, h]
    rw [List.append_assoc, List.cons_append] at hclean ⊢
    rw [parseProgram, faults_parse, ofTokens_append hmarker hread] at hclean ⊢
    rw [hclean]
    exact Nat.zero_le _

end Missing

/-- Without the inner parenthesis `for (-(a = b);;) { c; } c;` has five faults. -/
theorem faults_of_missing_parenthesis :
    (∃ body, (parseProgram (heading ++ leftParen :: unopened 1) 0).result = .ok body) ∧
      (parseProgram (heading ++ unopened 1) 0).faults =
        [.grammar 1 (.token "=") .assignmentTarget,
          .grammar 1 (.token ")") .semicolonAfterExpression, .grammar 1 (.token ";") .expression,
          .grammar 1 (.token ")") .expression, .grammar 1 (.token "\x7d") .expression] ∧
        (parseProgram (heading ++ unopened 1) 0).faults.length ≤ 5 := by
  obtain ⟨body, hbody⟩ := unopened_accepted 1 0
  exact ⟨⟨body, hbody⟩, by decide +kernel, (faults_of_missing hbody).trans (by decide)⟩

/-- For each number of braces there may be so many faults.  So no number is enough for all
programs. -/
theorem faults_of_missing_attained (count : Nat) (firstId : NodeId) :
    ∃ before missing behind body,
      (parseProgram (before ++ missing :: behind) firstId).result = .ok body ∧
        closings (readPart behind) = count ∧
          (parseProgram (before ++ behind) firstId).faults.length =
            faultsBehind missing.kind (readPart behind) +
              lateCommas (before ++ readPart behind) := by
  obtain ⟨body, hbody⟩ := unopened_accepted count firstId
  have hread : readPart (unopened count) = assigning ++ stacked count := by
    rw [unopened, readPart_append (stacked_open count)]
    exact List.append_nil _
  have hclosings : closings (assigning ++ stacked count) = count :=
    List.countP_append.trans ((Nat.zero_add _).trans (closings_stacked count))
  have hbranchings : branchings (assigning ++ stacked count) = 0 := by
    refine List.countP_append.trans ((Nat.zero_add _).trans (List.countP_eq_zero.mpr ?_))
    refine forall_mem_stacked count ?_
    simp [leftBrace, name, semicolon, rightBrace]
  have hcommas : lateCommas (heading ++ (assigning ++ stacked count)) = 0 := by
    refine Nat.le_zero.mp ((lateComma_le_commas [] _).trans (Nat.le_of_eq ?_))
    refine List.countP_append.trans ((Nat.zero_add _).trans ?_)
    refine List.countP_append.trans ((Nat.zero_add _).trans (List.countP_eq_zero.mpr ?_))
    refine forall_mem_stacked count ?_
    simp [leftBrace, name, semicolon, rightBrace]
  refine ⟨heading, leftParen, unopened count, body, hbody, ?_, ?_⟩
  · rw [hread, hclosings]
  · rw [hread, hcommas, length_faults_unopened, faultsBehind, hclosings, hbranchings]
    rfl

/-- Two blocks that lose their ends have three faults. -/
theorem two_faults_exceeded :
    (∃ body, (parseProgram ([leftBrace, leftBrace, name "a"] ++
        semicolon :: [rightBrace, rightBrace, endMarker]) 0).result = .ok body) ∧
      (parseProgram ([leftBrace, leftBrace, name "a"] ++
        [rightBrace, rightBrace, endMarker]) 0).faults =
          [.grammar 1 (.token "\x7d") .semicolonAfterExpression,
            .grammar 1 .atEnd .braceAfterBlock, .grammar 1 .atEnd .braceAfterBlock] := by
  have hshape : (parseProgram ([leftBrace, leftBrace, name "a"] ++
      semicolon :: [rightBrace, rightBrace, endMarker]) 0).result.toOption.any
        (fun _ => true) = true := by decide +kernel
  obtain ⟨body, hbody, -⟩ := ok_of_any hshape
  exact ⟨⟨body, hbody⟩, by decide +kernel⟩

end Scriptlet.Recovery
