/-
A file that is run, and the prompt that is given its lines.

While no line fails, the lines do one after the other what the file does as a whole, and what
was printed before a line, prompts or not, makes no difference to what the line prints.
-/
import Scriptlet.Proofs.CommandLine.Lines
import Scriptlet.Proofs.Session.Joined

namespace Scriptlet

open Incremental Source

/-- A sink without a limit that holds a text. -/
def Sink.holding (text : String) : Sink :=
  ⟨text.toUTF8, none, false⟩

namespace Sink

theorem write_holding (text more : String) :
    (holding text).write more = holding (text ++ more) := by
  have hbytes : text.toUTF8 ++ more.toUTF8 = (text ++ more).toUTF8 :=
    String.toByteArray_append.symm
  exact congrArg (Sink.mk · none false) hbytes

theorem fromUTF8?_toUTF8 (text : String) : String.fromUTF8? text.toUTF8 = some text :=
  dif_pos text.isValidUTF8

/-- What stands behind a text can be read by itself. -/
theorem textFrom_holding (text more : String) :
    (holding (text ++ more)).textFrom (holding text).written.size = more := by
  have hbehind : (text ++ more).toUTF8.extract text.toUTF8.size (text ++ more).toUTF8.size =
      more.toUTF8 := by
    rw [String.toUTF8_eq_toByteArray, String.toUTF8_eq_toByteArray, String.toByteArray_append,
      ByteArray.size_append]
    exact ByteArray.extract_append_eq_right rfl rfl
  unfold textFrom holding
  dsimp only
  rw [hbehind, fromUTF8?_toUTF8]

theorem textFrom_zero (text : String) : (holding text).textFrom 0 = text := by
  have hwhole := textFrom_holding "" text
  rw [String.empty_append] at hwhole
  exact hwhole

end Sink

namespace Session

variable {bound : Nat} {session : Session}

/-- Each line is run where the lines before it have ended, and none of them fails. -/
def Succeeds (session : Session) (bound : Nat) : List String → Prop
  | [] => True
  | line :: rest =>
      (session.run bound line).1 = .ok () ∧ (session.run bound line).2.Succeeds bound rest

instance : (answer : Except Failure Unit) → Decidable (answer = .ok ())
  | .ok () => isTrue rfl
  | .error _ => isFalse nofun

instance decidableSucceeds (bound : Nat) :
    (lines : List String) → (session : Session) → Decidable (session.Succeeds bound lines)
  | [], _ => isTrue trivial
  | line :: rest, session =>
      have := decidableSucceeds bound rest (session.run bound line).2
      inferInstanceAs (Decidable (_ ∧ _))

/-- What each of the lines prints. -/
def prints (session : Session) (bound : Nat) : List String → List String
  | [] => []
  | line :: rest =>
      let after := (session.run bound line).2
      after.machine.sink.textFrom session.machine.sink.written.size :: after.prints bound rest

end Session

/-! ### The lines as a whole -/

theorem accepted_of_run {session : Session} {bound : Nat} {source : String}
    (h : (session.run bound source).1 = .ok ()) : Accepted source := by
  have hcases := session.run_cases bound source
  generalize session.run bound source = ended at h hcases
  cases hcases with
  | unread _ | unresolved _ _ => cases h
  | runs hread hresolve => exact (accepted_iff session.issued).mpr ⟨_, _, _, hread, hresolve⟩

/-- The run ends well, with as many identities handed out and as much printed as in the
session. -/
structure EndsAs (session : Session) (ended : Except Failure Unit × Session) : Prop where
  answer : ended.1 = .ok ()
  issued : ended.2.issued = session.issued
  sink : ended.2.machine.sink = session.machine.sink

theorem run_empty (session : Session) (bound : Nat)
    (hflush : session.machine.sink.flushFails = false) : EndsAs session (session.run bound "") := by
  have hread : readSource Reader.program session.issued "" = (.ok [], session.issued) := by
    apply readSource_iff_derives.mpr
    have hpieces : pieces "".toList = [] := by
      rw [String.toList_empty, pieces]
    rw [scan_faults, scan_tokens, body, hpieces]
    exact ⟨rfl, .program .nothing rfl⟩
  have hresolve : resolve [] = .ok (.ofList []) := rfl
  have hrun := Session.run_of_read hread hresolve bound
  have hnothing : Eval.runProgram bound [] (session.machine.addTable (.ofList [])) =
      .ok () (session.machine.addTable (.ofList [])) := runProgram_of_ok rfl hflush
  rw [Session.act, hnothing] at hrun
  rw [hrun]
  exact ⟨rfl, rfl, rfl⟩

/-- A text does what its lines do one after the other. -/
theorem run_hasLines {sink : Sink} {clock : Clock} {bound : Nat} (hflush : sink.flushFails = false)
    {whole : String} {lines : List String} (h : CommandLine.HasLines whole lines)
    (before : List Step)
    (hok : ((Session.initial sink clock).afterSteps before).Succeeds bound lines)
    (hids : ((Session.initial sink clock).afterSteps
      (before ++ lines.map (.run bound))).issued ≤ UInt32.size) :
    EndsAs ((Session.initial sink clock).afterSteps (before ++ lines.map (.run bound)))
      (((Session.initial sink clock).afterSteps before).run bound whole) := by
  induction h generalizing before with
  | none =>
      rw [List.map_nil, List.append_nil]
      apply run_empty
      exact (Session.flushFails_afterSteps _ before).trans hflush
  | last line =>
      rw [Session.afterSteps_append]
      exact ⟨hok.1, rfl, rfl⟩
  | @more line ending rest others hending _ ih =>
      obtain ⟨hline, hothers⟩ := hok
      have hsteps : before ++ (line :: others).map (.run bound) =
          (before ++ [.run bound line]) ++ others.map (.run bound) := by
        rw [List.map_cons, List.append_assoc]
        rfl
      rw [hsteps] at hids ⊢
      have hafter : (Session.initial sink clock).afterSteps (before ++ [.run bound line]) =
          (((Session.initial sink clock).afterSteps before).run bound line).2 :=
        Session.afterSteps_append _ _ _
      have hrest := ih (before ++ [.run bound line]) (hafter ▸ hothers) hids
      have hidsTwo : ((Session.initial sink clock).afterSteps
          (before ++ [.run bound line, .run bound rest])).issued ≤ UInt32.size := by
        rw [← hrest.issued, hafter] at hids
        rw [Session.afterSteps_append]
        exact hids
      have hjoins := Session.joins sink clock before bound hending hflush (accepted_of_run hline)
        (accepted_of_run hrest.answer) hidsTwo
      rw [hafter] at hrest
      have hbelow := hjoins.anyLines.answer_of_ok hrest.answer (newlines line + 1)
      have hlines := hjoins.anyLines.machines (newlines line + 1)
      have hwhole := hjoins.asOne.both hline
      exact ⟨hwhole.answer.trans hbelow,
        hwhole.issued.trans ((hjoins.anyLines.issued _).trans hrest.issued),
        (congrArg Outside.sink hwhole.state.outside).trans (hlines.sink.trans hrest.sink)⟩

/-! ### Prompts -/

namespace Incremental

/-- What was printed before may differ. -/
def echoLink (left right : String) : Link where
  tokens a b := b = a
  ids a b := b = a
  tables a b := ∀ id, b.distance? id = a.distance? id
  sinks a b := ∃ text, a = .holding (left ++ text) ∧ b = .holding (right ++ text)
  kind_eq h := congrArg Token.kind h
  lexeme_eq h := congrArg Token.lexeme h
  distance?_eq h := distance?_of_eq h
  fits_eq := by
    rintro _ _ ⟨text, rfl, rfl⟩ _
    rfl
  flushFails_eq := by
    rintro _ _ ⟨text, rfl, rfl⟩
    rfl
  write := by
    rintro _ _ ⟨text, rfl, rfl⟩ more
    refine ⟨text ++ more, ?_, ?_⟩
    · rw [Sink.write_holding, String.append_assoc]
    · rw [Sink.write_holding, String.append_assoc]

/-- The sessions differ in nothing but what was printed before. -/
structure Echoes (left right : String) (session session' : Session) : Prop where
  sink : session.machine.sink = .holding left
  sink' : session'.machine.sink = .holding right
  machines : AlikeMachine (echoLink left right) session.machine session'.machine
  issued : session'.issued = session.issued

section Echoes

variable {left right : String} {session session' : Session}

theorem echoLink_sinks {sink sink' : Sink} (h : sink = .holding left)
    (h' : sink' = .holding right) :
    (echoLink left right).sinks sink sink' :=
  ⟨"", by rw [h, String.append_empty], by rw [h', String.append_empty]⟩

/-- More may have been printed in between, and in one of the sessions only. -/
theorem AlikeMachine.echo {left' right' : String} {machine machine' : Machine}
    (h : AlikeMachine (echoLink left right) machine machine') {sink sink' : Sink}
    (hsink : sink = .holding left') (hsink' : sink' = .holding right') :
    AlikeMachine (echoLink left' right') { machine with sink := sink }
      { machine' with sink := sink' } := by
  apply AlikeMachine.imp h
  · exact fun _ _ => id
  · exact fun _ _ => id
  · exact echoLink_sinks hsink hsink'
  · exact h.table

theorem echoes_initial (clock : Clock) :
    Echoes "" "" (.initial .unlimited clock) (.initial .unlimited clock) where
  sink := rfl
  sink' := rfl
  machines := by
    apply AlikeMachine.imp (settled_initial .unlimited clock)
    · exact fun _ _ htokens => htokens.2
    · exact fun _ _ hids => hids.2
    · exact echoLink_sinks rfl rfl
    · exact fun _ => rfl
  issued := rfl

theorem Echoes.say (h : Echoes left right session session') (text : String) :
    Echoes left (right ++ text) session (CommandLine.say session' text) := by
  have hsink : session'.machine.sink.write text = .holding (right ++ text) := by
    rw [h.sink', Sink.write_holding]
  exact ⟨h.sink, hsink, h.machines.echo h.sink hsink, h.issued⟩

/-- Where only what was printed before differs, a source prints the same. -/
theorem Echoes.run (h : Echoes left right session session') {bound : Nat} {source : String}
    (hok : (session.run bound source).1 = .ok ()) :
    ∃ text, (session'.run bound source).1 = .ok () ∧
      Echoes (left ++ text) (right ++ text) (session.run bound source).2
        (session'.run bound source).2 := by
  obtain ⟨program, m, table, hread, hresolve⟩ :=
    (accepted_iff session.issued).mp (accepted_of_run hok)
  have hread' := hread
  rw [← h.issued] at hread'
  have hprogram : AlikeStmts (echoLink left right) program program :=
    alike_program_self (fun _ => rfl) (fun _ => rfl) hread
  have hready : AlikeMachine (echoLink left right) (session.machine.addTable table)
      (session'.machine.addTable table) := by
    apply AlikeMachine.imp h.machines
    · exact fun _ _ => id
    · exact fun _ _ => id
    · exact h.machines.sink
    · intro id
      rw [Table.distance?_merge, Table.distance?_merge, h.machines.table]
  have hend : AlikeEnd (echoLink left right) (session.run bound source)
      (session'.run bound source) := by
    rw [Session.run_of_read hread hresolve bound, Session.run_of_read hread' hresolve bound]
    exact alikeEnd_act (alikeRun_runProgram bound hprogram hready)
  obtain ⟨text, hsink, hsink'⟩ := hend.machines.sink
  exact ⟨text, hend.answer.of_ok hok, hsink, hsink', hend.machines.echo hsink hsink', hend.issued⟩

end Echoes

end Incremental

namespace CommandLine

theorem answer_of_ok {bound : Nat} {session : Session} {line : String}
    (h : (session.run bound line).1 = .ok ()) :
    answer bound session line = ((session.run bound line).2, "") := by
  unfold answer
  generalize session.run bound line = ended at h ⊢
  obtain ⟨result, after⟩ := ended
  dsimp only at h
  subst h
  rfl

/-- A prompt is written before each line, and one more at the end of the input; the lines
print what they print without prompts. -/
theorem converse_lines (err : String) {left right : String} {bound : Nat}
    {session session' : Session} {lines : List ByteArray} {texts : List String}
    (h : Echoes left right session session') (hlines : lines.map decode = texts.map .ok)
    (hok : session.Succeeds bound texts) :
    converse bound session' err lines =
        ⟨0, right ++ (String.join ((session.prints bound texts).map (prompt ++ ·)) ++
          (prompt ++ "\n")), err⟩ ∧
      (session.afterSteps (texts.map (.run bound))).machine.sink =
        .holding (left ++ String.join (session.prints bound texts)) := by
  induction texts generalizing left right session session' lines with
  | nil =>
      obtain rfl := List.map_eq_nil_iff.mp hlines
      have hsaid := (h.say (prompt ++ "\n")).sink'
      constructor
      · rw [converse, hsaid, Sink.textFrom_zero]
        rfl
      · rw [Session.prints, String.join_nil, String.append_empty]
        exact h.sink
  | cons text rest ih =>
      obtain ⟨line, others, rfl, hline, hothers⟩ := List.map_eq_cons_iff.mp hlines
      obtain ⟨printed, hanswer, hafter⟩ := (h.say prompt).run hok.1
      have hprinted : (session.run bound text).2.machine.sink.textFrom
          session.machine.sink.written.size = printed := by
        rw [hafter.sink, h.sink, Sink.textFrom_holding]
      have hprints : session.prints bound (text :: rest) =
          printed :: (session.run bound text).2.prints bound rest :=
        congrArg (· :: _) hprinted
      obtain ⟨hreport, hsink⟩ := ih hafter hothers hok.2
      have hconverse : converse bound session' err (line :: others) =
          converse bound ((say session' prompt).run bound text).2 err others := by
        simp only [converse, hline, answer_of_ok hanswer, String.append_empty]
      rw [hconverse, hprints, hreport]
      constructor
      · simp only [List.map_cons, String.join_cons, String.append_assoc]
      · rw [String.join_cons, ← String.append_assoc]
        exact hsink

theorem execute_run {surroundings : Surroundings} {file whole printed : String}
    (hfile : surroundings.file file = .ok surroundings.input)
    (hwhole : decode surroundings.input = .ok whole) {session : Session}
    (h : EndsAs session
      ((Session.initial .unlimited surroundings.clock).run surroundings.bound whole))
    (hsink : session.machine.sink = .holding printed) :
    execute surroundings (.run file) = ⟨0, printed, ""⟩ := by
  have htext : surroundings.file file >>= decode = .ok whole := by
    rw [hfile]
    exact hwhole
  have hprinted := h.sink.trans hsink
  have hanswer := h.answer
  simp only [execute, withFile, htext]
  generalize (Session.initial .unlimited surroundings.clock).run surroundings.bound whole = ended
    at hprinted hanswer ⊢
  obtain ⟨answer, after⟩ := ended
  dsimp only at hprinted hanswer
  subst hanswer
  rw [reportOn, hprinted, Sink.textFrom_zero, String.append_empty]

/-- The input has these lines, and none of them fails. -/
structure Fed (surroundings : Surroundings) (texts : List String) : Prop where
  lines : inputLines surroundings.input = texts.map String.toUTF8
  succeed : (Session.initial .unlimited surroundings.clock).Succeeds surroundings.bound texts
  ids : ((Session.initial .unlimited surroundings.clock).afterSteps
    (texts.map (.run surroundings.bound))).issued ≤ UInt32.size

/-- Run as a file, the input prints what its lines print at the prompt. -/
structure SameOutput (surroundings : Surroundings) (file : String) (printed : List String) :
    Prop where
  run : execute surroundings (.run file) = ⟨0, String.join printed, ""⟩
  repl : execute surroundings .repl =
    ⟨0, String.join (printed.map (prompt ++ ·)) ++ (prompt ++ "\n"), ""⟩

theorem Fed.sameOutput {surroundings : Surroundings} {file : String} {texts : List String}
    (h : Fed surroundings texts) (hfile : surroundings.file file = .ok surroundings.input) :
    SameOutput surroundings file
      ((Session.initial .unlimited surroundings.clock).prints surroundings.bound texts) := by
  have hdecode : (inputLines surroundings.input).map decode = texts.map .ok := by
    rw [h.lines, List.map_map]
    exact List.map_congr_left fun text _ => decode_eq_ok_iff.mpr rfl
  obtain ⟨whole, hwhole, hlines⟩ := hasLines_inputLines hdecode
  obtain ⟨hreport, hsink⟩ :=
    converse_lines "" (echoes_initial surroundings.clock) hdecode h.succeed
  rw [String.empty_append] at hreport hsink
  have hends := run_hasLines rfl hlines [] h.succeed h.ids
  exact ⟨execute_run hfile hwhole hends hsink, hreport⟩

/-- Two sources that are accepted are accepted as one, which does what they do one after the
other, after whatever sources came before; and a file does what its lines do at the prompt, as
long as none of them fails. -/
theorem incremental_eq_whole :
    (∀ (sink : Sink) (clock : Clock) (before : List Step) (bound : Nat) (first second : String),
      sink.flushFails = false → Accepted first → Accepted second →
      ((Session.initial sink clock).afterSteps
        (before ++ [.run bound first, .run bound second])).issued ≤ UInt32.size →
          ((Session.initial sink clock).afterSteps before).Joins bound first "\n" second) ∧
      ∀ (surroundings : Surroundings) (file : String) (texts : List String),
        surroundings.file file = .ok surroundings.input → Fed surroundings texts →
          SameOutput surroundings file
            ((Session.initial .unlimited surroundings.clock).prints surroundings.bound texts) := by
  constructor
  · intro sink clock before bound first second hflush hfirst hsecond hids
    exact Session.joins sink clock before bound (Or.inl rfl) hflush hfirst hsecond hids
  · intro surroundings file texts hfile hfed
    exact hfed.sameOutput hfile

/-- Input of two lines, which may be a file as well. -/
def twoLines : Surroundings where
  file _ := .ok "fun f() \x7b return true; \x7d\nprint f();\n".toUTF8
  input := "fun f() \x7b return true; \x7d\nprint f();\n".toUTF8
  clock := 0
  bound := 100

theorem incremental_eq_whole_twoLines :
    ((Session.initial .unlimited 0).afterSteps []).Joins 100 "fun f() \x7b return true; \x7d"
        "\n" "print f();" ∧
      SameOutput twoLines "file" ["", "true\n"] := by
  have hfirst : Accepted "fun f() \x7b return true; \x7d" := by decide +kernel
  have hsecond : Accepted "print f();" := by decide +kernel
  have hids : ((Session.initial .unlimited 0).afterSteps
      ([] ++ [.run 100 "fun f() \x7b return true; \x7d", .run 100 "print f();"])).issued ≤
        UInt32.size := by
    decide +kernel
  have hfed : Fed twoLines ["fun f() \x7b return true; \x7d", "print f();"] :=
    ⟨by decide +kernel, by decide +kernel, hids⟩
  have hprints : (Session.initial .unlimited 0).prints 100
      ["fun f() \x7b return true; \x7d", "print f();"] = ["", "true\n"] := by
    decide +kernel
  have hsame := incremental_eq_whole.2 twoLines "file" _ rfl hfed
  exact ⟨incremental_eq_whole.1 .unlimited 0 [] 100 _ _ rfl hfirst hsecond hids, hprints ▸ hsame⟩

end CommandLine

end Scriptlet
