/-
Evaluating an expression, and running a source that prints it.

Outside all scopes the resolver has nothing to enter and nothing to object to, and a phrase
takes the same identities wherever it stands.  So the program is run in the very state in which
the expression is evaluated, and ends in the same one, but for the line that it prints.
-/
import Scriptlet.Proofs.Session.CutOff
import Scriptlet.Proofs.Session.Joined

namespace Scriptlet

/-! ### The source -/

namespace Source

/-- The source that prints the value of an expression.  The expression may end in a comment, so
the semicolon stands on a line of its own. -/
def printing (source : String) : String :=
  "print " ++ source ++ "\n" ++ ";"

/-- The keyword, and a blank behind it. -/
theorem pieces_print (chars : List Char) :
    pieces ("print ".toList ++ chars) =
      .lexeme (.keyword .print_) "print".toList :: .blank ' ' :: pieces chars := by
  have hword : nextPiece 'p' ("rint ".toList ++ chars) =
      (.lexeme (.keyword .print_) "print".toList, ' ' :: chars) := rfl
  have hblank : nextPiece ' ' chars = (.blank ' ', chars) := rfl
  have hstart : "print ".toList ++ chars = 'p' :: ("rint ".toList ++ chars) := rfl
  rw [hstart, pieces_cons, hword, pieces_cons, hblank]

theorem number_print (source : String) :
    number 1 (pieces ("print " ++ source).toList) =
      (.token ⟨.keyword .print_, "print", 1⟩ :: (number 1 (pieces source.toList)).1,
        (number 1 (pieces source.toList)).2) := by
  rw [String.toList_append, pieces_print, number_cons, number_cons]
  rfl

theorem pieces_semicolon : pieces ";".toList = [.lexeme (.mark .semicolon) ";".toList] := by
  have hmark : nextPiece ';' [] = (.lexeme (.mark .semicolon) ";".toList, []) := rfl
  have hstart : ";".toList = [';'] := rfl
  rw [hstart, pieces_cons, hmark, pieces, hstart]

/-- The tokens of the expression stand between the keyword and the semicolon, on the lines on
which they stand alone. -/
theorem scan_printing {source : String} (h : (scan source).faults = []) :
    (scan (printing source)).faults = [] ∧ ∃ lead semicolon marker : Token,
      lead.kind = .keyword .print_ ∧ semicolon.kind = .mark .semicolon ∧
        marker.kind = .endOfInput ∧
          (scan (printing source)).tokens = lead :: body source ++ [semicolon] ++ [marker] := by
  have hfirst : (scan ("print " ++ source)).faults = [] := by
    rw [scan_faults, number_print, List.filterMap_cons_none rfl, ← scan_faults, h]
  have hsecond : (scan ";").faults = [] := by
    rw [scan_faults, pieces_semicolon]
    rfl
  have hending : IsEnding "\n".toList := Or.inl rfl
  obtain ⟨hfaults, htokens⟩ := scan_joined hending hfirst hsecond
  have hbody : body ("print " ++ source) = ⟨.keyword .print_, "print", 1⟩ :: body source := by
    rw [body, number_print]
    rfl
  have hlast : (scan ";").tokens = [⟨.mark .semicolon, ";", 1⟩, endToken 1] := by
    rw [scan_tokens, body, pieces_semicolon]
    rfl
  rw [hbody, hlast] at htokens
  rw [List.map_cons, List.map_cons, List.map_nil, List.append_cons] at htokens
  exact ⟨hfaults, _, _, _, rfl, rfl, rfl, htokens⟩

end Source

/-! ### Outside all scopes -/

namespace Binding

mutual

/-- Every name is global there. -/
theorem inExpr_outside (expr : Expr) : inExpr [] none expr = .empty := by
  cases expr with
  | constant _ => rfl
  | group inner => exact inExpr_outside inner
  | unary _ operand => exact inExpr_outside operand
  | binary left _ right => rw [inExpr, inExpr_outside left, inExpr_outside right]; rfl
  | logical left _ right => rw [inExpr, inExpr_outside left, inExpr_outside right]; rfl
  | «variable» _ _ => rfl
  | assign _ _ value => rw [inExpr, inExpr_outside value]; rfl
  | call callee _ arguments =>
      rw [inExpr, inExpr_outside callee, inExprs_outside arguments]
      rfl

theorem inExprs_outside (exprs : List Expr) : inExprs [] none exprs = .empty := by
  cases exprs with
  | nil => rfl
  | cons first rest => rw [inExprs, inExpr_outside first, inExprs_outside rest]; rfl

end

theorem findings_print (expr : Expr) : findings [.print expr] = .empty := by
  simp only [findings, inStmts, inStmt, inExpr_outside]
  rfl

end Binding

theorem resolve_print (expr : Expr) : resolve [.print expr] = .ok .empty := by
  rw [resolve, Binding.findings_print]
  rfl

namespace Session

open Grammar

/-- The program is the one statement, and takes the identities that the expression takes. -/
theorem readSource_printing {source : String} {expr : Expr} {n m : Nat}
    (h : readSource Reader.wholeExpression n source = (.ok expr, m)) :
    readSource Reader.program n (Source.printing source) = (.ok [.print expr], m) := by
  obtain ⟨hfaults, hparse⟩ := readSource_eq_ok_iff.mp h
  have hlone := (parse_lone_iff (Source.scan_endsOnce source) expr).mp hparse
  obtain ⟨hfaultsBoth, lead, semicolon, marker, hlead, hsemicolon, hmarker, htokens⟩ :=
    Source.scan_printing hfaults
  rw [Source.scan_tokens] at hlone
  generalize hwhole : Source.body source ++ [_] = whole at hlone
  cases hlone with
  | lone hvalue _ =>
      obtain ⟨rfl, -⟩ := List.append_singleton_inj.mp hwhole
      have hprint : Derives true .declaration n _ _ m :=
        .statement (.print hlead hvalue hsemicolon)
      have hprogram := Derives.program (.declarations hprint .nothing) hmarker
      rw [List.append_nil] at hprogram
      exact Incremental.readSource_iff_derives.mpr ⟨hfaultsBoth, htokens ▸ hprogram⟩

end Session

/-! ### The run -/

/-- The machine behind one line more. -/
def Machine.printed (line : String) (machine : Machine) : Machine :=
  { machine with
    sink := { machine.sink with
      written := machine.sink.written ++ (line ++ "\n").toUTF8 } }

/-- A sink without limit takes the whole line. -/
theorem Eval.printLine_of_room {machine : Machine} (hroom : machine.sink.room = none)
    (line : String) : printLine line machine = .ok () (machine.printed line) := by
  have hfits : machine.sink.fits (line ++ "\n") = true := by
    rw [Sink.fits, hroom]
  have hwrite : { machine with sink := machine.sink.write (line ++ "\n") } =
      machine.printed line := by
    simp only [Sink.write, hroom, Machine.printed]
  rw [← hwrite]
  exact if_pos hfits

namespace Session

/-- What running the printing source gives, by what evaluating the expression gives. -/
def printsAs : Except Failure Value × Session → Except Failure Unit × Session
  | (.ok value, after) => (.ok (), { after with machine := after.machine.printed value.text })
  | (.error failure, after) => (.error failure, after)

/-- The statement does what the expression does, and then prints. -/
theorem act_print {machine : Machine} (hcurrent : machine.current = Machine.globals)
    (hroom : machine.sink.room = none) (hflush : machine.sink.flushFails = false)
    (issued bound : Nat) (expr : Expr) :
    act ⟨machine, issued⟩ (Eval.runProgram (bound + 1) [.print expr]) =
      printsAs (act ⟨machine, issued⟩ (Eval.evaluate bound expr)) := by
  have hflowing : Keeps Flowing (Eval.evaluate bound expr) machine :=
    Flowing.carried.run ⟨bound, .evaluate expr, machine⟩ trivial
  have hrestored : Keeps Restored (Eval.evaluate bound expr) machine :=
    Restored.run bound (.evaluate expr) machine
  unfold Keeps at hflowing hrestored
  cases hresult : Eval.evaluate bound expr machine with
  | ok value after =>
      rw [hresult] at hflowing hrestored
      have hprint := Eval.printLine_of_room (hflowing.room hroom) value.text
      rw [Eval.final] at hprint
      have hrun : Eval.runAll (bound + 1) [.print expr] machine =
          .ok () (after.printed value.text) := by
        rw [Eval.runAll, Eval.execute]
        simp only [Eval.bind_apply, hresult, hprint, Eval.pure_apply, Eval.runAll]
      have hflushed : after.sink.flushFails = false := hrestored.flushFails.trans hflush
      rw [act, act, Incremental.runProgram_of_ok hrun hflushed, hresult]
      rfl
  | error stop after =>
      rw [hresult] at hrestored
      have hrun : Eval.runAll (bound + 1) [.print expr] machine = .error stop after := by
        rw [Eval.runAll, Eval.execute]
        simp only [Eval.bind_apply, hresult]
      have hglobal : after.current = Machine.globals := hrestored.current.trans hcurrent
      rw [act, act, Incremental.runProgram_of_error hrun, hresult, ← hglobal]
      rfl

/-- Wherever steps have led, and if the sink takes all from there on: an expression that can be
read can be printed by a source that is run.  The run prints what evaluating prints and then the
value, leaves everything else as evaluating does, and stops as evaluating stops. -/
theorem run_printing (sink : Sink) (clock : Clock) (steps : List Step) {source : String}
    {expr : Expr}
    (h : ((((Session.initial sink clock).afterSteps steps).withRoom none).readExpression source).1 =
      .ok expr) (bound : Nat) :
    let session := ((Session.initial sink clock).afterSteps steps).withRoom none
    session.run (bound + 1) (Source.printing source) =
      printsAs (session.evaluate bound source) := by
  intro session
  have hidle : ((Session.initial sink clock).afterSteps steps).Idle :=
    (Idle.initial sink clock).afterSteps steps
  have hcurrent : session.machine.current = Machine.globals := hidle.current
  have hroom : session.machine.sink.room = none := rfl
  have hflush : session.machine.sink.flushFails = false := rfl
  have hcases := session.evaluate_cases bound source
  generalize session.evaluate bound source = ended at hcases ⊢
  cases hcases with
  | unread hread =>
      change (session.read Reader.wholeExpression source).1 = _ at h
      rw [read, hread] at h
      cases h
  | runs hread =>
      rw [run_of_read (readSource_printing hread) (resolve_print _) (bound + 1)]
      exact act_print hcurrent hroom hflush _ bound _

/-- A function that prints, changes a global and gives its value. -/
def lookingSteps : List Step :=
  [.run 100 "var seen = nil; fun look() \x7b print seen; seen = true; return seen; \x7d"]

/-- The comment behind the call does not hide the semicolon, and the value stands behind what the
call prints. -/
theorem run_printing_look :
    ∃ expr, ((((Session.initial .unlimited 0).afterSteps lookingSteps).withRoom none).readExpression
        "look() // once").1 = .ok expr ∧
      let session := ((Session.initial .unlimited 0).afterSteps lookingSteps).withRoom none
      session.run 101 (Source.printing "look() // once") =
          printsAs (session.evaluate 100 "look() // once") ∧
        (session.evaluate 100 "look() // once").2.machine.sink.textFrom 0 = "nil\n" ∧
        (session.run 101 (Source.printing "look() // once")).2.machine.sink.textFrom 0 =
          "nil\ntrue\n" := by
  have hsome : ((((Session.initial .unlimited 0).afterSteps lookingSteps).withRoom
      none).readExpression "look() // once").1.toOption.isSome = true := by decide +kernel
  cases hread : ((((Session.initial .unlimited 0).afterSteps lookingSteps).withRoom
      none).readExpression "look() // once").1 with
  | error failure =>
      rw [hread] at hsome
      cases hsome
  | ok expr =>
      exact ⟨expr, rfl, run_printing .unlimited 0 lookingSteps hread 100, by decide +kernel,
        by decide +kernel⟩

end Session

end Scriptlet
