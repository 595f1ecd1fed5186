/-
A run whose print sink takes so many bytes and no more.

It is the run without limit up to the print that leads over the limit.  That print fills the sink
and stops, and its stop ends everything that is going on.  So what is left is what the run without
limit has at that moment, in the scope and at the depth of calls that the run began with.
-/
import Scriptlet.Proofs.Runs.Restored

namespace Scriptlet

/-! ### Sinks -/

namespace Sink

/-- In the later sink, what was written stands behind what the earlier one has. -/
def Flows (sink later : Sink) : Prop :=
  ∃ more, later.written = sink.written ++ more

/-- The sink that takes this many bytes in all. -/
def capped (limit : Nat) (sink : Sink) : Sink :=
  { sink with room := some (limit - sink.written.size) }

/-- The sink that took this many bytes and is full. -/
def cutOff (limit : Nat) (sink : Sink) : Sink :=
  { sink with written := sink.written.extract 0 limit, room := some 0 }

variable {limit : Nat} {sink later last : Sink}

theorem Flows.refl (sink : Sink) : sink.Flows sink :=
  ⟨.empty, ByteArray.append_empty.symm⟩

theorem Flows.trans (h : sink.Flows later) (h' : later.Flows last) : sink.Flows last := by
  obtain ⟨more, hmore⟩ := h
  obtain ⟨others, hothers⟩ := h'
  exact ⟨more ++ others, by rw [hothers, hmore, ByteArray.append_assoc]⟩

theorem Flows.size_le (h : sink.Flows later) : sink.written.size ≤ later.written.size := by
  obtain ⟨more, hmore⟩ := h
  rw [hmore, ByteArray.size_append]
  exact Nat.le_add_right _ _

theorem extract_of_le {bytes : ByteArray} (h : bytes.size ≤ limit) :
    bytes.extract 0 limit = bytes := by
  apply ByteArray.ext
  rw [ByteArray.data_extract]
  exact Array.extract_eq_self_of_le h

theorem extract_append_of_le {bytes : ByteArray} (h : bytes.size ≤ limit) (more : ByteArray) :
    (bytes ++ more).extract 0 limit = bytes ++ more.extract 0 (limit - bytes.size) := by
  rw [ByteArray.extract_append, extract_of_le h, Nat.zero_sub]

/-- What comes behind the limit makes no difference. -/
theorem Flows.extract_eq (h : sink.Flows later) (hover : limit ≤ sink.written.size) :
    later.written.extract 0 limit = sink.written.extract 0 limit := by
  obtain ⟨more, hmore⟩ := h
  rw [hmore, ByteArray.extract_append, Nat.sub_eq_zero_of_le hover, Nat.zero_sub]
  simp

theorem flows_write (hroom : sink.room = none) (text : String) : sink.Flows (sink.write text) := by
  rw [write, hroom]
  exact ⟨text.toUTF8, rfl⟩

theorem size_write (hroom : sink.room = none) (text : String) :
    (sink.write text).written.size = sink.written.size + text.utf8ByteSize := by
  rw [write, hroom]
  exact ByteArray.size_append

theorem fits_capped (hfits : sink.written.size ≤ limit) (text : String) :
    (sink.capped limit).fits text = decide (sink.written.size + text.utf8ByteSize ≤ limit) := by
  unfold fits capped
  exact decide_eq_decide.mpr (by omega)

theorem write_capped_of_fits (hroom : sink.room = none) {text : String}
    (hfits : sink.written.size + text.utf8ByteSize ≤ limit) :
    (sink.capped limit).write text = (sink.write text).capped limit := by
  have hsize : text.toUTF8.size ≤ limit - sink.written.size := by
    rw [show text.toUTF8.size = text.utf8ByteSize from String.size_toByteArray]
    omega
  unfold capped
  rw [size_write hroom]
  unfold write
  rw [hroom]
  dsimp only
  rw [extract_of_le hsize, Nat.sub_sub]

theorem write_capped_of_over (hroom : sink.room = none) {text : String}
    (hfits : sink.written.size ≤ limit) (hover : limit < sink.written.size + text.utf8ByteSize) :
    (sink.capped limit).write text = (sink.write text).cutOff limit := by
  have hnone : limit - sink.written.size - text.utf8ByteSize = 0 := by omega
  unfold capped cutOff write
  rw [hroom]
  dsimp only
  rw [extract_append_of_le hfits, hnone]

end Sink

namespace Machine

/-- The machine with a sink that takes this many bytes in all. -/
def capped (limit : Nat) (machine : Machine) : Machine :=
  { machine with sink := machine.sink.capped limit }

/-- The machine with a sink that took this many bytes and is full. -/
def cutOff (limit : Nat) (machine : Machine) : Machine :=
  { machine with sink := machine.sink.cutOff limit }

end Machine

/-- The later machine stands where the earlier one did, at the same depth of calls, and what was
written to a sink without limit stands behind what was there. -/
structure Flowing (machine later : Machine) : Prop where
  current : later.current = machine.current
  depth : later.depth = machine.depth
  room : machine.sink.room = none → later.sink.room = none
  flows : machine.sink.room = none → machine.sink.Flows later.sink

namespace Flowing

variable {first second third : Machine}

theorem refl (machine : Machine) : Flowing machine machine :=
  ⟨rfl, rfl, id, fun _ => .refl _⟩

theorem trans (h : Flowing first second) (h' : Flowing second third) : Flowing first third where
  current := h'.current.trans h.current
  depth := h'.depth.trans h.depth
  room hroom := h'.room (h.room hroom)
  flows hroom := (h.flows hroom).trans (h'.flows (h.room hroom))

/-- Nothing but scopes, the clock and the count of functions is touched. -/
theorem of_same {machine later : Machine} (hcurrent : later.current = machine.current)
    (hdepth : later.depth = machine.depth) (hsink : later.sink = machine.sink) :
    Flowing machine later :=
  ⟨hcurrent, hdepth, fun hroom => hsink ▸ hroom, fun _ => hsink ▸ .refl _⟩

theorem write (machine : Machine) (text : String) :
    Flowing machine { machine with sink := machine.sink.write text } := by
  refine ⟨rfl, rfl, fun hroom => ?_, fun hroom => Sink.flows_write hroom text⟩
  show (machine.sink.write text).room = none
  rw [Sink.write, hroom]

theorem carried : Carried (fun _ => True) Flowing where
  enters _ _ := trivial
  refl := refl
  trans := trans
  write := write
  tick _ := of_same rfl rfl rfl
  within _ h := { h with current := rfl }
  deeper h := { h with depth := by rw [h.depth]; rfl }
  block _ hscope := by
    cases hscope
    exact of_same rfl rfl rfl
  frame _ hframe := by
    cases hframe
    exact of_same rfl rfl rfl
  declare _ := of_same rfl rfl rfl
  declareWith _ _ := of_same rfl rfl rfl
  function _ _ := of_same rfl rfl rfl
  assign _ _ _ := of_same rfl rfl rfl

end Flowing

/-! ### Cutting off -/

namespace Eval

/-- The same end, in another machine. -/
def changed {α : Type} (change : Machine → Machine) :
    EStateM.Result Stop Machine α → EStateM.Result Stop Machine α
  | .ok value after => .ok value (change after)
  | .error stop after => .error stop (change after)

end Eval

/-- How work ends with a sink of so many bytes that ends in `result` without limit: in the same way
if all that was printed fits, and else with the sink full, when the run without limit has come to
one of the machines `Failing`, which a print left that led over the limit. -/
inductive Cut {α : Type} (limit : Nat) (Failing : Machine → Prop) (machine : Machine)
    (result : EStateM.Result Stop Machine α) : EStateM.Result Stop Machine α → Prop
  | whole (fits : (Eval.final result).sink.written.size ≤ limit) :
      Cut limit Failing machine result (Eval.changed (Machine.capped limit) result)
  | short {full : Machine} (failing : Failing full) (beyond : limit < full.sink.written.size)
      (flows : full.sink.Flows (Eval.final result).sink) :
      Cut limit Failing machine result
        (.error (.fault (.sink .full))
          { full.cutOff limit with current := machine.current, depth := machine.depth })

/-- Begun at this machine, the action is cut off where the sink is full. -/
structure Cuts {α : Type} (limit : Nat) (Failing : Machine → Prop) (action : Eval α)
    (machine : Machine) : Prop where
  flowing : Keeps Flowing action machine
  cut : machine.sink.room = none → machine.sink.written.size ≤ limit →
    Cut limit Failing machine (action machine) (action (machine.capped limit))

section Steps

variable {α β : Type} {limit : Nat} {Failing : Machine → Prop} {machine : Machine}
  {action : Eval α}

theorem Cut.imp {More : Machine → Prop} {result limited : EStateM.Result Stop Machine α}
    (h : Cut limit Failing machine result limited) (himp : ∀ full, Failing full → More full) :
    Cut limit More machine result limited := by
  cases h with
  | whole hfits => exact .whole hfits
  | short hfailing hover hflows => exact .short (himp _ hfailing) hover hflows

/-- The end of a run that is cut off, told by what it prints without limit: the first `n` bytes of
it are left. -/
theorem Cut.printed {n : Nat} {result limited : EStateM.Result Stop Machine α}
    (h : Cut (machine.sink.written.size + n) Failing machine result limited)
    (hflows : machine.sink.Flows (Eval.final result).sink) :
    let limit := machine.sink.written.size + n
    ∃ printed, (Eval.final result).sink.written = machine.sink.written ++ printed ∧
      (printed.size ≤ n → limited = Eval.changed (Machine.capped limit) result) ∧
      (n < printed.size → ∃ full, Failing full ∧
        (full.cutOff limit).sink.written = machine.sink.written ++ printed.extract 0 n ∧
        limited = .error (.fault (.sink .full))
          { full.cutOff limit with current := machine.current, depth := machine.depth }) := by
  intro limit
  obtain ⟨printed, hprinted⟩ := hflows
  have hsize : (Eval.final result).sink.written.size =
      machine.sink.written.size + printed.size := by
    rw [hprinted, ByteArray.size_append]
  refine ⟨printed, hprinted, ?_⟩
  cases h with
  | whole hfits => exact ⟨fun _ => rfl, fun hover => by omega⟩
  | @short full hfailing hover hlater =>
      have hle := hlater.size_le
      refine ⟨fun hfits => by omega, fun _ => ⟨full, hfailing, ?_, rfl⟩⟩
      show full.sink.written.extract 0 limit = _
      rw [← hlater.extract_eq (Nat.le_of_lt hover), hprinted,
        Sink.extract_append_of_le (Nat.le_add_right _ _), Nat.add_sub_cancel_left]

theorem Cuts.imp {More : Machine → Prop} (h : Cuts limit Failing action machine)
    (himp : ∀ full, Failing full → More full) : Cuts limit More action machine :=
  ⟨h.flowing, fun hroom hfits => (h.cut hroom hfits).imp himp⟩

theorem Cuts.bind {next : α → Eval β} (h : Cuts limit Failing action machine)
    (hnext : ∀ value after, action machine = .ok value after →
      Cuts limit Failing (next value) after) :
    Cuts limit Failing (action >>= next) machine where
  flowing := Flowing.carried.keeps_bind h.flowing fun value after hfirst =>
    (hnext value after hfirst).flowing
  cut hroom hfits := by
    have hcut := h.cut hroom hfits
    rw [Eval.bind_apply, Eval.bind_apply]
    generalize action (machine.capped limit) = limited at hcut ⊢
    cases hfirst : action machine with
    | error stop after =>
        rw [hfirst] at hcut
        cases hcut with
        | whole hafter => exact .whole hafter
        | short hfailing hover hflows => exact .short hfailing hover hflows
    | ok value after =>
        have hflowing : Flowing machine after := h.flowing.ok hfirst
        have hrest := hnext value after hfirst
        rw [hfirst] at hcut
        cases hcut with
        | whole hafter =>
            have hlater := hrest.cut (hflowing.room hroom) hafter
            dsimp only [Eval.changed]
            generalize next value (after.capped limit) = later at hlater ⊢
            cases hlater with
            | whole hlast => exact .whole hlast
            | short hfailing hover hflows =>
                rw [hflowing.current, hflowing.depth]
                exact .short hfailing hover hflows
        | short hfailing hover hflows =>
            exact .short hfailing hover (hflows.trans (hrest.flowing.flows (hflowing.room hroom)))

/-- Work that is entered and left again: leaving has nothing to do with the sink. -/
theorem Cut.leave {entered : Machine} {result limited : EStateM.Result Stop Machine α}
    {leave : Machine → Machine} (h : Cut limit Failing entered result limited)
    (hsink : ∀ after, (leave after).sink = after.sink)
    (hcapped : ∀ after, leave (after.capped limit) = (leave after).capped limit)
    (hfull : ∀ full : Machine,
      leave { full.cutOff limit with current := entered.current, depth := entered.depth } =
        { full.cutOff limit with current := machine.current, depth := machine.depth }) :
    Cut limit Failing machine (Eval.changed leave result) (Eval.changed leave limited) := by
  have hfinal : (Eval.final (Eval.changed leave result)).sink = (Eval.final result).sink := by
    cases result with
    | ok value after => exact hsink after
    | error stop after => exact hsink after
  cases h with
  | whole hfits =>
      have hsame : Eval.changed leave (Eval.changed (Machine.capped limit) result) =
          Eval.changed (Machine.capped limit) (Eval.changed leave result) := by
        cases result with
        | ok value after => exact congrArg (EStateM.Result.ok value) (hcapped after)
        | error stop after => exact congrArg (EStateM.Result.error stop) (hcapped after)
      rw [hsame]
      exact .whole (hfinal ▸ hfits)
  | @short full hfailing hover hflows =>
      rw [Eval.changed, hfull]
      exact .short hfailing hover (hfinal ▸ hflows)

theorem Eval.within_apply (scope : Nat) (action : Eval α) (machine : Machine) :
    Eval.within scope action machine =
      Eval.changed (fun after => { after with current := machine.current })
        (action { machine with current := scope }) := by
  unfold Eval.within
  cases action { machine with current := scope } with
  | ok value after => rfl
  | error stop after => rfl

theorem Eval.deeper_apply (action : Eval α) (machine : Machine) :
    Eval.deeper action machine =
      Eval.changed (fun after => { after with depth := after.depth - 1 })
        (action { machine with depth := machine.depth + 1 }) := by
  unfold Eval.deeper
  dsimp only [HasOutside.modifyOutside]
  cases action { machine with depth := machine.depth + 1 } with
  | ok value after => rfl
  | error stop after => rfl

theorem Cuts.within {scope : Nat}
    (h : Cuts limit Failing action { machine with current := scope }) :
    Cuts limit Failing (Eval.within scope action) machine where
  flowing := Flowing.carried.keeps_within scope h.flowing
  cut hroom hfits := by
    rw [Eval.within_apply, Eval.within_apply]
    exact (h.cut hroom hfits).leave (fun _ => rfl) (fun _ => rfl) (fun _ => rfl)

theorem Cuts.deeper (h : Cuts limit Failing action { machine with depth := machine.depth + 1 }) :
    Cuts limit Failing (Eval.deeper action) machine where
  flowing := Flowing.carried.keeps_deeper h.flowing
  cut hroom hfits := by
    rw [Eval.deeper_apply, Eval.deeper_apply]
    exact (h.cut hroom hfits).leave (fun _ => rfl) (fun _ => rfl) (fun _ => rfl)

end Steps

/-! ### Steps that do not print -/

/-- The action neither looks at the sink nor writes to it. -/
def Silent {α : Type} (action : Eval α) : Prop :=
  ∀ (machine : Machine) (sink : Sink), action { machine with sink := sink } =
    Eval.changed (fun after => { after with sink := sink }) (action machine)

namespace Silent

variable {α β : Type} {action : Eval α} {limit : Nat} {Failing : Machine → Prop}
  {machine : Machine}

theorem pure (value : α) : Silent (pure value : Eval α) :=
  fun _ _ => rfl

theorem throw (stop : Stop) : Silent (throw stop : Eval α) :=
  fun _ _ => rfl

theorem lift (token : Token) (result : Except RuntimeFault α) :
    Silent (Eval.lift token result) := by
  cases result with
  | ok value => exact pure value
  | error fault => exact throw _

theorem bind {next : α → Eval β} (h : Silent action) (hnext : ∀ value, Silent (next value)) :
    Silent (action >>= next) := by
  intro machine sink
  rw [Eval.bind_apply, Eval.bind_apply, h]
  cases action machine with
  | ok value after => exact hnext value after sink
  | error stop after => rfl

theorem define (name : String) (value : Value) : Silent (Eval.define name value) :=
  fun _ _ => rfl

theorem freshIdentity : Silent (Eval.freshIdentity : Eval Nat) :=
  fun _ _ => rfl

theorem openScope (parent : Nat) : Silent (Eval.openScope parent) :=
  fun _ _ => rfl

theorem openFrame (function : Closure) (arguments : List Value) :
    Silent (Eval.openFrame function arguments) :=
  fun _ _ => rfl

theorem readVariable (id : NodeId) (name : Token) : Silent (Eval.readVariable id name) := by
  intro machine sink
  unfold Eval.readVariable
  dsimp only
  split
  · split
    · rfl
    · rfl
  · split
    · rfl
    · rfl

theorem assignmentScope (id : NodeId) (name : Token) : Silent (Eval.assignmentScope id name) := by
  intro machine sink
  unfold Eval.assignmentScope
  dsimp only
  split
  · split
    · rfl
    · rfl
  · split
    · rfl
    · rfl

theorem writeVariable (id : NodeId) (name : Token) (value : Value) :
    Silent (Eval.writeVariable id name value) :=
  (assignmentScope id name).bind fun _ _ _ => rfl

theorem callHost (function : HostFunction) (arguments : List Value) (paren : Token) :
    Silent (Eval.callHost function arguments paren) := by
  intro machine sink
  unfold Eval.callHost
  dsimp only [HasOutside.outside]
  split
  · rfl
  · rfl

theorem checkCall (callee : Value) (arguments : List Value) (paren : Token) :
    Silent (Eval.checkCall callee arguments paren) := by
  intro machine sink
  unfold Eval.checkCall
  dsimp only [HasOutside.outside]
  split
  · rfl
  · split
    · rfl
    · split
      · rfl
      · rfl

theorem sink_final (h : Silent action) (machine : Machine) :
    (Eval.final (action machine)).sink = machine.sink := by
  have hsame := h machine machine.sink
  cases hresult : action machine with
  | ok value after | error stop after =>
      rw [hresult] at hsame
      exact congrArg (fun result => (Eval.final result).sink) hsame

/-- Where nothing is printed, nothing is cut off. -/
theorem cuts (h : Silent action) (hflowing : Keeps Flowing action machine) :
    Cuts limit Failing action machine where
  flowing := hflowing
  cut _ hfits := by
    have hsink := h.sink_final machine
    have hcapped : action (machine.capped limit) =
        Eval.changed (Machine.capped limit) (action machine) := by
      rw [Machine.capped, h machine (machine.sink.capped limit), ← hsink]
      cases action machine with
      | ok value after => rfl
      | error stop after => rfl
    rw [hcapped]
    exact .whole (hsink ▸ hfits)

end Silent

/-- At the moment of a print statement, its line is written that leads over the limit. -/
inductive Prints (limit : Nat) : Moment → Machine → Prop
  | print {bound : Nat} {machine before : Machine} {expr : Expr} {value : Value}
      (hvalue : Eval.evaluate bound expr machine = .ok value before)
      (hfits : before.sink.written.size ≤ limit)
      (hover : limit < (before.sink.write (value.text ++ "\n")).written.size) :
      Prints limit ⟨bound + 1, .execute (.print expr), machine⟩
        { before with sink := before.sink.write (value.text ++ "\n") }

/-- The run comes to a print statement that leads over the limit, which leaves this machine. -/
def Moment.PrintsOver (limit : Nat) (moment : Moment) (full : Machine) : Prop :=
  ∃ later, Reaches moment later ∧ Prints limit later full

section Parts

variable {bound limit : Nat} {Failing : Machine → Prop} {machine : Machine}

/-- A line that does not fit is written in part. -/
theorem cuts_printLine {text : String}
    (hfailing : machine.sink.written.size ≤ limit →
      limit < (machine.sink.write (text ++ "\n")).written.size →
        Failing { machine with sink := machine.sink.write (text ++ "\n") }) :
    Cuts limit Failing (Eval.printLine text) machine where
  flowing := Flowing.carried.keeps_printLine text machine
  cut hroom hfits := by
    have hsize := Sink.size_write hroom (text ++ "\n")
    have hunlimited : Eval.printLine text machine =
        .ok () { machine with sink := machine.sink.write (text ++ "\n") } :=
      if_pos (show machine.sink.fits (text ++ "\n") = true by rw [Sink.fits, hroom])
    have hcapped := Sink.fits_capped hfits (text ++ "\n")
    rw [hunlimited]
    by_cases hline : machine.sink.written.size + (text ++ "\n").utf8ByteSize ≤ limit
    · have hwhole : Eval.printLine text (machine.capped limit) =
          .ok () { machine with sink := (machine.sink.capped limit).write (text ++ "\n") } :=
        if_pos (hcapped.trans (decide_eq_true hline))
      rw [hwhole, Sink.write_capped_of_fits hroom hline]
      exact .whole (hsize ▸ hline)
    · have hover := Nat.lt_of_not_le hline
      have hshort : Eval.printLine text (machine.capped limit) = .error (.fault (.sink .full))
          { machine with sink := (machine.sink.capped limit).write (text ++ "\n") } :=
        if_neg (Bool.eq_false_iff.mp (hcapped.trans (decide_eq_false hline)))
      rw [hshort, Sink.write_capped_of_over hroom hfits hover]
      rw [← hsize] at hover
      generalize machine.sink.write (text ++ "\n") = full at hfailing hover ⊢
      have hflows : full.Flows (Eval.final (.ok () { machine with sink := full } :
          EStateM.Result Stop Machine Unit)).sink := .refl full
      have hcut : Cut limit Failing machine _ _ := Cut.short (hfailing hfits hover) hover hflows
      exact hcut

theorem evaluate_cuts {expr : Expr}
    (ih : ∀ next, Enters ⟨bound + 1, .evaluate expr, machine⟩ next →
      Cuts limit Failing (next.task.run next.bound) next.machine) :
    Cuts limit Failing (Eval.evaluate (bound + 1) expr) machine := by
  have hcarried := Flowing.carried
  cases expr with
  | constant value => exact (Silent.pure _).cuts (hcarried.keeps_pure _ machine)
  | group inner => exact ih _ (.group inner)
  | unary operator operand =>
      simp only [Eval.evaluate]
      apply (ih _ (.operand operator operand)).bind
      intro value after _
      exact (Silent.lift operator _).cuts (hcarried.keeps_lift operator _ after)
  | binary left operator right =>
      simp only [Eval.evaluate]
      apply (ih _ (.left left operator right)).bind
      intro a between ha
      apply (ih _ (.right operator right ha)).bind
      intro b after _
      exact (Silent.lift operator _).cuts (hcarried.keeps_lift operator _ after)
  | logical left operator right =>
      simp only [Eval.evaluate]
      apply (ih _ (.deciding left operator right)).bind
      intro a after ha
      split
      · exact (Silent.pure a).cuts (hcarried.keeps_pure a after)
      · next hopen => exact ih _ (.undecided right ha (Bool.of_not_eq_true hopen))
  | «variable» id name =>
      exact (Silent.readVariable id name).cuts (hcarried.keeps_readVariable id name machine)
  | assign id name value =>
      simp only [Eval.evaluate]
      apply (ih _ (.assigned id name value)).bind
      intro result between _
      have hwrite : Keeps Flowing (Eval.writeVariable id name result) between := by
        apply hcarried.keeps_bind (hcarried.keeps_assignmentScope id name between)
        intro target after _
        exact Flowing.of_same rfl rfl rfl
      apply ((Silent.writeVariable id name result).cuts hwrite).bind
      intro _ after _
      exact (Silent.pure result).cuts (hcarried.keeps_pure result after)
  | call callee paren arguments =>
      simp only [Eval.evaluate]
      apply (ih _ (.callee callee paren arguments)).bind
      intro target between hcallee
      apply (ih _ (.arguments paren arguments hcallee)).bind
      intro values after harguments
      apply ((Silent.checkCall target values paren).cuts
        (hcarried.keeps_checkCall target values paren after)).bind
      intro function checked hfunction
      exact (ih _ (.called hcallee harguments hfunction)).deeper

theorem evaluateAll_cuts {exprs : List Expr}
    (ih : ∀ next, Enters ⟨bound + 1, .evaluateAll exprs, machine⟩ next →
      Cuts limit Failing (next.task.run next.bound) next.machine) :
    Cuts limit Failing (Eval.evaluateAll (bound + 1) exprs) machine := by
  have hcarried := Flowing.carried
  cases exprs with
  | nil => exact (Silent.pure _).cuts (hcarried.keeps_pure _ machine)
  | cons first rest =>
      simp only [Eval.evaluateAll]
      apply (ih _ (.firstValue first rest)).bind
      intro value between hfirst
      apply (ih _ (.moreValues rest hfirst)).bind
      intro values after _
      exact (Silent.pure _).cuts (hcarried.keeps_pure _ after)

theorem call_cuts {callee : Callable} {arguments : List Value} {paren : Token}
    (ih : ∀ next, Enters ⟨bound + 1, .call callee arguments paren, machine⟩ next →
      Cuts limit Failing (next.task.run next.bound) next.machine) :
    Cuts limit Failing (Eval.call (bound + 1) callee arguments paren) machine := by
  have hcarried := Flowing.carried
  cases callee with
  | host function =>
      exact (Silent.callHost function arguments paren).cuts
        (hcarried.keeps_callHost function arguments paren machine)
  | closure function =>
      simp only [Eval.call]
      have hopen : Keeps Flowing (Eval.openFrame function arguments) machine :=
        Flowing.of_same rfl rfl rfl
      apply ((Silent.openFrame function arguments).cuts hopen).bind
      intro frame between hframe
      apply (ih _ (.functionBody paren hframe)).bind
      intro flow after _
      cases flow with
      | leave value => exact (Silent.pure _).cuts (hcarried.keeps_pure _ after)
      | normal => exact (Silent.pure _).cuts (hcarried.keeps_pure _ after)

/-- The scope where a statement runs is the same with every sink. -/
theorem cuts_current {α : Type} (next : Nat → Eval α)
    (h : Cuts limit Failing (next machine.current) machine) :
    Cuts limit Failing (get >>= fun here : Machine => next here.current) machine where
  flowing := h.flowing
  cut := h.cut

theorem execute_cuts {stmt : Stmt}
    (ih : ∀ next, Enters ⟨bound + 1, .execute stmt, machine⟩ next →
      Cuts limit Failing (next.task.run next.bound) next.machine)
    (hprints : ∀ full, Prints limit ⟨bound + 1, .execute stmt, machine⟩ full → Failing full) :
    Cuts limit Failing (Eval.execute (bound + 1) stmt) machine := by
  have hcarried := Flowing.carried
  cases stmt with
  | expression value =>
      simp only [Eval.execute]
      apply (ih _ (.expression value)).bind
      intro _ after _
      exact (Silent.pure _).cuts (hcarried.keeps_pure _ after)
  | print value =>
      simp only [Eval.execute]
      apply (ih _ (.printed value)).bind
      intro result between hresult
      apply (cuts_printLine fun hfits hover => hprints _ (.print hresult hfits hover)).bind
      intro _ after _
      exact (Silent.pure _).cuts (hcarried.keeps_pure _ after)
  | declare name initial =>
      cases initial with
      | none => exact ((Silent.define _ _).bind fun _ => .pure _).cuts (Flowing.of_same rfl rfl rfl)
      | some initial =>
          simp only [Eval.execute]
          apply (ih _ (.initial name initial)).bind
          intro value after _
          exact ((Silent.define _ _).bind fun _ => .pure _).cuts (Flowing.of_same rfl rfl rfl)
  | block body =>
      simp only [Eval.execute]
      apply cuts_current fun current => Eval.openScope current >>= fun scope =>
        Eval.within scope (Eval.executeAll bound body)
      have hopen : Keeps Flowing (Eval.openScope machine.current) machine :=
        Flowing.of_same rfl rfl rfl
      apply ((Silent.openScope machine.current).cuts hopen).bind
      intro scope after hscope
      exact ih _ (.blockBody body hscope)
  | branch condition whenTrue whenFalse =>
      simp only [Eval.execute]
      apply (ih _ (.branching condition whenTrue whenFalse)).bind
      intro value after hcondition
      split
      · next htruthy => exact ih _ (.whenTrue whenTrue whenFalse hcondition htruthy)
      · next hfalsy =>
          cases whenFalse with
          | none => exact (Silent.pure _).cuts (hcarried.keeps_pure _ after)
          | some other =>
              exact ih _ (.whenFalse whenTrue other hcondition (Bool.of_not_eq_true hfalsy))
  | loop condition body =>
      simp only [Eval.execute]
      apply (ih _ (.looping condition body)).bind
      intro value between hcondition
      split
      · next htruthy =>
          apply (ih _ (.loopBody body hcondition htruthy)).bind
          intro flow after hbody
          cases flow with
          | leave result => exact (Silent.pure _).cuts (hcarried.keeps_pure _ after)
          | normal => exact ih _ (.loopAgain hcondition htruthy hbody)
      · exact (Silent.pure _).cuts (hcarried.keeps_pure _ between)
  | function name params body =>
      simp only [Eval.execute]
      apply (Silent.freshIdentity.cuts (Flowing.of_same rfl rfl rfl)).bind
      intro identity after _
      apply cuts_current fun current => Eval.define name.lexeme
        (.closure ⟨name, params, body, current, identity⟩) >>= fun _ => pure Flow.normal
      exact ((Silent.define _ _).bind fun _ => .pure _).cuts (Flowing.of_same rfl rfl rfl)
  | leave keyword value =>
      cases value with
      | none => exact (Silent.pure _).cuts (hcarried.keeps_pure _ machine)
      | some value =>
          simp only [Eval.execute]
          apply (ih _ (.leaving keyword value)).bind
          intro result after _
          exact (Silent.pure _).cuts (hcarried.keeps_pure _ after)

theorem executeAll_cuts {stmts : List Stmt}
    (ih : ∀ next, Enters ⟨bound + 1, .executeAll stmts, machine⟩ next →
      Cuts limit Failing (next.task.run next.bound) next.machine) :
    Cuts limit Failing (Eval.executeAll (bound + 1) stmts) machine := by
  have hcarried := Flowing.carried
  cases stmts with
  | nil => exact (Silent.pure _).cuts (hcarried.keeps_pure _ machine)
  | cons first rest =>
      simp only [Eval.executeAll]
      apply (ih _ (.firstStmt first rest)).bind
      intro flow after hfirst
      cases flow with
      | leave value => exact (Silent.pure _).cuts (hcarried.keeps_pure _ after)
      | normal => exact ih _ (.moreStmts rest hfirst)

end Parts

/-- Whatever is begun, it is cut off at the first print that leads over the limit. -/
theorem Moment.cuts (limit : Nat) (moment : Moment) :
    Cuts limit (moment.PrintsOver limit) (moment.task.run moment.bound) moment.machine := by
  induction moment using Moment.entersInduction with
  | h moment ih =>
      have hparts : ∀ next, Enters moment next →
          Cuts limit (moment.PrintsOver limit) (next.task.run next.bound) next.machine := by
        intro next hnext
        apply (ih next hnext).imp
        rintro full ⟨later, hlater, hprints⟩
        exact ⟨later, .head hnext hlater, hprints⟩
      obtain ⟨bound, task, machine⟩ := moment
      cases task with
      | inScope scope stmts => exact (hparts _ (.inside stmts)).within
      | program stmts =>
          cases stmts with
          | nil => exact (Silent.pure ()).cuts (Flowing.refl machine)
          | cons first rest =>
              apply (hparts _ (.firstOfProgram first rest)).bind
              intro flow after hfirst
              exact hparts _ (.moreOfProgram rest hfirst)
      | evaluate expr =>
          cases bound with
          | zero => exact (Silent.throw .exhausted).cuts (Flowing.refl machine)
          | succ bound => exact evaluate_cuts hparts
      | evaluateAll exprs =>
          cases bound with
          | zero => exact (Silent.throw .exhausted).cuts (Flowing.refl machine)
          | succ bound => exact evaluateAll_cuts hparts
      | call callee arguments paren =>
          cases bound with
          | zero => exact (Silent.throw .exhausted).cuts (Flowing.refl machine)
          | succ bound => exact call_cuts hparts
      | execute stmt =>
          cases bound with
          | zero => exact (Silent.throw .exhausted).cuts (Flowing.refl machine)
          | succ bound => exact execute_cuts hparts fun full hprints => ⟨_, .refl, hprints⟩
      | executeAll stmts =>
          cases bound with
          | zero => exact (Silent.throw .exhausted).cuts (Flowing.refl machine)
          | succ bound => exact executeAll_cuts hparts

end Scriptlet
