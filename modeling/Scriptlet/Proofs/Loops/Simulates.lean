/-
Actions of both runs that have the same outcome from states that belong together.

The block and the loop that stand for a `for` take more steps than the `for` itself, so a bound
that is large enough for one run may be too small for the other.  Conditions on the bounds, which
stay open here, say when that can be.
-/
import Scriptlet.Proofs.Calls
import Scriptlet.Proofs.Loops.Images

namespace Scriptlet.Loops

structure Relates (tables : Tables) (images : Images) (machine : Machine) (state : State) :
    Prop where
  outside : machine.toOutside = state.toOutside
  rewritten : machine.table = tables.rewritten
  written : state.table = tables.written
  mirrors : Mirrors tables images machine.scopes state.scopes

/-- Both runs are in a scope and in its image. -/
def Stands (images : Images) (machine : Machine) (state : State) (flags : List Bool) : Prop :=
  images[machine.current]? = some ⟨state.current, flags⟩

/-- Scopes keep their images, and both runs are where they were. -/
structure Grows (images : Images) (machine : Machine) (state : State) (images' : Images)
    (machine' : Machine) (state' : State) : Prop where
  kept : images <+: images'
  current : machine'.current = machine.current
  current' : state'.current = state.current

/-- The same reason to stop; the side tables may fail to fit at different distances. -/
inductive SameStop : Stop → Stop → Prop
  | fault (diagnostic : Diagnostic) : SameStop (.fault diagnostic) (.fault diagnostic)
  | defect (defect defect' : ScopeDefect) : SameStop (.defect defect) (.defect defect')

/-- Both actions end well, with results that meet the condition, or both stop for the same reason,
and the states belong together again; or one of them is cut off, the first one only under the first
condition, the second one only under the second. -/
inductive Outcome {α β : Type} (short long : Prop) (tables : Tables) (images : Images)
    (machine : Machine) (state : State) (Post : Images → α → β → Prop) :
    EStateM.Result Stop Machine α → EStateM.Result Stop State β → Prop
  | ok {images' : Images} {machine' : Machine} {state' : State} {a : α} {b : β}
      (grows : Grows images machine state images' machine' state')
      (relates : Relates tables images' machine' state') (post : Post images' a b) :
      Outcome short long tables images machine state Post (.ok a machine') (.ok b state')
  | error {images' : Images} {machine' : Machine} {state' : State} {stop stop' : Stop}
      (grows : Grows images machine state images' machine' state')
      (relates : Relates tables images' machine' state') (same : SameStop stop stop') :
      Outcome short long tables images machine state Post (.error stop machine')
        (.error stop' state')
  | short {machine' : Machine} {result' : EStateM.Result Stop State β} (may : short) :
      Outcome short long tables images machine state Post (.error .exhausted machine') result'
  | long {result : EStateM.Result Stop Machine α} {state' : State} (may : long) :
      Outcome short long tables images machine state Post result (.error .exhausted state')
  | both {machine' : Machine} {state' : State} :
      Outcome short long tables images machine state Post (.error .exhausted machine')
        (.error .exhausted state')

def Simulates {α β : Type} (short long : Prop) (tables : Tables) (images : Images)
    (machine : Machine) (state : State) (action : Eval α) (action' : Run β)
    (Post : Images → α → β → Prop) : Prop :=
  Outcome short long tables images machine state Post (action machine) (action' state)

section Grows

variable {tables : Tables} {images images' images'' : Images}
  {machine machine' machine'' : Machine} {state state' state'' : State} {flags : List Bool}

theorem Grows.refl (images : Images) (machine : Machine) (state : State) :
    Grows images machine state images machine state :=
  ⟨List.prefix_refl _, rfl, rfl⟩

theorem Grows.trans (h : Grows images machine state images' machine' state')
    (h' : Grows images' machine' state' images'' machine'' state'') :
    Grows images machine state images'' machine'' state'' :=
  ⟨h.kept.trans h'.kept, h'.current.trans h.current, h'.current'.trans h.current'⟩

theorem Stands.grow (h : Stands images machine state flags)
    (hgrows : Grows images machine state images' machine' state') :
    Stands images' machine' state' flags := by
  unfold Stands
  rw [hgrows.current, hgrows.current']
  exact image_kept hgrows.kept h

theorem Relates.modifyOutside (h : Relates tables images machine state)
    (change : Outside → Outside) :
    Relates tables images (HasOutside.modifyOutside change machine)
      (HasOutside.modifyOutside change state) :=
  { h with outside := congrArg change h.outside }

theorem Relates.move (h : Relates tables images machine state) (scope scope' : Nat) :
    Relates tables images { machine with current := scope } { state with current := scope' } :=
  { h with }

end Grows

section Simulates

variable {α β γ δ : Type} {short long short' long' : Prop} {tables : Tables} {images : Images}
  {machine : Machine} {state : State} {action : Eval α} {action' : Run β} {next : α → Eval γ}
  {next' : β → Run δ} {P P' : Images → α → β → Prop} {Q : Images → γ → δ → Prop}

theorem simulates_pure {a : α} {b : β} (hrelates : Relates tables images machine state)
    (h : P images a b) :
    Simulates short long tables images machine state (pure a) (pure b) P :=
  .ok (Grows.refl _ _ _) hrelates h

theorem simulates_fail (hrelates : Relates tables images machine state) (token : Token)
    (fault : RuntimeFault) :
    Simulates short long tables images machine state (Eval.fail token fault)
      (Eval.fail token fault) P :=
  .error (Grows.refl _ _ _) hrelates (.fault _)

theorem simulates_lift (hrelates : Relates tables images machine state) (token : Token)
    {result : Except RuntimeFault α} {result' : Except RuntimeFault β}
    (h : SameResult (P images) result result') :
    Simulates short long tables images machine state (Eval.lift token result)
      (Eval.lift token result') P := by
  cases h with
  | ok hpost => exact simulates_pure hrelates hpost
  | error fault => exact simulates_fail hrelates token fault

theorem Outcome.since {images' : Images} {machine' : Machine} {state' : State}
    {result : EStateM.Result Stop Machine α} {result' : EStateM.Result Stop State β}
    (h : Outcome short long tables images' machine' state' P result result')
    (hgrows : Grows images machine state images' machine' state') :
    Outcome short long tables images machine state P result result' := by
  cases h with
  | ok hgrows' hrelates hpost => exact .ok (hgrows.trans hgrows') hrelates hpost
  | error hgrows' hrelates hsame => exact .error (hgrows.trans hgrows') hrelates hsame
  | short hmay => exact .short hmay
  | long hmay => exact .long hmay
  | both => exact .both

/-- One action after the other. -/
theorem Simulates.bind
    (h : Simulates short long tables images machine state action action' P)
    (hnext : ∀ images' machine' state' a b, Grows images machine state images' machine' state' →
      Relates tables images' machine' state' → P images' a b →
        Simulates short long tables images' machine' state' (next a) (next' b) Q) :
    Simulates short long tables images machine state (action >>= next) (action' >>= next') Q := by
  unfold Simulates at h ⊢
  rw [Eval.bind_apply, Eval.bind_apply]
  generalize action machine = result at h ⊢
  generalize action' state = result' at h ⊢
  cases h with
  | ok hgrows hrelates hpost => exact (hnext _ _ _ _ _ hgrows hrelates hpost).since hgrows
  | error hgrows hrelates hsame => exact .error hgrows hrelates hsame
  | short hmay => exact .short hmay
  | long hmay => exact .long hmay
  | both => exact .both

theorem Simulates.weaken (h : Simulates short long tables images machine state action action' P)
    (himp : ∀ images' a b, P images' a b → P' images' a b) :
    Simulates short long tables images machine state action action' P' := by
  rw [← bind_pure action, ← bind_pure action']
  exact h.bind fun _ _ _ _ _ _ hrelates hpost => simulates_pure hrelates (himp _ _ _ hpost)

/-- The first run changes the form of its result. -/
theorem Simulates.mapFirst {change : α → γ} {Q : Images → γ → β → Prop}
    (h : Simulates short long tables images machine state action action' P)
    (himp : ∀ images' a b, P images' a b → Q images' (change a) b) :
    Simulates short long tables images machine state (action >>= fun a => pure (change a))
      action' Q := by
  rw [← bind_pure action']
  exact h.bind fun _ _ _ _ _ _ hrelates hpost => simulates_pure hrelates (himp _ _ _ hpost)

/-- The second run changes the form of its result. -/
theorem Simulates.mapSecond {change : β → δ} {Q : Images → α → δ → Prop}
    (h : Simulates short long tables images machine state action action' P)
    (himp : ∀ images' a b, P images' a b → Q images' a (change b)) :
    Simulates short long tables images machine state action
      (action' >>= fun b => pure (change b)) Q := by
  rw [← bind_pure action]
  exact h.bind fun _ _ _ _ _ _ hrelates hpost => simulates_pure hrelates (himp _ _ _ hpost)

/-- Weaker conditions for being cut off. -/
theorem Simulates.loosen (h : Simulates short long tables images machine state action action' P)
    (hshort : short → short') (hlong : long → long') :
    Simulates short' long' tables images machine state action action' P := by
  unfold Simulates at h ⊢
  generalize action machine = result at h ⊢
  generalize action' state = result' at h ⊢
  cases h with
  | ok hgrows hrelates hpost => exact .ok hgrows hrelates hpost
  | error hgrows hrelates hsame => exact .error hgrows hrelates hsame
  | short hmay => exact .short (hshort hmay)
  | long hmay => exact .long (hlong hmay)
  | both => exact .both

/-- What happens in other scopes, and in the scopes that belong to them. -/
theorem Simulates.elsewhere {scope scope' : Nat}
    (h : Simulates short long tables images { machine with current := scope }
      { state with current := scope' } action action' P) :
    Simulates short long tables images machine state (Eval.within scope action)
      (Run.within scope' action') P := by
  unfold Simulates Eval.within Run.within
  unfold Simulates at h
  dsimp only
  generalize action _ = result at h ⊢
  generalize action' _ = result' at h ⊢
  cases h with
  | ok hgrows hrelates hpost => exact .ok ⟨hgrows.kept, rfl, rfl⟩ (hrelates.move _ _) hpost
  | error hgrows hrelates hsame => exact .error ⟨hgrows.kept, rfl, rfl⟩ (hrelates.move _ _) hsame
  | short hmay => exact .short hmay
  | long hmay => exact .long hmay
  | both => exact .both

/-- Only the first run is in another scope meanwhile. -/
theorem Simulates.aside {scope : Nat}
    (h : Simulates short long tables images { machine with current := scope } state action action'
      P) :
    Simulates short long tables images machine state (Eval.within scope action) action' P := by
  unfold Simulates Eval.within
  unfold Simulates at h
  dsimp only
  generalize action _ = result at h ⊢
  generalize action' _ = result' at h ⊢
  cases h with
  | ok hgrows hrelates hpost =>
      exact .ok ⟨hgrows.kept, rfl, hgrows.current'⟩ { hrelates with } hpost
  | error hgrows hrelates hsame =>
      exact .error ⟨hgrows.kept, rfl, hgrows.current'⟩ { hrelates with } hsame
  | short hmay => exact .short hmay
  | long hmay => exact .long hmay
  | both => exact .both

theorem Simulates.deeper
    (h : ∀ change : Outside → Outside, Simulates short long tables images
      (HasOutside.modifyOutside change machine) (HasOutside.modifyOutside change state) action
        action' P) :
    Simulates short long tables images machine state (Eval.deeper action) (Eval.deeper action')
      P := by
  have hin := h fun o => { o with depth := o.depth + 1 }
  unfold Simulates at hin
  unfold Simulates Eval.deeper
  dsimp only
  generalize action _ = result at hin ⊢
  generalize action' _ = result' at hin ⊢
  cases hin with
  | ok hgrows hrelates hpost =>
      exact .ok ⟨hgrows.kept, hgrows.current, hgrows.current'⟩ (hrelates.modifyOutside _) hpost
  | error hgrows hrelates hsame =>
      exact .error ⟨hgrows.kept, hgrows.current, hgrows.current'⟩ (hrelates.modifyOutside _) hsame
  | short hmay => exact .short hmay
  | long hmay => exact .long hmay
  | both => exact .both

end Simulates

/-! ### Actions apart from variables -/

/-- Things to call that differ at most in where closures were made. -/
abbrev CallMatches (tables : Tables) (images : Images) : Callable → CallableIn Site → Prop :=
  CallableIn.Rel (ClosureMatches tables images)

abbrev AllMatch (tables : Tables) (images : Images) : List Value → List (ValueIn Site) → Prop :=
  List.Forall₂ (Matches tables images)

section Actions

variable {short long : Prop} {tables : Tables} {images images' : Images} {machine : Machine}
  {state : State} {flags : List Bool} {value : Value} {value' : ValueIn Site}
  {arguments : List Value} {arguments' : List (ValueIn Site)}

theorem AllMatch.grow (h : AllMatch tables images arguments arguments')
    (hgrows : images <+: images') : AllMatch tables images' arguments arguments' :=
  h.imp fun _ _ hmatch => hmatch.grow hgrows

variable (hrelates : Relates tables images machine state)
include hrelates

theorem simulates_freshIdentity :
    Simulates short long tables images machine state Eval.freshIdentity Eval.freshIdentity
      fun _ a b => a = b :=
  .ok ⟨List.prefix_refl _, rfl, rfl⟩ (hrelates.modifyOutside _)
    (congrArg Outside.nextIdentity hrelates.outside)

theorem simulates_printLine (text : String) :
    Simulates short long tables images machine state (Eval.printLine text) (Eval.printLine text)
      fun _ _ _ => True := by
  have hsink : (HasOutside.outside machine).sink = (HasOutside.outside state).sink :=
    congrArg Outside.sink hrelates.outside
  unfold Simulates Eval.printLine
  rw [hsink]
  dsimp only
  split
  · exact .ok ⟨List.prefix_refl _, rfl, rfl⟩ (hrelates.modifyOutside _) trivial
  · exact .error ⟨List.prefix_refl _, rfl, rfl⟩ (hrelates.modifyOutside _) (.fault _)

theorem simulates_flush :
    Simulates short long tables images machine state Eval.flush Eval.flush
      fun _ _ _ => True := by
  have hsink : (HasOutside.outside machine).sink = (HasOutside.outside state).sink :=
    congrArg Outside.sink hrelates.outside
  unfold Simulates Eval.flush
  rw [hsink]
  split
  · exact .error (Grows.refl ..) hrelates (.fault _)
  · exact .ok (Grows.refl ..) hrelates trivial

theorem simulates_callHost (function : HostFunction)
    (harguments : AllMatch tables images arguments arguments') (paren : Token) :
    Simulates short long tables images machine state (Eval.callHost function arguments paren)
      (Eval.callHost function arguments' paren) (Matches tables) := by
  have hclock : (HasOutside.outside machine).clock = (HasOutside.outside state).clock :=
    congrArg Outside.clock hrelates.outside
  unfold Simulates
  rw [Eval.callHost_apply, Eval.callHost_apply, hclock]
  have hresult := (function.action.run_rel harguments
    (HasOutside.outside state).clock.now).mapError RuntimeFault.host
  exact (simulates_lift (hrelates.modifyOutside _) paren hresult).since
    ⟨List.prefix_refl _, rfl, rfl⟩

theorem simulates_checkCall (hvalue : Matches tables images value value')
    (harguments : AllMatch tables images arguments arguments') (paren : Token) :
    Simulates short long tables images machine state (Eval.checkCall value arguments paren)
      (Eval.checkCall value' arguments' paren) (CallMatches tables) := by
  have hdepth : (HasOutside.outside machine).depth = (HasOutside.outside state).depth :=
    congrArg Outside.depth hrelates.outside
  unfold Simulates
  rw [Eval.checkCall_apply, Eval.checkCall_apply, hdepth]
  have hresult := hvalue.checked (fun _ _ => ClosureMatches.sameFace) harguments.length_eq
    (HasOutside.outside state).depth
  exact simulates_lift hrelates paren (hresult.imp fun _ _ => And.left)

end Actions

/-! ### Variables and scopes -/

section Variables

variable {α β : Type} {short long : Prop} {tables : Tables} {images : Images} {machine : Machine}
  {state : State} {flags : List Bool} {value : Value} {value' : ValueIn Site} {action : Eval α}
  {action' : Run β} {P : Images → α → β → Prop} (hrelates : Relates tables images machine state)
include hrelates

theorem simulates_read (hstands : Stands images machine state flags) {id : NodeId} {name : Token}
    (hlead : tables.Lead flags [id]) :
    Simulates short long tables images machine state (Eval.readVariable id name)
      (Run.readVariable id name) (Matches tables) := by
  have hdistance := (hlead id List.mem_cons_self).2
  unfold Simulates Eval.readVariable Run.readVariable
  rw [hrelates.rewritten, hrelates.written, hdistance]
  cases tables.written.distance? id with
  | some distance =>
      dsimp only [Option.map_some]
      rcases hrelates.mirrors.readAt distance name.lexeme hstands with
        ⟨value, value', hvalue, hvalue', hmatch⟩ | ⟨defect, defect', hdefect, hdefect'⟩
      · rw [hvalue, hvalue']
        exact .ok (Grows.refl ..) hrelates hmatch
      · rw [hdefect, hdefect']
        exact .error (Grows.refl ..) hrelates (.defect _ _)
  | none =>
      have hglobal := hrelates.mirrors.lookup? name.lexeme hrelates.mirrors.root
      dsimp only [Option.map_none]
      generalize machine.scopes.lookup? _ _ = found at hglobal ⊢
      generalize state.scopes.lookup? _ _ = found' at hglobal ⊢
      cases hglobal with
      | some hmatch => exact .ok (Grows.refl ..) hrelates hmatch
      | none => exact simulates_fail hrelates name _

theorem simulates_assignmentScope (hstands : Stands images machine state flags) {id : NodeId}
    {name : Token} (hlead : tables.Lead flags [id]) :
    Simulates short long tables images machine state (Eval.assignmentScope id name)
      (Run.assignmentScope id name) OwnImage := by
  have hdistance := (hlead id List.mem_cons_self).2
  unfold Simulates Eval.assignmentScope Run.assignmentScope
  rw [hrelates.rewritten, hrelates.written, hdistance]
  cases tables.written.distance? id with
  | some distance =>
      have htarget := hrelates.mirrors.ancestor? distance hstands
      dsimp only [Option.map_some]
      unfold ScopeTree.scopeAt
      generalize machine.scopes.ancestor? _ _ = found at htarget ⊢
      generalize state.scopes.ancestor? _ _ = found' at htarget ⊢
      cases htarget with
      | some hlinked => exact .ok (Grows.refl ..) hrelates hlinked
      | none => exact .error (Grows.refl ..) hrelates (.defect _ _)
  | none =>
      have hholder := hrelates.mirrors.holder? name.lexeme hrelates.mirrors.root
      dsimp only [Option.map_none]
      generalize machine.scopes.holder? _ _ = found at hholder ⊢
      generalize state.scopes.holder? _ _ = found' at hholder ⊢
      cases hholder with
      | some hlinked => exact .ok (Grows.refl ..) hrelates hlinked
      | none => exact simulates_fail hrelates name _

theorem Relates.define {target target' : Nat} (himage : images[target]? = some ⟨target', flags⟩)
    (hown : Own flags) (hmatch : Matches tables images value value') (name : String) :
    Relates tables images { machine with scopes := machine.scopes.define target name value }
      { state with scopes := state.scopes.define target' name value' } :=
  { hrelates with mirrors := hrelates.mirrors.define himage hown hmatch name }

theorem simulates_write (hstands : Stands images machine state flags) {id : NodeId} {name : Token}
    (hlead : tables.Lead flags [id]) (hmatch : Matches tables images value value') :
    Simulates short long tables images machine state (Eval.writeVariable id name value)
      (Run.writeVariable id name value') fun _ _ _ => True := by
  refine (simulates_assignmentScope hrelates hstands hlead).bind
    fun images' machine' state' target target' hgrows hrelates' ⟨flags', himage, hown⟩ => ?_
  exact .ok ⟨List.prefix_refl _, rfl, rfl⟩
    (hrelates'.define himage hown (hmatch.grow hgrows.kept) name.lexeme) trivial

theorem simulates_define (hstands : Stands images machine state flags) (hown : Own flags)
    (hmatch : Matches tables images value value') (name : String) :
    Simulates short long tables images machine state (Eval.define name value)
      (Run.define name value') fun _ _ _ => True :=
  .ok ⟨List.prefix_refl _, rfl, rfl⟩ (hrelates.define hstands hown hmatch name) trivial

/-- Both runs open a scope, act in it, and leave it. -/
theorem Simulates.inScope {parent parent' : Nat}
    (himage : images[parent]? = some ⟨parent', flags⟩)
    (h : ∀ (images' : Images) (inner : Machine) (inner' : State), images <+: images' →
      Relates tables images' inner inner' → Stands images' inner inner' (false :: flags) →
        Simulates short long tables images' inner inner' action action' P) :
    Simulates short long tables images machine state
      (Eval.openScope parent >>= fun scope => Eval.within scope action)
      (Run.openScope parent' >>= fun scope => Run.within scope action') P := by
  have hopened : Relates tables (images ++ [⟨state.scopes.size, false :: flags⟩])
      { machine with scopes := machine.scopes.child parent }
      { state with scopes := state.scopes.child parent' } :=
    { hrelates with mirrors := hrelates.mirrors.child himage }
  have hgrows : Grows images machine state (images ++ [⟨state.scopes.size, false :: flags⟩])
      { machine with scopes := machine.scopes.child parent }
      { state with scopes := state.scopes.child parent' } :=
    ⟨List.prefix_append .., rfl, rfl⟩
  have hinside := h _ _ _ hgrows.kept (hopened.move machine.scopes.size state.scopes.size)
    (hrelates.mirrors.image_added _)
  exact hinside.elsewhere.since hgrows

/-- The first run alone opens an additional scope, acts in it, and leaves it. -/
theorem Simulates.inAddedScope (hstands : Stands images machine state flags)
    (h : ∀ (images' : Images) (inner : Machine) (inner' : State), images <+: images' →
      Relates tables images' inner inner' → Stands images' inner inner' (true :: flags) →
        Simulates short long tables images' inner inner' action action' P) :
    Simulates short long tables images machine state
      (Eval.openScope machine.current >>= fun scope => Eval.within scope action) action' P := by
  have hopened : Relates tables (images ++ [⟨state.current, true :: flags⟩])
      { machine with scopes := machine.scopes.child machine.current } state :=
    { hrelates with mirrors := hrelates.mirrors.childAdded hstands }
  have hgrows : Grows images machine state (images ++ [⟨state.current, true :: flags⟩])
      { machine with scopes := machine.scopes.child machine.current } state :=
    ⟨List.prefix_append .., rfl, rfl⟩
  have hinside := h _ _ _ hgrows.kept
    { hopened.move machine.scopes.size state.current with } (hrelates.mirrors.image_added _)
  exact hinside.aside.since hgrows

/-- A call binds its arguments in a scope, in which the body runs. -/
theorem Simulates.inFrame {name : Token} {params : List Token} {body : List Declaration}
    {scope identity : Nat} {image : Image} {arguments : List Value}
    {arguments' : List (ValueIn Site)} (himage : images[scope]? = some image)
    (harguments : AllMatch tables images arguments arguments')
    (h : ∀ (images' : Images) (inner : Machine) (inner' : State), images <+: images' →
      Relates tables images' inner inner' → Stands images' inner inner' (false :: image.flags) →
        Simulates short long tables images' inner inner' action action' P) :
    Simulates short long tables images machine state
      (Eval.openFrame ⟨name, params, rewriteAll body, scope, identity⟩ arguments >>= fun frame =>
        Eval.within frame action)
      (Run.openFrame ⟨name, params, rewriteAll body, ⟨image.scope, body⟩, identity⟩ arguments' >>=
        fun frame => Run.within frame action') P := by
  have hgrows : images <+: images ++ [⟨state.scopes.size, false :: image.flags⟩] :=
    List.prefix_append ..
  have hstands := hrelates.mirrors.image_added ⟨state.scopes.size, false :: image.flags⟩
  have hmirrors := (hrelates.mirrors.child himage).defineAll hstands (own_false _)
    (params.map Token.lexeme) (harguments.grow hgrows)
  have hopened : Relates tables (images ++ [⟨state.scopes.size, false :: image.flags⟩])
      { machine with
        scopes := (machine.scopes.child scope).defineAll machine.scopes.size
          (params.map Token.lexeme) arguments }
      { state with
        scopes := (state.scopes.child image.scope).defineAll state.scopes.size
          (params.map Token.lexeme) arguments' } :=
    { hrelates with mirrors := hmirrors }
  have hinside := h _ _ _ hgrows (hopened.move machine.scopes.size state.scopes.size) hstands
  exact hinside.elsewhere.since ⟨hgrows, rfl, rfl⟩

end Variables

end Scriptlet.Loops
