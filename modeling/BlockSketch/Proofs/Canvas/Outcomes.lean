import BlockSketch.Proofs.Workspace.Placing
import BlockSketch.Session

/-!
# Outcomes of operations

All that an operation of a canvas can do, said once. It commits a workspace and tells the events of
it, or it is refused, or it installs a selection, or only the scheduler goes on (`apply_ends`). What
every operation keeps is derived from this: from the four ways in which an operation ends, or, if it
is about the workspace only, from what can be made of that (`Reworks`). An action of a session does
no more to the canvas than an operation, but for a staged selection (`Session.Acts`).
-/

namespace BlockSketch

-- ---------------------------------------------------------------------------
-- Supplies of components
-- ---------------------------------------------------------------------------

namespace Selection

theorem chooseId_le (kind : ComponentKind) (v : Value) (supply : Supply) :
    supply.drawn ≤ (chooseId kind v supply).2.drawn := by
  unfold chooseId
  split
  · exact Nat.le_succ _
  · exact Nat.le_refl _

theorem admitComponent_le (selection : Selection) (request : Component) (supply : Supply) :
    supply.drawn ≤ (selection.admitComponent request supply).2.drawn := by
  unfold admitComponent
  split
  · exact Nat.le_refl _
  · split
    · exact Nat.le_refl _
    · exact chooseId_le _ _ _

theorem build_le (selection : Selection) (supply : Supply) (requests : List Component) :
    supply.drawn ≤ (build selection supply requests).2.drawn := by
  induction requests generalizing selection supply with
  | nil => exact Nat.le_refl _
  | cons request requests ih =>
    have hle := admitComponent_le selection request supply
    unfold build
    split <;> rename_i heq <;> rw [heq] at hle
    · exact hle
    · exact Nat.le_trans hle (ih _ _)

end Selection

-- ---------------------------------------------------------------------------
-- Edits that change nothing
-- ---------------------------------------------------------------------------

namespace Workspace

variable {registry : Registry} {w w' : Workspace}

theorem planMove_key (hregular : registry.Regular)
    (h : w.planMove registry a b socket = .ok move) : socket.isContainer = false := by
  simp only [planMove, bind_ok] at h
  obtain ⟨r, -, p, -, h⟩ := h
  split at h
  · cases h
  · simp only [bind_ok, mapError_ok, typeOf_ok hregular] at h
    obtain ⟨t, -, u, hu, target, htarget, -⟩ := h
    exact findTarget_key hregular hu htarget

/-- A connection that is refused is refused before the block is cut out. -/
theorem connect_error (hregular : registry.Regular)
    (h : w.connect registry a b socket = (.error e, w')) : w' = w := by
  unfold connect at h
  split at h
  · cases h
    rfl
  · rename_i hplan
    rw [planMove_key hregular hplan] at h
    cases h

theorem detach_unmoved (h : w.detach v = .ok (false, w')) : w' = w := by
  simp only [detach, bind_ok, Except.ok.injEq] at h
  obtain ⟨r, -, h⟩ := h
  split at h <;> cases h
  rfl

theorem createVariable_known (h : w.createVariable name = .ok (false, w')) : w' = w := by
  simp only [createVariable, addVariable, bind_ok, Except.ok.injEq] at h
  obtain ⟨s, -, h⟩ := h
  split at h <;> cases h
  rfl

theorem deleteVariable_unknown (h : w.deleteVariable registry name = (.ok false, w')) :
    w' = w := by
  unfold deleteVariable at h
  split at h
  · cases h
    rfl
  · split at h
    · cases h
    · split at h <;> cases h

end Workspace

-- ---------------------------------------------------------------------------
-- How operations end
-- ---------------------------------------------------------------------------

def Operation.reading? (c : Canvas) : Operation → Option (Except Malformed Workspace)
  | .load document => some (Document.read c.registry document)
  | .reload => some (Document.reread c.registry (Document.ofWorkspace c.workspace))
  | .loadText text => some (Document.readText c.registry text)
  | _ => none

def Operation.installs? (c : Canvas) : Operation → Option Workspace
  | .clear => some (.fresh c.supply.drawId.1)
  | op => (op.reading? c).bind Except.toOption

def Operation.IsSelecting : Operation → Prop
  | .addComponent _ | .removeComponent _ | .clearComponents | .replaceComponents _ => True
  | _ => False

def Operation.IsScheduling : Operation → Prop
  | .notify _ | .flush | .cancel | .fire _ => True
  | _ => False

theorem Operation.IsScheduling.installs? {op : Operation} (h : op.IsScheduling) (c : Canvas) :
    op.installs? c = none := by
  cases op with
  | notify _ | flush | cancel | fire _ => rfl
  | _ => exact h.elim

namespace Canvas

/-- What an operation can make of the workspace, and what is left of the supply. A connection and the
deletion of a variable may stop on the way. -/
inductive Reworks (c : Canvas) : Operation → Workspace → Supply → Prop
  | kept {op : Operation} {supply : Supply} (h : op.installs? c = none)
      (hdrawn : c.supply.drawn ≤ supply.drawn) : Reworks c op c.workspace supply
  | placed {request : BlockRequest} {placed : Placed} {supply : Supply}
      (h : c.workspace.place c.registry c.selection.kinds c.supply request =
        (.ok placed, supply)) :
      Reworks c (.createBlock request) placed.workspace supply
  | connected (block parent socket : Value) :
      Reworks c (.connect block parent socket)
        (c.workspace.connect c.registry block parent socket).2 c.supply
  | detached {block : Value} {moved : Bool} {w : Workspace}
      (h : c.workspace.detach block = .ok (moved, w)) : Reworks c (.detach block) w c.supply
  | deleted {block : Value} {removed : List Value} {w : Workspace}
      (h : c.workspace.delete block = .ok (removed, w)) : Reworks c (.deleteBlock block) w c.supply
  | changed {block name value v : Value} {w : Workspace}
      (h : c.workspace.setField c.registry block name value = .ok (v, w)) :
      Reworks c (.setField block name value) w c.supply
  | declared {name : Value} {added : Bool} {w : Workspace}
      (h : c.workspace.createVariable name = .ok (added, w)) :
      Reworks c (.createVariable name) w c.supply
  | undeclared (name : Value) :
      Reworks c (.deleteVariable name) (c.workspace.deleteVariable c.registry name).2 c.supply
  | cleared : Reworks c .clear (.fresh c.supply.drawId.1) c.supply.drawId.2
  | loaded {op : Operation} {w : Workspace} (h : op.reading? c = some (.ok w)) :
      Reworks c op w c.supply

/-- All that an operation can do to a canvas. One that tells of nothing changes nothing, and neither
does one that is refused, but for the deletion of a variable. -/
inductive Ends (c : Canvas) (op : Operation) : Outcome Value → Prop
  | committed {w : Workspace} {supply : Supply} {events : List Event} {v : Value}
      (h : Reworks c op w supply) (hsilent : events = [] → w = c.workspace) :
      Ends c op ({ c with supply }.commit w events v)
  | refused {w : Workspace} {supply : Supply} {e : Error} (h : Reworks c op w supply)
      (hkept : c.registry.Regular → (∀ name, op ≠ .deleteVariable name) → w = c.workspace) :
      Ends c op ({ c with workspace := w, supply }.fail e)
  | selected {selection : Selection} {allowed : List Value} {supply : Supply} {v : Value}
      {notices : List Notice} (h : op.IsSelecting ∨ selection = c.selection)
      (hkept : Reworks c op c.workspace supply)
      (hnotices : notices = [] ∨ notices = [.refreshed allowed]) :
      Ends c op { result := .ok v, canvas := { c with selection, allowed, supply }, notices }
  | scheduled {result : Except Error Value} {s : Scheduler} {notices : List Notice}
      (h : op.IsScheduling) :
      Ends c op { result, canvas := { c with scheduler := some s }, notices }

variable {c : Canvas} {op : Operation}

theorem ends_refused {supply : Supply} {e : Error} (hkept : Reworks c op c.workspace supply) :
    Ends c op ({ c with supply }.fail e) :=
  .refused hkept fun _ _ => rfl

theorem reworks_same (h : op.installs? c = none) : Reworks c op c.workspace c.supply :=
  .kept h (Nat.le_refl _)

theorem ends_install {result : Except Malformed Workspace} {f : Nat → Value}
    (h : op.reading? c = some result) : Ends c op ((c.install result).map f) := by
  cases result with
  | error e =>
    refine ends_refused (reworks_same ?_)
    cases op with
    | clear => cases h
    | _ => exact congrArg (Option.bind · Except.toOption) h
  | ok w => exact .committed (.loaded h) (by simp)

theorem ends_refresh {f : Bool → Value} {selection : Selection} {supply : Supply}
    (kinds : List ComponentKind) (h : op.IsSelecting ∨ selection = c.selection)
    (hkept : Reworks c op c.workspace supply) :
    Ends c op (({ c with selection, supply }.refresh kinds).map f) := by
  refine .selected h hkept ?_
  simp only [refresh]
  split
  · exact .inr rfl
  · exact .inl rfl

theorem ends_select {f : α → Value} {selection : Selection} {supply : Supply} {a : α}
    (h : op.IsSelecting) (hkept : Reworks c op c.workspace supply) :
    Ends c op (({ c with supply }.select selection a).map f) :=
  ends_refresh (f := fun _ => f a) selection.kinds (.inl h) hkept

theorem ends_withScheduler {g : Scheduler → Except Error α × Scheduler × List Notice}
    {f : α → Value} (h : op.IsScheduling) : Ends c op ((c.withScheduler g).map f) := by
  unfold withScheduler
  split
  · exact ends_refused (reworks_same (h.installs? c))
  · exact .scheduled h

theorem createBlock_ends (c : Canvas) (request : BlockRequest) :
    Ends c (.createBlock request) (c.createBlock request) := by
  have hdrawn := Workspace.place_le c.registry c.selection.kinds c.workspace c.supply request
  unfold createBlock
  split <;> rename_i heq
  · rw [heq] at hdrawn
    exact ends_refused (.kept rfl hdrawn)
  · exact .committed (.placed heq) (by simp [placedEvents])

theorem connect_ends (c : Canvas) (block parent socket : Value) (f : Unit → Value) :
    Ends c (.connect block parent socket) ((c.connect block parent socket).map f) := by
  have hreworks := Reworks.connected (c := c) block parent socket
  unfold connect
  split <;> rename_i heq <;> rw [heq] at hreworks
  · exact .refused hreworks fun hregular _ => Workspace.connect_error hregular heq
  · exact .committed hreworks (by simp)

theorem detach_ends (c : Canvas) (block : Value) (f : Bool → Value) :
    Ends c (.detach block) ((c.detach block).map f) := by
  unfold detach
  split
  · exact ends_refused (reworks_same rfl)
  · rename_i moved w heq
    refine .committed (.detached heq) ?_
    cases moved with
    | false => exact fun _ => Workspace.detach_unmoved heq
    | true => simp

theorem deleteBlock_ends (c : Canvas) (block : Value) (f : List Value → Value) :
    Ends c (.deleteBlock block) ((c.deleteBlock block).map f) := by
  unfold deleteBlock
  split <;> rename_i heq
  · exact ends_refused (reworks_same rfl)
  · exact .committed (.deleted heq) (by simp)

theorem setField_ends (c : Canvas) (block name value : Value) :
    Ends c (.setField block name value) (c.setField block name value) := by
  unfold setField
  split <;> rename_i heq
  · exact ends_refused (reworks_same rfl)
  · exact .committed (.changed heq) (by simp)

theorem createVariable_ends (c : Canvas) (name : Value) (f : Bool → Value) :
    Ends c (.createVariable name) ((c.createVariable name).map f) := by
  unfold createVariable
  split
  · exact ends_refused (reworks_same rfl)
  · rename_i added w heq
    refine .committed (.declared heq) ?_
    cases added with
    | false => exact fun _ => Workspace.createVariable_known heq
    | true => simp

theorem deleteVariable_ends (c : Canvas) (name : Value) (f : Bool → Value) :
    Ends c (.deleteVariable name) ((c.deleteVariable name).map f) := by
  have hreworks := Reworks.undeclared (c := c) name
  unfold deleteVariable
  split <;> rename_i heq <;> rw [heq] at hreworks
  · exact .refused hreworks fun _ hother => (hother name rfl).elim
  · rename_i deleted w
    refine .committed hreworks ?_
    cases deleted with
    | false => exact fun _ => Workspace.deleteVariable_unknown heq
    | true => simp

theorem addComponent_ends (c : Canvas) (request : Component) (f : Component → Value) :
    Ends c (.addComponent request) ((c.addComponent request).map f) := by
  have hdrawn := Selection.admitComponent_le c.selection request c.supply
  unfold addComponent
  split <;> rename_i heq <;> rw [heq] at hdrawn
  · exact ends_refused (.kept rfl hdrawn)
  · dsimp only
    split
    · exact .selected (.inr rfl) (.kept rfl hdrawn) (.inl rfl)
    · exact ends_select trivial (.kept rfl hdrawn)

theorem removeComponent_ends (c : Canvas) (id : Value) (f : Bool → Value) :
    Ends c (.removeComponent id) ((c.removeComponent id).map f) := by
  unfold removeComponent
  split
  · exact .selected (.inr rfl) (reworks_same rfl) (.inl rfl)
  · exact ends_select trivial (reworks_same rfl)

theorem replaceComponents_ends (c : Canvas) (components : List Component) (f : Unit → Value) :
    Ends c (.replaceComponents components) ((c.replaceComponents components).map f) := by
  have hdrawn := Selection.build_le [] c.supply components
  unfold replaceComponents stageComponents
  generalize Selection.build [] c.supply components = built at hdrawn ⊢
  obtain ⟨result, supply⟩ := built
  cases result with
  | ok selection => exact ends_select trivial (.kept rfl hdrawn)
  | error e => exact ends_refused (.kept rfl hdrawn)

theorem fire_ends (c : Canvas) (timer : Nat) (f : Unit → Value) :
    Ends c (.fire timer) ((c.fire timer).map f) := by
  unfold fire
  split
  · exact ends_refused (reworks_same rfl)
  · exact ends_withScheduler trivial

theorem apply_ends (c : Canvas) (op : Operation) : Ends c op (c.apply op) := by
  cases op with
  | createBlock request => exact c.createBlock_ends request
  | connect block parent socket => exact c.connect_ends block parent socket _
  | detach block => exact c.detach_ends block _
  | deleteBlock block => exact c.deleteBlock_ends block _
  | setField block name value => exact c.setField_ends block name value
  | createVariable name => exact c.createVariable_ends name _
  | deleteVariable name => exact c.deleteVariable_ends name _
  | clear => exact .committed .cleared (by simp)
  | load _ | reload | loadText _ => exact ends_install rfl
  | addComponent request => exact c.addComponent_ends request _
  | removeComponent id => exact c.removeComponent_ends id _
  | clearComponents => exact ends_select (a := ()) trivial (reworks_same rfl)
  | replaceComponents components => exact c.replaceComponents_ends components _
  | refresh kinds => exact ends_refresh kinds (.inr rfl) (reworks_same rfl)
  | notify event => exact ends_withScheduler (α := Unit) trivial
  | flush => exact ends_withScheduler (α := Option Sketch.Report) trivial
  | cancel => exact ends_withScheduler (α := Unit) trivial
  | fire timer => exact c.fire_ends timer _

-- ---------------------------------------------------------------------------
-- Parts of a canvas
-- ---------------------------------------------------------------------------

variable {outcome : Outcome Value}

theorem Ends.reworks (h : Ends c op outcome) :
    Reworks c op outcome.canvas.workspace outcome.canvas.supply := by
  cases h with
  | committed hreworks => exact hreworks
  | refused hreworks => exact hreworks
  | selected _ hkept => exact hkept
  | scheduled hscheduling => exact reworks_same (hscheduling.installs? c)

theorem apply_reworks (c : Canvas) (op : Operation) :
    ∃ supply, Reworks c op (c.apply op).canvas.workspace supply :=
  ⟨_, (c.apply_ends op).reworks⟩

theorem Reworks.workspace_eq {w : Workspace} {supply : Supply} (h : Reworks c op w supply)
    (hop : op.IsSelecting ∨ op.IsScheduling) : w = c.workspace := by
  cases h with
  | kept => rfl
  | loaded hread =>
    cases op with
    | load _ | reload | loadText _ => exact (hop.elim id id).elim
    | _ => cases hread
  | _ => exact (hop.elim id id).elim

theorem apply_workspace (c : Canvas) (hop : op.IsSelecting ∨ op.IsScheduling) :
    (c.apply op).canvas.workspace = c.workspace :=
  (c.apply_ends op).reworks.workspace_eq hop

theorem Ends.registry (h : Ends c op outcome) : outcome.canvas.registry = c.registry := by
  cases h <;> rfl

theorem apply_registry (c : Canvas) (op : Operation) :
    (c.apply op).canvas.registry = c.registry :=
  (c.apply_ends op).registry

theorem Ends.generator (h : Ends c op outcome) : outcome.canvas.generator = c.generator := by
  cases h <;> rfl

theorem Ends.selection (h : Ends c op outcome) :
    op.IsSelecting ∨ outcome.canvas.selection = c.selection := by
  cases h with
  | selected hselected => exact hselected
  | _ => exact .inr rfl

end Canvas

-- ---------------------------------------------------------------------------
-- Sessions
-- ---------------------------------------------------------------------------

namespace Session

variable {s : Session} {action : Action}

inductive Acts (c : Canvas) : Action → Canvas → Prop
  | nothing {action : Action} : Acts c action c
  | edited {op : Operation} : Acts c (.edit op) (c.apply op).canvas
  | staged {components : List Component} (supply : Supply) :
      Acts c (.stage components) { c with supply }
  | used {i : Nat} (selection : Selection) (allowed : List Value) :
      Acts c (.useStaged i) { c with selection, allowed }

theorem heard_session (step : Step) : step.heard.session = step.session := by
  simp only [Step.heard]
  split <;> rfl

theorem perform_acts (s : Session) (action : Action) :
    Acts s.canvas action (s.perform action).session.canvas := by
  rw [perform, heard_session]
  cases action with
  | edit op =>
    simp only [act, edit]
    split
    · exact .nothing
    · dsimp only
      split <;> exact .edited
  | stage components =>
    simp only [act, stage]
    split <;> exact .staged _
  | useStaged i =>
    simp only [act, useStaged]
    split
    · exact .nothing
    · exact .used _ _

theorem run_keeps {P : Canvas → Prop}
    (hstep : ∀ action ∈ actions, ∀ c c', Acts c action c' → P c → P c') (h : P s.canvas) :
    P (s.run actions).1.canvas := by
  induction actions generalizing s with
  | nil => exact h
  | cons action actions ih =>
    obtain ⟨hhead, hrest⟩ := List.forall_mem_cons.mp hstep
    exact ih hrest (hhead _ _ (perform_acts s action) h)

theorem Acts.registry (h : Acts c action c') : c'.registry = c.registry := by
  cases h with
  | edited => exact c.apply_registry _
  | _ => rfl

theorem run_registry (s : Session) (actions : List Action) :
    (s.run actions).1.canvas.registry = s.canvas.registry :=
  run_keeps (P := fun c => c.registry = s.canvas.registry)
    (fun _ _ _ _ hacts hsame => hacts.registry.trans hsame) rfl

end Session

end BlockSketch
