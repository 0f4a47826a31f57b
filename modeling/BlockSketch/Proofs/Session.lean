import BlockSketch.Proofs.Canvas.Runs
import BlockSketch.Proofs.Component

/-!
# Selecting components in a session

Components are added, removed, staged and replaced while the gate keeps the allowed types. What one
such action can do is said once, by `Selects`: it leaves the canvas as it is, or it installs a
selection and has the gate compute the allowed types anew. From this follow what a run of actions
keeps and what the listeners hear of it.
-/

namespace BlockSketch

open Selection (Sound)

-- ---------------------------------------------------------------------------
-- The shelf
-- ---------------------------------------------------------------------------

namespace Shelf

variable {shelf shelf' : Shelf} {current selection : Selection}

def AllSound (shelf : Shelf) : Prop :=
  ∀ selection ∈ shelf.staged, Sound selection

theorem AllSound.add (h : shelf.AllSound) (hselection : Sound selection) :
    (shelf.add selection).AllSound := by
  intro other hother
  rcases List.mem_append.mp hother with hmem | hmem
  · exact h other hmem
  · obtain rfl := List.mem_singleton.mp hmem
    exact hselection

theorem AllSound.setAside (h : shelf.AllSound) (hcurrent : Sound current) :
    (shelf.setAside current).AllSound := by
  unfold Shelf.setAside
  split
  · intro other hother
    rcases List.mem_or_eq_of_mem_set hother with hmem | rfl
    · exact h other hmem
    · exact hcurrent
  · exact h

theorem AllSound.take? (h : shelf.AllSound) (hcurrent : Sound current)
    (htake : shelf.take? current i = some (selection, shelf')) :
    Sound selection ∧ shelf'.AllSound := by
  obtain ⟨chosen, hchosen, heq⟩ := Option.map_eq_some_iff.mp htake
  cases heq
  exact ⟨h.setAside hcurrent _ (List.mem_of_getElem? hchosen), h.setAside hcurrent⟩

end Shelf

theorem Catalog.registry_namesTypes : Catalog.registry.NamesTypes := by
  intro t ht
  rw [Registry.all, registry_types, List.map_map] at ht
  exact typeId_text t (by simpa using ht)

namespace Session

-- ---------------------------------------------------------------------------
-- What an action does
-- ---------------------------------------------------------------------------

def Action.IsSelecting : Action → Prop
  | .edit (.addComponent _) | .edit (.removeComponent _) | .edit .clearComponents
  | .edit (.replaceComponents _) | .stage _ | .useStaged _ => True
  | _ => False

/-- The ids that an action draws are new to the selection they are drawn for. -/
def DrawsNew (s : Session) : Action → Prop
  | .edit (.addComponent request) => s.canvas.selection.DrawsNew s.canvas.supply request
  | .edit (.replaceComponents components) | .stage components =>
    Selection.DrawsAllNew [] s.canvas.supply components
  | _ => True

structure Holds (s : Session) : Prop where
  selection : Sound s.canvas.selection
  shelf : s.shelf.AllSound

/-- What an action on the selections can do. What is sound stays so if the ids it draws are new. -/
inductive Selects (s : Session) (action : Action) : Step → Prop
  | kept {result : Except Error Value} {supply : Supply} {shelf : Shelf}
      (refused : ∀ e, result = .error e → shelf = s.shelf)
      (sound : s.Holds → s.DrawsNew action → shelf.AllSound) :
      Selects s action
        { result, session := { s with canvas := { s.canvas with supply }, shelf } }
  | installed {v : Value} {selection : Selection} {allowed : List Value} {supply : Supply}
      {shelf : Shelf} (sound : s.Holds → s.DrawsNew action → Sound selection ∧ shelf.AllSound)
      (hallowed : allowed = Gate.allowedTypes s.canvas.registry selection.kinds) :
      Selects s action
        { result := .ok v
          session := { s with canvas := { s.canvas with supply, selection, allowed }, shelf }
          notices := if !Value.sameSet allowed s.canvas.allowed then [.refreshed allowed] else [] }

variable {s : Session} {action : Action} {step : Step}

theorem edit_selects (hhas : s.hasSelection = true) (hop : Action.IsSelecting (.edit op)) :
    Selects s (.edit op) (s.edit op) := by
  obtain ⟨c, has, shelf, files, reports, refreshes⟩ := s
  obtain rfl : has = true := hhas
  cases op with
  | addComponent request =>
    cases hadded : c.selection.admitComponent request c.supply with
    | mk result supply =>
    cases result with
    | error e =>
      simp only [edit, Canvas.apply, Canvas.addComponent, hadded]
      exact .kept (fun _ _ => rfl) fun hholds _ => hholds.shelf
    | ok admitted =>
      obtain ⟨component, selection⟩ := admitted
      by_cases hlength : selection.length = c.selection.length
      · simp only [edit, Canvas.apply, Canvas.addComponent, hadded, if_pos hlength]
        exact .kept (fun _ _ => rfl) fun hholds _ => hholds.shelf
      · simp only [edit, Canvas.apply, Canvas.addComponent, hadded, if_neg hlength]
        refine .installed (fun hholds hnew => ?_) rfl
        exact ⟨hholds.selection.admitComponent hnew hadded, hholds.shelf⟩
  | removeComponent id =>
    cases hfind : c.selection.find? id with
    | none =>
      simp only [edit, Canvas.apply, Canvas.removeComponent, hfind]
      exact .kept (fun _ _ => rfl) fun hholds _ => hholds.shelf
    | some component =>
      simp only [edit, Canvas.apply, Canvas.removeComponent, hfind]
      exact .installed (fun hholds _ => ⟨hholds.selection.remove id, hholds.shelf⟩) rfl
  | clearComponents =>
    exact .installed (fun hholds _ => ⟨Selection.sound_nil, hholds.shelf⟩) rfl
  | replaceComponents components =>
    cases hbuild : Selection.build [] c.supply components with
    | mk result supply =>
    simp only [edit, Canvas.apply, Canvas.replaceComponents, Canvas.stageComponents, hbuild]
    cases result with
    | error e => exact .kept (fun _ _ => rfl) fun hholds _ => hholds.shelf
    | ok selection =>
      refine .installed (fun hholds hnew => ?_) rfl
      exact ⟨Selection.sound_nil.build hnew hbuild, hholds.shelf.setAside hholds.selection⟩
  | _ => exact hop.elim

theorem stage_selects (s : Session) (components : List Component) :
    Selects s (.stage components) (s.stage components) := by
  cases hbuild : Selection.build [] s.canvas.supply components with
  | mk result supply =>
  simp only [stage, Canvas.stageComponents, hbuild]
  cases result with
  | error e => exact .kept (fun _ _ => rfl) fun hholds _ => hholds.shelf
  | ok selection =>
    refine .kept (fun _ he => by cases he) fun hholds hnew => ?_
    exact hholds.shelf.add (Selection.sound_nil.build hnew hbuild)

theorem useStaged_selects (hhas : s.hasSelection = true) (i : Nat) :
    Selects s (.useStaged i) (s.useStaged i) := by
  obtain ⟨c, has, shelf, files, reports, refreshes⟩ := s
  obtain rfl : has = true := hhas
  unfold useStaged
  split
  · exact .kept (fun _ _ => rfl) fun hholds _ => hholds.shelf
  · rename_i htake
    exact .installed (fun hholds _ => hholds.shelf.take? hholds.selection htake) rfl

theorem act_selects (hhas : s.hasSelection = true) (haction : action.IsSelecting) :
    Selects s action (s.act action) := by
  cases action with
  | edit op => exact edit_selects hhas haction
  | stage components => exact stage_selects s components
  | useStaged i => exact useStaged_selects hhas i

/-- A session in which the gate is in step with the selection. Types are known by texts, and
somebody listens. -/
structure InStep (s : Session) : Prop where
  hasSelection : s.hasSelection = true
  hears : s.hearsRefreshes = true
  names : s.canvas.registry.NamesTypes
  allowed : s.canvas.allowed = Gate.allowedTypes s.canvas.registry s.canvas.selection.kinds

theorem Selects.registry (h : Selects s action step) :
    step.session.canvas.registry = s.canvas.registry := by
  cases h <;> rfl

theorem Selects.inStep (h : Selects s action step) (hs : s.InStep) : step.session.InStep := by
  cases h with
  | kept => exact ⟨hs.hasSelection, hs.hears, hs.names, hs.allowed⟩
  | installed _ hallowed => exact ⟨hs.hasSelection, hs.hears, hs.names, hallowed⟩

theorem Selects.holds (h : Selects s action step) (hholds : s.Holds) (hnew : s.DrawsNew action) :
    step.session.Holds := by
  cases h with
  | kept _ hsound => exact ⟨hholds.selection, hsound hholds hnew⟩
  | installed hsound => exact ⟨(hsound hholds hnew).1, (hsound hholds hnew).2⟩

theorem Selects.tells (h : Selects s action step) (hs : s.InStep) :
    Gate.SameTypes s.canvas.allowed step.session.canvas.allowed ∧ step.notices = [] ∨
      ¬Gate.SameTypes s.canvas.allowed step.session.canvas.allowed ∧
        step.notices = [.refreshed step.session.canvas.allowed] := by
  cases h with
  | kept => exact .inl ⟨fun _ => Iff.rfl, rfl⟩
  | @installed v selection allowed supply shelf hsound hallowed =>
    have hsame : Value.sameSet allowed s.canvas.allowed = true ↔
        Gate.SameTypes s.canvas.allowed allowed := by
      rw [hallowed, hs.allowed]
      exact Gate.sameSet_allowedTypes hs.names
    cases hset : Value.sameSet allowed s.canvas.allowed with
    | true => exact .inl ⟨hsame.mp hset, rfl⟩
    | false => exact .inr ⟨fun htypes => Bool.eq_false_iff.mp hset (hsame.mpr htypes), rfl⟩

theorem Selects.refused (h : Selects s action step) (he : step.result = .error e) :
    ∃ supply, step.session = { s with canvas := { s.canvas with supply } } := by
  cases h with
  | @kept result supply shelf hrefused =>
    obtain rfl := hrefused e he
    exact ⟨supply, rfl⟩
  | installed => cases he

-- ---------------------------------------------------------------------------
-- Listening
-- ---------------------------------------------------------------------------

theorem Selects.heard (h : Selects s action step) (hs : s.InStep) : step.heard = step := by
  have hstep := h.inStep hs
  obtain ⟨result, session, notices⟩ := step
  rcases h.tells hs with ⟨-, hnotices⟩ | ⟨-, hnotices⟩ <;> dsimp only at hnotices <;> subst hnotices
  · rfl
  · obtain ⟨types, htypes⟩ :=
      Gate.inOrder_allowedTypes hstep.names session.canvas.selection.kinds
    rw [← hstep.allowed] at htypes
    have hheard : session.heard [.refreshed session.canvas.allowed] =
        [.refreshed session.canvas.allowed] :=
      List.filter_cons_of_pos hstep.hears
    have hhear : hear (.refreshed session.canvas.allowed) = .ok () := by
      rw [hear, htypes]
      rfl
    have hall : [Notice.refreshed session.canvas.allowed].forM hear = .ok () := by
      rw [List.forM, List.forM, hhear]
      rfl
    simp only [Step.heard, hheard, hall]

theorem perform_selects (hs : s.InStep) (haction : action.IsSelecting) :
    Selects s action (s.perform action) := by
  have h := act_selects hs.hasSelection haction
  rw [perform, h.heard hs]
  exact h

-- ---------------------------------------------------------------------------
-- Runs
-- ---------------------------------------------------------------------------

def FreshRun (s : Session) : List Action → Prop
  | [] => True
  | action :: rest => s.DrawsNew action ∧ FreshRun (s.perform action).session rest

def refreshed? : Notice → Option (List Value)
  | .refreshed allowed => some allowed
  | _ => none

variable {actions : List Action}

theorem run_inStep (hs : s.InStep) (hactions : ∀ action ∈ actions, action.IsSelecting) :
    (s.run actions).1.InStep ∧ (s.run actions).1.canvas.registry = s.canvas.registry := by
  induction actions generalizing s with
  | nil => exact ⟨hs, rfl⟩
  | cons action actions ih =>
    obtain ⟨haction, hrest⟩ := List.forall_mem_cons.mp hactions
    have h := perform_selects hs haction
    obtain ⟨hinStep, hregistry⟩ := ih (h.inStep hs) hrest
    exact ⟨hinStep, hregistry.trans h.registry⟩

theorem run_holds (hs : s.InStep) (hactions : ∀ action ∈ actions, action.IsSelecting)
    (hholds : s.Holds) (hfresh : s.FreshRun actions) : (s.run actions).1.Holds := by
  induction actions generalizing s with
  | nil => exact hholds
  | cons action actions ih =>
    obtain ⟨haction, hrest⟩ := List.forall_mem_cons.mp hactions
    have h := perform_selects hs haction
    exact ih (h.inStep hs) hrest (h.holds hholds hfresh.1) hfresh.2

/-- What is told differs from what was told before it, and at first from what was allowed. -/
theorem run_tells (hs : s.InStep) (hactions : ∀ action ∈ actions, action.IsSelecting) :
    (s.canvas.allowed :: (s.run actions).2.filterMap refreshed?).IsChain
      fun old new => ¬Gate.SameTypes old new := by
  induction actions generalizing s with
  | nil => exact .singleton _
  | cons action actions ih =>
    obtain ⟨haction, hrest⟩ := List.forall_mem_cons.mp hactions
    have h := perform_selects hs haction
    have hchain := ih (h.inStep hs) hrest
    rcases h.tells hs with ⟨hsame, hnotices⟩ | ⟨hdiffers, hnotices⟩
    · simp only [run, hnotices, List.nil_append]
      generalize (run _ actions).2.filterMap refreshed? = told at hchain ⊢
      cases told with
      | nil => exact .singleton _
      | cons new told =>
        obtain ⟨hdiffers, htold⟩ := List.isChain_cons_cons.mp hchain
        exact .cons_cons (fun hnew => hdiffers fun v => (hsame v).symm.trans (hnew v)) htold
    · simp only [run, hnotices, List.singleton_append, List.filterMap_cons, refreshed?]
      exact .cons_cons hdiffers hchain

theorem inStep_new {c : Canvas} (hselection : c.selection = [])
    (hallowed : c.allowed = Gate.allowedTypes c.registry []) (hnames : c.registry.NamesTypes) :
    InStep { canvas := c } where
  hasSelection := rfl
  hears := rfl
  names := hnames
  allowed := by rw [hselection, hallowed]; rfl

theorem holds_new {c : Canvas} (hselection : c.selection = []) : Holds { canvas := c } where
  selection := hselection ▸ Selection.sound_nil
  shelf _ hmem := (List.not_mem_nil hmem).elim

/-- Components are added, removed, staged, brought into use and replaced, in whatever order and with
whatever success. At any time the selection holds no exclusive kind and no id twice, and the allowed
types are those of the selected kinds. What is told differs from what was told before it; with one
more action, the new allowed types are told exactly if they are others than before, and an action
that fails changes nothing but for the supply of fresh ids. -/
theorem gate_in_step (c : Canvas) (hselection : c.selection = [])
    (hallowed : c.allowed = Gate.allowedTypes c.registry []) (hnames : c.registry.NamesTypes)
    (actions : List Action) (hactions : ∀ action ∈ actions, action.IsSelecting)
    (hfresh : FreshRun { canvas := c } actions) (s : Session) (notices : List Notice)
    (hrun : run { canvas := c } actions = (s, notices)) :
    (∀ kind, kind.isExclusive = true → (s.canvas.selection.ofKind kind).length ≤ 1) ∧
    (s.canvas.selection.Pairwise fun a b => a.id.same b.id = false) ∧
    s.canvas.allowed = Gate.allowedTypes c.registry s.canvas.selection.kinds ∧
    (∀ kinds, (∀ kind, kind ∈ kinds ↔ ∃ component ∈ s.canvas.selection, component.kind = kind) →
      s.canvas.allowed = Gate.allowedTypes c.registry kinds) ∧
    ((c.allowed :: notices.filterMap refreshed?).IsChain fun old new => ¬Gate.SameTypes old new) ∧
    ∀ action, action.IsSelecting → ∀ step, s.perform action = step →
      (Gate.SameTypes s.canvas.allowed step.session.canvas.allowed → step.notices = []) ∧
      (¬Gate.SameTypes s.canvas.allowed step.session.canvas.allowed →
        step.notices = [.refreshed step.session.canvas.allowed]) ∧
      ∀ e, step.result = .error e →
        ∃ supply, step.session = { s with canvas := { s.canvas with supply } } := by
  have hnew := inStep_new hselection hallowed hnames
  obtain ⟨hs, hregistry⟩ := run_inStep hnew hactions
  have hholds := run_holds hnew hactions (holds_new hselection) hfresh
  have hchain := run_tells hnew hactions
  rw [hrun] at hs hregistry hholds hchain
  have hkinds : s.canvas.allowed = Gate.allowedTypes c.registry s.canvas.selection.kinds :=
    hregistry ▸ hs.allowed
  refine ⟨hholds.selection.exclusive, hholds.selection.distinct, hkinds, fun kinds hmem => ?_, hchain,
    ?_⟩
  · rw [hkinds]
    exact Gate.allowedTypes_congr _ fun kind => Selection.mem_kinds.trans (hmem kind).symm
  · rintro action haction step rfl
    have h := perform_selects hs haction
    refine ⟨fun hsame => ?_, fun hdiffers => ?_, fun e he => h.refused he⟩
    · rcases h.tells hs with ⟨-, hnotices⟩ | ⟨hdiffers, -⟩
      · exact hnotices
      · exact absurd hsame hdiffers
    · rcases h.tells hs with ⟨hsame, -⟩ | ⟨-, hnotices⟩
      · exact absurd hsame hdiffers
      · exact hnotices

/-- One id is drawn. Of two thermometers the second is refused, a staged selection merges two
requests for one id and comes into use, and a replacement fails half way through. -/
def selectingActions : List Action := [
  .edit (.addComponent ⟨.null, .led, ""⟩),
  .edit (.addComponent ⟨"t", .temperature, ""⟩),
  .edit (.addComponent ⟨"u", .temperature, ""⟩),
  .stage [⟨"m", .imu, ""⟩, ⟨"m", .imu, ""⟩],
  .useStaged 0,
  .edit (.removeComponent "m"),
  .edit (.replaceComponents [⟨"t", .temperature, ""⟩, ⟨"u", .temperature, ""⟩])]

theorem selectingActions_fresh {c : Canvas} (hselection : c.selection = []) :
    FreshRun { canvas := c } selectingActions := by
  have hgiven : ∀ {s : String} {kind : ComponentKind} {selection : Selection} {supply : Supply},
      s ≠ "" → selection.DrawsNew supply ⟨.text s, kind, ""⟩ := by
    intro s kind selection supply hs hempty
    exact absurd (by simpa [Value.isEmpty] using hempty) hs
  have hfirst : c.selection.DrawsNew c.supply ⟨.null, .led, ""⟩ := by
    intro _
    rw [hselection]
    rfl
  refine ⟨hfirst, hgiven (by decide), hgiven (by decide), ?_, trivial, trivial, ?_, trivial⟩
  · exact ⟨hgiven (by decide), fun _ _ _ _ => ⟨hgiven (by decide), fun _ _ _ _ => trivial⟩⟩
  · exact ⟨hgiven (by decide), fun _ _ _ _ => ⟨hgiven (by decide), fun _ _ _ _ => trivial⟩⟩

theorem gate_in_step_selectingActions : ∃ c s notices, Canvas.start {} = .ok c ∧
    c.selection = [] ∧ c.allowed = Gate.allowedTypes c.registry [] ∧ c.registry.NamesTypes ∧
    (∀ action ∈ selectingActions, action.IsSelecting) ∧
    FreshRun { canvas := c } selectingActions ∧
    run { canvas := c } selectingActions = (s, notices) ∧
    (s.canvas.selection.ofKind .imu).length ≤ 1 ∧
    s.canvas.allowed = Gate.allowedTypes c.registry s.canvas.selection.kinds := by
  obtain ⟨c, hstart⟩ := Canvas.exists_start
  have hnew := Canvas.new_of_start hstart
  have hselection := hnew.selection
  have hallowed : c.allowed = Gate.allowedTypes c.registry [] := hnew.registry ▸ hnew.allowed
  have hnames : c.registry.NamesTypes := hnew.registry ▸ Catalog.registry_namesTypes
  have hactions : ∀ action ∈ selectingActions, action.IsSelecting := by
    simp [selectingActions, Action.IsSelecting]
  have hfresh := selectingActions_fresh hselection
  obtain ⟨hexclusive, -, hkinds, -⟩ :=
    gate_in_step c hselection hallowed hnames selectingActions hactions hfresh _ _ rfl
  exact ⟨c, _, _, hstart, hselection, hallowed, hnames, hactions, hfresh, rfl,
    hexclusive .imu rfl, hkinds⟩

end Session

end BlockSketch
