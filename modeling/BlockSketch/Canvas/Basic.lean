import BlockSketch.Block.Catalog
import BlockSketch.Canvas.Placement
import BlockSketch.Debounce
import BlockSketch.Document.Reader
import BlockSketch.Event
import BlockSketch.Palette
import BlockSketch.Settings
import BlockSketch.Sketch.Arduino
import BlockSketch.Sketch.Generator

/-!
# The canvas

The state of an editor: the known types, the selected components with the types they allow, the
workspace, and the scheduler that compiles it after changes.
-/

namespace BlockSketch

inductive Notice where
  | event (event : Event)
  | refreshed (allowed : List Value)
  | generated (report : Sketch.Report)

abbrev Scheduler := Debounce Event Sketch.Report

structure Canvas where
  registry : Registry
  emitters : Sketch.Emitters
  indent : Value
  room : Option Nat
  selection : Selection := []
  /-- The allowed types as they were last computed. -/
  allowed : List Value
  workspace : Workspace
  supply : Supply
  scheduler : Option Scheduler

structure Outcome (α : Type) where
  result : Except Error α
  canvas : Canvas
  notices : List Notice := []

def Outcome.map (f : α → β) (outcome : Outcome α) : Outcome β where
  result := outcome.result.map f
  canvas := outcome.canvas
  notices := outcome.notices

namespace Canvas

def defaultWindow : Value := ({} : Settings).debounceSeconds

/-- A canvas with an empty program, on a host that gives room for so many nested calls. -/
def start (settings : Settings) (room : Option Nat := none) : Except Error Canvas := do
  let indent ← settings.indent
  let (id, supply) := Supply.drawId {}
  let window := if settings.debounceSeconds.isNull then defaultWindow else settings.debounceSeconds
  .ok { registry := Catalog.registry
        emitters := Sketch.Arduino.emitters
        indent := .text indent
        room
        allowed := Gate.allowedTypes Catalog.registry []
        workspace := .fresh id
        supply
        scheduler := some { window } }

-- ---------------------------------------------------------------------------
-- Questions
-- ---------------------------------------------------------------------------

def generator (c : Canvas) : Sketch.Generator where
  registry := c.registry
  emitters := c.emitters
  indent := c.indent
  room := c.room

def report (c : Canvas) : Except Error Sketch.Report :=
  c.generator.generate c.workspace

def violations (c : Canvas) : Except Error (List Violation) :=
  Gate.violations c.registry c.selection.kinds c.workspace

def availableTypes (c : Canvas) : Except Error (List Value) :=
  Gate.inOrder (Gate.allowedTypes c.registry c.selection.kinds)

def palette (c : Canvas) : Value :=
  Palette.toValue
    (Palette.build c.registry c.allowed c.selection.kinds c.workspace.variableNames)

def violationDetails (c : Canvas) : Except Error Value := do
  let found ← c.violations
  .ok (.list (found.map fun v => .object v.details))

def state (c : Canvas) : Except Error Value := do
  .ok (.object [("workspace", c.workspace.serialize), ("components", c.selection.toValue),
    ("violations", ← c.violationDetails)])

-- ---------------------------------------------------------------------------
-- Telling
-- ---------------------------------------------------------------------------

def tell (c : Canvas) (events : List Event) : Canvas × List Notice :=
  ({ c with scheduler := c.scheduler.map fun s => events.foldl Debounce.notify s },
    events.map .event)

def fail (c : Canvas) (e : Error) : Outcome α :=
  { result := .error e, canvas := c }

def commit (c : Canvas) (w : Workspace) (events : List Event) (result : α) : Outcome α :=
  let (c, notices) := { c with workspace := w }.tell events
  { result := .ok result, canvas := c, notices }

/-- Computes the allowed types for some kinds; the answer tells whether they changed. -/
def refresh (c : Canvas) (kinds : List ComponentKind) : Outcome Bool :=
  let allowed := Gate.allowedTypes c.registry kinds
  let changed := Gate.changes c.registry kinds (some c.allowed)
  { result := .ok changed
    canvas := { c with allowed }
    notices := if changed then [.refreshed allowed] else [] }

-- ---------------------------------------------------------------------------
-- Blocks and variables
-- ---------------------------------------------------------------------------

/-- What is told of a placed block: first the variables declared for it. -/
def placedEvents (placed : Placed) : List Event :=
  placed.variableNames.map (fun name => { kind := .variableCreate, detail := .text name }) ++
    [{ kind := .blockCreate, block := placed.id, detail := placed.type }]

def createBlock (c : Canvas) (request : BlockRequest) : Outcome Value :=
  match c.workspace.place c.registry c.selection.kinds c.supply request with
  | (.error e, supply) => { c with supply }.fail e
  | (.ok placed, supply) =>
    { c with supply }.commit placed.workspace (placedEvents placed) placed.id

def connect (c : Canvas) (block parent socket : Value) : Outcome Unit :=
  match c.workspace.connect c.registry block parent socket with
  | (.error e, w) => { c with workspace := w }.fail e
  | (.ok _, w) =>
    c.commit w [{ kind := .blockMove, block
                  detail := .object [("parent_id", parent), ("socket", socket)] }] ()

def detach (c : Canvas) (block : Value) : Outcome Bool :=
  match c.workspace.detach block with
  | .error e => c.fail e
  | .ok (moved, w) => c.commit w (if moved then [{ kind := .blockMove, block }] else []) moved

def deleteBlock (c : Canvas) (block : Value) : Outcome (List Value) :=
  match c.workspace.delete block with
  | .error e => c.fail e
  | .ok (removed, w) =>
    c.commit w [{ kind := .blockDelete, block, detail := .list removed }] removed

def setField (c : Canvas) (block name value : Value) : Outcome Value :=
  match c.workspace.setField c.registry block name value with
  | .error e => c.fail e
  | .ok (v, w) =>
    c.commit w [{ kind := .blockChange, block
                  detail := .object [("field", name), ("value", v)] }] v

def createVariable (c : Canvas) (name : Value) : Outcome Bool :=
  match c.workspace.createVariable name with
  | .error e => c.fail e
  | .ok (added, w) =>
    c.commit w (if added then [{ kind := .variableCreate, detail := name }] else []) added

def deleteVariable (c : Canvas) (name : Value) : Outcome Bool :=
  match c.workspace.deleteVariable c.registry name with
  | (.error e, w) => { c with workspace := w }.fail e
  | (.ok deleted, w) =>
    c.commit w (if deleted then [{ kind := .variableDelete, detail := name }] else []) deleted

-- ---------------------------------------------------------------------------
-- Whole workspaces
-- ---------------------------------------------------------------------------

def clear (c : Canvas) : Outcome Unit :=
  let (id, supply) := c.supply.drawId
  { c with supply }.commit (.fresh id) [{ kind := .workspaceClear }] ()

/-- Installs a workspace that was read, or leaves all as it is; the answer counts its blocks. -/
def install (c : Canvas) (read : Except Malformed Workspace) : Outcome Nat :=
  match read with
  | .error e => c.fail (.ofMalformed e)
  | .ok w => c.commit w [{ kind := .workspaceLoad }] w.allBlocks.length

def load (c : Canvas) (document : Value) : Outcome Nat :=
  c.install (Document.read c.registry document)

def reload (c : Canvas) : Outcome Nat :=
  c.install (Document.reread c.registry (Document.ofWorkspace c.workspace))

def loadText (c : Canvas) (text : Value) : Outcome Nat :=
  c.install (Document.readText c.registry text)

-- ---------------------------------------------------------------------------
-- Components
-- ---------------------------------------------------------------------------

def select (c : Canvas) (selection : Selection) (result : α) : Outcome α :=
  ({ c with selection }.refresh selection.kinds).map fun _ => result

def addComponent (c : Canvas) (request : Component) : Outcome Component :=
  match c.selection.admitComponent request c.supply with
  | (.error e, supply) => { c with supply }.fail e
  | (.ok (component, selection), supply) =>
    let c := { c with supply }
    if selection.length = c.selection.length then { result := .ok component, canvas := c }
    else c.select selection component

def removeComponent (c : Canvas) (id : Value) : Outcome Bool :=
  match c.selection.find? id with
  | none => { result := .ok false, canvas := c }
  | some _ => c.select (c.selection.remove id) true

def clearComponents (c : Canvas) : Outcome Unit :=
  c.select [] ()

def stageComponents (c : Canvas) (components : List Component) : Outcome Selection :=
  let (result, supply) := Selection.build [] c.supply components
  { result, canvas := { c with supply } }

def replaceComponents (c : Canvas) (components : List Component) : Outcome Unit :=
  match c.stageComponents components with
  | { result := .ok selection, canvas, .. } => canvas.select selection ()
  | { result := .error e, canvas, .. } => canvas.fail e

-- ---------------------------------------------------------------------------
-- The scheduler
-- ---------------------------------------------------------------------------

def withScheduler (c : Canvas) (f : Scheduler → Except Error α × Scheduler × List Notice) :
    Outcome α :=
  match c.scheduler with
  | none => c.fail .absent
  | some s =>
    let (result, s, notices) := f s
    { result, canvas := { c with scheduler := some s }, notices }

def notify (c : Canvas) (event : Event) : Outcome Unit :=
  c.withScheduler fun s => (.ok (), s.notify event, [])

def cancel (c : Canvas) : Outcome Unit :=
  c.withScheduler fun s => (.ok (), s.cancel, [])

def runNotices (ran : Bool) (report : Except Error Sketch.Report) : List Notice :=
  if ran then report.toOption.toList.map .generated else []

def flush (c : Canvas) : Outcome (Option Sketch.Report) :=
  let report := c.report
  c.withScheduler fun s =>
    let (ran, s) := s.flush report.toOption
    (if ran then report.map some else .ok none, s, runNotices ran report)

/-- Has a timer fire, by its position among all that were started. -/
def fire (c : Canvas) (i : Nat) : Outcome Unit :=
  match c.scheduler.bind (·.timers[i]?) with
  | none => c.fail .noTimer
  | some timer =>
    let report := c.report
    c.withScheduler fun s =>
      let (ran, s) := s.fire timer report.toOption
      (if ran then report.map fun _ => () else .ok (), s, runNotices ran report)

end Canvas

end BlockSketch
