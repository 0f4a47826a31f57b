import BlockSketch.Proofs.Api.States

/-!
# Loading is all or nothing

A body brings a workspace and, if it has components, a selection. Both are installed if both can be
read; otherwise neither is, and nobody is told of anything. Only ids that were drawn for components
stay drawn.
-/

namespace BlockSketch.Api

def Request.load (body : Body) : Request where
  method := "POST"
  path := "/api/workspace/load"
  body

theorem route_load : route "POST" "/api/workspace/load" = .action .load := by
  have hupper : "POST".toUpper = "POST" := by decide +kernel
  unfold route
  rw [hupper]
  rfl

-- ---------------------------------------------------------------------------
-- Replies
-- ---------------------------------------------------------------------------

theorem refusal_ne_success (status : Nat) (reason : String) (data : Value) :
    refusal status reason ≠ success data := by
  intro h
  simp [refusal, success] at h

theorem failure_ne_success (status : Error → Nat) (e : Error) (data : Value) :
    failure status unforeseen e ≠ success data := by
  intro h
  unfold failure at h
  split at h
  · simp [success] at h
  · exact refusal_ne_success _ _ _ h
  · cases h

namespace Server

open Document (guardedDocument guardedWorkspace)

theorem readComponent_error (h : readComponent item = .error reply) :
    ∃ reason, reply = refusal 400 reason := by
  unfold readComponent at h
  split at h
  · split at h
    · cases h
    · cases h
      exact ⟨_, rfl⟩
  · cases h
    exact ⟨_, rfl⟩

theorem readComponents_error (h : readComponents items = .error reply) :
    ∃ reason, reply = refusal 400 reason := by
  unfold readComponents at h
  split at h
  · obtain ⟨item, -, hitem⟩ := mapM_error h
    exact readComponent_error hitem
  · cases h
    exact ⟨_, rfl⟩

variable {server : Server} {members : Assoc Value} {document : Value} {w : Workspace}
  {selection : Selection}

-- ---------------------------------------------------------------------------
-- What a body brings
-- ---------------------------------------------------------------------------

def incomingWorkspace (server : Server) (members : Assoc Value) : Except Malformed Workspace :=
  Document.read server.canvas.registry ((members.find? "workspace").getD .null)

/-- The selection that the components in a body make up; without components the selection stays. -/
def incomingSelection? (server : Server) (members : Assoc Value) : Option Selection :=
  match members.find? "components" with
  | none => some server.canvas.selection
  | some items => do
    let components ← (readComponents items).toOption
    (Selection.build [] server.canvas.supply components).1.toOption

theorem incomingSelection?_some (h : server.incomingSelection? members = some selection) :
    members.find? "components" = none ∧ selection = server.canvas.selection ∨
      ∃ items components supply, members.find? "components" = some items ∧
        readComponents items = .ok components ∧
        Selection.build [] server.canvas.supply components = (.ok selection, supply) := by
  unfold incomingSelection? at h
  split at h
  · rename_i hitems
    exact .inl ⟨hitems, (Option.some.inj h).symm⟩
  · rename_i items hitems
    cases hcomponents : readComponents items with
    | error reply => simp [hcomponents, Except.toOption] at h
    | ok components =>
      rcases hbuild : Selection.build [] server.canvas.supply components with ⟨result, supply⟩
      cases result with
      | error e => simp [hcomponents, hbuild, Except.toOption] at h
      | ok built =>
        obtain rfl : built = selection := by simpa [hcomponents, hbuild, Except.toOption] using h
        exact .inr ⟨items, components, supply, hitems, hcomponents, hbuild⟩

/-- The workspace and the selection that a body brings, if both can be read. -/
def incoming? (server : Server) (body : Body) : Option (Workspace × Selection) := do
  let members ← body.members?
  let selection ← server.incomingSelection? members
  let w ← (server.incomingWorkspace members).toOption
  some (w, selection)

/-- A workspace and a selection are installed, and the reply tells of them. -/
structure Installs (server : Server) (w : Workspace) (chosen : Selection) (answer : Answer) :
    Prop where
  workspace : answer.2.canvas.workspace = w
  selection : answer.2.canvas.selection = chosen
  reply : answer.1.reply = success (.object [("blocks", .int w.allBlocks.length),
    ("violations", .list (answer.2.canvas.locked.map fun v => .object v.details))])
  others : ∃ allowed supply, answer.2 = { server with canvas := { server.canvas with
    workspace := w, selection := chosen, allowed, supply
    scheduler := server.canvas.scheduler.map (Debounce.notify · { kind := .workspaceLoad }) } }

def withSupply (server : Server) (supply : Supply) : Server :=
  { server with canvas := { server.canvas with supply } }

/-- Nothing is changed or told, except that ids may have been drawn. -/
structure Refuses (server : Server) (answer : Answer) : Prop where
  reply : ∀ data, answer.1.reply ≠ success data
  emits : answer.1.emits = []
  server : ∃ supply, answer.2 = server.withSupply supply

-- ---------------------------------------------------------------------------
-- Loading
-- ---------------------------------------------------------------------------

theorem Installs.of_staged {supply : Supply} {answer : Answer}
    (h : Installs (server.withSupply supply) w selection answer) :
    Installs server w selection answer :=
  ⟨h.workspace, h.selection, h.reply, h.others⟩

theorem Refuses.of_staged {supply : Supply} {answer : Answer}
    (h : Refuses (server.withSupply supply) answer) : Refuses server answer :=
  ⟨h.reply, h.emits, h.server⟩

theorem loaded_eq {c : Canvas} (hkeyed : c.Keyed) (hnames : c.registry.NamesCapabilities)
    (count : Nat) : loaded c count = success (.object [("blocks", .int count),
      ("violations", .list (c.locked.map fun v => .object v.details))]) := by
  simp [loaded, told, Canvas.violationDetails, hkeyed.violations hnames, bind, Except.bind,
    Except.toOption]

theorem loadWorkspace_installs (hkeyed : server.canvas.Keyed)
    (hnames : server.canvas.registry.NamesCapabilities)
    (hread : Document.read server.canvas.registry document = .ok w) :
    Installs server w server.canvas.selection (server.loadWorkspace document) := by
  have hreaches := Session.reaches_apply server.canvas (.load document)
  have hloaded := loaded_eq (hreaches.keyed hkeyed) (hreaches.registry ▸ hnames)
  simp only [Canvas.apply, Outcome.map, Canvas.load, hread] at hloaded
  simp only [loadWorkspace, Canvas.load, hread]
  exact ⟨rfl, rfl, hloaded _, _, _, rfl⟩

theorem loadWorkspace_refuses (hread : Document.read server.canvas.registry document = .error e) :
    Refuses server (server.loadWorkspace document) := by
  simp only [loadWorkspace, Canvas.load, hread]
  exact ⟨failure_ne_success _ _, rfl, _, rfl⟩

theorem loadBoth_installs (server : Server) (hkeyed : server.canvas.Keyed)
    (hnames : server.canvas.registry.NamesCapabilities)
    (hread : Document.read server.canvas.registry document = .ok w) (selection : Selection) :
    Installs server w selection (server.loadBoth document selection) := by
  have hreaches := (Session.reaches_apply server.canvas (.load document)).trans
    (Session.reaches_select _ selection w.allBlocks.length)
  have hloaded := loaded_eq (Session.Reaches.keyed hreaches hkeyed)
    (Session.Reaches.registry hreaches ▸ hnames)
  simp only [Canvas.apply, Outcome.map, Canvas.load, hread] at hloaded
  simp only [loadBoth, Canvas.load, hread]
  exact ⟨rfl, rfl, hloaded _, _, _, rfl⟩

theorem loadBoth_refuses (server : Server)
    (hread : Document.read server.canvas.registry document = .error e) (selection : Selection) :
    Refuses server (server.loadBoth document selection) := by
  simp only [loadBoth, Canvas.load, hread]
  exact ⟨failure_ne_success _ _, rfl, _, rfl⟩

theorem load_installs (hkeyed : server.canvas.Keyed)
    (hnames : server.canvas.registry.NamesCapabilities)
    (hselection : server.incomingSelection? members = some selection)
    (hread : server.incomingWorkspace members = .ok w) :
    Installs server w selection (server.load members) := by
  rcases incomingSelection?_some hselection with ⟨hitems, rfl⟩ |
    ⟨items, components, supply, hitems, hcomponents, hbuild⟩
  · simp only [load, hitems]
    exact loadWorkspace_installs hkeyed hnames hread
  · simp only [load, hitems, hcomponents, Canvas.stageComponents, hbuild]
    exact .of_staged (loadBoth_installs (server.withSupply supply)
      ⟨hkeyed.registry, hkeyed.workspace⟩ hnames hread selection)

theorem load_refuses (h : server.incomingSelection? members = none ∨
    ∃ e, server.incomingWorkspace members = .error e) : Refuses server (server.load members) := by
  unfold incomingSelection? at h
  unfold load
  cases hitems : members.find? "components" with
  | none =>
    rcases h with hnone | ⟨e, hread⟩
    · simp [hitems] at hnone
    · exact loadWorkspace_refuses hread
  | some items =>
    dsimp only
    cases hcomponents : readComponents items with
    | error reply =>
      obtain ⟨reason, rfl⟩ := readComponents_error hcomponents
      exact ⟨refusal_ne_success _ _, rfl, _, rfl⟩
    | ok components =>
      rcases hbuild : Selection.build [] server.canvas.supply components with ⟨result, supply⟩
      simp only [Canvas.stageComponents, hbuild]
      cases result with
      | error e => exact ⟨failure_ne_success _ _, rfl, supply, rfl⟩
      | ok built =>
        rcases h with hnone | ⟨e, hread⟩
        · simp [hitems, hcomponents, hbuild, Except.toOption] at hnone
        · exact .of_staged (loadBoth_refuses (server.withSupply supply) hread built)

theorem respond_load (server : Server) (body : Body) :
    server.respond (.load body) = server.perform (.load body) .load :=
  respond_perform route_load (by decide : "POST" ≠ "HEAD")

/-- A load installs all that the body brings, or it is refused and leaves everything as it was. -/
theorem load_all_or_nothing (server : Server) (hserver : Reachable server) (body : Body) :
    (∀ w selection, server.incoming? body = some (w, selection) →
      Installs server w selection (server.respond (.load body))) ∧
    (server.incoming? body = none → Refuses server (server.respond (.load body))) := by
  have hregistry : server.canvas.registry.NamesCapabilities :=
    hserver.registry ▸ Catalog.registry_namesCapabilities
  rw [respond_load]
  simp only [perform, Request.load, incoming?]
  cases body.members? with
  | none =>
    exact ⟨fun w selection h => (by cases h), fun _ => ⟨fun data h => (by cases h), rfl, _, rfl⟩⟩
  | some members =>
    simp only [Option.bind_eq_bind, Option.bind_some]
    cases hselection : server.incomingSelection? members with
    | none => exact ⟨fun w selection h => (by cases h), fun _ => load_refuses (.inl hselection)⟩
    | some chosen =>
      cases hread : server.incomingWorkspace members with
      | error e =>
        exact ⟨fun w selection h => (by cases h), fun _ => load_refuses (.inr ⟨e, hread⟩)⟩
      | ok w =>
        refine ⟨fun w' selection h => ?_, fun h => (by cases h)⟩
        cases h
        exact load_installs hserver.keyed hregistry hselection hread

def guardedBody (components : List Value) : Body :=
  .json (.object [("workspace", guardedDocument), ("components", .list components)])

def lamp : Value := .object [("id", "lamp"), ("kind", "led")]

def thermometer (id : String) : Value :=
  .object [("id", .text id), ("kind", "temperature")]

theorem guardedBody_lamp (h : Reachable server) :
    server.incoming? (guardedBody [lamp]) = some (guardedWorkspace, [⟨"lamp", .led, "LED"⟩]) := by
  have hread : server.incomingWorkspace
      [("workspace", guardedDocument), ("components", .list [lamp])] = .ok guardedWorkspace := by
    rw [incomingWorkspace, h.registry]
    exact Document.read_guarded
  show (do
    let w ← (server.incomingWorkspace
      [("workspace", guardedDocument), ("components", .list [lamp])]).toOption
    some (w, _)) = _
  rw [hread]
  rfl

/-- A lamp comes with the program; two thermometers are refused, and with them the program. -/
theorem load_lamp_not_thermometers : ∃ server, Reachable server ∧
    server.incoming? (guardedBody [lamp]) = some (guardedWorkspace, [⟨"lamp", .led, "LED"⟩]) ∧
    Installs server guardedWorkspace [⟨"lamp", .led, "LED"⟩]
      (server.respond (.load (guardedBody [lamp]))) ∧
    server.incoming? (guardedBody [thermometer "in", thermometer "out"]) = none ∧
    Refuses server (server.respond (.load (guardedBody [thermometer "in", thermometer "out"]))) := by
  obtain ⟨c, hstart⟩ := Canvas.exists_start
  have hserver := Reachable.start hstart []
  exact ⟨_, hserver, guardedBody_lamp hserver,
    (load_all_or_nothing _ hserver _).1 _ _ (guardedBody_lamp hserver), rfl,
    (load_all_or_nothing _ hserver _).2 rfl⟩

end Server

end BlockSketch.Api
