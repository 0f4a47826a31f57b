import BlockSketch.Proofs.Api.Loading

/-!
# Errors in replies

An error of the editor is answered with an envelope that tells of it and with a status in the four
hundreds. There is one exception: if a protected block stops the deletion of a variable, the reply is
that for what nobody foresaw.
-/

namespace BlockSketch

-- ---------------------------------------------------------------------------
-- The editor's errors
-- ---------------------------------------------------------------------------

/-- An error of one of the editor's own kinds, or an invalid value. -/
def Error.IsEditors (e : Error) : Prop :=
  (∃ kind, e.typeName? = some kind) ∨ ∃ cause, e = .invalid cause

/-- A question that fails with none of the editor's errors. -/
def Foreign (x : Except Error α) : Prop :=
  ∀ e, x = .error e → ¬e.IsEditors

theorem foreign_ok (a : α) : Foreign (.ok a) := by
  intro e h
  cases h

theorem foreign_illTyped : Foreign (.error .illTyped : Except Error α) := by
  intro e h
  cases h
  simp [Error.IsEditors, Error.typeName?]

theorem Foreign.bind {x : Except Error α} {f : α → Except Error β} (h : Foreign x)
    (hf : ∀ a, Foreign (f a)) : Foreign (x >>= f) := by
  intro e he
  rcases bind_error.mp he with hx | ⟨a, -, ha⟩
  · exact h e hx
  · exact hf a e ha

theorem Foreign.map {x : Except Error α} (h : Foreign x) (f : α → β) : Foreign (x.map f) := by
  intro e he
  cases x with
  | error e' =>
    cases he
    exact h _ rfl
  | ok a => cases he

theorem Outcome.map_error {outcome : Outcome α} {f : α → β} (h : (outcome.map f).result = .error e) :
    outcome.result = .error e := by
  obtain ⟨result, c, notices⟩ := outcome
  cases result with
  | error e' =>
    cases h
    rfl
  | ok a => cases h

theorem Canvas.load_error {c : Canvas} (h : (c.load document).result = .error e) :
    ∃ cause, Document.read c.registry document = .error cause ∧ e = .ofMalformed cause := by
  unfold Canvas.load at h
  cases hread : Document.read c.registry document with
  | error cause =>
    rw [hread] at h
    cases h
    exact ⟨cause, rfl, rfl⟩
  | ok w =>
    rw [hread] at h
    cases h

theorem Canvas.availableTypes_foreign (c : Canvas) : Foreign c.availableTypes := by
  unfold Canvas.availableTypes Gate.inOrder
  cases Value.sorted? _ with
  | none => exact foreign_illTyped
  | some types => exact foreign_ok _

theorem Gate.violationBy_foreign (registry : Registry) (allowed : List Value) (b : Block) :
    Foreign (violationBy registry allowed b) := by
  unfold violationBy
  split
  · exact foreign_illTyped
  · split
    · exact foreign_ok _
    · split
      · exact foreign_ok _
      · refine Foreign.bind ?_ fun v => foreign_ok _
        unfold violation
        split
        · exact foreign_ok _
        · exact foreign_illTyped

theorem Canvas.state_foreign (c : Canvas) : Foreign c.state := by
  have hviolations : Foreign c.violations := by
    refine Foreign.bind (fun e he => ?_) fun _ => foreign_ok _
    obtain ⟨r, -, hr⟩ := mapM_error he
    exact Gate.violationBy_foreign _ _ _ e hr
  exact (hviolations.bind fun _ => foreign_ok _).bind fun _ => foreign_ok _

theorem Canvas.report_foreign (c : Canvas) : Foreign c.report := by
  unfold Canvas.report Sketch.Generator.generate
  split
  · exact foreign_illTyped
  · split
    · exact foreign_ok _
    · exact foreign_illTyped
    · exact foreign_ok _

theorem Settings.load_foreign (environment : Assoc String) (overrides : Assoc Value) :
    Foreign (Settings.load environment overrides) := by
  have hlookup : ∀ key name default, Foreign (lookupSetting environment overrides key name default) := by
    intro key name default
    unfold lookupSetting
    split
    · exact foreign_illTyped
    · split
      · exact foreign_ok _
      · exact foreign_ok _
      · exact foreign_illTyped
  have hdefault : ∀ default x, Foreign (orDefault default x) := by
    intro default x
    unfold orDefault
    split
    · exact foreign_ok _
    · rename_i cause
      cases cause with
      | noNumber => exact foreign_ok _
      | illTyped => exact foreign_illTyped
      | outOfRange =>
        intro e he
        cases he
        simp [Error.IsEditors, Error.typeName?]
  unfold Settings.load
  dsimp only
  exact (hlookup _ _ _).bind fun _ => (hdefault _ _).bind fun _ => (hlookup _ _ _).bind fun _ =>
    (hdefault _ _).bind fun _ => (hlookup _ _ _).bind fun _ => (hdefault _ _).bind fun _ =>
    (hlookup _ _ _).bind fun _ => (hlookup _ _ _).bind fun _ => foreign_ok _

namespace Workspace

variable {registry : Registry} {w w' : Workspace} {e : Error}

theorem usersOf_foreign (registry : Registry) (w : Workspace) (name : Value) :
    Foreign (w.usersOf registry name) := by
  simp only [usersOf]
  split
  · exact foreign_illTyped
  · exact foreign_ok _

theorem mem_usersOf (h : w.usersOf registry name = .ok refs) (hr : r ∈ refs) :
    r ∈ w.allBlocks ∧ usesVariable registry name (w.block r) = true := by
  simp only [usersOf] at h
  split at h
  · cases h
  · cases h
    exact List.mem_filter.mp hr

/-- Of the editor's errors, only a protected user stops the deletion of a variable. -/
theorem deleteVariable_stopped (h : w.deleteVariable registry name = (.error e, w'))
    (he : e.IsEditors) : ∃ r ∈ w.allBlocks, usesVariable registry name (w.block r) = true ∧
      (w'.block r).isDeletable = false ∧ e = .protectedBlock (w'.block r).id := by
  unfold deleteVariable at h
  split at h
  · cases h
  · split at h
    · rename_i husers
      cases h
      exact (usersOf_foreign registry w name e husers he).elim
    · rename_i users husers
      split at h
      · cases h
      · rename_i hstop
        cases h
        obtain ⟨before, r, after, rfl, -, -, hkept, heq⟩ := deleteEach_stops hstop
        obtain ⟨hall, huses⟩ := mem_usersOf husers (List.mem_append_right _ List.mem_cons_self)
        exact ⟨r, hall, huses, hkept, heq⟩

end Workspace

namespace Api

-- ---------------------------------------------------------------------------
-- Requests for headers
-- ---------------------------------------------------------------------------

def Action.IsQuestion : Action → Prop
  | .listCatalog | .listComponents | .showPalette | .listAllowed | .showWorkspace | .showCode
  | .download | .listProjects | .showProject _ | .listSettings | .showSetting _ => True
  | _ => False

theorem lookup_get (h : (actions path).lookup "GET" = some action) : action.IsQuestion := by
  have hget : ∀ entry ∈ actions path, entry.1 = "GET" → entry.2.IsQuestion := by
    unfold actions
    repeat' split
    all_goals simp [Action.IsQuestion]
  obtain ⟨before, after, hactions, -⟩ := List.lookup_eq_some_iff.mp h
  refine hget ("GET", action) ?_ rfl
  rw [hactions]
  exact List.mem_append_right _ List.mem_cons_self

theorem findRoute_action (h : findRoute method path = .action action) :
    (actions path).lookup (if method = "HEAD" then "GET" else method) = some action := by
  simp only [findRoute] at h
  generalize (if method = "HEAD" then "GET" else method) = method at h ⊢
  split at h
  · cases h
  · split at h
    · cases h
    · split at h
      · cases h
      · split at h
        · rename_i hlookup
          cases h
          exact hlookup
        · cases h

theorem pathRoute_action (h : pathRoute method path = .action action) :
    findRoute method (segments path) = .action action := by
  simp only [pathRoute] at h
  split at h
  all_goals first | cases h | exact h

theorem route_head (h : route "HEAD" path = .action action) : action.IsQuestion := by
  have hupper : "HEAD".toUpper = "HEAD" := by decide +kernel
  unfold route at h
  rw [hupper] at h
  split at h
  · cases h
  · split at h
    · exact lookup_get (findRoute_action (pathRoute_action h))
    · cases h

-- ---------------------------------------------------------------------------
-- Envelopes
-- ---------------------------------------------------------------------------

/-- An envelope that tells of an error, with a status in the four hundreds. -/
def Reply.TellsOf (reply : Reply) (e : Error) : Prop :=
  ∃ status details, 400 ≤ status ∧ status < 500 ∧ reply = .json status
    (.object (("success", .bool false) :: ("error", .text e.message) :: details))

def BlamesRequest (status : Error → Nat) : Prop :=
  ∀ e, 400 ≤ status e ∧ status e < 500

theorem editStatus_blames : BlamesRequest editStatus := by
  intro e
  unfold editStatus
  split <;> decide

theorem conflictStatus_blames : BlamesRequest conflictStatus := by
  intro e
  unfold conflictStatus
  decide

theorem deleteStatus_blames : BlamesRequest deleteStatus := by
  intro e
  unfold deleteStatus
  split <;> decide

theorem failure_tellsOf (hstatus : BlamesRequest status) (he : e.IsEditors) :
    (failure status other e).TellsOf e := by
  obtain ⟨hlow, hhigh⟩ := hstatus e
  rcases he with ⟨kind, hkind⟩ | ⟨cause, rfl⟩
  · simp only [failure, hkind]
    exact ⟨_, _, hlow, hhigh, rfl⟩
  · exact ⟨_, _, hlow, hhigh, rfl⟩

namespace Server

open Document (guardedDocument guardedWorkspace)

variable {server : Server} {request : Request} {members : Assoc Value} {action : Action} {e : Error}

theorem conclude_tellsOf {outcome : Outcome α} {onOk : Canvas → α → Reply}
    (hstatus : BlamesRequest status) (he : e.IsEditors) (hresult : outcome.result = .error e) :
    (server.conclude outcome (failure status other) onOk).1.reply.TellsOf e := by
  simp only [conclude, hresult]
  exact failure_tellsOf hstatus he

-- ---------------------------------------------------------------------------
-- What can be raised
-- ---------------------------------------------------------------------------

def argument (members : Assoc Value) (name : String) : Value :=
  (members.find? name).getD .null

def operation? (members : Assoc Value) : Action → Option Operation
  | .addComponent => do
    let kind ← (ComponentKind.read (argument members "kind")).toOption
    some (.addComponent ⟨argument members "id", kind, argument members "name"⟩)
  | .removeComponent id => some (.removeComponent (.text id))
  | .createBlock => some (.createBlock
      { type := argument members "type", fields := argument members "fields"
        id := argument members "id" })
  | .connect => some (.connect (argument members "block_id") (argument members "parent_id")
      (argument members "socket"))
  | .detach => some (.detach (argument members "block_id"))
  | .deleteBlock id => some (.deleteBlock (.text id))
  | .setField id => some (.setField (.text id) (argument members "name") (argument members "value"))
  | .createVariable => some (.createVariable (argument members "name"))
  | .deleteVariable name => some (.deleteVariable (.text name))
  | .clear => some .clear
  | _ => none

def question? (server : Server) : Action → Option (Except Error Value)
  | .listAllowed => some (server.canvas.availableTypes.map .list)
  | .showWorkspace => some server.canvas.state
  | .showCode | .download => some (server.canvas.report.map Sketch.Report.toValue)
  | .listSettings => some (server.effectiveSettings.map Settings.toValue)
  | _ => none

/-- An action calls something that ends with an error. A load stages the components, if there are
any, and then reads the workspace. -/
inductive Raises (server : Server) (members : Assoc Value) : Action → Error → Prop
  | edit {action : Action} {op : Operation} {e : Error} (hop : operation? members action = some op)
      (he : (server.canvas.apply op).result = .error e) : Raises server members action e
  | stage {items : Value} {components : List Component} {e : Error}
      (hitems : members.find? "components" = some items)
      (hcomponents : readComponents items = .ok components)
      (he : (server.canvas.stageComponents components).result = .error e) :
      Raises server members .load e
  | load {selection : Selection} {e : Error}
      (hselection : server.incomingSelection? members = some selection)
      (he : (server.canvas.load (argument members "workspace")).result = .error e) :
      Raises server members .load e
  | ask {action : Action} {e : Error} (he : server.question? action = some (.error e)) :
      Raises server members action e

theorem question?_foreign {x : Except Error Value} (h : server.question? action = some x) :
    Foreign x := by
  cases action with
  | listAllowed =>
    cases h
    exact server.canvas.availableTypes_foreign.map _
  | showWorkspace =>
    cases h
    exact server.canvas.state_foreign
  | showCode =>
    cases h
    exact server.canvas.report_foreign.map _
  | download =>
    cases h
    exact server.canvas.report_foreign.map _
  | listSettings =>
    cases h
    exact (Settings.load_foreign _ _).map _
  | _ => cases h

theorem Raises.not_question (h : server.Raises members action e) (he : e.IsEditors) :
    ¬action.IsQuestion := by
  cases h with
  | edit hop =>
    intro hquestion
    cases action <;> first | exact hquestion | cases hop
  | stage => exact id
  | load => exact id
  | ask hasked => exact (question?_foreign hasked e rfl he).elim

section

variable (hmembers : request.body.members? = some members) (he : e.IsEditors)
include hmembers he

theorem perform_edit (hop : operation? members action = some op)
    (hresult : (server.canvas.apply op).result = .error e)
    (haction : ∀ name, action ≠ .deleteVariable name) :
    (server.perform request action).1.reply.TellsOf e := by
  cases action with
  | addComponent =>
    simp only [perform, withMembers, hmembers, addComponent]
    simp only [operation?, argument] at hop
    cases hkind : ComponentKind.read ((members.find? "kind").getD .null) with
    | error cause => simp [hkind, Except.toOption] at hop
    | ok kind =>
      rw [hkind] at hop
      cases hop
      exact conclude_tellsOf conflictStatus_blames he (Outcome.map_error hresult)
  | removeComponent _ | clear =>
    cases hop
    exact conclude_tellsOf editStatus_blames he (Outcome.map_error hresult)
  | createBlock | setField _ =>
    cases hop
    simp only [perform, withMembers, hmembers]
    exact conclude_tellsOf editStatus_blames he hresult
  | connect | detach | createVariable =>
    cases hop
    simp only [perform, withMembers, hmembers]
    exact conclude_tellsOf editStatus_blames he (Outcome.map_error hresult)
  | deleteBlock _ =>
    cases hop
    exact conclude_tellsOf deleteStatus_blames he (Outcome.map_error hresult)
  | deleteVariable name => exact (haction name rfl).elim
  | _ => cases hop

theorem perform_stage (hitems : members.find? "components" = some items)
    (hcomponents : readComponents items = .ok components)
    (hresult : (server.canvas.stageComponents components).result = .error e) :
    (server.perform request .load).1.reply.TellsOf e := by
  simp only [perform, hmembers, load, hitems, hcomponents, hresult]
  exact conclude_tellsOf conflictStatus_blames he hresult

theorem perform_load (hselection : server.incomingSelection? members = some selection)
    (hresult : (server.canvas.load (argument members "workspace")).result = .error e) :
    (server.perform request .load).1.reply.TellsOf e := by
  obtain ⟨cause, hread, rfl⟩ := Canvas.load_error hresult
  rw [argument] at hread
  rcases incomingSelection?_some hselection with ⟨hitems, -⟩ |
    ⟨items, components, supply, hitems, hcomponents, hbuild⟩
  · simp only [perform, hmembers, load, hitems, loadWorkspace, Canvas.load, hread]
    exact conclude_tellsOf editStatus_blames he rfl
  · simp only [perform, hmembers, load, hitems, hcomponents, Canvas.stageComponents, hbuild,
      loadBoth, Canvas.load, hread]
    exact conclude_tellsOf editStatus_blames he rfl

end

theorem perform_deleteVariable {name : String} (he : e.IsEditors)
    (hresult : (server.canvas.apply (.deleteVariable (.text name))).result = .error e) :
    (server.perform request (.deleteVariable name)).1.reply = .page 500 ∧
      ∃ r ∈ server.canvas.workspace.allBlocks,
        Workspace.usesVariable server.canvas.registry (.text name)
          (server.canvas.workspace.block r) = true ∧
        ((server.perform request (.deleteVariable name)).2.canvas.workspace.block r).isDeletable =
          false ∧
        e = .protectedBlock
          ((server.perform request (.deleteVariable name)).2.canvas.workspace.block r).id := by
  replace hresult := Outcome.map_error hresult
  simp only [perform, conclude, hresult]
  refine ⟨rfl, ?_⟩
  unfold Canvas.deleteVariable at hresult ⊢
  split at hresult
  · rename_i hstop
    cases hresult
    exact Workspace.deleteVariable_stopped hstop he
  · cases hresult

/-- Each of the editor's errors is told with a status in the four hundreds, except for what stops the
deletion of a variable. -/
theorem editor_errors_told (server : Server) (request : Request) (action : Action)
    (members : Assoc Value) (e : Error)
    (hroute : route request.method request.path = .action action)
    (hmembers : request.body.members? = some members) (hraises : server.Raises members action e)
    (he : e.IsEditors) :
    ((∀ name, action ≠ .deleteVariable name) → (server.respond request).1.reply.TellsOf e) ∧
    ∀ name, action = .deleteVariable name → (server.respond request).1.reply = .page 500 ∧
      ∃ r ∈ server.canvas.workspace.allBlocks,
        Workspace.usesVariable server.canvas.registry (.text name)
          (server.canvas.workspace.block r) = true ∧
        ((server.respond request).2.canvas.workspace.block r).isDeletable = false ∧
        e = .protectedBlock ((server.respond request).2.canvas.workspace.block r).id := by
  have hmethod : request.method ≠ "HEAD" := by
    intro hhead
    rw [hhead] at hroute
    exact hraises.not_question he (route_head hroute)
  rw [respond_perform hroute hmethod]
  constructor
  · intro haction
    cases hraises with
    | edit hop hresult => exact perform_edit hmembers he hop hresult haction
    | stage hitems hcomponents hresult => exact perform_stage hmembers he hitems hcomponents hresult
    | load hselection hresult => exact perform_load hmembers he hselection hresult
    | ask hasked => exact (question?_foreign hasked e rfl he).elim
  · rintro name rfl
    cases hraises with
    | edit hop hresult =>
      cases hop
      exact perform_deleteVariable he hresult
    | ask hasked => cases hasked

def afterGuarded (server : Server) : Server :=
  (server.respond (.load (.json (.object [("workspace", guardedDocument)])))).2

theorem exists_guarded : ∃ server, Reachable server ∧
    server.canvas.registry = Catalog.registry ∧ server.canvas.workspace = guardedWorkspace := by
  obtain ⟨c, hstart⟩ := Canvas.exists_start
  have hnew : Reachable (Server.start {} c []) := .start hstart []
  have hserver : Reachable (Server.start {} c []).afterGuarded := .respond hnew _
  refine ⟨_, hserver, hserver.registry, ?_⟩
  have hread : (Server.start {} c []).incomingWorkspace [("workspace", guardedDocument)] =
      .ok guardedWorkspace := by
    rw [incomingWorkspace, hnew.registry]
    exact Document.read_guarded
  rw [afterGuarded, respond_load]
  exact (load_installs hnew.keyed (hnew.registry ▸ Catalog.registry_namesCapabilities) rfl
    hread).workspace

theorem route_deleteBlock :
    route "DELETE" "/api/workspace/blocks/b" = .action (.deleteBlock "b") := by
  have hupper : "DELETE".toUpper = "DELETE" := by decide +kernel
  unfold route
  rw [hupper]
  rfl

/-- A protected block of a program that was loaded is not deleted, and the reply tells why. -/
theorem protected_block_told : ∃ server, Reachable server ∧
    server.canvas.workspace = guardedWorkspace ∧
    route "DELETE" "/api/workspace/blocks/b" = .action (.deleteBlock "b") ∧
    Body.absent.members? = some [] ∧ server.Raises [] (.deleteBlock "b") (.protectedBlock "b") ∧
    (Error.protectedBlock "b").IsEditors ∧
    (server.respond { method := "DELETE", path := "/api/workspace/blocks/b" }).1.reply.TellsOf
      (.protectedBlock "b") := by
  obtain ⟨server, hserver, -, hworkspace⟩ := exists_guarded
  have hlocate : guardedWorkspace.locate "b" = .ok 0 :=
    Workspace.locate_ok.mpr (Workspace.search_eq_findSome? _ _ _)
  have hdelete : guardedWorkspace.delete "b" = .error (.protectedBlock "b") := by
    rw [Workspace.delete, hlocate]
    rfl
  have hraises : server.Raises [] (.deleteBlock "b") (.protectedBlock "b") := by
    refine .edit rfl ?_
    simp only [Canvas.apply, Canvas.deleteBlock, hworkspace, hdelete]
    rfl
  have he : (Error.protectedBlock "b").IsEditors := .inl ⟨_, rfl⟩
  refine ⟨server, hserver, hworkspace, route_deleteBlock, rfl, hraises, he, ?_⟩
  exact (editor_errors_told server { method := "DELETE", path := "/api/workspace/blocks/b" } _ [] _
    route_deleteBlock rfl hraises he).1 fun name h => (by cases h)

theorem route_deleteVariable :
    route "DELETE" "/api/workspace/variables/x" = .action (.deleteVariable "x") := by
  have hupper : "DELETE".toUpper = "DELETE" := by decide +kernel
  unfold route
  rw [hupper]
  rfl

/-- The deletion of a variable with a protected user is answered like a breakdown. -/
theorem protected_user_unforeseen : ∃ server, Reachable server ∧
    server.Raises [] (.deleteVariable "x") (.protectedBlock "b") ∧
    (Error.protectedBlock "b").IsEditors ∧
    (server.respond { method := "DELETE", path := "/api/workspace/variables/x" }).1.reply =
      .page 500 := by
  obtain ⟨server, hserver, hregistry, hworkspace⟩ := exists_guarded
  have hresult : (server.canvas.deleteVariable "x").result = .error (.protectedBlock "b") := by
    simp only [Canvas.deleteVariable, hworkspace, hregistry, Canvas.guarded_deleteVariable]
    rfl
  have hrespond : server.respond { method := "DELETE", path := "/api/workspace/variables/x" } =
      server.perform { method := "DELETE", path := "/api/workspace/variables/x" }
        (.deleteVariable "x") :=
    respond_perform route_deleteVariable (by decide : "DELETE" ≠ "HEAD")
  refine ⟨server, hserver, .edit rfl ?_, .inl ⟨_, rfl⟩, ?_⟩
  · simp only [Canvas.apply, Outcome.map, hresult]
    rfl
  · rw [hrespond]
    simp only [perform, conclude, hresult]
    rfl

end Server

end Api

end BlockSketch
