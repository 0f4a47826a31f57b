import BlockSketch.Json.Reader
import BlockSketch.Json.Writer
import BlockSketch.Project.Column
import BlockSketch.Supply

/-!
# The project store

Saved projects and stored settings. A project is kept in two tables: one row has its data and its
workspace as a text, and each of its components has a row of its own. A save is carried out as a
whole or not at all; one that fails changes nothing but the clock, which ticks once for every save
of a project or of a setting.
-/

namespace BlockSketch

structure StoredComponent where
  id : String
  kind : String
  name : Option String

structure Summary where
  /-- An id that cannot be stored as a text is lost. -/
  id : Option String
  name : String
  description : Option String
  createdAt : Nat
  updatedAt : Nat

structure Project extends Summary where
  workspace : Value
  components : List StoredComponent

structure ProjectRow extends Summary where
  workspaceText : String

structure ComponentRow extends StoredComponent where
  project : String
  position : Nat

structure Store where
  projects : List ProjectRow := []
  components : List ComponentRow := []
  settings : Assoc String := []
  clock : Nat := 1000

structure ComponentRecord where
  id : Value
  kind : Value
  name : Value

structure SaveRequest where
  name : String
  description : Value
  id : Value
  workspace : Value
  components : List ComponentRecord

def timeValue (seconds : Nat) : Value :=
  .real (.ofInt seconds)

def optionalText (s : Option String) : Value :=
  .ofOption (s.map .text)

def StoredComponent.toValue (c : StoredComponent) : Value :=
  .object [("id", .text c.id), ("kind", .text c.kind), ("name", optionalText c.name)]

def Summary.members (p : Summary) : Assoc Value :=
  [("id", optionalText p.id), ("name", .text p.name), ("description", optionalText p.description),
    ("created_at", timeValue p.createdAt), ("updated_at", timeValue p.updatedAt)]

def Project.toValue (p : Project) : Value :=
  .object (p.toSummary.members ++ [("workspace", p.workspace),
    ("components", .list (p.components.map StoredComponent.toValue))])

def ComponentRecord.stored? (c : ComponentRecord) : Option StoredComponent := do
  let id ← (← Column.store c.id)
  let kind ← (← Column.store c.kind)
  let name ← Column.store c.name
  some ⟨id, kind, name⟩

def SaveRequest.chooseId (request : SaveRequest) (supply : Supply) : Value × Supply :=
  if request.id.isEmpty then
    let (fresh, supply) := supply.drawId
    (.text fresh, supply)
  else (request.id, supply)

/-- The answer to a save shows the values as they were given; the time of creation is told of a new
project only. -/
def SaveRequest.record (request : SaveRequest) (id : Value) (isNew : Bool) (now : Nat) : Value :=
  .object [("id", id), ("name", .text request.name), ("description", request.description),
    ("created_at", if isNew then timeValue now else .null), ("updated_at", timeValue now)]

namespace Store

-- ---------------------------------------------------------------------------
-- Tables
-- ---------------------------------------------------------------------------

def row? (store : Store) (id : String) : Option ProjectRow :=
  store.projects.find? (·.id == some id)

/-- No two projects have one id, but more than one can have none. -/
def insertProject? (store : Store) (row : ProjectRow) : Option Store :=
  if (row.id.bind store.row?).isSome then none
  else some { store with projects := store.projects ++ [row] }

def updateProject (store : Store) (id : String) (f : ProjectRow → ProjectRow) : Store :=
  { store with projects := store.projects.map fun row => if row.id == some id then f row else row }

/-- A component needs its project, and no two components of a project have one id. -/
def insertComponent? (store : Store) (row : ComponentRow) : Option Store :=
  if (store.row? row.project).isNone ||
      store.components.any (fun other => other.project == row.project && other.id == row.id) then none
  else some { store with components := store.components ++ [row] }

/-- Components are numbered from a position on. A project without an id can have none. -/
def insertComponents? (store : Store) (project : Option String) (position : Nat) :
    List ComponentRecord → Option Store
  | [] => some store
  | c :: rest => do
    let stored ← c.stored?
    let store ← store.insertComponent?
      { toStoredComponent := stored, project := ← project, position }
    store.insertComponents? project (position + 1) rest

def deleteComponents (store : Store) (id : String) : Store :=
  { store with components := store.components.filter (·.project != id) }

def deleteProject (store : Store) (id : String) : Store :=
  { store.deleteComponents id with projects := store.projects.filter (·.id != some id) }

def componentsOf (store : Store) (id : String) : List StoredComponent :=
  let rows := store.components.filter (·.project == id)
  (rows.mergeSort fun a b => decide (a.position ≤ b.position)).map (·.toStoredComponent)

-- ---------------------------------------------------------------------------
-- Projects
-- ---------------------------------------------------------------------------

def create? (store : Store) (now : Nat) (id : Value) (request : SaveRequest) : Option Store := do
  let id ← Column.store id
  let description ← Column.store request.description
  let store ← store.insertProject?
    { id, name := request.name, description, createdAt := now, updatedAt := now
      workspaceText := Json.write .line request.workspace }
  store.insertComponents? id 0 request.components

def overwrite? (store : Store) (now : Nat) (id : String) (request : SaveRequest) :
    Option Store := do
  let description ← Column.store request.description
  let store := store.updateProject id fun row =>
    { row with
      name := request.name, description, updatedAt := now
      workspaceText := Json.write .line request.workspace }
  (store.deleteComponents id).insertComponents? (some id) 0 request.components

def known? (store : Store) (id : Value) : Option String := do
  let key ← (← Column.store id)
  if (store.row? key).isSome then some key else none

/-- Saves a project at a time. There is no answer if it cannot be stored. -/
def saveAt (store : Store) (now : Nat) (supply : Supply) (request : SaveRequest) :
    Option Value × Store × Supply :=
  let (id, supply) := request.chooseId supply
  -- An id that was drawn is taken to be new and is not looked up.
  let known := if request.id.isEmpty then none else store.known? id
  match known.elim (store.create? now id request) fun key => store.overwrite? now key request with
  | none => (none, store, supply)
  | some saved => (some (request.record id known.isNone now), saved, supply)

def tick (store : Store) : Store :=
  { store with clock := store.clock + 1 }

def save (store : Store) (supply : Supply) (request : SaveRequest) :
    Option Value × Store × Supply :=
  let store := store.tick
  store.saveAt store.clock supply request

def load (store : Store) (id : String) : Except Json.Error (Option Project) :=
  match store.row? id with
  | none => .ok none
  | some row => do
    let workspace ← Json.read row.workspaceText
    .ok (some { row.toSummary with workspace, components := store.componentsOf id })

def list (store : Store) : List Summary :=
  (store.projects.map (·.toSummary)).mergeSort fun a b => decide (b.updatedAt ≤ a.updatedAt)

def delete (store : Store) (id : String) : Bool × Store :=
  ((store.row? id).isSome, store.deleteProject id)

-- ---------------------------------------------------------------------------
-- Settings
-- ---------------------------------------------------------------------------

def putSetting (store : Store) (key value : String) : Value × Store :=
  let store := store.tick
  (.object [("key", .text key), ("value", .text value), ("updated_at", timeValue store.clock)],
    { store with settings := store.settings.put key value })

def deleteSetting (store : Store) (key : String) : Bool × Store :=
  (store.settings.has key, { store with settings := store.settings.remove key })

def overrides (store : Store) : Assoc Value :=
  store.settings.map fun (key, value) => (key, .text value)

end Store

end BlockSketch
