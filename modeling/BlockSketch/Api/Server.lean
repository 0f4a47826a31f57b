import BlockSketch.Api.Route
import BlockSketch.Canvas.Basic
import BlockSketch.Json.Encoding
import BlockSketch.Project.Store
import BlockSketch.Text.Lowercase

/-!
# The server

Answers requests on one canvas and one store. A refusal of the editor is answered with a status in
the four hundreds and its reason; what nobody foresaw is answered with 500, by a page or, where a
route catches everything, by an envelope with the words of the host.
-/

namespace BlockSketch.Api

inductive Body where
  | absent
  | json (v : Value)
  | raw (text contentType : String)

structure Request where
  method : String
  path : String
  body : Body := .absent

inductive Reply where
  | json (status : Nat) (body : Value)
  | download (text filename : String)
  | page (status : Nat)
  /-- A JSON object in which `success` is false and `error` holds what the host says. -/
  | envelope (status : Nat)
  /-- The headers of a JSON reply, without the content they announce. -/
  | headers (status : Nat)

structure Server where
  canvas : Canvas
  settings : Settings
  environment : Assoc String
  store : Store := {}

structure Response where
  reply : Reply
  emits : List (String × Value) := []

-- ---------------------------------------------------------------------------
-- Bodies
-- ---------------------------------------------------------------------------

def isTypeBlank (c : Char) : Bool :=
  c = ' ' || c = '\t'

/-- Whether a content type announces JSON; parameters after a semicolon do not count. -/
def isJsonType (contentType : String) : Bool :=
  let named := contentType.toList.takeWhile (· != ';')
  let mime := Text.lower (.ofList (Text.trimBy isTypeBlank named))
  mime = "application/json" || (mime.startsWith "application/" && mime.endsWith "+json")

def Body.value : Body → Value
  | .absent => .null
  | .json v => v.unlabelled
  | .raw text contentType =>
    if isJsonType contentType then (Json.readSent? text).getD .null else .null

def Body.check : Body → Except Error Unit
  | .raw _ contentType =>
    if contentType.toList.any fun c => c = '\n' || c = '\r' then .error (.unfit .lineBreak)
    else .ok ()
  | _ => .ok ()

def Request.check (request : Request) : Except Error Unit := do
  let _ ← (Target.read request.path).mapError Error.unfit
  request.body.check

/-- The members of a body. Anything empty has none; what is neither empty nor an object has no
members to ask for. -/
def Body.members? (body : Body) : Option (Assoc Value) :=
  match body.value with
  | .object members => some members
  | v => if v.isEmpty then some [] else none

-- ---------------------------------------------------------------------------
-- Replies
-- ---------------------------------------------------------------------------

def success (data : Value) : Reply :=
  .json 200 (.object [("success", .bool true), ("data", data)])

def refusal (status : Nat) (reason : String) : Reply :=
  .json status (.object [("success", .bool false), ("error", .text reason)])

def unforeseen : Reply := .page 500

def caught : Reply := .envelope 500

/-- A refusal with its details; `other` is the reply to an error that is not one of the editor's. -/
def failure (status : Error → Nat) (other : Reply) (e : Error) : Reply :=
  match e, e.typeName? with
  | _, some kind =>
    .json (status e) (.object [("success", .bool false), ("error", .text e.message),
      ("details", .object e.details), ("error_type", .text kind)])
  | .invalid _, none => refusal (status e) e.message
  | _, none => other

def editStatus : Error → Nat
  | .unknownType _ => 404
  | _ => 400

def conflictStatus : Error → Nat :=
  fun _ => 409

def deleteStatus : Error → Nat
  | .protectedBlock _ => 409
  | _ => 400

def Reply.withoutContent : Reply → Reply
  | .json status _ | .envelope status => .headers status
  | .download _ filename => .download "" filename
  | reply => reply

namespace Server

def start (settings : Settings) (canvas : Canvas) (environment : Assoc String) : Server :=
  { canvas, settings, environment }

def emit? (c : Canvas) : Notice → Option (String × Value)
  | .event _ => none
  | .refreshed allowed =>
    some ("palette_refresh", .object
      [("allowed", .list ((Value.sorted? allowed).getD allowed)), ("categories", c.palette)])
  | .generated report => some ("code_generated", report.toValue)

abbrev Answer := Response × Server

def tell (server : Server) (reply : Reply) : Answer :=
  ({ reply }, server)

def conclude (server : Server) (outcome : Outcome α) (onError : Error → Reply)
    (onOk : Canvas → α → Reply) : Answer :=
  let c := outcome.canvas
  ({ reply := match outcome.result with
      | .ok a => onOk c a
      | .error e => onError e
     emits := outcome.notices.filterMap (emit? c) }, { server with canvas := c })

/-- Answers by the members of a body; `other` is the reply to a body that has none to ask for. -/
def withMembers (server : Server) (request : Request) (other : Reply)
    (f : (String → Value) → Answer) : Answer :=
  match request.body.members? with
  | some members => f fun name => (members.find? name).getD .null
  | none => server.tell other

-- ---------------------------------------------------------------------------
-- Components and blocks
-- ---------------------------------------------------------------------------

def unknownKind (v : Value) : Reply :=
  refusal 400 ("unknown component kind " ++ v.quoted)

def addComponent (server : Server) (arg : String → Value) : Answer :=
  match ComponentKind.read (arg "kind") with
  | .error _ => server.tell (unknownKind (arg "kind"))
  | .ok kind =>
    server.conclude (server.canvas.addComponent ⟨arg "id", kind, arg "name"⟩)
      (failure conflictStatus caught) fun _ component => success component.toValue

def saved (c : Canvas) : Value :=
  c.workspace.serialize

def createBlock (server : Server) (arg : String → Value) : Answer :=
  server.conclude
    (server.canvas.createBlock { type := arg "type", fields := arg "fields", id := arg "id" })
    (failure editStatus caught)
    fun c id => success (.object [("block_id", id), ("workspace", saved c)])

def connect (server : Server) (arg : String → Value) : Answer :=
  server.conclude (server.canvas.connect (arg "block_id") (arg "parent_id") (arg "socket"))
    (failure editStatus caught) fun c _ => success (.object [("workspace", saved c)])

def setField (server : Server) (id : String) (arg : String → Value) : Answer :=
  server.conclude (server.canvas.setField (.text id) (arg "name") (arg "value"))
    (failure editStatus unforeseen)
    fun _ value => success (.object [("name", arg "name"), ("value", value)])

def variablesReply (word : String) (c : Canvas) (changed : Bool) : Reply :=
  success (.object [(word, .bool changed), ("variables", .list c.workspace.variableNames)])

-- ---------------------------------------------------------------------------
-- Loading
-- ---------------------------------------------------------------------------

def readComponent (item : Value) : Except Reply Component :=
  match item.member? "id", item.member? "kind" with
  | some id, some kind =>
    match ComponentKind.read kind with
    | .ok k => .ok ⟨.text id.plain, k, (item.member? "name").getD (.text "")⟩
    | .error _ => .error (unknownKind kind)
  | _, _ => .error (refusal 400 "each component needs an 'id' and a 'kind'")

def readComponents : Value → Except Reply (List Component)
  | .list items => items.mapM readComponent
  | _ => .error (refusal 400 "'components' must be a list")

/-- What was asked of a canvas; it answers on every workspace that a server can hold. -/
def told (answer : Except Error Value) : Reply :=
  answer.toOption.elim unforeseen success

def loaded (c : Canvas) (count : Nat) : Reply :=
  told do .ok (.object [("blocks", .int count), ("violations", ← c.violationDetails)])

def loadWorkspace (server : Server) (document : Value) : Answer :=
  server.conclude (server.canvas.load document) (failure editStatus unforeseen) loaded

def loadBoth (server : Server) (document : Value) (selection : Selection) : Answer :=
  let outcome := server.canvas.load document
  match outcome.result with
  | .error _ => server.conclude outcome (failure editStatus unforeseen) fun _ _ => success .null
  | .ok count =>
    server.conclude (outcome.canvas.select selection count) (failure editStatus unforeseen) loaded

/-- The components are read and checked before the workspace is touched. -/
def load (server : Server) (members : Assoc Value) : Answer :=
  let document := (members.find? "workspace").getD .null
  match members.find? "components" with
  | none => server.loadWorkspace document
  | some items =>
    match readComponents items with
    | .error reply => server.tell reply
    | .ok components =>
      let staged := server.canvas.stageComponents components
      match staged.result with
      | .error _ =>
        server.conclude staged (failure conflictStatus unforeseen) fun _ _ => success .null
      | .ok selection => { server with canvas := staged.canvas }.loadBoth document selection

-- ---------------------------------------------------------------------------
-- Code
-- ---------------------------------------------------------------------------

/-- The current sketch; a run that is pending is made now. -/
def currentReport (server : Server) :
    Except Error Sketch.Report × List (String × Value) × Server :=
  let outcome := server.canvas.flush
  let report := match outcome.result with
    | .ok (some report) => .ok report
    | _ => server.canvas.report
  (report, outcome.notices.filterMap (emit? outcome.canvas),
    { server with canvas := outcome.canvas })

def showCode (server : Server) : Answer :=
  let (report, emits, server) := server.currentReport
  ({ reply := told (report.map Sketch.Report.toValue), emits }, server)

def download (server : Server) : Answer :=
  let (report, emits, server) := server.currentReport
  let name := server.settings.sketchFilename.plain
  let reply := match report with
    | .ok report =>
      if name.toList.any fun c => c = '\n' || c = '\r' then unforeseen
      else .download report.code name
    | .error _ => unforeseen
  ({ reply, emits }, server)

-- ---------------------------------------------------------------------------
-- Projects and settings
-- ---------------------------------------------------------------------------

def saveProject (server : Server) (members : Assoc Value) : Answer :=
  let given := (members.find? "name").getD .null
  match given.text? with
  | none =>
    server.tell (if given.isEmpty then refusal 400 "project name is required" else unforeseen)
  | some text =>
    let name := Text.trim text
    if name.isEmpty then server.tell (refusal 400 "project name is required")
    else
      let c := server.canvas
      let (record, store, supply) := server.store.save c.supply
        { name, description := (members.find? "description").getD (.text "")
          id := (members.find? "id").getD .null, workspace := saved c
          components := c.selection.map fun c => ⟨c.id, .text c.kind.name, c.name⟩ }
      ({ reply := (record.map success).getD caught },
        { server with store, canvas := { c with supply } })

def showProject (server : Server) (id : String) : Reply :=
  match server.store.load id with
  | .ok (some project) => success project.toValue
  | .ok none => refusal 404 ("no project with id " ++ Text.quoted id)
  | .error _ => unforeseen

def effectiveSettings (server : Server) : Except Error Settings :=
  Settings.load server.environment server.store.overrides

def listSettings (server : Server) : Reply :=
  match server.effectiveSettings with
  | .ok settings => success (.object [("stored", .object server.store.overrides),
      ("effective", settings.toValue)])
  | .error _ => unforeseen

def withSetting (server : Server) (key : String) (f : String → Answer) : Answer :=
  let key := Text.lower key
  if settingVariables.has key then f key
  else server.tell (refusal 404 ("unknown setting " ++ Text.quoted key))

def putSetting (server : Server) (key : String) (arg : String → Value) : Answer :=
  let value := arg "value"
  if value.isNull then server.tell (refusal 400 "'value' is required")
  else
    let (record, store) := server.store.putSetting key value.plain
    ({ reply := success record }, { server with store })

-- ---------------------------------------------------------------------------
-- Requests
-- ---------------------------------------------------------------------------

def catalogValue : Value :=
  .list (ComponentKind.all.map fun kind =>
    .object [("kind", .text kind.name), ("name", .text kind.title),
      ("category", .text kind.category), ("description", .text kind.description),
      ("exclusive", .bool kind.isExclusive)])

def perform (server : Server) (request : Request) : Action → Answer
  | .listCatalog => server.tell (success catalogValue)
  | .listComponents => server.tell (success server.canvas.selection.toValue)
  | .addComponent => server.withMembers request unforeseen server.addComponent
  | .removeComponent id =>
    server.conclude (server.canvas.removeComponent (.text id)) (failure editStatus unforeseen)
      fun _ removed => success (.object [("removed", .bool removed)])
  | .showPalette => server.tell (success server.canvas.palette)
  | .listAllowed => server.tell (told (server.canvas.availableTypes.map .list))
  | .showWorkspace => server.tell (told server.canvas.state)
  | .createBlock => server.withMembers request caught server.createBlock
  | .connect => server.withMembers request caught server.connect
  | .detach => server.withMembers request unforeseen fun arg =>
      server.conclude (server.canvas.detach (arg "block_id")) (failure editStatus unforeseen)
        fun _ moved => success (.object [("detached", .bool moved)])
  | .deleteBlock id =>
    server.conclude (server.canvas.deleteBlock (.text id)) (failure deleteStatus unforeseen)
      fun _ removed => success (.object [("removed", .list removed)])
  | .setField id => server.withMembers request unforeseen (server.setField id)
  | .createVariable => server.withMembers request unforeseen fun arg =>
      server.conclude (server.canvas.createVariable (arg "name")) (failure editStatus unforeseen)
        (variablesReply "created")
  | .deleteVariable name =>
    server.conclude (server.canvas.deleteVariable (.text name)) (fun _ => unforeseen)
      (variablesReply "deleted")
  | .clear =>
    server.conclude server.canvas.clear (failure editStatus unforeseen)
      fun c _ => success (.object [("workspace", saved c)])
  | .load =>
    match request.body.members? with
    | some members => server.load members
    | none => server.tell unforeseen
  | .showCode => server.showCode
  | .download => server.download
  | .listProjects =>
    server.tell (success (.list (server.store.list.map fun p => .object p.members)))
  | .saveProject =>
    match request.body.members? with
    | some members => server.saveProject members
    | none => server.tell unforeseen
  | .showProject id => server.tell (server.showProject id)
  | .deleteProject id =>
    let (deleted, store) := server.store.delete id
    ({ reply := success (.object [("deleted", .bool deleted)]) }, { server with store })
  | .listSettings => server.tell server.listSettings
  | .showSetting key => server.withSetting key fun key =>
      server.tell (success (.object [("key", .text key),
        ("value", optionalText (server.store.settings.find? key))]))
  | .putSetting key => server.withSetting key fun key =>
      server.withMembers request unforeseen (server.putSetting key)
  | .deleteSetting key => server.withSetting key fun key =>
      let (deleted, store) := server.store.deleteSetting key
      ({ reply := success (.object [("deleted", .bool deleted)]) }, { server with store })

def answer (server : Server) (request : Request) : Answer :=
  match route request.method request.path with
  | .action action => server.perform request action
  | .methods => server.tell (.page 200)
  | .redirect => server.tell (.page 308)
  | .wrongMethod => server.tell (.page 405)
  | .noHost => server.tell (.page 400)
  | .noFile | .nowhere => server.tell (.page 404)

/-- The answer to a request, and the server after it. A request for the headers alone is carried out
all the same. -/
def respond (server : Server) (request : Request) : Answer :=
  let (response, server) := server.answer request
  if request.method = "HEAD" then
    ({ response with reply := response.reply.withoutContent }, server)
  else (response, server)

def fire (server : Server) (i : Nat) : Except Error Unit × List (String × Value) × Server :=
  let outcome := server.canvas.fire i
  (outcome.result, outcome.notices.filterMap (emit? outcome.canvas),
    { server with canvas := outcome.canvas })

end Server

end BlockSketch.Api
