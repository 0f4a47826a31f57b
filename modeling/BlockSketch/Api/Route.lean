import BlockSketch.Api.Path

/-!
# Routes

The resources of the API by their paths, and what each method asks of them.
-/

namespace BlockSketch.Api

inductive Action where
  | listCatalog
  | listComponents
  | addComponent
  | removeComponent (id : String)
  | showPalette
  | listAllowed
  | showWorkspace
  | createBlock
  | connect
  | detach
  | deleteBlock (id : String)
  | setField (id : String)
  | createVariable
  | deleteVariable (name : String)
  | clear
  | load
  | showCode
  | download
  | listProjects
  | saveProject
  | showProject (id : String)
  | deleteProject (id : String)
  | listSettings
  | showSetting (key : String)
  | putSetting (key : String)
  | deleteSetting (key : String)

def actions : List String → List (String × Action)
  | ["api", "components"] => [("GET", .listComponents), ("POST", .addComponent)]
  | ["api", "components", id] =>
    if id.isEmpty then []
    else (if id = "catalog" then [("GET", .listCatalog)] else []) ++
      [("DELETE", .removeComponent id)]
  | ["api", "palette"] => [("GET", .showPalette)]
  | ["api", "blocks", "allowed"] => [("GET", .listAllowed)]
  | ["api", "workspace"] => [("GET", .showWorkspace)]
  | ["api", "workspace", "blocks"] => [("POST", .createBlock)]
  | ["api", "workspace", "connect"] => [("POST", .connect)]
  | ["api", "workspace", "detach"] => [("POST", .detach)]
  | ["api", "workspace", "blocks", id] => if id.isEmpty then [] else [("DELETE", .deleteBlock id)]
  | ["api", "workspace", "blocks", id, "fields"] =>
    if id.isEmpty then [] else [("PUT", .setField id)]
  | ["api", "workspace", "variables"] => [("POST", .createVariable)]
  | ["api", "workspace", "variables", name] =>
    if name.isEmpty then [] else [("DELETE", .deleteVariable name)]
  | ["api", "workspace", "clear"] => [("POST", .clear)]
  | ["api", "workspace", "load"] => [("POST", .load)]
  | ["api", "code"] => [("GET", .showCode)]
  | ["api", "code", "download"] => [("GET", .download)]
  | ["api", "projects"] => [("GET", .listProjects), ("POST", .saveProject)]
  | ["api", "projects", id] =>
    if id.isEmpty then [] else [("GET", .showProject id), ("DELETE", .deleteProject id)]
  | ["api", "settings"] => [("GET", .listSettings)]
  | ["api", "settings", key] =>
    if key.isEmpty then []
    else [("GET", .showSetting key), ("PUT", .putSetting key), ("DELETE", .deleteSetting key)]
  | _ => []

def isFilePath : List String → Bool
  | "static" :: name :: _ => !name.isEmpty
  | _ => false

inductive Route where
  | action (action : Action)
  | methods
  | noFile
  /-- The path is right but for repeated slashes. -/
  | redirect
  | wrongMethod
  | nowhere
  | noHost

/-- What a method asks at a path. A request for the headers alone asks the same as one for the
content. -/
def findRoute (method : String) (path : List String) : Route :=
  let found := actions path
  let method := if method = "HEAD" then "GET" else method
  if found.isEmpty && !isFilePath path then .nowhere
  else if method = "OPTIONS" then .methods
  else if isFilePath path && method = "GET" then .noFile
  else match found.lookup method with
    | some action => .action action
    | none => .wrongMethod

def pathRoute (method : String) (path : List Char) : Route :=
  let exactly := findRoute method (segments path)
  match exactly, findRoute method (segments (mergeSlashes false path)) with
  | .nowhere, .nowhere => .nowhere
  | .nowhere, .wrongMethod | .wrongMethod, _ => .wrongMethod
  | .nowhere, _ => .redirect
  | _, _ => exactly

/-- Where a request leads; methods are known in small letters too. An address that cannot be read
leads nowhere. -/
def route (method address : String) : Route :=
  match Target.read address with
  | .error _ => .nowhere
  | .ok target =>
    if isHostName (partitionAt ':' target.host).1 then pathRoute method.toUpper target.path
    else .noHost

end BlockSketch.Api
