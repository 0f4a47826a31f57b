import BlockSketch.Canvas.Edit

/-!
# Placing blocks

A new block becomes a root. Its value sockets can be filled with the expressions that their type
provides, and the variables that its fields name are declared.
-/

namespace BlockSketch

structure BlockRequest where
  type : Value
  fields : Value := .null
  id : Value := .null
  shadows : Bool := true

structure Placed where
  id : Value
  type : Value
  variableNames : List String
  workspace : Workspace

namespace Workspace

def newVariables (w : Workspace) (values : Assoc Value) (found : List String) :
    List String → Except Error (List String)
  | [] => .ok found
  | field :: rest => do
    let name ← readVariable ((values.find? field).getD .null)
    newVariables w values
      (if w.declares (.text name) || found.contains name then found else found ++ [name]) rest

/-- An unconnected block of a type with its sockets empty. A fresh id is drawn even if one is given
or a socket cannot be a key. -/
def buildBlock (t : BlockType) (fields : Assoc Value) (id : Value) (supply : Supply) :
    Except Error Block × Supply :=
  let (fresh, supply) := supply.drawId
  (if t.sockets.any (·.name.isContainer) then .error .illTyped
    else .ok
      { type := t.typeId
        id := if id.isNull then .text fresh else id
        fields
        inputs := Table.ofList (t.sockets.map fun socket => (socket.name, none))
        deletable := t.deletable }, supply)

def readNamed (v : Value) : Except Error (Assoc Value) := do
  let entries ← (Table.ofValue v).mapError Error.ofEntries
  entries.mapM fun
    | (.text name, entry) => .ok (name, entry)
    | _ => .error .illTyped

def planShadow (registry : Registry) (socket : ValueSocket) :
    Except Error (Option (BlockType × Assoc Value)) :=
  match socket.shadow with
  | none => .ok none
  | some shadow =>
    if shadow.type.isContainer then .error .illTyped
    else match registry.find? shadow.type with
      | none => .ok none
      | some t => do
        let given ← readNamed shadow.fields
        let fields ← (t.validateFields given true).mapError Error.ofFields
        .ok (some (t, fields))

def buildShadows (registry : Registry) (supply : Supply) :
    List ValueSocket → Except Error (List (Value × Block)) × Supply
  | [] => (.ok [], supply)
  | socket :: rest =>
    match planShadow registry socket with
    | .error e => (.error e, supply)
    | .ok none => buildShadows registry supply rest
    | .ok (some (t, fields)) =>
      match buildBlock t fields .null supply with
      | (.error e, supply) => (.error e, supply)
      | (.ok b, supply) =>
        let (others, supply) := buildShadows registry supply rest
        (others.map ((socket.name, b) :: ·), supply)

def addTree (w : Workspace) (b : Block) (shadows : List (Value × Block)) : Workspace :=
  let (r, w) := w.alloc b
  let w := shadows.foldl (fun w (socket, shadow) =>
    let (s, w) := w.alloc shadow
    w.setInput r socket (some s)) w
  w.addRoot r

def declareAll (w : Workspace) (names : List String) : Workspace :=
  names.foldl (fun w name => (w.addVariable (.text name)).2) w

structure Plan where
  type : BlockType
  fields : Assoc Value
  variableNames : List String

def plan (registry : Registry) (kinds : List ComponentKind) (w : Workspace)
    (request : BlockRequest) : Except Error Plan := do
  let t ← Gate.placeableType registry kinds request.type
  if t.typeId.same entryType && w.entry?.isSome then .error (.invalid .secondEntry)
  else if !request.id.isNull && (w.findBlock? request.id).isSome then
    .error (.invalid (.idInUse request.id))
  else
    let given := if request.fields.isEmpty then .object [] else request.fields
    let fields ← (t.validateInput given true).mapError Error.ofFields
    let variableNames ← w.newVariables fields [] t.variableFields
    .ok ⟨t, fields, variableNames⟩

def place (registry : Registry) (kinds : List ComponentKind) (w : Workspace) (supply : Supply)
    (request : BlockRequest) : Except Error Placed × Supply :=
  match plan registry kinds w request with
  | .error e => (.error e, supply)
  | .ok ⟨t, fields, variableNames⟩ =>
    match buildBlock t fields request.id supply with
    | (.error e, supply) => (.error e, supply)
    | (.ok b, supply) =>
      match buildShadows registry supply (if request.shadows then t.valueSockets else []) with
      | (.error e, supply) => (.error e, supply)
      | (.ok shadows, supply) =>
        let w := (w.declareAll variableNames).addTree b shadows
        (.ok ⟨b.id, request.type, variableNames, w⟩, supply)

end Workspace

end BlockSketch
