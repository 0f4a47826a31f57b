import BlockSketch.Error
import BlockSketch.Supply

/-!
# Selections

The components chosen for a board, in order. A selection holds at most one component of an exclusive
kind and at most one with a given id.
-/

namespace BlockSketch

structure Component where
  id : Value
  kind : ComponentKind
  name : Value := .text ""

def Component.toValue (c : Component) : Value :=
  .object [("id", c.id), ("kind", .text c.kind.name), ("name", c.name)]

abbrev Selection := List Component

namespace Selection

def kinds (selection : Selection) : List ComponentKind :=
  (selection.map Component.kind).eraseDups

def find? (selection : Selection) (id : Value) : Option Component :=
  List.find? (·.id.same id) selection

def ofKind (selection : Selection) (kind : ComponentKind) : List Component :=
  List.filter (·.kind = kind) selection

def toValue (selection : Selection) : Value :=
  .list (List.map Component.toValue selection)

def chooseId (kind : ComponentKind) (id : Value) (supply : Supply) : Value × Supply :=
  if id.isEmpty then
    let (fresh, supply) := supply.drawComponentId kind
    (.text fresh, supply)
  else (id, supply)

/-- Adds a component. One that is there under the id already is left alone and returned; an empty
name gives way to the name of the kind. -/
def admitComponent (selection : Selection) (request : Component) (supply : Supply) :
    Except Error (Component × Selection) × Supply :=
  match selection.find? request.id with
  | some existing => (.ok (existing, selection), supply)
  | none =>
    match if request.kind.isExclusive then (selection.ofKind request.kind).head? else none with
    | some existing => (.error (.exclusive request.kind existing.id), supply)
    | none =>
      let (id, supply) := chooseId request.kind request.id supply
      let name := if request.name.isEmpty then .text request.kind.title else request.name
      let component : Component := ⟨id, request.kind, name⟩
      (.ok (component, selection ++ [component]), supply)

def build (selection : Selection) (supply : Supply) :
    List Component → Except Error Selection × Supply
  | [] => (.ok selection, supply)
  | request :: rest =>
    match selection.admitComponent request supply with
    | (.error e, supply) => (.error e, supply)
    | (.ok (_, selection), supply) => build selection supply rest

def remove (selection : Selection) (id : Value) : Selection :=
  List.eraseP (·.id.same id) selection

end Selection

end BlockSketch
