import BlockSketch.Block.Registry
import BlockSketch.Component.Selection
import BlockSketch.Value.Order
import BlockSketch.Workspace.Traversal

/-!
# The gate

The types of blocks that may be placed: those that are always available, the entry point, and those
that a selected kind of component unlocks. Sets of types are lists without repetitions, the entry
point first and the others as they were registered.
-/

namespace BlockSketch.Gate

def typesWith (registry : Registry) (p : BlockType → Bool) : List Value :=
  Value.distinct (.text entryType :: (registry.all.filter p).map BlockType.typeId)

def baseTypes (registry : Registry) : List Value :=
  typesWith registry BlockType.isBase

def unlocks (kinds : List ComponentKind) (t : BlockType) : Bool :=
  kinds.any fun kind => Value.isIn kind.name t.capabilities

def allowedTypes (registry : Registry) (kinds : List ComponentKind) : List Value :=
  typesWith registry fun t => t.isBase || unlocks kinds t

/-- Types in the order in which they are told. Only types of one kind have an order. -/
def inOrder (types : List Value) : Except Error (List Value) :=
  (Value.sorted? types).elim (.error .illTyped) .ok

/-- Whether the types that some kinds allow differ from those computed before, if there are any. -/
def changes (registry : Registry) (kinds : List ComponentKind) (current : Option (List Value)) :
    Bool :=
  !current.any (Value.sameSet (allowedTypes registry kinds))

def isAllowed (registry : Registry) (kinds : List ComponentKind) (type : Value) : Bool :=
  type.isIn (allowedTypes registry kinds)

def describe (registry : Registry) (type : Value) : Except Error BlockType :=
  if type.isContainer then .error .illTyped
  else match registry.find? type with
    | some t => .ok t
    | none => .error (.unknownType type)

/-- The required capabilities are told, which only texts can be. -/
def violation (t : BlockType) (type : Value) : Except Error Violation :=
  match t.capabilities.mapM Value.text? with
  | some names => .ok { type, required := Text.sortedSet names }
  | none => .error .illTyped

def placeableType (registry : Registry) (kinds : List ComponentKind) (type : Value) :
    Except Error BlockType := do
  let t ← describe registry type
  if isAllowed registry kinds type then .ok t
  else
    let v ← violation t type
    .error (.locked v)

def violationBy (registry : Registry) (allowed : List Value) (b : Block) :
    Except Error (Option Violation) :=
  if b.type.isContainer then .error .illTyped
  else if b.type.isIn allowed then .ok none
  else match registry.find? b.type with
    | none => .ok none
    | some t => do
      let v ← violation t b.type
      .ok (some { v with block := some b.id })

def violations (registry : Registry) (kinds : List ComponentKind) (w : Workspace) :
    Except Error (List Violation) := do
  let allowed := allowedTypes registry kinds
  let found ← w.allBlocks.mapM fun r => violationBy registry allowed (w.block r)
  .ok (found.filterMap id)

end BlockSketch.Gate
