import BlockSketch.Block.Type
import BlockSketch.Value.Table

/-!
# Registries

The known types of blocks by their ids, in the order in which they were first registered.
-/

namespace BlockSketch

structure Registry where
  types : Table BlockType := []

namespace Registry

def find? (registry : Registry) (type : Value) : Option BlockType :=
  registry.types.find? type

def has (registry : Registry) (type : Value) : Bool :=
  registry.types.has type

def size (registry : Registry) : Nat :=
  registry.types.length

def typeIds (registry : Registry) : List Value :=
  registry.types.keys

def all (registry : Registry) : List BlockType :=
  registry.types.map Prod.snd

/-- A known id is kept as it is unless `replace` is given. The answer tells whether the registry
changed; there is none for an id that cannot be a key. -/
def register (registry : Registry) (t : BlockType) (replace : Bool) : Option Bool × Registry :=
  if t.typeId.isContainer then (none, registry)
  else if registry.has t.typeId && !replace then (some false, registry)
  else (some true, ⟨registry.types.put t.typeId t⟩)

/-- Registers types one after the other and counts the changes, up to an id that cannot be a
key. -/
def registerAll (registry : Registry) (replace : Bool) :
    List BlockType → Option Nat × Registry
  | [] => (some 0, registry)
  | t :: rest =>
    match registry.register t replace with
    | (none, registry) => (none, registry)
    | (some changed, registry) =>
      let (count, registry) := registerAll registry replace rest
      (count.map fun n => if changed then n + 1 else n, registry)

def unregister (registry : Registry) (type : Value) : Bool × Registry :=
  (registry.has type, ⟨registry.types.remove type⟩)

def ofTypes (types : List BlockType) : Registry :=
  (registerAll {} false types).2

end Registry

end BlockSketch
