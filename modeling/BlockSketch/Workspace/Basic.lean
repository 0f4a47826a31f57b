import BlockSketch.Block.Type
import BlockSketch.Value.Table

/-!
# Workspaces

A workspace holds placed blocks by reference, the references of its roots, and the names of its
variables. Types, ids and names are values, as nothing is checked when a workspace is put together.
Links between blocks are references, so that a block may be shared or lie on a cycle; a block that
no root leads to is not part of the program.
-/

namespace BlockSketch

abbrev Ref := Nat

structure Block where
  type : Value
  id : Value
  fields : Assoc Value := []
  inputs : Table (Option Ref) := []
  next : Option Ref := none
  /-- Whether the block can be deleted; anything empty says no. -/
  deletable : Value := .bool true
  deriving Repr, Inhabited

def Block.isDeletable (b : Block) : Bool :=
  !b.deletable.isEmpty

def Block.input? (b : Block) (socket : Value) : Option Ref :=
  (b.inputs.find? socket).join

structure Workspace where
  blocks : Array Block := #[]
  roots : List Ref := []
  variableNames : List Value := []
  deriving Repr, Inhabited

namespace Workspace

/-- The block of a reference; one that leads nowhere stands for an empty block. -/
def block (w : Workspace) (r : Ref) : Block :=
  w.blocks[r]?.getD default

def modify (w : Workspace) (r : Ref) (f : Block → Block) : Workspace :=
  { w with blocks := w.blocks.modify r f }

def alloc (w : Workspace) (b : Block) : Ref × Workspace :=
  (w.blocks.size, { w with blocks := w.blocks.push b })

def setNext (w : Workspace) (r : Ref) (next : Option Ref) : Workspace :=
  w.modify r fun b => { b with next }

def setInput (w : Workspace) (r : Ref) (socket : Value) (child : Option Ref) : Workspace :=
  w.modify r fun b => { b with inputs := b.inputs.put socket child }

def isEntry (w : Workspace) (r : Ref) : Bool :=
  (w.block r).type.same entryType

def entry? (w : Workspace) : Option Ref :=
  w.roots.find? w.isEntry

/-- Adds a root: an entry point at the front, any other block at the end. -/
def addRoot (w : Workspace) (r : Ref) : Workspace :=
  if w.isEntry r then { w with roots := r :: w.roots }
  else { w with roots := w.roots ++ [r] }

def isRoot (w : Workspace) (r : Ref) : Bool :=
  w.roots.contains r

def removeRoot (w : Workspace) (r : Ref) : Workspace :=
  { w with roots := w.roots.erase r }

def declares (w : Workspace) (name : Value) : Bool :=
  name.isIn w.variableNames

def addVariable (w : Workspace) (name : Value) : Bool × Workspace :=
  if w.declares name then (false, w)
  else (true, { w with variableNames := w.variableNames ++ [name] })

def removeVariable (w : Workspace) (name : Value) : Bool × Workspace :=
  if w.declares name then
    (true, { w with variableNames := w.variableNames.eraseP (·.coincides name) })
  else (false, w)

end Workspace

end BlockSketch
