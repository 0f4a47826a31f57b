import BlockSketch.Value.Display
import BlockSketch.Workspace.Traversal

/-!
# Checking a workspace

A workspace is a forest if no block is met twice. Repeated ids and repeated variables are faults
too.
-/

namespace BlockSketch

inductive WorkspaceFault where
  | manyParents (id : Value)
  | duplicateId (id : Value)
  | duplicateVariables

def WorkspaceFault.message : WorkspaceFault → String
  | .manyParents id => "Block '" ++ id.plain ++ "' has more than one parent"
  | .duplicateId id => "Duplicate block id '" ++ id.plain ++ "'"
  | .duplicateVariables => "Duplicate variable names found"

namespace Workspace

def faultsAlong (w : Workspace) (seen : List Ref) (ids : List Value) :
    List Ref → List WorkspaceFault
  | [] => []
  | r :: rest =>
    let id := (w.block r).id
    if seen.contains r then .manyParents id :: w.faultsAlong seen ids rest
    else if id.isIn ids then .duplicateId id :: w.faultsAlong (r :: seen) ids rest
    else w.faultsAlong (r :: seen) (id :: ids) rest

def variableFaults (w : Workspace) : List WorkspaceFault :=
  if Value.areDistinct w.variableNames then [] else [.duplicateVariables]

def faults (w : Workspace) : List WorkspaceFault :=
  w.faultsAlong [] [] w.allBlocks ++ w.variableFaults

/-- Ids and variables that are lists or objects cannot be held against those met before. -/
def canCheck (w : Workspace) : Bool :=
  (w.allBlocks.map fun r => (w.block r).id).all (!·.isContainer) &&
    w.variableNames.all (!·.isContainer)

end Workspace

end BlockSketch
