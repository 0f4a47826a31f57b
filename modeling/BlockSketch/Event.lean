import BlockSketch.Error

/-!
# Events

What is told about a change of the workspace.
-/

namespace BlockSketch

inductive EventKind where
  | blockCreate
  | blockMove
  | blockDelete
  | blockChange
  | variableCreate
  | variableDelete
  | workspaceClear
  | workspaceLoad
  deriving DecidableEq, Repr

namespace EventKind

def all : List EventKind :=
  [.blockCreate, .blockMove, .blockDelete, .blockChange, .variableCreate, .variableDelete,
    .workspaceClear, .workspaceLoad]

def name : EventKind → String
  | .blockCreate => "block_create"
  | .blockMove => "block_move"
  | .blockDelete => "block_delete"
  | .blockChange => "block_change"
  | .variableCreate => "var_create"
  | .variableDelete => "var_delete"
  | .workspaceClear => "workspace_clear"
  | .workspaceLoad => "workspace_load"

def read (v : Value) : Except Error EventKind :=
  Vocabulary.eventKind.read all name v

end EventKind

structure Event where
  kind : EventKind
  block : Value := .null
  detail : Value := .null

def Event.toValue (event : Event) : Value :=
  .object [("kind", .text event.kind.name), ("block_id", event.block), ("detail", event.detail)]

end BlockSketch
