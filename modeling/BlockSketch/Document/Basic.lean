import BlockSketch.Json.Writer
import BlockSketch.Workspace.Traversal

/-!
# Documents

A saved workspace: a flat list of block records in tree order that refer to one another by id, with
the ids of the roots and the names of the variables. As a value or as text it is an object, whose
members have texts for names; the sockets of a record can have other names and are written out.
-/

namespace BlockSketch

structure BlockRecord where
  id : Value
  type : Value
  fields : Assoc Value
  inputs : Table Value
  next : Value
  deletable : Value

structure Document where
  variableNames : List Value
  topBlocks : List Value
  blocks : List BlockRecord

namespace Document

def formatName : String := "sketch-editor-workspace"

def currentVersion : Int := 1

def linkId (w : Workspace) (link : Option Ref) : Value :=
  .ofOption (link.map fun r => (w.block r).id)

def recordOf (w : Workspace) (r : Ref) : BlockRecord :=
  let b := w.block r
  { id := b.id
    type := b.type
    fields := b.fields
    inputs := b.inputs.map fun (name, child) => (name, linkId w child)
    next := linkId w b.next
    deletable := b.deletable }

def ofWorkspace (w : Workspace) : Document where
  variableNames := w.variableNames
  topBlocks := w.roots.map fun r => (w.block r).id
  blocks := w.allBlocks.map (recordOf w)

end Document

/-- A record as an object; `name` writes out the name of a socket. -/
def BlockRecord.toValue (name : Value → String) (record : BlockRecord) : Value :=
  .object [("id", record.id), ("type", record.type), ("fields", .object record.fields),
    ("inputs", .object (record.inputs.map fun (socket, child) => (name socket, child))),
    ("next", record.next), ("deletable", record.deletable)]

def Document.toValue (name : Value → String) (document : Document) : Value :=
  .object [("format", .text formatName), ("version", .int currentVersion),
    ("variables", .list document.variableNames), ("top_blocks", .list document.topBlocks),
    ("blocks", .list (document.blocks.map (BlockRecord.toValue name)))]

def Workspace.serialize (w : Workspace) : Value :=
  (Document.ofWorkspace w).toValue Value.plain

end BlockSketch
