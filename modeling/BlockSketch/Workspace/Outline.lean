import BlockSketch.Workspace.Basic

/-!
# Outlines

A nested description of blocks. A mention refers to the first block of the outline with an id, which
makes it possible to describe shared blocks and cycles.
-/

namespace BlockSketch

inductive Outline where
  | empty
  | mention (id : Value)
  | block (type id : Value) (fields : Assoc Value) (inputs : List (String × Outline))
      (next : Outline) (deletable : Value)
  deriving Inhabited

namespace Outline

inductive Target where
  | at (r : Ref)
  | named (id : Value)

structure Draft where
  type : Value
  id : Value
  fields : Assoc Value
  inputs : Assoc (Option Target)
  next : Option Target
  deletable : Value

mutual

/-- The drafts of an outline in reading order, numbered from `first`, and the link to it. -/
def drafts (first : Ref) : Outline → Option Target × List Draft
  | .empty => (none, [])
  | .mention id => (some (.named id), [])
  | .block type id fields inputs next deletable =>
    let (inputLinks, inputDrafts) := inputDrafts (first + 1) inputs
    let (nextLink, nextDrafts) := drafts (first + 1 + inputDrafts.length) next
    (some (.at first),
      ⟨type, id, fields, inputLinks, nextLink, deletable⟩ :: inputDrafts ++ nextDrafts)

def inputDrafts (first : Ref) : List (String × Outline) → Assoc (Option Target) × List Draft
  | [] => ([], [])
  | (name, outline) :: rest =>
    let (link, here) := drafts first outline
    let (links, others) := inputDrafts (first + here.length) rest
    ((name, link) :: links, here ++ others)

end

def rootDrafts (first : Ref) : List Outline → List (Option Target) × List Draft
  | [] => ([], [])
  | outline :: rest =>
    let (link, here) := drafts first outline
    let (links, others) := rootDrafts (first + here.length) rest
    (link :: links, here ++ others)

def Target.resolve (drafts : List Draft) : Target → Option Ref
  | .at r => some r
  | .named id => drafts.findIdx? (·.id.same id)

def Draft.toBlock (drafts : List Draft) (d : Draft) : Block where
  type := d.type
  id := d.id
  fields := d.fields
  inputs := d.inputs.map fun (name, link) => (.text name, link.bind (Target.resolve drafts))
  next := d.next.bind (Target.resolve drafts)
  deletable := d.deletable

def workspace (roots : List Outline) (variableNames : List Value) : Workspace :=
  let (links, drafts) := rootDrafts 0 roots
  { blocks := (drafts.map (Draft.toBlock drafts)).toArray
    roots := links.filterMap (·.bind (Target.resolve drafts))
    variableNames := variableNames }

end Outline

end BlockSketch
