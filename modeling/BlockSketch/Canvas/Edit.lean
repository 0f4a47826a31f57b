import BlockSketch.Component.Gate
import BlockSketch.Sketch.Identifier

/-!
# Edits of a workspace

Connecting, detaching and deleting blocks, and changing fields and variables. An edit checks
everything before it changes anything, with two exceptions: the deletion of a variable goes through
its users one after the other and can stop on the way, and a socket that cannot be a key is noticed
only when the block for it has been cut out.
-/

namespace BlockSketch.Workspace

def locate (w : Workspace) (id : Value) : Except Error Ref :=
  match w.findBlock? id with
  | some r => .ok r
  | none => .error (.rejected (.noBlock id))

def typeOf (registry : Registry) (w : Workspace) (r : Ref) : Except Error BlockType :=
  Gate.describe registry (w.block r).type

def cutOut (w : Workspace) (r : Ref) : Workspace :=
  if w.isRoot r then w.removeRoot r
  else match w.findParent? r with
    | some (parent, none) => w.setNext parent none
    | some (parent, some socket) => w.setInput parent socket none
    | none => w

inductive Target where
  | next
  | body (socket : Value)
  | operand (socket : Value)
  deriving Repr

def checkNext (block parent : BlockType) : Except Rejection Target :=
  if !parent.isLink then .error (.noNext parent.typeId)
  else if !block.isLink then .error (.cannotFollow block.typeId)
  else .ok .next

def checkSocket (block : BlockType) (name : Value) : Socket → Except Rejection Target
  | .statement _ => if block.isLink then .ok (.body name) else .error (.statementsOnly name)
  | .value socket =>
    if block.isStatement then .error (.expressionsOnly name)
    else if socket.accepts block.output then .ok (.operand name)
    else .error (.wrongOutput name block.output)

def findTarget (block parent : BlockType) (socket : Value) : Except Rejection Target :=
  if socket.isNull then checkNext block parent
  else match parent.socket? socket with
    | some s => checkSocket block socket s
    | none => .error (.noSocket parent.typeId socket)

/-- Puts a block that was cut out into its target. A chain that stood there follows the moved chain,
and an expression that stood there becomes a root. -/
def attach (w : Workspace) (r parent : Ref) : Target → Workspace
  | .next =>
    let displaced := (w.block parent).next
    let w := w.setNext parent (some r)
    w.setNext (w.chainEnd r) displaced
  | .body socket =>
    let displaced := (w.block parent).input? socket
    let w := w.setInput parent socket (some r)
    w.setNext (w.chainEnd r) displaced
  | .operand socket =>
    let displaced := (w.block parent).input? socket
    let w := w.setInput parent socket (some r)
    displaced.elim w w.addRoot

structure Move where
  block : Ref
  parent : Ref
  target : Target

def planMove (registry : Registry) (w : Workspace) (block parent socket : Value) :
    Except Error Move := do
  let r ← w.locate block
  let p ← w.locate parent
  if w.reaches r p then .error (.rejected (.ownSubtree block parent))
  else
    let blockType ← w.typeOf registry r
    let parentType ← w.typeOf registry p
    let target ← (findTarget blockType parentType socket).mapError .rejected
    .ok ⟨r, p, target⟩

def connect (registry : Registry) (w : Workspace) (block parent socket : Value) :
    Except Error Unit × Workspace :=
  match w.planMove registry block parent socket with
  | .error e => (.error e, w)
  | .ok ⟨r, p, target⟩ =>
    if socket.isContainer then (.error .illTyped, w.cutOut r)
    else (.ok (), (w.cutOut r).attach r p target)

def detach (w : Workspace) (block : Value) : Except Error (Bool × Workspace) := do
  let r ← w.locate block
  .ok (if w.isRoot r then (false, w) else (true, (w.cutOut r).addRoot r))

def replaceAt (w : Workspace) (r : Ref) (successor : Option Ref) : Workspace :=
  if w.isRoot r then
    match successor with
    | some s => { w with roots := w.roots.replace r s }
    | none => w.removeRoot r
  else match w.findParent? r with
    | some (parent, none) => w.setNext parent successor
    | some (parent, some socket) => w.setInput parent socket successor
    | none => w

/-- Deletes a block with all that is nested in it; its successors close the gap. The answer lists
the ids of what was deleted. -/
def deleteRef (w : Workspace) (r : Ref) : Except Error (List Value × Workspace) :=
  let b := w.block r
  if b.isDeletable then
    let w := (w.setNext r none).replaceAt r b.next
    .ok ((w.subtree r).map fun s => (w.block s).id, w)
  else .error (.protectedBlock b.id)

def delete (w : Workspace) (block : Value) : Except Error (List Value × Workspace) := do
  let r ← w.locate block
  w.deleteRef r

def fieldOf (t : BlockType) (type name : Value) : Except Error (String × Field) :=
  if name.isContainer then .error .illTyped
  else match name.text?.bind fun s => (t.fields.find? s).map (s, ·) with
    | some found => .ok found
    | none => .error (.invalid (.noField type name))

def checkValue (w : Workspace) (field : Field) (v : Value) : Except Error Value := do
  let v ← (field.validate v).mapError Error.ofField
  if field.kind = .variable && !w.declares v then .error (.invalid (.undeclared v))
  else .ok v

def setField (registry : Registry) (w : Workspace) (block name value : Value) :
    Except Error (Value × Workspace) := do
  let r ← w.locate block
  let t ← w.typeOf registry r
  let (name, field) ← fieldOf t (w.block r).type name
  let v ← w.checkValue field value
  .ok (v, w.modify r fun b => { b with fields := b.fields.put name v })

def readVariable (v : Value) : Except Error String :=
  match v.text?.filter Sketch.isVariableName with
  | some name => .ok name
  | none => .error (.invalid (.variableName v))

def createVariable (w : Workspace) (v : Value) : Except Error (Bool × Workspace) := do
  let name ← readVariable v
  .ok (w.addVariable (.text name))

/-- Whether a field of a block holds a variable. A field without a value holds null. -/
def usesVariable (registry : Registry) (name : Value) (b : Block) : Bool :=
  match registry.find? b.type with
  | none => false
  | some t => t.variableFields.any fun field => ((b.fields.find? field).getD .null).same name

/-- The blocks that use a variable. The type of every block is looked up, so each must be a key. -/
def usersOf (registry : Registry) (w : Workspace) (name : Value) : Except Error (List Ref) :=
  let refs := w.allBlocks
  if refs.any fun r => (w.block r).type.isContainer then .error .illTyped
  else .ok (refs.filter fun r => usesVariable registry name (w.block r))

/-- Deletes blocks one after the other, except those that an earlier deletion took along. A
protected block stops it; what was deleted before stays deleted. -/
def deleteEach (w : Workspace) : List Ref → Except Error Unit × Workspace
  | [] => (.ok (), w)
  | r :: rest =>
    if w.findBlock? (w.block r).id = some r then
      match w.deleteRef r with
      | .ok (_, w) => w.deleteEach rest
      | .error e => (.error e, w)
    else w.deleteEach rest

def deleteVariable (registry : Registry) (w : Workspace) (name : Value) :
    Except Error Bool × Workspace :=
  if !w.declares name then (.ok false, w)
  else match w.usersOf registry name with
    | .error e => (.error e, w)
    | .ok users =>
      match w.deleteEach users with
      | (.ok _, w) => (.ok true, (w.removeVariable name).2)
      | (.error e, w) => (.error e, w)

def fresh (id : String) : Workspace where
  blocks := #[{ type := .text entryType, id := .text id
                inputs := [(.text "SETUP", none), (.text "LOOP", none)]
                deletable := .bool false }]
  roots := [0]

end BlockSketch.Workspace
