import BlockSketch.Block.Field
import BlockSketch.Text.Basic

/-!
# Kinds of blocks

A kind of block has a shape, sockets for other blocks, fields for values, and the capabilities that
unlock it.
-/

namespace BlockSketch

inductive Shape where
  | statement
  | expression
  deriving DecidableEq, Repr

def Shape.name : Shape → String
  | .statement => "statement"
  | .expression => "expression"

def Shape.all : List Shape :=
  [.statement, .expression]

structure Shadow where
  type : Value
  fields : Value := .object []
  deriving Repr

structure ValueSocket where
  name : Value
  /-- The accepted outputs; an empty list accepts all. -/
  check : List Value := []
  literal : Value := "0"
  shadow : Option Shadow := none
  deriving Repr

/-- Whether an expression with this output fits; one without an output fits everywhere. -/
def ValueSocket.accepts (socket : ValueSocket) (output : Value) : Bool :=
  socket.check.isEmpty || output.isNull || output.isIn socket.check

inductive Socket where
  | value (socket : ValueSocket)
  | statement (name : Value)
  deriving Repr

def Socket.name : Socket → Value
  | .value socket => socket.name
  | .statement name => name

def Socket.isStatement : Socket → Bool
  | .value _ => false
  | .statement _ => true

def baseCapability : String := "base"

def entryType : String := "controls_setup"

structure BlockType where
  typeId : Value
  shape : Shape
  sockets : List Socket := []
  fields : Assoc Field := []
  capabilities : List Value := [.text baseCapability]
  output : Value := .null
  deletable : Value := .bool true
  chainable : Value := .bool true
  category : Value := ""
  colour : Value := ""
  tooltip : Value := ""
  deriving Repr

inductive FieldsError where
  | unknown (type : Value) (names : List String)
  | invalid (type : Value) (name : String) (cause : FieldError)
  | missing (type : Value) (name : String)
  | illTyped
  | unpaired (size : Nat)

def FieldsError.message : FieldsError → String
  | .unknown type names => "Unknown field(s) for '" ++ type.plain ++ "': " ++ ", ".intercalate names
  | .invalid type name cause =>
    "Field '" ++ name ++ "' of '" ++ type.plain ++ "': " ++ cause.message
  | .missing type name => "Missing field '" ++ name ++ "' for '" ++ type.plain ++ "'"
  | .illTyped => ""
  | .unpaired size => Value.noPair size

def FieldsError.ofField (type : Value) (name : String) : FieldError → FieldsError
  | .illDeclared _ => .illTyped
  | .unpaired size => .unpaired size
  | cause => .invalid type name cause

namespace BlockType

def isStatement (t : BlockType) : Bool :=
  t.shape == .statement

def isBase (t : BlockType) : Bool :=
  Value.isIn baseCapability t.capabilities

def isDeletable (t : BlockType) : Bool :=
  !t.deletable.isEmpty

def isLink (t : BlockType) : Bool :=
  t.isStatement && !t.chainable.isEmpty

def socket? (t : BlockType) (name : Value) : Option Socket :=
  t.sockets.find? (·.name.same name)

def valueSockets (t : BlockType) : List ValueSocket :=
  t.sockets.filterMap fun
    | .value socket => some socket
    | .statement _ => none

def statementSockets (t : BlockType) : List Value :=
  t.sockets.filterMap fun
    | .value _ => none
    | .statement name => some name

def initialFields (t : BlockType) : Assoc Value :=
  t.fields.map fun (name, field) => (name, field.initial)

def variableFields (t : BlockType) : List String :=
  Assoc.names (t.fields.filter (·.2.kind == .variable))

def unknownNames (t : BlockType) (names : List String) : List String :=
  Text.sortedSet (names.filter (!t.fields.has ·))

/-- The values of the given fields, in the order of the fields. With `fill` a field without a value
gets its initial one, which is not validated. -/
def completeFields (typeId : Value) (fill : Bool) (values : Assoc Value) :
    Assoc Field → Except FieldsError (Assoc Value)
  | [] => .ok []
  | (name, field) :: rest => do
    let v ← match values.find? name with
      | some v => (field.validate v).mapError (.ofField typeId name)
      | none => if fill then .ok field.initial else .error (.missing typeId name)
    let vs ← completeFields typeId fill values rest
    .ok ((name, v) :: vs)

def validateFields (t : BlockType) (values : Assoc Value) (fill : Bool) :
    Except FieldsError (Assoc Value) :=
  match t.unknownNames values.names with
  | [] => completeFields t.typeId fill values t.fields
  | names => .error (.unknown t.typeId names)

/-- Names without values. The fields are gone through in order, and the first one that is mentioned
cannot be read. -/
def refuseMentioned (typeId : Value) (fill : Bool) (mentions : String → Bool) :
    Assoc Field → Except FieldsError (Assoc Value)
  | [] => .ok []
  | (name, field) :: rest =>
    if mentions name then .error .illTyped
    else if fill then do
      let vs ← refuseMentioned typeId fill mentions rest
      .ok ((name, field.initial) :: vs)
    else .error (.missing typeId name)

def validateNames (t : BlockType) (names : List String) (mentions : String → Bool) (fill : Bool) :
    Except FieldsError (Assoc Value) :=
  match t.unknownNames names with
  | [] => refuseMentioned t.typeId fill mentions t.fields
  | unknown => .error (.unknown t.typeId unknown)

/-- Field values from outside. A list counts as the names in it. A text counts as the names of its
characters, and mentions every name that occurs in it. -/
def validateInput (t : BlockType) (values : Value) (fill : Bool) :
    Except FieldsError (Assoc Value) :=
  match values with
  | .object members => t.validateFields members fill
  | .text s =>
    t.validateNames (s.toList.map String.singleton) (Text.occursIn s) fill
  | .list items =>
    match items.mapM Value.text? with
    | some names => t.validateNames names names.contains fill
    | none => .error .illTyped
  | _ => .error .illTyped

end BlockType

end BlockSketch
