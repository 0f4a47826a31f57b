import BlockSketch.Component.Kind
import BlockSketch.Document.Malformed
import BlockSketch.FileTree
import BlockSketch.Value.Table

/-!
# Errors

Why an operation of the editor is refused. Every error is a cause; its words and the details that
are told with it are functions of the cause.
-/

namespace BlockSketch

inductive Vocabulary where
  | componentKind
  | eventKind
  | shape
  | fieldKind
  | placement
  deriving DecidableEq, Repr

def Vocabulary.name : Vocabulary → String
  | .componentKind => "ComponentKind"
  | .eventKind => "MutationKind"
  | .shape => "BlockShape"
  | .fieldKind => "FieldKind"
  | .placement => "DefinitionSection"

inductive Invalid where
  | field (cause : FieldError)
  | fields (cause : FieldsError)
  | secondEntry
  | idInUse (id : Value)
  | variableName (v : Value)
  | undeclared (v : Value)
  | noField (type name : Value)

def Invalid.message : Invalid → String
  | .field cause => cause.message
  | .fields cause => cause.message
  | .secondEntry => "The workspace already has a setup/loop block"
  | .idInUse id => "Block id '" ++ id.plain ++ "' is already in use"
  | .variableName v => "'" ++ v.plain ++ "' is not a valid variable name"
  | .undeclared v => "Variable '" ++ v.plain ++ "' is not declared"
  | .noField type name => "Block type '" ++ type.plain ++ "' has no field '" ++ name.plain ++ "'"

inductive Rejection where
  | noBlock (id : Value)
  | ownSubtree (block parent : Value)
  | noNext (type : Value)
  | cannotFollow (type : Value)
  | noSocket (type socket : Value)
  | statementsOnly (socket : Value)
  | expressionsOnly (socket : Value)
  | wrongOutput (socket output : Value)

def Rejection.message : Rejection → String
  | .noBlock id => "No block with id '" ++ id.plain ++ "'"
  | .ownSubtree .. => "Cannot connect a block into its own subtree"
  | .noNext type => "'" ++ type.plain ++ "' has no next connection"
  | .cannotFollow type => "'" ++ type.plain ++ "' cannot follow another block"
  | .noSocket type socket => "'" ++ type.plain ++ "' has no socket '" ++ socket.plain ++ "'"
  | .statementsOnly socket => "Socket '" ++ socket.plain ++ "' only takes statement blocks"
  | .expressionsOnly socket => "Socket '" ++ socket.plain ++ "' only takes expression blocks"
  | .wrongOutput socket output =>
    "Socket '" ++ socket.plain ++ "' does not accept '" ++ output.plain ++ "' values"

def Rejection.details : Rejection → Assoc Value
  | .noBlock id => [("block_id", id)]
  | .ownSubtree block parent => [("block_id", block), ("parent_id", parent)]
  | _ => []

/-- A type of block that the selected components do not unlock, told of the type or of a placed
block. -/
structure Violation where
  type : Value
  required : List String
  block : Option Value := none

def Violation.message (v : Violation) : String :=
  "Block type '" ++ v.type.plain ++ "' requires one of the components: " ++
    (if v.required.isEmpty then "none" else ", ".intercalate v.required)

def Violation.details (v : Violation) : Assoc Value :=
  [("type_id", v.type), ("required", .texts v.required)] ++
    (v.block.map fun id => ("block_id", id)).toList

inductive Unfit where
  | lineBreak
  | zeroByte
  | equalsSign
  | hostBrackets
  | hostVersion
  | hostQuad
  | hostAddress (name : String)
  | hostCharacters (host : String)
  | hostLabel
  | portText (s : String)
  | portRange
  | pairSize (size : Nat)
  | entrySize (place size : Nat)
  deriving DecidableEq, Repr

def Unfit.message : Unfit → String
  | .lineBreak => "Header values must not contain newline characters."
  | .zeroByte => "embedded null byte"
  | .equalsSign => "illegal environment variable name"
  | .hostBrackets => "Invalid IPv6 URL"
  | .hostVersion => "IPvFuture address is invalid"
  | .hostQuad => "An IPv4 address cannot be in brackets"
  | .hostAddress name =>
    Text.quoted name ++ " does not appear to be an IPv4 or IPv6 address"
  | .hostCharacters host =>
    "netloc '" ++ host ++ "' contains invalid characters under NFKC normalization"
  | .hostLabel => "label empty or too long"
  | .portText s => "Port could not be cast to integer value as " ++ Text.quoted s
  | .portRange => "Port out of range 0-65535"
  | .pairSize size => Value.noPair size
  | .entrySize place size =>
    "dictionary update sequence element #" ++ toString place ++ " has length " ++ toString size ++
      "; 2 is required"

inductive Error where
  | unknownType (type : Value)
  | malformed (cause : Malformed)
  | locked (violation : Violation)
  | exclusive (kind : ComponentKind) (existing : Value)
  | protectedBlock (id : Value)
  | rejected (reason : Rejection)
  | invalid (cause : Invalid)
  | unknownWord (vocabulary : Vocabulary) (v : Value)
  | notEmitter (type : Value)
  | noKey (type : Value)
  | illTyped
  | outOfRange
  | noMemory
  | noTimer
  /-- Something was asked of a block, a scheduler or a selection that is not there. -/
  | absent
  | file (cause : FileError)
  | unfit (cause : Unfit)
  | noContent

namespace Error

def message : Error → String
  | .unknownType type => "Unknown block type: " ++ type.plain
  | .malformed cause => cause.message
  | .locked violation => violation.message
  | .exclusive kind existing =>
    "Only one '" ++ kind.name ++ "' component may be selected (already selected: " ++
      existing.plain ++ ")"
  | .protectedBlock id => "Block '" ++ id.plain ++ "' cannot be deleted"
  | .rejected reason => reason.message
  | .invalid cause => cause.message
  | .unknownWord vocabulary v => v.quoted ++ " is not a valid " ++ vocabulary.name
  | .notEmitter type =>
    "Handler for '" ++ type.plain ++ "' must be a StatementHandler or ExpressionHandler"
  | .noKey type => type.noKey
  | .unfit cause => cause.message
  | _ => ""

def details : Error → Assoc Value
  | .unknownType type => [("type_id", type)]
  | .malformed cause => cause.details
  | .locked violation => violation.details
  | .exclusive kind existing => [("kind", .text kind.name), ("existing_id", existing)]
  | .protectedBlock id => [("block_id", id)]
  | .rejected reason => reason.details
  | _ => []

def typeName? : Error → Option String
  | .unknownType _ => some "UnknownType"
  | .malformed _ => some "MalformedDocument"
  | .locked _ => some "CapabilityViolation"
  | .exclusive .. => some "ExclusiveComponentError"
  | .protectedBlock _ => some "ProtectedBlockError"
  | .rejected _ => some "ConnectionRejected"
  | _ => none

def ofFile : FileError → Error
  | .zeroInName => .unfit .zeroByte
  | cause => .file cause

/-- A value that a field refuses is invalid, unless the field itself is at fault. -/
def ofField : FieldError → Error
  | .illDeclared _ => .illTyped
  | .unpaired size => .unfit (.pairSize size)
  | cause => .invalid (.field cause)

/-- Field values that are not given by name are ill typed; any other fault makes them invalid. -/
def ofFields : FieldsError → Error
  | .illTyped => .illTyped
  | .unpaired size => .unfit (.pairSize size)
  | cause => .invalid (.fields cause)

def ofEntries : EntriesError → Error
  | .illTyped => .illTyped
  | .notPair place size => .unfit (.entrySize place size)

/-- A document is malformed, unless a field of a registered type is at fault. -/
def ofMalformed : Malformed → Error
  | ⟨.fields .illTyped, _⟩ => .illTyped
  | ⟨.fields (.unpaired size), _⟩ => .unfit (.pairSize size)
  | cause => .malformed cause

end Error

def Vocabulary.read (vocabulary : Vocabulary) (members : List α) (name : α → String) (v : Value) :
    Except Error α :=
  match v.text?.bind fun s => members.find? (name · == s) with
  | some a => .ok a
  | none => .error (.unknownWord vocabulary v)

def ComponentKind.read (v : Value) : Except Error ComponentKind :=
  Vocabulary.componentKind.read all name v

def Shape.read (v : Value) : Except Error Shape :=
  Vocabulary.shape.read all name v

def FieldKind.read (v : Value) : Except Error FieldKind :=
  Vocabulary.fieldKind.read all name v

end BlockSketch
