import BlockSketch.Block.Type
import BlockSketch.Json.Reader

/-!
# Malformed documents

Everything that can be wrong with a document.
-/

namespace BlockSketch

inductive MalformedReason where
  | notObject
  | format (v : Value)
  | version (v : Value)
  | variablesNotNames
  | duplicateVariables
  | blocksNotList
  | rootsNotList
  | recordNotObject
  | noId
  | noType
  | unknownType (type : String)
  | fieldsNotObject
  | fields (cause : FieldsError)
  | undeclaredVariable (v : Value)
  | inputsNotObject
  | deletableNotBool
  | alwaysProtected (type : Value)
  | duplicateId
  | noSuchBlock (v : Value)
  | manyParents
  | unknownSocket (socket : Value)
  | needsStatement (socket : Value)
  | socketRejects (socket type : Value)
  | noNextLink
  | nextNotStatement
  | rootsNotTexts
  | duplicateRoots
  | noSuchRoot (id : String)
  | rootHasParent
  | manyEntryPoints
  | entryNotRoot
  | cycle
  | unreachable
  | notJson (error : Json.Error)
  | notJsonText (kind : String)

def MalformedReason.message : MalformedReason → String
  | .notObject => "document must be an object"
  | .format v => "unrecognised format " ++ v.quoted
  | .version v => "unsupported version " ++ v.quoted
  | .variablesNotNames => "'variables' must be a list of names"
  | .duplicateVariables => "duplicate variable names"
  | .blocksNotList => "'blocks' must be a list"
  | .rootsNotList => "'top_blocks' must be a list"
  | .recordNotObject => "block record must be an object"
  | .noId => "block record without an id"
  | .noType => "block record without a type"
  | .unknownType type => "unknown block type " ++ Text.quoted type
  | .fieldsNotObject => "'fields' must be an object"
  | .fields cause => cause.message
  | .undeclaredVariable v => "undeclared variable " ++ v.quoted
  | .inputsNotObject => "'inputs' must be an object"
  | .deletableNotBool => "'deletable' must be a boolean"
  | .alwaysProtected type => "blocks of type " ++ type.quoted ++ " cannot be deletable"
  | .duplicateId => "duplicate block id"
  | .noSuchBlock v => "reference to nonexistent block " ++ v.quoted
  | .manyParents => "block has more than one parent"
  | .unknownSocket socket => "unknown socket " ++ socket.quoted
  | .needsStatement socket => "socket " ++ socket.quoted ++ " needs a statement block"
  | .socketRejects socket type => "socket " ++ socket.quoted ++ " rejects " ++ type.quoted
  | .noNextLink => "block cannot have a next block"
  | .nextNotStatement => "next block must be a statement"
  | .rootsNotTexts => "root ids must be strings"
  | .duplicateRoots => "duplicate root ids"
  | .noSuchRoot id => "root references nonexistent block " ++ Text.quoted id
  | .rootHasParent => "root block also has a parent"
  | .manyEntryPoints => "more than one entry point"
  | .entryNotRoot => "entry point must be a root"
  | .cycle => "cycle detected"
  | .unreachable => "blocks not reachable from any root"
  | .notJson error => "invalid JSON: " ++ error.message
  | .notJsonText kind =>
    "invalid JSON: the JSON object must be str, bytes or bytearray, not " ++ kind

structure Malformed where
  reason : MalformedReason
  block : Option String := none

def Malformed.message (m : Malformed) : String :=
  "Malformed document: " ++ m.reason.message

def Malformed.details (m : Malformed) : Assoc Value :=
  (match m.reason with
    | .unknownType type => [("type_id", .text type)]
    | _ => []) ++
  (m.block.map fun id => ("block_id", Value.text id)).toList

end BlockSketch
