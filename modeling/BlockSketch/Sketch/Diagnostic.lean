import BlockSketch.Value.Display

/-!
# Diagnostics

Why a workspace has no sketch, and what a run of the generator reports.
-/

namespace BlockSketch.Sketch

inductive BlockFault where
  | usedAsStatement
  | usedAsValue
  | revisited
  | noEmitter
  | notText (kind : String)
  | notPair
  | noSocket (statement : Bool) (socket : Value)
  | raised (text : String)
  deriving Repr

inductive Fault where
  | unknownType (type block : Value)
  | block (fault : BlockFault) (block type : Value)
  | refused (text : String)
  /-- A fault that is told of the block whose code was asked for. -/
  | passed (text : String)
  | overflow

def overflowText : String := "maximum recursion depth exceeded"

def BlockFault.message (type block : Value) : BlockFault → String
  | .usedAsStatement => "Expression block '" ++ block.plain ++ "' cannot be used as a statement"
  | .usedAsValue => "Statement block '" ++ block.plain ++ "' cannot be used as a value"
  | .revisited => "Block '" ++ block.plain ++ "' is reachable more than once"
  | .noEmitter => "No code generator for block type '" ++ type.plain ++ "'"
  | .notText kind => "Handler for '" ++ type.plain ++ "' returned " ++ kind ++ ", expected text"
  | .notPair => "Handler for '" ++ type.plain ++ "' must return a (code, order) pair"
  | .noSocket statement socket =>
    "Block type '" ++ type.plain ++ "' has no " ++ (if statement then "statement" else "value") ++
      " socket '" ++ socket.plain ++ "'"
  | .raised text =>
    "Code generation failed for block '" ++ block.plain ++ "' (" ++ type.plain ++ "): " ++ text

structure Diagnostic where
  kind : String
  message : String
  block : Value
  type : Value

def Fault.diagnostic : Fault → Diagnostic
  | .unknownType type id => ⟨"UnknownType", "Unknown block type: " ++ type.plain, id, type⟩
  | .block fault id type => ⟨"HandlerFailure", fault.message type id, id, type⟩
  | .refused text | .passed text => ⟨"HandlerFailure", text, .null, .null⟩
  | .overflow => ⟨"HandlerFailure", overflowText, .null, .null⟩

structure Report where
  code : String
  error : Option Diagnostic
  warnings : List Value

def Report.success (report : Report) : Bool :=
  report.error.isNone

def errorLine : String := "// Error generating code"

def emptyLine : String := "// No blocks to generate code"

def Report.ofFault (fault : Fault) : Report :=
  ⟨errorLine, some fault.diagnostic, []⟩

def Diagnostic.toValue (d : Diagnostic) : Value :=
  .object [("kind", .text d.kind), ("message", .text d.message), ("block_id", d.block),
    ("type_id", d.type)]

def Report.toValue (report : Report) : Value :=
  .object [("success", .bool report.success), ("code", .text report.code),
    ("error", .ofOption (report.error.map Diagnostic.toValue)),
    ("warnings", .list report.warnings)]

end BlockSketch.Sketch
