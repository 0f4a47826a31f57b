import BlockSketch.Sketch.Emit

/-!
# Scripted emitters

Emitters put together from parts, for block types that are added to the built-in ones.
-/

namespace BlockSketch.Sketch

inductive ScriptPart where
  | literal (text : String)
  | operand (socket outer : Value)
  | body (socket : Value)
  | fresh (base : Value)
  | define (key text : Value) (placement : Placement)
  | warn (warning : Value)
  | complain (c : Complaint)

inductive ScriptResult where
  | statement
  | expression (order : Value)
  | value (v : Value)

structure Script where
  parts : List ScriptPart
  result : ScriptResult

def textPart (v : Value) : Emit String :=
  match v with
  | .text s => pure s
  | v => fault ("can only concatenate str (not \"" ++ v.kindName ++ "\") to str")

def ScriptPart.emit : ScriptPart → Emit String
  | .literal text => pure text
  | .operand socket outer => do textPart (← Sketch.operand socket (.given outer))
  | .body socket => Sketch.body socket
  | .fresh base => do textPart (← Sketch.fresh base)
  | .define key text placement => do Sketch.define key text placement; pure ""
  | .warn warning => do Sketch.warn warning; pure ""
  | .complain c => .complain c

def Script.collect : List ScriptPart → Emit String
  | [] => pure ""
  | part :: rest => do
    let text ← part.emit
    let texts ← collect rest
    pure (text ++ texts)

def Script.emitter (script : Script) : Emitter := fun _ => do
  let text ← collect script.parts
  pure (match script.result with
    | .statement => .statement text
    | .expression order => .expression text (.given order)
    | .value v => .ofValue v)

end BlockSketch.Sketch
