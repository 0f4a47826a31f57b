import BlockSketch.Sketch.Definition
import BlockSketch.Sketch.Order
import BlockSketch.Text.Line
import BlockSketch.Workspace.Basic

/-!
# Code emitters

What a block contributes to a sketch is described by a small program: it asks for the code in the
block's sockets, for fresh names and for definitions, and ends in a piece of code or in a complaint.
-/

namespace BlockSketch.Sketch

inductive Complaint where
  /-- A fault of the block, told together with the block. -/
  | fault (text : String)
  /-- A refusal that is told as it is. -/
  | refusal (text : String)
  deriving DecidableEq, Repr

inductive Emit (α : Type) where
  | done (a : α)
  | complain (c : Complaint)
  | operand (socket : Value) (outer : Order) (k : Value → Emit α)
  | body (socket : Value) (k : String → Emit α)
  | fresh (base : Value) (k : Value → Emit α)
  | define (definition : Definition) (k : Emit α)
  | warn (warning : Value) (k : Emit α)
  | defined (k : Definitions → Emit α)

namespace Emit

def bind : Emit α → (α → Emit β) → Emit β
  | .done a, f => f a
  | .complain c, _ => .complain c
  | .operand socket outer k, f => .operand socket outer fun code => (k code).bind f
  | .body socket k, f => .body socket fun code => (k code).bind f
  | .fresh base k, f => .fresh base fun name => (k name).bind f
  | .define definition k, f => .define definition (k.bind f)
  | .warn warning k, f => .warn warning (k.bind f)
  | .defined k, f => .defined fun definitions => (k definitions).bind f

instance : Monad Emit where
  pure := .done
  bind := .bind

end Emit

def operand (socket : Value) (outer : Order) : Emit Value := .operand socket outer .done

def body (socket : Value) : Emit String := .body socket .done

def fresh (base : Value) : Emit Value := .fresh base .done

def define (key text : Value) (placement : Placement) : Emit Unit :=
  .define ⟨key, text, placement⟩ (.done ())

def warn (warning : Value) : Emit Unit := .warn warning (.done ())

def defined : Emit Definitions := .defined .done

def fault (text : String) : Emit α := .complain (.fault text)

def orFault : Except String α → Emit α
  | .ok a => pure a
  | .error text => fault text

def noMargin (margin : Value) : String :=
  match margin with
  | .list _ => "can only concatenate list (not \"str\") to list"
  | v => "unsupported operand type(s) for +: '" ++ v.kindName ++ "' and 'str'"

/-- Code one level deeper. Blank lines are left alone, so blank code takes any margin. -/
def indentCode (margin : Value) (code : String) : Except String String :=
  match margin with
  | .text s => .ok (Text.indent s code)
  | v => if Text.isAllBlank code.toList then .ok code else .error (noMargin v)

inductive Yield where
  | statement (code : String)
  | expression (code : String) (order : Order)
  | other (v : Value)

/-- A value in place of code: a text is the code of a statement. -/
def Yield.ofValue : Value → Yield
  | .text s => .statement s
  | v => .other v

def Yield.kindName : Yield → String
  | .statement _ => "str"
  | .expression .. => "tuple"
  | .other v => v.kindName

structure Site where
  block : Block
  type : BlockType
  variableNames : List Value
  indent : Value

abbrev Emitter := Site → Emit Yield

abbrev Emitters := Table Emitter

end BlockSketch.Sketch
