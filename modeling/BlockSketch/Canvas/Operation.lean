import BlockSketch.Canvas.Basic

/-!
# Operations of a canvas

All that can be done to a canvas, as data. Every operation is applied by the function of its name,
and runs of operations go on after one that is refused.
-/

namespace BlockSketch

inductive Operation where
  | createBlock (request : BlockRequest)
  | connect (block parent socket : Value)
  | detach (block : Value)
  | deleteBlock (block : Value)
  | setField (block name value : Value)
  | createVariable (name : Value)
  | deleteVariable (name : Value)
  | clear
  | load (document : Value)
  | reload
  | loadText (text : Value)
  | addComponent (request : Component)
  | removeComponent (id : Value)
  | clearComponents
  | replaceComponents (components : List Component)
  | refresh (kinds : List ComponentKind)
  | notify (event : Event)
  | flush
  | cancel
  | fire (timer : Nat)

namespace Canvas

/-- The answer of an operation as a value; null stands for an answer that tells nothing. -/
def apply (c : Canvas) : Operation → Outcome Value
  | .createBlock request => c.createBlock request
  | .connect block parent socket => (c.connect block parent socket).map fun _ => .null
  | .detach block => (c.detach block).map .bool
  | .deleteBlock block => (c.deleteBlock block).map .list
  | .setField block name value => c.setField block name value
  | .createVariable name => (c.createVariable name).map .bool
  | .deleteVariable name => (c.deleteVariable name).map .bool
  | .clear => c.clear.map fun _ => .null
  | .load document => (c.load document).map fun (count : Nat) => .int count
  | .reload => c.reload.map fun (count : Nat) => .int count
  | .loadText text => (c.loadText text).map fun (count : Nat) => .int count
  | .addComponent request => (c.addComponent request).map Component.toValue
  | .removeComponent id => (c.removeComponent id).map .bool
  | .clearComponents => c.clearComponents.map fun _ => .null
  | .replaceComponents components => (c.replaceComponents components).map fun _ => .null
  | .refresh kinds => (c.refresh kinds).map .bool
  | .notify event => (c.notify event).map fun _ => .null
  | .flush => c.flush.map fun report => .ofOption (report.map Sketch.Report.toValue)
  | .cancel => c.cancel.map fun _ => .null
  | .fire timer => (c.fire timer).map fun _ => .null

def run (c : Canvas) : List Operation → Canvas × List Notice
  | [] => (c, [])
  | op :: rest =>
    let outcome := c.apply op
    let (c, notices) := run outcome.canvas rest
    (c, outcome.notices ++ notices)

end Canvas

end BlockSketch
