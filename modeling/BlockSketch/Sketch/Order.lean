import BlockSketch.Value.Order

/-!
# Operator precedence

The order of a piece of code says how tightly its outermost operator binds: the smaller, the
tighter. Code from outside comes with an order that can be any value.
-/

namespace BlockSketch.Sketch

inductive Order where
  | level (n : Nat)
  | given (v : Value)

namespace Order

def atomic : Order := .level 0
def unaryPostfix : Order := .level 1
def unaryPrefix : Order := .level 2
def multiplicative : Order := .level 3
def additive : Order := .level 4
def relational : Order := .level 6
def equality : Order := .level 7
def logicalAnd : Order := .level 11
def logicalOr : Order := .level 12
def conditional : Order := .level 13
def assignment : Order := .level 14
def loosest : Order := .level 99

def value : Order → Value
  | .level n => .int n
  | .given v => v

def kindName : Order → String
  | .level _ => "Order"
  | .given v => v.kindName

def isEnd (order : Order) : Bool :=
  order.value.same atomic.value || order.value.same loosest.value

/-- Why two orders cannot be compared, given the values that have no order. Lists are compared item
by item, so of two lists the items are told. -/
def noOrder (inner outer : Order) (left right : Value) : String :=
  match inner.value, outer.value with
  | .list _, .list _ => Value.noOrder ">=" left.kindName right.kindName
  | _, _ => Value.noOrder ">=" inner.kindName outer.kindName

/-- Whether code of order `inner` must be enclosed in a place of order `outer`. Equal orders
enclose, except at the two ends. -/
def encloses (inner outer : Order) : Except String Bool :=
  match inner.value.atLeast outer.value with
  | .ok atLeast => .ok (atLeast && !(inner.value.same outer.value && outer.isEnd))
  | .error (left, right) => .error (noOrder inner outer left right)

end Order

def enclose (code : String) (inner outer : Order) : Except String String := do
  let enclosed ← Order.encloses inner outer
  .ok (if enclosed then "(" ++ code ++ ")" else code)

end BlockSketch.Sketch
