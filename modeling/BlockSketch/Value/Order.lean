import BlockSketch.Text.Basic
import BlockSketch.Value.Display

/-!
# Order of values

Numbers are ordered by value, texts by code points and lists item by item. Between other kinds there
is no order.
-/

namespace BlockSketch.Value

mutual

def atLeast : Value → Value → Except (Value × Value) Bool
  | .text s, .text t => .ok (decide (t ≤ s))
  | .list xs, .list ys => atLeastItems xs ys
  | v, w =>
    match v.number?, w.number? with
    | some m, some n => .ok (n.less m || m.same n)
    | _, _ => .error (v, w)

def atLeastItems : List Value → List Value → Except (Value × Value) Bool
  | _, [] => .ok true
  | [], _ :: _ => .ok false
  | x :: xs, y :: ys => if x.coincides y then atLeastItems xs ys else atLeast x y

end

/-- Values in ascending order: texts, or numbers, or a single value of any kind. -/
def sorted? (items : List Value) : Option (List Value) :=
  match items with
  | [] => some []
  | [v] => some [v]
  | items =>
    match items.mapM text?, items.mapM number? with
    | some names, _ => some ((Text.sorted names).map .text)
    | none, some _ => some (items.mergeSort fun v w => (atLeast w v).toOption.getD false)
    | none, none => none

end BlockSketch.Value
