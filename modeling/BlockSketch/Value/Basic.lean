import BlockSketch.Number.Basic
import BlockSketch.Value.Assoc

/-!
# Values

Field values, identifiers and documents are values: what JSON can hold, with integers and binary64
numbers kept apart.
-/

namespace BlockSketch

inductive Value where
  | null
  | bool (b : Bool)
  | number (n : Number)
  | text (s : String)
  | list (items : List Value)
  | object (members : List (String × Value))
  deriving Repr, Inhabited

namespace Value

instance : Coe String Value := ⟨.text⟩

abbrev int (n : Int) : Value := .number (.int n)

abbrev real (x : Binary64) : Value := .number (.real x)

def number? : Value → Option Number
  | .bool b => some (.int (if b then 1 else 0))
  | .number n => some n
  | _ => none

/-- Equality of worth for values without parts. Truth values count as numbers, and numbers compare
by value, so what is not a number differs from itself. -/
def sameScalar : Value → Value → Bool
  | .null, .null => true
  | .text s, .text t => s == t
  | v, w =>
    match v.number?, w.number? with
    | some m, some n => m.same n
    | _, _ => false

def label? : Value → Option Nat
  | .number n => n.label?
  | _ => none

/-- Being one thing for values without parts: being worth the same, or being no number and having
one label. -/
def coincidesScalar (v w : Value) : Bool :=
  sameScalar v w || (v.label?.isSome && v.label? == w.label?)

def equalScalar : Value → Value → Bool
  | .null, .null => true
  | .bool a, .bool b => a == b
  | .number m, .number n => m == n
  | .text s, .text t => s == t
  | _, _ => false

mutual

/-- Equality up to an equality of values without parts. The order of the members of an object does
not count. -/
def sameWith (scalar : Value → Value → Bool) : Value → Value → Bool
  | .list xs, .list ys => sameItems scalar xs ys
  | .object xs, .object ys => xs.length == ys.length && sameMembers scalar xs ys
  | v, w => scalar v w

def sameItems (scalar : Value → Value → Bool) : List Value → List Value → Bool
  | [], [] => true
  | x :: xs, y :: ys => sameWith scalar x y && sameItems scalar xs ys
  | _, _ => false

def sameMembers (scalar : Value → Value → Bool) :
    List (String × Value) → List (String × Value) → Bool
  | [], _ => true
  | (name, x) :: xs, ys =>
    (match List.lookup name ys with
      | some y => sameWith scalar x y
      | none => false) && sameMembers scalar xs ys

end

def coincides : Value → Value → Bool :=
  sameWith coincidesScalar

/-- Equality of worth. Only what is not a number coincides with itself and is not worth the same. -/
def same (v w : Value) : Bool :=
  v.label?.isNone && v.coincides w

def identical : Value → Value → Bool :=
  sameWith equalScalar

def isIn (v : Value) (items : List Value) : Bool :=
  items.any (·.coincides v)

def distinct (items : List Value) : List Value :=
  items.foldl (fun found v => if v.isIn found then found else found ++ [v]) []

def areDistinct (items : List Value) : Bool :=
  (distinct items).length == items.length

def sameSet (xs ys : List Value) : Bool :=
  xs.all (·.isIn ys) && ys.all (·.isIn xs)

mutual

/-- A value as it arrives when it is sent as text, which carries no labels. -/
def unlabelled : Value → Value
  | .number (.real (.nan _)) => .real (.nan 0)
  | .list items => .list (unlabelledItems items)
  | .object members => .object (unlabelledMembers members)
  | v => v

def unlabelledItems : List Value → List Value
  | [] => []
  | v :: rest => v.unlabelled :: unlabelledItems rest

def unlabelledMembers : List (String × Value) → List (String × Value)
  | [] => []
  | (name, v) :: rest => (name, v.unlabelled) :: unlabelledMembers rest

end

/-- Null, false, zero and everything empty count as absent. -/
def isEmpty : Value → Bool
  | .null => true
  | .bool b => !b
  | .number n => n.same (.int 0)
  | .text s => s.isEmpty
  | .list items => items.isEmpty
  | .object members => members.isEmpty

def isContainer : Value → Bool
  | .list _ | .object _ => true
  | _ => false

def text? : Value → Option String
  | .text s => some s
  | _ => none

def list? : Value → Option (List Value)
  | .list items => some items
  | _ => none

def object? : Value → Option (Assoc Value)
  | .object members => some members
  | _ => none

def isNull : Value → Bool
  | .null => true
  | _ => false

def items? : Value → Option (List Value)
  | .list items => some items
  | .text s => some (s.toList.map fun c => .text (.singleton c))
  | .object members => some (members.map fun (name, _) => .text name)
  | _ => none

def member? (v : Value) (name : String) : Option Value :=
  v.object?.bind (·.find? name)

def member (v : Value) (name : String) : Value :=
  (v.member? name).getD .null

def ofOption : Option Value → Value
  | some v => v
  | none => .null

def texts (items : List String) : Value :=
  .list (items.map .text)

end Value

end BlockSketch
