import BlockSketch.Number.Numeral
import BlockSketch.Value.Display

/-!
# Fields

An editable parameter of a kind of block, with the domain its values are taken from. Validation
returns the value as it is stored: a numeral given as text becomes a number. A field can be declared
with bounds that are no numbers or choices that are no pairs of texts, and is at fault itself where
a value is held against those.
-/

namespace BlockSketch

inductive FieldKind where
  | number
  | dropdown
  | text
  | variable
  deriving DecidableEq, Repr

def FieldKind.name : FieldKind → String
  | .number => "number"
  | .dropdown => "dropdown"
  | .text => "text"
  | .variable => "variable"

def FieldKind.all : List FieldKind :=
  [.number, .dropdown, .text, .variable]

structure Field where
  kind : FieldKind
  /-- The value of a block that is given none; it need not lie in the domain. -/
  initial : Value
  minimum : Value := .null
  maximum : Value := .null
  /-- The choices of a dropdown, each a label and a value. -/
  choices : List (List Value) := []
  deriving Repr

inductive FieldError where
  | notNumber (v : Value)
  | notFinite (n : Number)
  | belowMinimum (n : Number) (bound : Value)
  | aboveMaximum (n : Number) (bound : Value)
  | notChoice (v : Value) (choices : List String)
  | notText (v : Value)
  | emptyVariable
  | illDeclared (cause : String)
  | unpaired (size : Nat)

def FieldError.message : FieldError → String
  | .notNumber v => "Expected a number, got " ++ v.quoted
  | .notFinite n => "Expected a finite number, got " ++ n.text
  | .belowMinimum n bound => "Value " ++ n.text ++ " is below the minimum " ++ bound.plain
  | .aboveMaximum n bound => "Value " ++ n.text ++ " is above the maximum " ++ bound.plain
  | .notChoice v choices => "Value " ++ v.quoted ++ " is not one of " ++ ", ".intercalate choices
  | .notText v => "Expected text, got " ++ v.quoted
  | .emptyVariable => "Variable name must not be empty"
  | .illDeclared cause => cause
  | .unpaired size => Value.noPair size

namespace Field

def choiceValue : List Value → Except FieldError Value
  | [_, value] => .ok value
  | items => .error (.unpaired items.length)

def choiceValues (field : Field) : Except FieldError (List Value) :=
  field.choices.mapM choiceValue

/-- A number or a numeral. A numeral is read as a binary64 number, and becomes an integer if that
number is one. -/
def readNumber (v : Value) : Except FieldError Number :=
  match v with
  | .number n => .ok n
  | .text s =>
    match Numeral.readReal? s with
    | none => .error (.notNumber v)
    | some x =>
      match x.toInt? with
      | some n => .ok (.int n)
      | none => .ok (.real x)
  | _ => .error (.notNumber v)

def readBound (sign : String) (n : Number) (bound : Value) : Except FieldError (Option Number) :=
  match bound, bound.number? with
  | .null, _ => .ok none
  | _, some b => .ok (some b)
  | _, none => .error (.illDeclared (Value.noOrder sign (Value.number n).kindName bound.kindName))

def checkMinimum (field : Field) (n : Number) : Except FieldError Unit := do
  let bound ← readBound "<" n field.minimum
  if bound.any n.less then .error (.belowMinimum n field.minimum) else .ok ()

def checkMaximum (field : Field) (n : Number) : Except FieldError Unit := do
  let bound ← readBound ">" n field.maximum
  if bound.any (·.less n) then .error (.aboveMaximum n field.maximum) else .ok ()

def validateNumber (field : Field) (v : Value) : Except FieldError Number := do
  let n ← readNumber v
  if !n.isFinite then .error (.notFinite n)
  else
    field.checkMinimum n
    field.checkMaximum n
    .ok n

def refuseChoice (values : List Value) (v : Value) : FieldError :=
  match Value.joinable 0 values with
  | .ok choices => .notChoice v choices
  | .error cause => .illDeclared cause

def validateChoice (field : Field) (v : Value) : Except FieldError Value := do
  let values ← field.choiceValues
  if v.isIn values then .ok v else .error (refuseChoice values v)

def validate (field : Field) (v : Value) : Except FieldError Value :=
  match field.kind with
  | .number => (field.validateNumber v).map .number
  | .dropdown => field.validateChoice v
  | .text =>
    match v with
    | .text _ => .ok v
    | _ => .error (.notText v)
  | .variable =>
    match v with
    | .text s => if s.isEmpty then .error .emptyVariable else .ok v
    | _ => .error (.notText v)

end Field

end BlockSketch
