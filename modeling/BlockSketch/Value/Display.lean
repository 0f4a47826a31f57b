import BlockSketch.Number.Style
import BlockSketch.Text.Quoted
import BlockSketch.Value.Basic

/-!
# Values in messages

Two ways to show a value: `quoted` puts text in quotes, `plain` shows text as it is. They differ for
text only.
-/

namespace BlockSketch.Value

mutual

def quoted : Value → String
  | .null => "None"
  | .bool b => if b then "True" else "False"
  | .number n => n.text
  | .text s => Text.quoted s
  | .list items => "[" ++ ", ".intercalate (quotedItems items) ++ "]"
  | .object members => "\x7b" ++ ", ".intercalate (quotedMembers members) ++ "\x7d"

def quotedItems : List Value → List String
  | [] => []
  | v :: rest => quoted v :: quotedItems rest

def quotedMembers : List (String × Value) → List String
  | [] => []
  | (name, v) :: rest => (Text.quoted name ++ ": " ++ quoted v) :: quotedMembers rest

end

def plain : Value → String
  | .text s => s
  | v => v.quoted

def kindName : Value → String
  | .null => "NoneType"
  | .bool _ => "bool"
  | .number (.int _) => "int"
  | .number (.real _) => "float"
  | .text _ => "str"
  | .list _ => "list"
  | .object _ => "dict"

def noKey (v : Value) : String :=
  "unhashable type: '" ++ v.kindName ++ "'"

def noOrder (sign left right : String) : String :=
  "'" ++ sign ++ "' not supported between instances of '" ++ left ++ "' and '" ++ right ++ "'"

def noPair (size : Nat) : String :=
  if size < 2 then "not enough values to unpack (expected 2, got " ++ toString size ++ ")"
  else "too many values to unpack (expected 2)"

def noItem (position : Nat) (v : Value) : String :=
  "sequence item " ++ toString position ++ ": expected str instance, " ++ v.kindName ++ " found"

/-- The texts in a list that holds nothing else, or why they cannot be joined; `position` is that of
the first. -/
def joinable (position : Nat) : List Value → Except String (List String)
  | [] => .ok []
  | .text s :: rest => (joinable (position + 1) rest).map (s :: ·)
  | v :: _ => .error (noItem position v)

end BlockSketch.Value
