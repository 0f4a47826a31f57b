import BlockSketch.Text.Basic
import BlockSketch.Value.Display

/-!
# Literals of a sketch

Texts and numbers as they stand in the code.
-/

namespace BlockSketch.Sketch

def escapeChar (c : Char) : List Char :=
  match c with
  | '\\' => ['\\', '\\']
  | '"' => ['\\', '"']
  | '\n' => ['\\', 'n']
  | '\r' => ['\\', 'r']
  | '\t' => ['\\', 't']
  | c => [c]

def stringLiteralChars (cs : List Char) : List Char :=
  '"' :: (cs.flatMap escapeChar ++ ['"'])

def stringLiteral (s : String) : String :=
  .ofList (stringLiteralChars s.toList)

/-- A number that is an integer is written as one; anything else as it is shown. -/
def numberLiteral (v : Value) : String :=
  match v with
  | .number (.real x) =>
    match x.toInt? with
    | some n => toString n
    | none => v.plain
  | v => v.plain

def isDigitTail : List Char → Bool
  | [] => true
  | ['\n'] => true
  | c :: rest => Text.isDecimalDigit c && isDigitTail rest

def isCount (code : String) : Bool :=
  match code.toList with
  | [] => false
  | c :: rest => Text.isDecimalDigit c && isDigitTail rest

end BlockSketch.Sketch
