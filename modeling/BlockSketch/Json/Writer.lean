import BlockSketch.Number.Style
import BlockSketch.Text.Quoted
import BlockSketch.Value.Basic

/-!
# JSON text of values

ASCII only: every other character is written as one or two escapes of four hexadecimal digits.
-/

namespace BlockSketch.Json

def escapeUnit (n : Nat) : List Char :=
  '\\' :: 'u' :: (Text.hex 4 n).toList

def highSurrogate (c : Char) : Nat :=
  0xd800 + (c.toNat - 0x10000) / 0x400

def lowSurrogate (c : Char) : Nat :=
  0xdc00 + (c.toNat - 0x10000) % 0x400

/-- A character inside a JSON string. Beyond the first plane it takes two escapes. -/
def escapeChar (c : Char) : List Char :=
  if c = '"' then ['\\', '"']
  else if c = '\\' then ['\\', '\\']
  else if c = '\n' then ['\\', 'n']
  else if c = '\r' then ['\\', 'r']
  else if c = '\t' then ['\\', 't']
  else if c = '\x0c' then ['\\', 'f']
  else if c = '\x08' then ['\\', 'b']
  else if 0x20 ≤ c.toNat && c.toNat ≤ 0x7e then [c]
  else if c.toNat < 0x10000 then escapeUnit c.toNat
  else escapeUnit (highSurrogate c) ++ escapeUnit (lowSurrogate c)

def writeString (s : String) : String :=
  "\"" ++ String.ofList (s.toList.flatMap escapeChar) ++ "\""

def writeNumber : Number → String
  | .int n => toString n
  | .real (.infinite negative) => Binary64.sign negative ++ "Infinity"
  | .real (.nan _) => "NaN"
  | .real x => x.text

/-- How containers are laid out: on one line, or one item a line, each level indented by a text. -/
inductive Layout where
  | line
  | block (indent : String)

def Layout.spaces (width : Nat) : Layout :=
  .block (.ofList (List.replicate width ' '))

/-- `null` asks for one line; a negative width indents by nothing. -/
def Layout.ofIndent : Option Int → Layout
  | none => .line
  | some n => .spaces n.toNat

def Layout.newline (layout : Layout) (depth : Nat) : String :=
  match layout with
  | .line => ""
  | .block indent => "\n" ++ String.join (List.replicate depth indent)

def Layout.comma : Layout → String
  | .line => ", "
  | .block _ => ","

/-- Items of a container between its brackets; `depth` is that of the items. -/
def Layout.wrap (layout : Layout) (depth : Nat) (opening closing : String) (items : List String) :
    String :=
  if items.isEmpty then opening ++ closing
  else
    opening ++ layout.newline depth ++
      (layout.comma ++ layout.newline depth).intercalate items ++
      layout.newline (depth - 1) ++ closing

mutual

def writeAt (layout : Layout) (depth : Nat) : Value → String
  | .null => "null"
  | .bool b => if b then "true" else "false"
  | .number n => writeNumber n
  | .text s => writeString s
  | .list items => layout.wrap (depth + 1) "[" "]" (writeItems layout (depth + 1) items)
  | .object members =>
    layout.wrap (depth + 1) "\x7b" "\x7d" (writeMembers layout (depth + 1) members)

def writeItems (layout : Layout) (depth : Nat) : List Value → List String
  | [] => []
  | v :: rest => writeAt layout depth v :: writeItems layout depth rest

def writeMembers (layout : Layout) (depth : Nat) : List (String × Value) → List String
  | [] => []
  | (name, v) :: rest =>
    (writeString name ++ ": " ++ writeAt layout depth v) :: writeMembers layout depth rest

end

def write (layout : Layout) (v : Value) : String :=
  writeAt layout 0 v

def keyText : Value → String
  | .text s => s
  | v => write .line v

end BlockSketch.Json
