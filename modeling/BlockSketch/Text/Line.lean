import BlockSketch.Text.Basic

/-!
# Lines and margins

A text is a sequence of lines, each with the break that ends it. Margins are put before the lines
that hold something other than blanks.
-/

namespace BlockSketch.Text

/-- Line feed, vertical tab, form feed and carriage return, three of the information separators, and
three breaks beyond ASCII. -/
def isLineBreak (c : Char) : Bool :=
  if c ≤ '\x1e' then '\n' ≤ c && c ≤ '\r' || '\x1c' ≤ c
  else c == '\u0085' || c == '\u2028' || c == '\u2029'

def consToFirst (c : Char) : List (List Char) → List (List Char)
  | [] => [[c]]
  | line :: rest => (c :: line) :: rest

/-- The lines of a text with their breaks. A carriage return and the line feed after it are one
break. -/
def splitLines : List Char → List (List Char)
  | [] => []
  | '\r' :: '\n' :: rest => ['\r', '\n'] :: splitLines rest
  | c :: rest => if isLineBreak c then [c] :: splitLines rest else consToFirst c (splitLines rest)

def indentLine (margin line : List Char) : List Char :=
  if isAllBlank line then line else margin ++ line

def indentChars (margin cs : List Char) : List Char :=
  (splitLines cs).flatMap (indentLine margin)

def indent (margin text : String) : String :=
  .ofList (indentChars margin.toList text.toList)

end BlockSketch.Text
