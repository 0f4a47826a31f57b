import BlockSketch.Number.Numeral
import BlockSketch.Value.Basic

/-!
# Reading JSON text

A reader over lists of characters. Every step returns what it has not read, and a failure names what
was expected and how many characters were left, which gives its place in the text.
-/

namespace BlockSketch.Json

inductive Expectation where
  | value
  | memberName
  | colon
  | comma
  | closingQuote
  | plainCharacter
  | escape
  | unicodeEscape
  | endOfText
  | noByteOrderMark
  deriving DecidableEq, Repr

def Expectation.message : Expectation → String
  | .value => "Expecting value"
  | .memberName => "Expecting property name enclosed in double quotes"
  | .colon => "Expecting ':' delimiter"
  | .comma => "Expecting ',' delimiter"
  | .closingQuote => "Unterminated string starting at"
  | .plainCharacter => "Invalid control character at"
  | .escape => "Invalid \\escape"
  | .unicodeEscape => "Invalid \\uXXXX escape"
  | .endOfText => "Extra data"
  | .noByteOrderMark => "Unexpected UTF-8 BOM (decode using utf-8-sig)"

/-- A failure where `left` characters of the text were still to be read. -/
structure Failure where
  expected : Expectation
  left : Nat
  deriving DecidableEq, Repr

def failAt (expected : Expectation) (rest : List Char) : Except Failure α :=
  .error ⟨expected, rest.length⟩

def isSpace (c : Char) : Bool :=
  c = ' ' || c = '\t' || c = '\n' || c = '\r'

def skipSpace (cs : List Char) : List Char :=
  cs.dropWhile isSpace

def hexDigit? (c : Char) : Option Nat :=
  if '0' ≤ c && c ≤ '9' then some (c.toNat - '0'.toNat)
  else if 'a' ≤ c && c ≤ 'f' then some (c.toNat - 'a'.toNat + 10)
  else if 'A' ≤ c && c ≤ 'F' then some (c.toNat - 'A'.toNat + 10)
  else none

/-- Four hexadecimal digits that are not the last characters of the text. -/
def readUnit? : List Char → Option (Nat × List Char)
  | a :: b :: c :: d :: rest => do
    if rest.isEmpty then none
    let n := (← hexDigit? a) * 4096 + (← hexDigit? b) * 256 + (← hexDigit? c) * 16 + (← hexDigit? d)
    some (n, rest)
  | _ => none

def isHighSurrogate (n : Nat) : Bool :=
  0xd800 ≤ n && n < 0xdc00

def isLowSurrogate (n : Nat) : Bool :=
  0xdc00 ≤ n && n < 0xe000

def joinSurrogates (high low : Nat) : Char :=
  Char.ofNat (0x10000 + (high - 0xd800) * 0x400 + (low - 0xdc00))

/-- What follows `\u`, with the second escape of a pair. `here` starts at the `u`. -/
def readUnicode (here : List Char) (cs : List Char) : Except Failure (Char × List Char) :=
  match readUnit? cs with
  | none => failAt .unicodeEscape here
  | some (high, rest) =>
    match isHighSurrogate high, rest with
    | true, '\\' :: 'u' :: tail =>
      if (tail.drop 4).isEmpty then .ok (Char.ofNat high, rest) else
      match readUnit? tail with
      | none => failAt .unicodeEscape ('u' :: tail)
      | some (low, after) =>
        if isLowSurrogate low then .ok (joinSurrogates high low, after)
        else .ok (Char.ofNat high, rest)
    | _, _ => .ok (Char.ofNat high, rest)

def readEscape (whole here : List Char) : List Char → Except Failure (Char × List Char)
  | [] => failAt .closingQuote whole
  | c :: rest =>
    match c with
    | '"' => .ok ('"', rest)
    | '\\' => .ok ('\\', rest)
    | '/' => .ok ('/', rest)
    | 'b' => .ok ('\x08', rest)
    | 'f' => .ok ('\x0c', rest)
    | 'n' => .ok ('\n', rest)
    | 'r' => .ok ('\r', rest)
    | 't' => .ok ('\t', rest)
    | 'u' => readUnicode (c :: rest) rest
    | _ => failAt .escape here

/-- The characters up to the closing quote. `whole` starts at the opening quote; `fuel` is at least
the number of characters left. -/
def readChars (whole : List Char) : Nat → List Char → Except Failure (List Char × List Char)
  | 0, _ => failAt .closingQuote whole
  | _, [] => failAt .closingQuote whole
  | fuel + 1, c :: rest =>
    if c = '"' then .ok ([], rest)
    else if c = '\\' then do
      let (d, rest) ← readEscape whole (c :: rest) rest
      let (ds, rest) ← readChars whole fuel rest
      .ok (d :: ds, rest)
    else if c.toNat < 0x20 then failAt .plainCharacter (c :: rest)
    else do
      let (ds, rest) ← readChars whole fuel rest
      .ok (c :: ds, rest)

def readString (fuel : Nat) (rest : List Char) : Except Failure (String × List Char) := do
  let (cs, rest) ← readChars ('"' :: rest) fuel rest
  .ok (.ofList cs, rest)

def readFraction : List Char → List Char × List Char
  | '.' :: c :: rest =>
    if Numeral.isDigit c then
      (c :: rest.takeWhile Numeral.isDigit, rest.dropWhile Numeral.isDigit)
    else ([], '.' :: c :: rest)
  | cs => ([], cs)

def readPower : List Char → Option Int × List Char
  | c :: cs =>
    if c = 'e' || c = 'E' then
      let (negative, rest) := Numeral.readSign cs
      let ds := rest.takeWhile Numeral.isDigit
      if ds.isEmpty then (none, c :: cs)
      else (some (Binary64.signed negative (Numeral.digitsValue 0 ds)),
        rest.dropWhile Numeral.isDigit)
    else (none, c :: cs)
  | [] => (none, [])

def readWhole? : List Char → Option (List Char × List Char)
  | c :: rest =>
    if c = '0' then some (['0'], rest)
    else if Numeral.isDigit c then
      some (c :: rest.takeWhile Numeral.isDigit, rest.dropWhile Numeral.isDigit)
    else none
  | [] => none

def readMinus : List Char → Bool × List Char
  | '-' :: rest => (true, rest)
  | cs => (false, cs)

/-- A number is an integer unless it has a fraction or a power. -/
def readNumber (start : List Char) : Except Failure (Number × List Char) :=
  let (negative, cs) := readMinus start
  match readWhole? cs with
  | none => failAt .value start
  | some (whole, rest) =>
    let (fraction, rest) := readFraction rest
    let (power, rest) := readPower rest
    if fraction.isEmpty && power.isNone then
      .ok (.int (Binary64.signed negative (Numeral.digitsValue 0 whole)), rest)
    else
      let digits := Numeral.digitsValue (Numeral.digitsValue 0 whole) fraction
      .ok (.real (.ofDecimal negative digits (power.getD 0 - fraction.length)), rest)

def words : List (List Char × Value) := [
  ("null".toList, .null), ("true".toList, .bool true), ("false".toList, .bool false),
  ("NaN".toList, .real (.nan 0)), ("Infinity".toList, .real (.infinite false)),
  ("-Infinity".toList, .real (.infinite true))]

def readWord? (cs : List Char) : Option (Value × List Char) :=
  words.findSome? fun (word, v) =>
    if word.isPrefixOf cs then some (v, cs.drop word.length) else none

mutual

/-- A value without space before it; `fuel` is more than twice the number of characters left. -/
def readValue : Nat → List Char → Except Failure (Value × List Char)
  | 0, cs => failAt .value cs
  | fuel + 1, cs =>
    match cs with
    | '"' :: rest => (readString fuel rest).map fun (s, rest) => (.text s, rest)
    | '\x7b' :: rest =>
      match skipSpace rest with
      | '\x7d' :: rest => .ok (.object [], rest)
      | rest => (readMembers fuel rest).map fun (ms, rest) => (.object (Assoc.ofList ms), rest)
    | '[' :: rest =>
      match skipSpace rest with
      | ']' :: rest => .ok (.list [], rest)
      | rest => (readItems fuel rest).map fun (vs, rest) => (.list vs, rest)
    | cs =>
      match readWord? cs with
      | some answer => .ok answer
      | none => (readNumber cs).map fun (n, rest) => (.number n, rest)

def readItems : Nat → List Char → Except Failure (List Value × List Char)
  | 0, cs => failAt .value cs
  | fuel + 1, cs => do
    let (v, rest) ← readValue fuel cs
    match skipSpace rest with
    | ']' :: rest => .ok ([v], rest)
    | ',' :: rest => do
      let (vs, rest) ← readItems fuel (skipSpace rest)
      .ok (v :: vs, rest)
    | rest => failAt .comma rest

def readMembers : Nat → List Char → Except Failure (List (String × Value) × List Char)
  | 0, cs => failAt .value cs
  | fuel + 1, cs =>
    match cs with
    | '"' :: rest => do
      let (name, rest) ← readString fuel rest
      match skipSpace rest with
      | ':' :: rest => do
        let (v, rest) ← readValue fuel (skipSpace rest)
        match skipSpace rest with
        | '\x7d' :: rest => .ok ([(name, v)], rest)
        | ',' :: rest => do
          let (ms, rest) ← readMembers fuel (skipSpace rest)
          .ok ((name, v) :: ms, rest)
        | rest => failAt .comma rest
      | rest => failAt .colon rest
    | rest => failAt .memberName rest

end

def readText (cs : List Char) : Except Failure Value :=
  if cs.head? = some '\ufeff' then failAt .noByteOrderMark cs else do
    let (v, rest) ← readValue (2 * cs.length + 2) (skipSpace cs)
    match skipSpace rest with
    | [] => .ok v
    | rest => failAt .endOfText rest

structure Place where
  line : Nat
  column : Nat
  offset : Nat
  deriving DecidableEq, Repr

def placeOf (cs : List Char) (offset : Nat) : Place :=
  let before := cs.take offset
  ⟨before.count '\n' + 1, (before.reverse.takeWhile (· ≠ '\n')).length + 1, offset⟩

structure Error where
  expected : Expectation
  place : Place
  deriving DecidableEq, Repr

def Error.message (e : Error) : String :=
  e.expected.message ++ ": line " ++ toString e.place.line ++ " column " ++
    toString e.place.column ++ " (char " ++ toString e.place.offset ++ ")"

def read (s : String) : Except Error Value :=
  let cs := s.toList
  (readText cs).mapError fun f => ⟨f.expected, placeOf cs (cs.length - f.left)⟩

end BlockSketch.Json
