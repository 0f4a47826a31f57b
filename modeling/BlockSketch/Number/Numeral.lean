import BlockSketch.Number.Basic
import BlockSketch.Text.Basic

/-!
# Numerals

Reading integers and binary64 numbers from text. Surrounding blanks are dropped, digits of any
script count, and a single underscore may stand between two digits.
-/

namespace BlockSketch.Numeral

/-- Blanks around a numeral; the information separators are not among them. -/
def isMargin (c : Char) : Bool :=
  Text.isBlank c && !(0x1c ≤ c.toNat && c.toNat ≤ 0x1f)

def plainDigit (c : Char) : Char :=
  match Text.digitValue? c with
  | some d => Char.ofNat ('0'.toNat + d)
  | none => c

def isDigit (c : Char) : Bool :=
  '0' ≤ c && c ≤ '9'

/-- Removes underscores that stand between two digits; any other underscore is refused. `afterDigit`
tells whether the previous character was a digit. -/
def dropUnderscores (afterDigit : Bool) : List Char → Option (List Char)
  | [] => some []
  | '_' :: c :: rest =>
    if afterDigit && isDigit c then (dropUnderscores true rest).map (c :: ·) else none
  | c :: rest => if c = '_' then none else (dropUnderscores (isDigit c) rest).map (c :: ·)

def bare? (s : String) : Option (List Char) :=
  dropUnderscores false ((Text.trimBy isMargin s.toList).map plainDigit)

def digitsValue (start : Nat) (ds : List Char) : Nat :=
  ds.foldl (fun n c => 10 * n + (c.toNat - '0'.toNat)) start

def readSign : List Char → Bool × List Char
  | '-' :: rest => (true, rest)
  | '+' :: rest => (false, rest)
  | cs => (false, cs)

def readInt? (s : String) : Option Int := do
  let (negative, ds) := readSign (← bare? s)
  if ds ≠ [] && ds.all isDigit then some (Binary64.signed negative (digitsValue 0 ds)) else none

def readExponent? : List Char → Option Int
  | [] => some 0
  | c :: rest =>
    if c = 'e' || c = 'E' then
      let (negative, ds) := readSign rest
      if ds ≠ [] && ds.all isDigit then some (Binary64.signed negative (digitsValue 0 ds)) else none
    else none

def readDecimal? (negative : Bool) (cs : List Char) : Option Binary64 :=
  let whole := cs.takeWhile isDigit
  let rest := cs.dropWhile isDigit
  let (fraction, rest) := match rest with
    | '.' :: tail => (tail.takeWhile isDigit, tail.dropWhile isDigit)
    | _ => ([], rest)
  if whole.isEmpty && fraction.isEmpty then none
  else (readExponent? rest).map fun e =>
    .ofDecimal negative (digitsValue (digitsValue 0 whole) fraction) (e - fraction.length)

def readReal? (s : String) : Option Binary64 := do
  let (negative, cs) := readSign (← bare? s)
  let word := String.ofList (cs.map Char.toLower)
  if word = "inf" || word = "infinity" then some (.infinite negative)
  else if word = "nan" then some (.nan 0)
  else readDecimal? negative cs

end BlockSketch.Numeral
