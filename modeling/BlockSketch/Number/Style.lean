import BlockSketch.Number.Basic
import BlockSketch.Number.Shortest

/-!
# Number text

How a decimal is laid out: positional for moderate exponents, with an exponent of at least two
digits otherwise.
-/

namespace BlockSketch

/-- The layout of a decimal. The exponent in question is that of the leading digit. -/
structure DecimalStyle where
  leastPositional : Int
  leastScientific : Int
  /-- A lone leading digit before an exponent is followed by a point and a zero. -/
  pointBeforeExponent : Bool

namespace DecimalStyle

def zeros (n : Nat) : String :=
  .ofList (List.replicate n '0')

def exponentText (e : Int) : String :=
  let digits := toString e.natAbs
  (if e < 0 then "e-" else "e+") ++ (if digits.length < 2 then "0" ++ digits else digits)

def positional (digits : String) (place : Int) : String :=
  if place ≤ 0 then "0." ++ zeros (-place).toNat ++ digits
  else if digits.length ≤ place.toNat then digits ++ zeros (place.toNat - digits.length) ++ ".0"
  else String.ofList (digits.toList.take place.toNat) ++ "." ++
    String.ofList (digits.toList.drop place.toNat)

def scientific (style : DecimalStyle) (digits : String) (e : Int) : String :=
  match digits.toList with
  | [] => exponentText e
  | [d] => (if style.pointBeforeExponent then String.ofList [d, '.', '0'] else String.ofList [d]) ++
    exponentText e
  | d :: rest => String.ofList (d :: '.' :: rest) ++ exponentText e

def write (style : DecimalStyle) (d : Decimal) : String :=
  let digits := toString d.digits
  let place := d.power + digits.length
  if d.digits = 0 then "0.0"
  else if style.leastPositional ≤ place - 1 && place - 1 < style.leastScientific then
    positional digits place
  else style.scientific digits (place - 1)

end DecimalStyle

/-- Numbers in messages and documents: positional from `10^-4` up to `10^16`. -/
def Number.style : DecimalStyle := ⟨-4, 16, false⟩

def Binary64.sign (negative : Bool) : String :=
  if negative then "-" else ""

def Binary64.text : Binary64 → String
  | .finite negative m e => sign negative ++ Number.style.write (shortest m e)
  | .infinite negative => sign negative ++ "inf"
  | .nan _ => "nan"

def Number.text : Number → String
  | .int n => toString n
  | .real x => x.text

end BlockSketch
