import BlockSketch.Number.Binary64

/-!
# Shortest decimals

The decimal digits of a number: the fewest that read back as the number, and of those the nearest to
it. A grid of decimals with a given count of digits is tried at the number's two neighbours on it.
-/

namespace BlockSketch

structure Decimal where
  digits : Nat
  power : Int
  deriving DecidableEq, Repr

namespace Decimal

def dropZeros : Nat → Decimal → Decimal
  | 0, d => d
  | fuel + 1, d =>
    if d.digits ≠ 0 && d.digits % 10 == 0 then dropZeros fuel ⟨d.digits / 10, d.power + 1⟩ else d

def digitCount (n : Nat) : Nat :=
  (Nat.toDigits 10 n).length

end Decimal

namespace Binary64

/-- The power `x` with `10^(x-1) ≤ n / d < 10^x`, for positive `n` and `d`. -/
def decimalSize (n d : Nat) : Int :=
  if d ≤ n then Decimal.digitCount (n / d)
  else
    let k := Decimal.digitCount (d / n)
    if d ≤ n * Nat.pow 10 (k - 1) then 2 - (k : Int) else 1 - (k : Int)

/-- A number in quarters of its last place, with the ends of the interval that rounds to it. -/
structure Neighbourhood where
  low : Nat
  value : Nat
  high : Nat
  exponent : Int
  closed : Bool

/-- Below a power of two the next number is half as far away as above it. -/
def neighbourhood (m : Nat) (e : Int) : Neighbourhood where
  low := if m = Nat.pow 2 52 && minExponent < e then 4 * m - 1 else 4 * m - 2
  value := 4 * m
  high := 4 * m + 2
  exponent := e - 2
  closed := m % 2 == 0

/-- Multipliers that take multiples of `10^power` and of `2^exponent` to one common unit. -/
def commonUnit (power exponent : Int) : Nat × Nat :=
  (Nat.pow 10 power.toNat * Nat.pow 2 (-exponent).toNat,
    Nat.pow 2 exponent.toNat * Nat.pow 10 (-power).toNat)

namespace Neighbourhood

def contains (v : Neighbourhood) (a b g : Nat) : Bool :=
  if v.closed then v.low * b ≤ g * a && g * a ≤ v.high * b
  else v.low * b < g * a && g * a < v.high * b

/-- The nearest multiple of `10^power` that rounds to the number, a tie going to the even one. -/
def onGrid? (v : Neighbourhood) (power : Int) : Option Nat :=
  let (a, b) := commonUnit power v.exponent
  let g := v.value * b / a
  match v.contains a b g, v.contains a b (g + 1) with
  | true, true =>
    let below := v.value * b - g * a
    let above := (g + 1) * a - v.value * b
    some (if below < above || (below == above && g % 2 == 0) then g else g + 1)
  | true, false => some g
  | false, true => some (g + 1)
  | false, false => none

def size (v : Neighbourhood) : Int :=
  let (n, d) := inUnits v.value 1 (-v.exponent)
  decimalSize n d

def search (v : Neighbourhood) : Nat → Nat → Decimal
  | 0, count => ⟨(v.onGrid? (v.size - count)).getD 0, v.size - count⟩
  | more + 1, count =>
    match v.onGrid? (v.size - count) with
    | some g => ⟨g, v.size - count⟩
    | none => search v more (count + 1)

end Neighbourhood

/-- The shortest decimal that reads back as `m · 2^e`; seventeen digits always do. -/
def shortest (m : Nat) (e : Int) : Decimal :=
  if m = 0 then ⟨0, 0⟩ else ((neighbourhood m e).search 16 1).dropZeros 17

end Binary64

end BlockSketch
