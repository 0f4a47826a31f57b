import BlockSketch.Number.Shortest

/-!
# Extended precision

Positive numbers with 64 binary digits, each operation rounded once to the nearest such number and
from a tie to the even mantissa; and the decimal digits that come of scaling a number into the range
from one to ten in this arithmetic. The digits can be off in the last place, since each step rounds.
-/

namespace BlockSketch

structure Extended where
  mantissa : Nat
  exponent : Int
  deriving Repr

namespace Extended

def ofQuotient (n d : Nat) : Extended :=
  if n = 0 then ⟨0, 0⟩ else
  let e : Int := (n.log2 : Int) - d.log2 - 63
  let (a, b) := Binary64.inUnits n d e
  let e := if a < b * Nat.pow 2 63 then e - 1 else e
  let (a, b) := Binary64.inUnits n d e
  ⟨Binary64.roundDiv a b, e⟩

def round (m : Nat) (e : Int) : Extended :=
  let (a, b) := Binary64.inUnits m 1 (-e)
  ofQuotient a b

/-- The mantissas of two numbers in units of the smaller of their last places. -/
def align (x y : Extended) : Nat × Nat × Int :=
  let e := min x.exponent y.exponent
  (x.mantissa * Nat.pow 2 (x.exponent - e).toNat, y.mantissa * Nat.pow 2 (y.exponent - e).toNat, e)

def mul (x y : Extended) : Extended :=
  round (x.mantissa * y.mantissa) (x.exponent + y.exponent)

def div (x y : Extended) : Extended :=
  let (a, b, _) := align x y
  ofQuotient a b

def add (x y : Extended) : Extended :=
  let (a, b, e) := align x y
  round (a + b) e

def sub (x y : Extended) : Extended :=
  let (a, b, e) := align x y
  round (a - b) e

def less (x y : Extended) : Bool :=
  let (a, b, _) := align x y
  a < b

def floor (x : Extended) : Nat :=
  let (a, b) := Binary64.inUnits x.mantissa 1 (-x.exponent)
  a / b

def ofNat (n : Nat) : Extended := ⟨n, 0⟩

def ofDecimal (digits : Nat) (power : Int) : Extended :=
  match Binary64.ofDecimal false digits power with
  | .finite _ m e => ⟨m, e⟩
  | _ => ⟨0, 0⟩

structure Scaled where
  value : Extended
  power : Int

/-- Multiplies by a power of ten while a number stays at least as large. -/
def grow (x factor : Extended) (step : Int) : Nat → Scaled → Scaled
  | 0, s => s
  | fuel + 1, s =>
    let next := s.value.mul factor
    if x.less next then s else grow x factor step fuel ⟨next, s.power + step⟩

def lift (bound factor : Extended) (step : Int) : Nat → Scaled → Scaled
  | 0, s => s
  | fuel + 1, s =>
    if s.value.less bound then lift bound factor step fuel ⟨s.value.mul factor, s.power - step⟩
    else s

def normalize (x : Extended) : Scaled :=
  let s : Scaled := ⟨ofNat 1, 0⟩
  let s := grow x (ofDecimal 1 100) 100 4 s
  let s := grow x (ofDecimal 1 10) 10 10 s
  let s := grow x (ofNat 10) 1 10 s
  let s : Scaled := ⟨x.div s.value, s.power⟩
  let s := lift (ofDecimal 1 (-8)) (ofDecimal 1 8) 8 50 s
  lift (ofNat 1) (ofNat 10) 1 10 s

/-- Half a unit in the fifteenth digit of a number between one and ten, rounded to 53 binary digits
as a product. -/
def halfUnit : Extended :=
  let x := ofDecimal 5 (-5)
  let y := ofDecimal 1 (-10)
  let (a, b) := Binary64.inUnits (x.mantissa * y.mantissa) 1 (-(x.exponent + y.exponent))
  match Binary64.ofQuotient false a b with
  | .finite _ m e => ⟨m, e⟩
  | _ => ⟨0, 0⟩

def digits (sofar : Nat) : Nat → Extended → Nat
  | 0, _ => sofar
  | count + 1, x =>
    let d := x.floor
    digits (sofar * 10 + d) count ((x.sub (ofNat d)).mul (ofNat 10))

def decimal (x : Extended) : Decimal :=
  let s := normalize x
  let v := s.value.add halfUnit
  let s : Scaled :=
    if v.less (ofNat 10) then ⟨v, s.power⟩ else ⟨v.mul (ofDecimal 1 (-1)), s.power + 1⟩
  Decimal.dropZeros 15 ⟨digits 0 15 s.value, s.power - 14⟩

end Extended

end BlockSketch
