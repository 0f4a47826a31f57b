/-!
# Binary64 numbers

A finite number is a sign, a mantissa and a power of two. Quotients of naturals are rounded once, to
the nearest number and from a tie to the even mantissa, in exact arithmetic.
-/

namespace BlockSketch

/-- `finite s m e` stands for `m · 2^e` with sign `s`. The operations below produce canonical
numbers: `m < 2^53` and `-1074 ≤ e ≤ 971`, and `2^52 ≤ m` unless `e = -1074`. What is not a number
carries a label that tells it from others. -/
inductive Binary64 where
  | finite (negative : Bool) (mantissa : Nat) (exponent : Int)
  | infinite (negative : Bool)
  | nan (label : Nat)
  deriving DecidableEq, Repr, Inhabited

namespace Binary64

def minExponent : Int := -1074

def maxExponent : Int := 971

def zero (negative : Bool) : Binary64 :=
  .finite negative 0 minExponent

/-- The quotient rounded to the nearest natural, from a tie to the even one. -/
def roundDiv (n d : Nat) : Nat :=
  let q := n / d
  let r := n % d
  if d < 2 * r || (2 * r == d && q % 2 == 1) then q + 1 else q

def inUnits (n d : Nat) (e : Int) : Nat × Nat :=
  if 0 ≤ e then (n, d * Nat.pow 2 e.toNat) else (n * Nat.pow 2 (-e).toNat, d)

/-- The least exponent, not below the smallest, for which `n / d` has at most 53 binary digits. -/
def quotientExponent (n d : Nat) : Int :=
  let e : Int := (n.log2 : Int) - d.log2 - 52
  let (a, b) := inUnits n d e
  max (if a < b * Nat.pow 2 52 then e - 1 else e) minExponent

def bounded (negative : Bool) (m : Nat) (e : Int) : Binary64 :=
  if maxExponent < e then .infinite negative else .finite negative m e

/-- `m · 2^e`, where `m` may have been rounded up to one binary digit too many. -/
def carry (negative : Bool) (m : Nat) (e : Int) : Binary64 :=
  if m = Nat.pow 2 53 then bounded negative (Nat.pow 2 52) (e + 1) else bounded negative m e

def roundAt (negative : Bool) (e : Int) (units : Nat × Nat) : Binary64 :=
  carry negative (roundDiv units.1 units.2) e

def ofQuotient (negative : Bool) (n d : Nat) : Binary64 :=
  if n = 0 then zero negative else
  let e := quotientExponent n d
  roundAt negative e (inUnits n d e)

def ofInt (n : Int) : Binary64 :=
  ofQuotient (n < 0) n.natAbs 1

/-- The number nearest to `digits · 10^power`. The two early answers only keep the powers small. -/
def ofDecimal (negative : Bool) (digits : Nat) (power : Int) : Binary64 :=
  let size := power + (Nat.toDigits 10 digits).length
  if digits = 0 || size < -400 then zero negative
  else if 400 < size then .infinite negative
  else if 0 ≤ power then ofQuotient negative (digits * Nat.pow 10 power.toNat) 1
  else ofQuotient negative digits (Nat.pow 10 (-power).toNat)

def signed (negative : Bool) (n : Nat) : Int :=
  if negative then -n else n

def isFinite : Binary64 → Bool
  | .finite .. => true
  | _ => false

def toInt? : Binary64 → Option Int
  | .finite negative m e =>
    if 0 ≤ e then some (signed negative (m * Nat.pow 2 e.toNat))
    else if m % Nat.pow 2 (-e).toNat = 0 then some (signed negative (m / Nat.pow 2 (-e).toNat))
    else none
  | _ => none

def truncate? : Binary64 → Option Int
  | .finite negative m e =>
    some (signed negative (if 0 ≤ e then m * Nat.pow 2 e.toNat else m / Nat.pow 2 (-e).toNat))
  | _ => none

end Binary64

end BlockSketch
