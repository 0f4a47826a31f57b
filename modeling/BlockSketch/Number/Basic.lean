import BlockSketch.Number.Binary64

/-!
# Numbers

A number is an integer of any size or a binary64 number, and keeps which of the two it is. Order and
equality compare the exact values across the two.
-/

namespace BlockSketch

inductive Number where
  | int (n : Int)
  | real (x : Binary64)
  deriving DecidableEq, Repr, Inhabited

namespace Number

inductive Magnitude where
  | dyadic (coefficient exponent : Int)
  | infinite (negative : Bool)
  | undefined

def magnitude : Number → Magnitude
  | .int n => .dyadic n 0
  | .real (.finite negative m e) => .dyadic (Binary64.signed negative m) e
  | .real (.infinite negative) => .infinite negative
  | .real (.nan _) => .undefined

/-- Two dyadic values as integers over one common power of two. -/
def Magnitude.align (m e m' e' : Int) : Int × Int :=
  let k := min e e'
  (m * Int.pow 2 (e - k).toNat, m' * Int.pow 2 (e' - k).toNat)

def less (a b : Number) : Bool :=
  match a.magnitude, b.magnitude with
  | .undefined, _ | _, .undefined => false
  | .infinite s, .infinite t => s && !t
  | .infinite s, .dyadic .. => s
  | .dyadic .., .infinite t => !t
  | .dyadic m e, .dyadic m' e' => let (x, y) := Magnitude.align m e m' e'; x < y

def same (a b : Number) : Bool :=
  match a.magnitude, b.magnitude with
  | .infinite s, .infinite t => s == t
  | .dyadic m e, .dyadic m' e' => let (x, y) := Magnitude.align m e m' e'; x == y
  | _, _ => false

def label? : Number → Option Nat
  | .real (.nan label) => some label
  | _ => none

def isFinite : Number → Bool
  | .int _ => true
  | .real x => x.isFinite

end Number

end BlockSketch
