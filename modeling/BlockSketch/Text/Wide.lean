/-!
# Wide encodings

Text in units of two bytes or of four, in either order of the bytes. A character beyond the first
65536 takes a pair of units of two bytes, a high surrogate and a low one.
-/

namespace BlockSketch.Text.Wide

inductive ByteOrder where
  | little
  | big
  deriving DecidableEq, Repr

def number (order : ByteOrder) (bytes : List UInt8) : Nat :=
  let bytes := match order with
    | .little => bytes.reverse
    | .big => bytes
  bytes.foldl (fun n b => n * 256 + b.toNat) 0

def isHigh (n : Nat) : Bool :=
  0xd800 ≤ n && n < 0xdc00

def isLow (n : Nat) : Bool :=
  0xdc00 ≤ n && n < 0xe000

/-- The character of a code, unless it is beyond the last. A surrogate without its other half is
shown as a replacement. -/
def char? (n : Nat) : Option Char :=
  if h : n.isValidChar then some (Char.ofNatAux n h)
  else if isHigh n || isLow n then some '\ufffd'
  else none

def pairCode (high low : Nat) : Nat :=
  0x10000 + (high - 0xd800) * 0x400 + (low - 0xdc00)

def units16? (order : ByteOrder) : List UInt8 → Option (List Nat)
  | [] => some []
  | a :: b :: rest => (units16? order rest).map (number order [a, b] :: ·)
  | [_] => none

def units32? (order : ByteOrder) : List UInt8 → Option (List Nat)
  | [] => some []
  | a :: b :: c :: d :: rest => (units32? order rest).map (number order [a, b, c, d] :: ·)
  | _ => none

def chars16? : List Nat → Option (List Char)
  | [] => some []
  | [n] => (char? n).map fun c => [c]
  | high :: low :: rest =>
    if isHigh high && isLow low then do
      let c ← char? (pairCode high low)
      (chars16? rest).map (c :: ·)
    else do
      let c ← char? high
      (chars16? (low :: rest)).map (c :: ·)

def decode16? (order : ByteOrder) (bytes : List UInt8) : Option (List Char) :=
  (units16? order bytes).bind chars16?

def decode32? (order : ByteOrder) (bytes : List UInt8) : Option (List Char) :=
  (units32? order bytes).bind fun units => units.mapM char?

end BlockSketch.Text.Wide
