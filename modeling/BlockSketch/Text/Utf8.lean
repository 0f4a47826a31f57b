/-!
# UTF-8

Bytes as text. Bytes that are no part of a character are replaced: every longest piece that could
have begun a character, and every byte that begins none, becomes one replacement character.
-/

namespace BlockSketch.Text.Utf8

def replacement : Char := '\ufffd'

def encode (cs : List Char) : List UInt8 :=
  cs.flatMap String.utf8EncodeChar

/-- A character begun: the bits so far, and the bounds of each byte still to come. -/
structure Partial where
  bits : Nat
  bounds : List (Nat × Nat)

def continuation : Nat × Nat := (0x80, 0xbf)

/-- What a leading byte begins. The bounds of the byte after it keep out long forms, surrogates and
codes beyond the last. -/
def begin? (b : Nat) : Option Partial :=
  if 0xc2 ≤ b && b ≤ 0xdf then some ⟨b - 0xc0, [continuation]⟩
  else if b = 0xe0 then some ⟨0, [(0xa0, 0xbf), continuation]⟩
  else if b = 0xed then some ⟨0xd, [(0x80, 0x9f), continuation]⟩
  else if 0xe1 ≤ b && b ≤ 0xef then some ⟨b - 0xe0, [continuation, continuation]⟩
  else if b = 0xf0 then some ⟨0, [(0x90, 0xbf), continuation, continuation]⟩
  else if b = 0xf4 then some ⟨4, [(0x80, 0x8f), continuation, continuation]⟩
  else if 0xf1 ≤ b && b ≤ 0xf3 then some ⟨b - 0xf0, [continuation, continuation, continuation]⟩
  else none

def first (b : Nat) : List Char × Option Partial :=
  if b < 0x80 then ([Char.ofNat b], none)
  else match begin? b with
    | some p => ([], some p)
    | none => ([replacement], none)

def step (p : Option Partial) (b : Nat) : List Char × Option Partial :=
  match p with
  | some ⟨bits, (low, high) :: rest⟩ =>
    if low ≤ b && b ≤ high then
      let bits := bits * 64 + (b - 0x80)
      if rest.isEmpty then ([Char.ofNat bits], none) else ([], some ⟨bits, rest⟩)
    else
      let (cs, p) := first b
      (replacement :: cs, p)
  | _ => first b

def decodeFrom (p : Option Partial) : List UInt8 → List Char
  | [] => if p.isSome then [replacement] else []
  | b :: rest =>
    let (cs, p) := step p b.toNat
    cs ++ decodeFrom p rest

def decode (bytes : List UInt8) : List Char :=
  decodeFrom none bytes

end BlockSketch.Text.Utf8
