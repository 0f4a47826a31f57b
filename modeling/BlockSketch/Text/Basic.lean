/-!
# Characters and texts

Classes of characters are given by ranges of code points. The blank characters are the Unicode white
space together with the four information separators U+001C to U+001F. Texts are ordered by code
points.
-/

namespace BlockSketch.Text

-- ---------------------------------------------------------------------------
-- Ranges
-- ---------------------------------------------------------------------------

/-- Inclusive ranges `(first, last)` in ascending order. -/
abbrev CodeRanges := List (Nat × Nat)

def CodeRanges.contains (ranges : CodeRanges) (c : Char) : Bool :=
  ranges.any fun (first, last) => first ≤ c.toNat && c.toNat ≤ last

-- ---------------------------------------------------------------------------
-- Blanks
-- ---------------------------------------------------------------------------

def blankRanges : CodeRanges := [
  (0x9, 0xd), (0x1c, 0x20), (0x85, 0x85), (0xa0, 0xa0), (0x1680, 0x1680), (0x2000, 0x200a),
  (0x2028, 0x2029), (0x202f, 0x202f), (0x205f, 0x205f), (0x3000, 0x3000)]

def isBlank (c : Char) : Bool :=
  blankRanges.contains c

def trimBy (p : Char → Bool) (cs : List Char) : List Char :=
  ((cs.dropWhile p).reverse.dropWhile p).reverse

def trim (s : String) : String :=
  .ofList (trimBy isBlank s.toList)

def isAllBlank (cs : List Char) : Bool :=
  cs.all isBlank

-- ---------------------------------------------------------------------------
-- Digits
-- ---------------------------------------------------------------------------

-- The digits of a script are ten consecutive code points, so only the zeros are listed.
def digitZeros : List Nat := [
  0x30, 0x660, 0x6f0, 0x7c0, 0x966, 0x9e6, 0xa66, 0xae6, 0xb66, 0xbe6, 0xc66, 0xce6, 0xd66,
  0xde6, 0xe50, 0xed0, 0xf20, 0x1040, 0x1090, 0x17e0, 0x1810, 0x1946, 0x19d0, 0x1a80, 0x1a90,
  0x1b50, 0x1bb0, 0x1c40, 0x1c50, 0xa620, 0xa8d0, 0xa900, 0xa9d0, 0xa9f0, 0xaa50, 0xabf0, 0xff10,
  0x104a0, 0x10d30, 0x11066, 0x110f0, 0x11136, 0x111d0, 0x112f0, 0x11450, 0x114d0, 0x11650,
  0x116c0, 0x11730, 0x118e0, 0x11950, 0x11c50, 0x11d50, 0x11da0, 0x16a60, 0x16ac0, 0x16b50,
  0x1d7ce, 0x1d7d8, 0x1d7e2, 0x1d7ec, 0x1d7f6, 0x1e140, 0x1e2f0, 0x1e950, 0x1fbf0]

def digitValue? (c : Char) : Option Nat :=
  (digitZeros.find? fun first => first ≤ c.toNat && c.toNat < first + 10).map (c.toNat - ·)

def isDecimalDigit (c : Char) : Bool :=
  (digitValue? c).isSome

-- ---------------------------------------------------------------------------
-- Order and occurrence
-- ---------------------------------------------------------------------------

def sorted (texts : List String) : List String :=
  texts.mergeSort fun a b => decide (a ≤ b)

def sortedSet (texts : List String) : List String :=
  sorted texts.eraseDups

/-- Whether `part` starts at some place of `cs`, the end included. -/
def startsWithin (part : List Char) : List Char → Bool
  | [] => part.isEmpty
  | c :: cs => part.isPrefixOf (c :: cs) || startsWithin part cs

def occursIn (text part : String) : Bool :=
  startsWithin part.toList text.toList

end BlockSketch.Text
