import BlockSketch.Number.Extended
import BlockSketch.Number.Style
import BlockSketch.Value.Basic

/-!
# Text columns

What a value becomes in a column that holds texts.
-/

namespace BlockSketch.Column

/-- Reals have fifteen digits and always a point; below `10^-4` and from `10^15` on they have an
exponent. -/
def realStyle : DecimalStyle := ⟨-4, 15, true⟩

def realText : Binary64 → Option String
  | .nan _ => none
  | .infinite negative => some (Binary64.sign negative ++ "Inf")
  | .finite negative m e =>
    if m = 0 then some "0.0"
    else some (Binary64.sign negative ++ realStyle.write (Extended.decimal ⟨m, e⟩))

def fits (n : Int) : Bool :=
  -(Int.pow 2 63) ≤ n && n < Int.pow 2 63

/-- The stored text, nothing in place of null, or a refusal. -/
def store : Value → Option (Option String)
  | .null => some none
  | .text s => some (some s)
  | .bool b => some (some (if b then "1" else "0"))
  | .number (.int n) => if fits n then some (some (toString n)) else none
  | .number (.real x) => some (realText x)
  | .list _ | .object _ => none

end BlockSketch.Column
