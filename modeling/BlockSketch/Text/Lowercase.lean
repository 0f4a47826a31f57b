import BlockSketch.Text.CaseTables

/-!
# Small letters

Every capital has one small letter, with two exceptions: the capital I with a dot becomes an i with
a combining dot, and a sigma at the end of a word has a form of its own.
-/

namespace BlockSketch.Text

def lowerChar (c : Char) : List Char :=
  if c = '\u0130' then ['i', '\u0307']
  else match capitalRuns.find? fun run =>
      run.first ≤ c.toNat && c.toNat ≤ run.last && (c.toNat - run.first) % run.step == 0 with
    | some run => [Char.ofNat (c.toNat + run.shift).toNat]
    | none => [c]

def meetsCased (cs : List Char) : Bool :=
  match cs.find? (!caseIgnorableRanges.contains ·) with
  | some c => casedRanges.contains c
  | none => false

/-- `before` holds the characters already passed, the nearest first. -/
def lowerFrom (before : List Char) : List Char → List Char
  | [] => []
  | c :: rest =>
    let small :=
      if c = 'Σ' then [if meetsCased before && !meetsCased rest then 'ς' else 'σ'] else lowerChar c
    small ++ lowerFrom (c :: before) rest

def lower (s : String) : String :=
  .ofList (lowerFrom [] s.toList)

end BlockSketch.Text
