import BlockSketch.Text.Printable

/-!
# Quoted text

Text as it is shown inside a message: in single quotes, or in double quotes when it holds a single
quote and no double quote, with escapes for what cannot be printed.
-/

namespace BlockSketch.Text

/-- `n` in lower-case hexadecimal, padded with zeros to `width` digits. -/
def hex (width n : Nat) : String :=
  let ds := Nat.toDigits 16 n
  .ofList (List.replicate (width - ds.length) '0' ++ ds)

def quoteFor (cs : List Char) : Char :=
  if cs.contains '\'' && !cs.contains '"' then '"' else '\''

def quoteChar (quote c : Char) : String :=
  if c = quote || c = '\\' then .ofList ['\\', c]
  else if c = '\n' then "\\n"
  else if c = '\r' then "\\r"
  else if c = '\t' then "\\t"
  else if isPrintable c then .singleton c
  else if c.toNat < 0x100 then "\\x" ++ hex 2 c.toNat
  else if c.toNat < 0x10000 then "\\u" ++ hex 4 c.toNat
  else "\\U" ++ hex 8 c.toNat

def quoted (s : String) : String :=
  let quote := quoteFor s.toList
  .singleton quote ++ String.join (s.toList.map (quoteChar quote)) ++ .singleton quote

end BlockSketch.Text
