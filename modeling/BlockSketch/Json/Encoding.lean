import BlockSketch.Json.Reader
import BlockSketch.Text.Utf8
import BlockSketch.Text.Wide

/-!
# Encodings of JSON

A JSON text begins with characters of one byte, so the zero bytes among its first four tell how it
is encoded.
-/

namespace BlockSketch.Json

open Text.Wide (ByteOrder)

inductive Encoding where
  | utf8
  | utf16 (order : ByteOrder)
  | utf32 (order : ByteOrder)
  deriving DecidableEq, Repr

namespace Encoding

def ofBytes : List UInt8 → Encoding
  | a :: b :: c :: d :: _ =>
    if a = 0 then (if b = 0 then .utf32 .big else .utf16 .big)
    else if b = 0 then (if c = 0 && d = 0 then .utf32 .little else .utf16 .little)
    else .utf8
  | [a, b] => if a = 0 then .utf16 .big else if b = 0 then .utf16 .little else .utf8
  | _ => .utf8

end Encoding

def dropMark : List Char → List Char
  | '\ufeff' :: rest => rest
  | cs => cs

/-- The characters of a text that was sent as the bytes of `cs` in UTF-8, in the encoding that these
bytes show. -/
def decodeChars? (cs : List Char) : Option (List Char) :=
  let bytes := Text.Utf8.encode cs
  match Encoding.ofBytes bytes with
  | .utf8 => some (dropMark cs)
  | .utf16 order => Text.Wide.decode16? order bytes
  | .utf32 order => Text.Wide.decode32? order bytes

def readSent? (s : String) : Option Value := do
  let cs ← decodeChars? s.toList
  (read (.ofList cs)).toOption

end BlockSketch.Json
