import BlockSketch.Api.Host
import BlockSketch.Text.Utf8

/-!
# Request paths

Of an address only the path leads anywhere: it is cut out between host and query, decoded, and read
as segments between slashes.
-/

namespace BlockSketch.Api

/-- The bytes of a path. A percent sign before two hexadecimal digits stands for a byte; any other
stands for itself. -/
def percentBytes : List Char → List UInt8
  | '%' :: a :: b :: rest =>
    match hexValue? a, hexValue? b with
    | some high, some low => UInt8.ofNat (high * 16 + low) :: percentBytes rest
    | _, _ => UInt8.ofNat '%'.toNat :: percentBytes (a :: b :: rest)
  | c :: rest => String.utf8EncodeChar c ++ percentBytes rest
  | [] => []

def isSchemeChar (c : Char) : Bool :=
  c.isAlphanum || c == '+' || c == '-' || c == '.'

structure Address where
  scheme : List Char
  host : Option (List Char)
  path : List Char

def splitScheme (cs : List Char) : List Char × List Char :=
  match cs.takeWhile isSchemeChar, cs.dropWhile isSchemeChar with
  | first :: more, ':' :: rest => if first.isAlpha then (first :: more ++ [':'], rest) else ([], cs)
  | _, _ => ([], cs)

def splitHost : List Char → Option (List Char) × List Char
  | '/' :: '/' :: rest =>
    let ends (c : Char) := c == '/' || c == '?' || c == '#'
    (some (rest.takeWhile (!ends ·)), rest.dropWhile (!ends ·))
  | cs => (none, cs)

/-- Reads an address. Leading blanks are passed over, and so are tabs and line breaks anywhere. -/
def Address.read (cs : List Char) : Except Unfit Address := do
  let cs := cs.dropWhile (· ≤ ' ')
  let cs := cs.filter fun c => c != '\t' && c != '\r' && c != '\n'
  let (scheme, cs) := splitScheme cs
  let (host, cs) := splitHost cs
  checkHost (host.getD [])
  .ok ⟨scheme, host, cs.takeWhile fun c => c != '?' && c != '#'⟩

def mergeSlashes (after : Bool) : List Char → List Char
  | [] => []
  | c :: rest =>
    if c == '/' && after then mergeSlashes true rest else c :: mergeSlashes (c == '/') rest

structure Target where
  host : List Char
  path : List Char

/-- Reads where an address leads. The path is itself taken for an address, and the path of that for
one that is kept as a whole. -/
def Target.read (address : String) : Except Unfit Target := do
  let outer ← Address.read address.toList
  let inner ← Address.read outer.path
  let rest ← Address.read inner.path
  let host ← match rest.host with
    | some host => do .ok ('/' :: '/' :: (← normalHost host))
    | none => .ok []
  let path := rest.scheme ++ host ++ rest.path
  .ok { host := outer.host.getD []
        path := (Text.Utf8.decode (percentBytes path)).dropWhile (· == '/') }

def segments (path : List Char) : List String :=
  (splitAt '/' path).map String.ofList

end BlockSketch.Api
