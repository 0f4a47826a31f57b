import BlockSketch.Error

/-!
# Hosts

The host in an address: a name, with a user before it and a number after it. A name in brackets is
an address in groups of hexadecimal digits, or one of a later version.
-/

namespace BlockSketch.Api

def partitionAt (c : Char) (cs : List Char) : List Char × List Char :=
  (cs.takeWhile (· != c), (cs.dropWhile (· != c)).drop 1)

def splitAt (mark : Char) : List Char → List (List Char)
  | [] => [[]]
  | c :: rest =>
    if c = mark then [] :: splitAt mark rest
    else match splitAt mark rest with
      | [] => [[c]]
      | piece :: others => (c :: piece) :: others

def decimalValue (digits : List Char) : Nat :=
  digits.foldl (fun n c => n * 10 + (c.toNat - '0'.toNat)) 0

def hexValue? (c : Char) : Option Nat :=
  if '0' ≤ c && c ≤ '9' then some (c.toNat - '0'.toNat)
  else if 'a' ≤ c && c ≤ 'f' then some (c.toNat - 'a'.toNat + 10)
  else if 'A' ≤ c && c ≤ 'F' then some (c.toNat - 'A'.toNat + 10)
  else none

-- ---------------------------------------------------------------------------
-- Names in brackets
-- ---------------------------------------------------------------------------

def isByte (digits : List Char) : Bool :=
  !digits.isEmpty && digits.all Char.isDigit && digits.length ≤ 3 && decimalValue digits ≤ 255 &&
    (digits.head? != some '0' || digits.length = 1)

def isQuad (cs : List Char) : Bool :=
  let bytes := splitAt '.' cs
  bytes.length = 4 && bytes.all isByte

def isGroup (digits : List Char) : Bool :=
  !digits.isEmpty && digits.length ≤ 4 && digits.all fun c => (hexValue? c).isSome

def groups (cs : List Char) : Option (List (List Char)) :=
  let parts := splitAt ':' cs
  let last := parts.getLast?.getD []
  if parts.length < 3 then none
  else if !last.contains '.' then some parts
  else if isQuad last then some (parts.dropLast ++ [['0'], ['0']])
  else none

def besideGap (parts : List (List Char)) : List (List Char) :=
  if parts = [[]] then [] else parts

/-- Eight groups, or fewer with one gap for those that are left out. -/
def areGroups (parts : List (List Char)) : Bool :=
  match (List.range parts.length).filter fun i =>
      0 < i && i + 1 < parts.length && parts[i]? == some [] with
  | [] => parts.length = 8 && parts.all isGroup
  | [gap] =>
    let named := besideGap (parts.take gap) ++ besideGap (parts.drop (gap + 1))
    named.length < 8 && named.all isGroup
  | _ => false

def isGroupAddress (cs : List Char) : Bool :=
  let (address, zone) := partitionAt '%' cs
  (!cs.contains '%' || (!zone.isEmpty && !zone.contains '%')) && (groups address).any areGroups

def isLaterAddress (cs : List Char) : Bool :=
  let (version, rest) := partitionAt '.' (cs.drop 1)
  !version.isEmpty && version.all (fun c => (hexValue? c).isSome) && !rest.isEmpty

def checkBracketed (name : List Char) : Except Unfit Unit :=
  if name.head? = some 'v' then
    if isLaterAddress name then .ok () else .error .hostVersion
  else if isQuad name then .error .hostQuad
  else if isGroupAddress name then .ok ()
  else .error (.hostAddress (.ofList name))

/-- Characters that stand for a text with a separator of addresses in it. -/
def isSeparatorForm (c : Char) : Bool :=
  [0x2047, 0x2048, 0x2049, 0x2100, 0x2101, 0x2105, 0x2106, 0x2a74, 0xfe13, 0xfe16, 0xfe55, 0xfe56,
    0xfe5f, 0xfe6b, 0xff03, 0xff0f, 0xff1a, 0xff1f, 0xff20].contains c.toNat

def checkHost (host : List Char) : Except Unfit Unit := do
  if host.contains '[' != host.contains ']' then .error .hostBrackets
  if host.contains '[' then checkBracketed (partitionAt ']' (partitionAt '[' host).2).1
  if host.any isSeparatorForm then .error (.hostCharacters (.ofList host))

-- ---------------------------------------------------------------------------
-- Parts of a host
-- ---------------------------------------------------------------------------

/-- Whether a host can be looked up by its name: every label but the last has a character, and none
has more than 63. A name beyond ASCII is taken as it is. -/
def isHostName (name : List Char) : Bool :=
  let labels := splitAt '.' name
  name.any (127 < ·.toNat) ||
    (labels.all (·.length < 64) && labels.dropLast.all (!·.isEmpty))

def lowerHost (name : List Char) : List Char :=
  (name.takeWhile (· != '%')).map Char.toLower ++ name.dropWhile (· != '%')

def splitUser (host : List Char) : List Char × List Char :=
  if host.contains '@' then
    let reversed := partitionAt '@' host.reverse
    (reversed.2.reverse, reversed.1.reverse)
  else ([], host)

def splitNumber (host : List Char) : List Char × List Char :=
  if host.contains '[' then
    let (name, rest) := partitionAt ']' (partitionAt '[' host).2
    (name, (partitionAt ':' rest).2)
  else partitionAt ':' host

def readPortNumber (digits : List Char) : Except Unfit Nat :=
  if digits.isEmpty then .ok 0
  else if !digits.all Char.isDigit then .error (.portText (.ofList digits))
  else
    let n := decimalValue digits
    if 65535 < n then .error .portRange else .ok n

def normalUser (user : List Char) : List Char :=
  match partitionAt ':' user with
  | ([], _) => []
  | (name, []) => name ++ ['@']
  | (name, password) => name ++ ':' :: password ++ ['@']

/-- A host as it stands in a path: the user unless its name is empty, the name in small letters, and
the number unless it is zero. -/
def normalHost (host : List Char) : Except Unfit (List Char) := do
  let (user, host) := splitUser host
  let (name, digits) := splitNumber host
  if !isHostName name then .error .hostLabel
  else
    let n ← readPortNumber digits
    let name := lowerHost name
    let name := if name.contains ':' then '[' :: name ++ [']'] else name
    .ok (normalUser user ++ name ++ if n = 0 then [] else ':' :: (toString n).toList)

end BlockSketch.Api
