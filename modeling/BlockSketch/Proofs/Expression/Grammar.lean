import BlockSketch.Sketch.Identifier
import BlockSketch.Value.Assoc

/-!
# Expressions of the sketch language

The expressions of C++ as a text is read: first into tokens, each as long as it can be, then into a
tree of operators by recursive descent, one production for each level of precedence. The levels are
those of `Sketch.Order`, from the operands at 0 to the assignments at 14; the comma is at 15.
-/

namespace BlockSketch.Expression

open Sketch (isNameStart isNameChar)

-- ---------------------------------------------------------------------------
-- Trees
-- ---------------------------------------------------------------------------

inductive Unary where
  | neg | plus | not | complement
  deriving DecidableEq, Repr

inductive Binary where
  | mul | div | rem | add | sub | shiftLeft | shiftRight | less | lessEq | greater | greaterEq
  | eq | notEq | bitAnd | bitXor | bitOr | and | or
  deriving DecidableEq, Repr

inductive Tree where
  | name (s : String)
  | number (s : String)
  /-- A string literal by what it stands for. -/
  | text (s : String)
  | boolean (b : Bool)
  | unary (op : Unary) (operand : Tree)
  | binary (op : Binary) (left right : Tree)
  | conditional (condition yes no : Tree)
  /-- With an operator, the assignment is a compound one. -/
  | assign (op : Option Binary) (target value : Tree)
  | comma (left right : Tree)
  | call (function : Tree) (arguments : List Tree)
  | index (array position : Tree)
  | member (object : Tree) (name : String)

def Unary.sign : Unary → String
  | .neg => "-"
  | .plus => "+"
  | .not => "!"
  | .complement => "~"

def Unary.all : List Unary := [.neg, .plus, .not, .complement]

def unary? (s : String) : Option Unary :=
  Unary.all.find? (·.sign = s)

def Binary.sign : Binary → String
  | .mul => "*"
  | .div => "/"
  | .rem => "%"
  | .add => "+"
  | .sub => "-"
  | .shiftLeft => "<<"
  | .shiftRight => ">>"
  | .less => "<"
  | .lessEq => "<="
  | .greater => ">"
  | .greaterEq => ">="
  | .eq => "=="
  | .notEq => "!="
  | .bitAnd => "&"
  | .bitXor => "^"
  | .bitOr => "|"
  | .and => "&&"
  | .or => "||"

def Binary.level : Binary → Nat
  | .mul | .div | .rem => 3
  | .add | .sub => 4
  | .shiftLeft | .shiftRight => 5
  | .less | .lessEq | .greater | .greaterEq => 6
  | .eq | .notEq => 7
  | .bitAnd => 8
  | .bitXor => 9
  | .bitOr => 10
  | .and => 11
  | .or => 12

def Binary.all : List Binary := [
  .mul, .div, .rem, .add, .sub, .shiftLeft, .shiftRight, .less, .lessEq, .greater, .greaterEq,
  .eq, .notEq, .bitAnd, .bitXor, .bitOr, .and, .or]

def binary? (s : String) : Option Binary :=
  Binary.all.find? (·.sign = s)

def compounded : List Binary :=
  [.mul, .div, .rem, .add, .sub, .shiftLeft, .shiftRight, .bitAnd, .bitXor, .bitOr]

def assignment? (s : String) : Option (Option Binary) :=
  if s = "=" then some none else (compounded.find? fun op => op.sign ++ "=" = s).map some

-- ---------------------------------------------------------------------------
-- Tokens
-- ---------------------------------------------------------------------------

inductive Token where
  | name (s : String)
  | number (s : String)
  | text (s : String)
  | boolean (b : Bool)
  | sign (s : String)
  deriving DecidableEq, Repr

def signWords : Assoc String := [
  ("and", "&&"), ("and_eq", "&="), ("bitand", "&"), ("bitor", "|"), ("compl", "~"), ("not", "!"),
  ("not_eq", "!="), ("or", "||"), ("or_eq", "|="), ("xor", "^"), ("xor_eq", "^=")]

def wordToken (s : String) : Token :=
  if s = "true" then .boolean true
  else if s = "false" then .boolean false
  else match signWords.find? s with
    | some sign => .sign sign
    | none => .name s

/-- The signs, a longer one before those it starts with. -/
def signs : List String := [
  "<<=", ">>=", "++", "--", "->", "<<", ">>", "<=", ">=", "==", "!=", "&&", "||", "+=", "-=", "*=",
  "/=", "%=", "&=", "|=", "^=", "+", "-", "*", "/", "%", "<", ">", "=", "!", "&", "|", "^", "~", "?",
  ":", ",", ".", "(", ")", "[", "]"]

def isExponentMark (c : Char) : Bool :=
  c = 'e' || c = 'E'

/-- Whether a number goes on with `c`; a sign belongs to it right after an exponent mark. -/
def extendsNumber (marked : Bool) (c : Char) : Bool :=
  isNameChar c || c = '.' || (marked && (c = '+' || c = '-'))

def numberTail : Bool → List Char → List Char × List Char
  | _, [] => ([], [])
  | marked, c :: rest =>
    if extendsNumber marked c then
      let (tail, rest) := numberTail (isExponentMark c) rest
      (c :: tail, rest)
    else ([], c :: rest)

def escaped? (c : Char) : Option Char :=
  match c with
  | 'n' => some '\n'
  | 'r' => some '\r'
  | 't' => some '\t'
  | '\\' => some '\\'
  | '"' => some '"'
  | '\'' => some '\''
  | '?' => some '?'
  | _ => none

/-- What is left of a string literal up to its closing quote, and what comes after that. -/
def textTail : List Char → Option (List Char × List Char)
  | [] => none
  | '"' :: rest => some ([], rest)
  | '\n' :: _ => none
  | '\\' :: c :: rest => do
    let c ← escaped? c
    let (tail, rest) ← textTail rest
    some (c :: tail, rest)
  | c :: rest => do
    let (tail, rest) ← textTail rest
    some (c :: tail, rest)

def readToken : List Char → Option (Token × List Char)
  | [] => none
  | c :: rest =>
    if isNameStart c then
      some (wordToken (.ofList (c :: rest.takeWhile isNameChar)), rest.dropWhile isNameChar)
    else if c.isDigit || (c = '.' && rest.head?.any Char.isDigit) then
      let (tail, rest) := numberTail false rest
      some (.number (.ofList (c :: tail)), rest)
    else if c = '"' then do
      let (tail, rest) ← textTail rest
      some (.text (.ofList tail), rest)
    else do
      let s ← signs.find? fun s => s.toList.isPrefixOf (c :: rest)
      some (.sign s, (c :: rest).drop s.toList.length)

/-- All tokens of a text. Each has a character at least, so a fuel above the number of characters is
not used up. -/
def tokens : Nat → List Char → Option (List Token)
  | 0, _ => none
  | _, [] => some []
  | fuel + 1, c :: rest =>
    if c.isWhitespace then tokens fuel rest
    else do
      let (token, rest) ← readToken (c :: rest)
      let others ← tokens fuel rest
      some (token :: others)

-- ---------------------------------------------------------------------------
-- Productions
-- ---------------------------------------------------------------------------

abbrev Reader (α : Type) := List Token → Option (α × List Token)

def expect (s : String) : Reader Unit
  | .sign s' :: rest => if s' = s then some ((), rest) else none
  | _ => none

section

-- How the expressions of a level are read inside a production.
variable (inner : Nat → Reader Tree)

def primary : Reader Tree
  | .name s :: rest => some (.name s, rest)
  | .number s :: rest => some (.number s, rest)
  | .text s :: rest => some (.text s, rest)
  | .boolean b :: rest => some (.boolean b, rest)
  | .sign s :: rest =>
    if s = "(" then do
      let (t, rest) ← inner 15 rest
      let ((), rest) ← expect ")" rest
      some (t, rest)
    else none
  | [] => none

def moreArguments : Nat → Reader (List Tree)
  | fuel + 1, .sign s :: rest =>
    if s = ")" then some ([], rest)
    else if s = "," then do
      let (t, rest) ← inner 14 rest
      let (ts, rest) ← moreArguments fuel rest
      some (t :: ts, rest)
    else none
  | _, _ => none

def arguments (fuel : Nat) : Reader (List Tree) := fun ts =>
  match expect ")" ts with
  | some ((), rest) => some ([], rest)
  | none => do
    let (t, rest) ← inner 14 ts
    let (others, rest) ← moreArguments inner fuel rest
    some (t :: others, rest)

def postfixes : Nat → Tree → Reader Tree
  | fuel + 1, t, .sign s :: rest =>
    if s = "(" then do
      let (others, rest) ← arguments inner fuel rest
      postfixes fuel (.call t others) rest
    else if s = "[" then do
      let (i, rest) ← inner 15 rest
      let ((), rest) ← expect "]" rest
      postfixes fuel (.index t i) rest
    else if s = "." then
      match rest with
      | .name m :: rest => postfixes fuel (.member t m) rest
      | _ => none
    else some (t, .sign s :: rest)
  | _ + 1, t, rest => some (t, rest)
  | 0, _, _ => none

def prefixed : Reader Tree
  | .sign s :: rest =>
    match unary? s with
    | some op => do
      let (t, rest) ← inner 2 rest
      some (.unary op t, rest)
    | none => inner 1 (.sign s :: rest)
  | ts => inner 1 ts

/-- The operators of one level and their right operands; the operators group from the left. -/
def chain (level : Nat) : Nat → Tree → Reader Tree
  | fuel + 1, t, .sign s :: rest =>
    match (binary? s).filter (·.level = level) with
    | some op => do
      let (right, rest) ← inner (level - 1) rest
      chain level fuel (.binary op t right) rest
    | none => some (t, .sign s :: rest)
  | _ + 1, t, rest => some (t, rest)
  | 0, _, _ => none

def alternatives (t : Tree) : Reader Tree := fun ts =>
  match expect "?" ts with
  | some ((), rest) => do
    let (yes, rest) ← inner 15 rest
    let ((), rest) ← expect ":" rest
    let (no, rest) ← inner 14 rest
    some (.conditional t yes no, rest)
  | none => some (t, ts)

def assigned (t : Tree) : Reader Tree
  | .sign s :: rest =>
    match assignment? s with
    | some op => do
      let (value, rest) ← inner 14 rest
      some (.assign op t value, rest)
    | none => some (t, .sign s :: rest)
  | rest => some (t, rest)

def commas : Nat → Tree → Reader Tree
  | fuel + 1, t, ts =>
    match expect "," ts with
    | some ((), rest) => do
      let (right, rest) ← inner 14 rest
      commas fuel (.comma t right) rest
    | none => some (t, ts)
  | 0, _, _ => none

def continued (level fuel : Nat) (t : Tree) : Reader Tree :=
  if level = 1 then postfixes inner fuel t
  else if level ≤ 12 then chain inner level fuel t
  else if level = 13 then alternatives inner t
  else if level = 14 then assigned inner t
  else commas inner fuel t

end

def parseAt : Nat → Nat → Reader Tree
  | 0, _, _ => none
  | fuel + 1, level, ts =>
    if level = 0 then primary (parseAt fuel) ts
    else if level = 2 then prefixed (parseAt fuel) ts
    else do
      let (t, rest) ← parseAt fuel (level - 1) ts
      continued (parseAt fuel) level fuel t rest

/-- The fuel for so many tokens: every level is entered at most once before a token is read. -/
def enough (count : Nat) : Nat :=
  20 * count + 16

/-- The operator tree of a text that is an expression as a whole. -/
def parse (s : String) : Option Tree := do
  let ts ← tokens (s.length + 1) s.toList
  let (t, rest) ← parseAt (enough ts.length) 15 ts
  if rest.isEmpty then some t else none

end BlockSketch.Expression
