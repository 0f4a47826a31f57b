import BlockSketch.Value.Basic

/-!
# Tables

Entries by key, in the order in which the keys first came. Values without parts can be keys, and two
keys are one if they coincide: `1`, `1.0` and `true` are one key. A new entry for a key leaves the
key and its place as they are.
-/

namespace BlockSketch

abbrev Table (α : Type u) := List (Value × α)

namespace Table

def find? (entries : Table α) (key : Value) : Option α :=
  (List.find? (·.1.coincides key) entries).map Prod.snd

def has (entries : Table α) (key : Value) : Bool :=
  (find? entries key).isSome

def keys (entries : Table α) : List Value :=
  entries.map Prod.fst

def put (entries : Table α) (key : Value) (entry : α) : Table α :=
  match entries with
  | [] => [(key, entry)]
  | (k, e) :: rest => if k.coincides key then (k, entry) :: rest else (k, e) :: put rest key entry

def remove (entries : Table α) (key : Value) : Table α :=
  entries.filter (!·.1.coincides key)

/-- Entries one after the other. Of two with one key the later entry counts, in the earlier
place. -/
def ofList (entries : List (Value × α)) : Table α :=
  entries.foldl (fun acc (k, e) => put acc k e) []

end Table

inductive EntriesError where
  | illTyped
  | notPair (place size : Nat)

namespace Table

def readEntry (place : Nat) (v : Value) : Except EntriesError (Value × Value) :=
  match v.items? with
  | some [key, entry] => if key.isContainer then .error .illTyped else .ok (key, entry)
  | some items => .error (.notPair place items.length)
  | none => .error .illTyped

def readEntries (place : Nat) : List Value → Except EntriesError (List (Value × Value))
  | [] => .ok []
  | v :: rest => do
    let entry ← readEntry place v
    let entries ← readEntries (place + 1) rest
    .ok (entry :: entries)

/-- The entries that a value gives: the members of an object, or else the pairs that going through
the value meets. -/
def ofValue (v : Value) : Except EntriesError (Table Value) :=
  match v, v.items? with
  | .object members, _ => .ok (members.map fun (name, entry) => (.text name, entry))
  | _, some items => (readEntries 0 items).map ofList
  | _, none => .error .illTyped

end Table

end BlockSketch
