/-!
# Associations

Names with values in the order in which the names first came. Giving a name a new value keeps its
place.
-/

namespace BlockSketch

abbrev Assoc (α : Type u) := List (String × α)

namespace Assoc

def find? (entries : Assoc α) (name : String) : Option α :=
  List.lookup name entries

def has (entries : Assoc α) (name : String) : Bool :=
  (find? entries name).isSome

def names (entries : Assoc α) : List String :=
  entries.map Prod.fst

def put (entries : Assoc α) (name : String) (value : α) : Assoc α :=
  match entries with
  | [] => [(name, value)]
  | (n, v) :: rest => if n = name then (n, value) :: rest else (n, v) :: put rest name value

def remove (entries : Assoc α) (name : String) : Assoc α :=
  entries.filter (·.1 ≠ name)

/-- Entries one after the other. Of two with one name the later value counts, in the earlier
place. -/
def ofList (entries : List (String × α)) : Assoc α :=
  entries.foldl (fun acc (n, v) => put acc n v) []

end Assoc

end BlockSketch
