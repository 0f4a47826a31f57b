/-!
# Files

A tree of directories and files, and what reading, writing and saving do to it. A path is a list of
names from the outermost in; the names `.` and `..` stand for a directory itself and for the one
around it, and an empty name, which comes of a repeated or a trailing slash, for the directory too.
-/

namespace BlockSketch

inductive FileError where
  | notFound
  | isDirectory
  | notDirectory
  | alreadyExists
  | nameTooLong
  | inUse
  | zeroInName
  deriving DecidableEq, Repr

inductive FileNode where
  | directory
  | file (text : String)

/-- Where something stands: the names that lead to it, the innermost first. -/
abbrev FilePlace := List String

/-- All but the root, which is a directory at the empty place. -/
structure FileTree where
  nodes : List (FilePlace × FileNode) := []

namespace FileTree

abbrev Path := List String

def namesOf (path : String) : Path :=
  path.splitOn "/"

def node? (t : FileTree) (place : FilePlace) : Option FileNode :=
  if place.isEmpty then some .directory else t.nodes.lookup place

def erase (t : FileTree) (place : FilePlace) : FileTree :=
  { nodes := t.nodes.filter (·.1 != place) }

def put (t : FileTree) (place : FilePlace) (node : FileNode) : FileTree :=
  { nodes := (place, node) :: (t.erase place).nodes }

-- ---------------------------------------------------------------------------
-- Walking
-- ---------------------------------------------------------------------------

def longestName : Nat := 255

/-- Where a name leads from a place, which must be a directory. The root is around itself. -/
def step (t : FileTree) (place : FilePlace) (name : String) : Except FileError FilePlace :=
  match t.node? place with
  | none => .error .notFound
  | some (.file _) => .error .notDirectory
  | some .directory =>
    if name = "" || name = "." then .ok place
    else if name = ".." then .ok place.tail
    else if longestName < name.utf8ByteSize then .error .nameTooLong
    else .ok (name :: place)

def hasZero (path : Path) : Bool :=
  path.any fun name => name.toList.contains (Char.ofNat 0)

/-- The bytes of a path, each name with the slash before it. -/
def pathSize (path : Path) : Nat :=
  path.foldr (fun name size => name.utf8ByteSize + 1 + size) 0

def longestPath : Nat := 4095

def checkPath (path : Path) : Except FileError Unit :=
  if hasZero path then .error .zeroInName
  else if longestPath < pathSize path then .error .nameTooLong
  else .ok ()

def locate (t : FileTree) (path : Path) : Except FileError FilePlace := do
  checkPath path
  path.foldlM t.step []

def at? (t : FileTree) (path : Path) : Option FileNode :=
  (t.locate path).toOption.bind t.node?

def isDirectory (t : FileTree) (path : Path) : Bool :=
  match t.at? path with
  | some .directory => true
  | _ => false

structure Target where
  outer : Path
  name : String
  slashed : Bool

def target (path : Path) : Target :=
  match path.reverse.dropWhile String.isEmpty with
  | [] => ⟨[], "", true⟩
  | name :: outer => ⟨outer.reverse, name, path.getLast? = some ""⟩

def Target.isDots (target : Target) : Bool :=
  target.name = "" || target.name = "." || target.name = ".."

-- ---------------------------------------------------------------------------
-- Reading and writing
-- ---------------------------------------------------------------------------

def read (t : FileTree) (path : Path) : Except FileError String := do
  match t.node? (← t.locate path) with
  | none => .error .notFound
  | some .directory => .error .isDirectory
  | some (.file text) => .ok text

/-- Where a file may be written: in a directory that is there, and not in the place of another. -/
def writePlace (t : FileTree) (path : Path) : Except FileError FilePlace := do
  checkPath path
  let target := target path
  let around ← t.locate (target.outer ++ [""])
  if target.slashed || target.isDots then .error .isDirectory
  let place ← t.step around target.name
  match t.node? place with
  | some .directory => .error .isDirectory
  | _ => .ok place

def write (t : FileTree) (path : Path) (text : String) : Except FileError FileTree := do
  .ok (t.put (← t.writePlace path) (.file text))

-- ---------------------------------------------------------------------------
-- Directories
-- ---------------------------------------------------------------------------

def makeDirectory (t : FileTree) (path : Path) : Except FileError FileTree := do
  let place ← t.locate path
  match t.node? place with
  | some _ => .error .alreadyExists
  | none => .ok (t.put place .directory)

def ensureDirectory (t : FileTree) (path : Path) : Except FileError Unit × FileTree :=
  match t.makeDirectory path with
  | .ok t => (.ok (), t)
  | .error e => (if t.isDirectory path then .ok () else .error e, t)

def ensureDirectories (t : FileTree) : List String → Except FileError Unit × FileTree
  | [] => (.ok (), t)
  | name :: outer =>
    let path := (name :: outer).reverse
    if (t.at? outer.reverse).isSome then t.ensureDirectory path
    else match t.ensureDirectories outer with
      | (.ok (), t) | (.error .alreadyExists, t) =>
        if name = "." then (.ok (), t) else t.ensureDirectory path
      | (.error e, t) => (.error e, t)

-- ---------------------------------------------------------------------------
-- Saving
-- ---------------------------------------------------------------------------

/-- Puts a file at a path in the place of what was there, and takes it away where it was. -/
def moveFile (t : FileTree) (place : FilePlace) (text : String) (path : Path) :
    Except FileError FileTree := do
  let target := target path
  let around ← t.locate target.outer
  if target.isDots then .error .inUse
  else if target.slashed then .error .notDirectory
  else
    let goal := target.name :: around
    match t.node? goal with
    | some .directory => .error .isDirectory
    | _ => .ok ((t.erase place).put goal (.file text))

def draftPath (path : Path) : Path :=
  path.dropLast ++ [path.getLast?.getD "" ++ ".tmp"]

/-- Saves a text: makes the directories around it, writes a draft, and moves it to its path. What
was done before a failure stays. -/
def save (t : FileTree) (path : Path) (text : String) : Except FileError Unit × FileTree :=
  match t.ensureDirectories (path.dropLast.filter (· ≠ "")).reverse with
  | (.error e, t) => (.error e, t)
  | (.ok (), t) =>
    match t.writePlace (draftPath path) with
    | .error e => (.error e, t)
    | .ok place =>
      let t := t.put place (.file text)
      match t.moveFile place text path with
      | .error e => (.error e, t)
      | .ok t => (.ok (), t)

end FileTree

end BlockSketch
