import BlockSketch.Canvas.Operation

/-!
# Sessions

A canvas with what surrounds it while somebody works: the selections that were staged, files, and
whether its reports and refreshes are listened to.
-/

namespace BlockSketch

/-- The selections that were staged, and which of them is in use. The one in use is on the canvas
and changes there; what is kept for it here is out of date until another one comes into use. -/
structure Shelf where
  staged : List Selection := []
  inUse : Option Nat := none

namespace Shelf

def add (shelf : Shelf) (selection : Selection) : Shelf :=
  { shelf with staged := shelf.staged ++ [selection] }

def setAside (shelf : Shelf) (current : Selection) : Shelf :=
  match shelf.inUse with
  | some i => { staged := shelf.staged.set i current }
  | none => shelf

def take? (shelf : Shelf) (current : Selection) (i : Nat) : Option (Selection × Shelf) :=
  let shelf := shelf.setAside current
  shelf.staged[i]?.map fun selection => (selection, { shelf with inUse := some i })

end Shelf

structure Session where
  canvas : Canvas
  /-- Whether a selection is in use. Asking for the staged one before there is any leaves none. -/
  hasSelection : Bool := true
  shelf : Shelf := {}
  files : FileTree := {}
  hearsReports : Bool := true
  hearsRefreshes : Bool := true

namespace Session

/-- Line breaks as a text file is read: a carriage return, alone or before a line feed, counts as a
line feed. -/
def normalizeBreaks : List Char → List Char
  | '\r' :: '\n' :: rest => '\n' :: normalizeBreaks rest
  | '\r' :: rest => '\n' :: normalizeBreaks rest
  | c :: rest => c :: normalizeBreaks rest
  | [] => []

def heard (s : Session) (notices : List Notice) : List Notice :=
  notices.filter fun
    | .event _ => true
    | .refreshed _ => s.hearsRefreshes
    | .generated _ => s.hearsReports

/-- Allowed types are told in order, so only types that have one can be heard. -/
def hear : Notice → Except Error Unit
  | .refreshed allowed => (Gate.inOrder allowed).map fun _ => ()
  | _ => .ok ()

inductive Action where
  | edit (op : Operation)
  | stage (components : List Component)
  | useStaged (i : Nat)

structure Step where
  result : Except Error Value
  session : Session
  notices : List Notice := []

def bringsSelection (op : Operation) (result : Except Error Value) : Bool :=
  match op, result with
  | .replaceComponents _, .ok _ => true
  | _, _ => false

def missingSelection? (s : Session) : Operation → Option Error
  | .createBlock request =>
    match Gate.describe s.canvas.registry request.type with
    | .error e => some e
    | .ok _ => some .illTyped
  | .addComponent _ => some .illTyped
  | .removeComponent _ | .clearComponents => some .absent
  | _ => none

def edit (s : Session) (op : Operation) : Step :=
  match if s.hasSelection then none else s.missingSelection? op with
  | some e => { result := .error e, session := s }
  | none =>
    let { result, canvas, notices } := s.canvas.apply op
    let session :=
      if bringsSelection op result then
        { s with canvas, hasSelection := true, shelf := s.shelf.setAside s.canvas.selection }
      else { s with canvas }
    { result, session, notices }

def stage (s : Session) (components : List Component) : Step :=
  let { result, canvas, .. } := s.canvas.stageComponents components
  match result with
  | .ok selection =>
    { result := .ok selection.toValue, session := { s with canvas, shelf := s.shelf.add selection } }
  | .error e => { result := .error e, session := { s with canvas } }

def useStaged (s : Session) (i : Nat) : Step :=
  match s.shelf.take? s.canvas.selection i with
  | none => { result := .error .absent, session := s }
  | some (selection, shelf) =>
    let { result, canvas, notices } := s.canvas.select selection .null
    { result, session := { s with canvas, hasSelection := true, shelf }, notices }

def act (s : Session) : Action → Step
  | .edit op => s.edit op
  | .stage components => s.stage components
  | .useStaged i => s.useStaged i

/-- What is heard of a step. What cannot be heard makes the action fail, although it was carried
out. -/
def Step.heard (step : Step) : Step :=
  let notices := step.session.heard step.notices
  match notices.forM hear with
  | .ok _ => { step with notices }
  | .error e =>
    { step with
      result := .error e
      notices := notices.filter fun notice => (hear notice).toOption.isSome }

def perform (s : Session) (action : Action) : Step :=
  (s.act action).heard

def run (s : Session) : List Action → Session × List Notice
  | [] => (s, [])
  | action :: rest =>
    let step := s.perform action
    let (s, notices) := run step.session rest
    (s, step.notices ++ notices)

/-- Brings the selection that was staged last into use. If there is none, no selection is left. -/
def useLast (s : Session) : Step :=
  match s.shelf.staged.length with
  | 0 => { result := .error .illTyped, session := { s with hasSelection := false } }
  | n + 1 => s.perform (.useStaged n)

def ask (s : Session) (e : Error) (f : Canvas → Except Error α) : Except Error α :=
  if s.hasSelection then f s.canvas else .error e

def components (s : Session) : Except Error Selection :=
  s.ask .absent fun c => .ok c.selection

def availableTypes (s : Session) : Except Error (List Value) :=
  s.ask .illTyped Canvas.availableTypes

def violations (s : Session) : Except Error (List Violation) :=
  s.ask .illTyped Canvas.violations

def palette (s : Session) : Except Error Value :=
  s.ask .illTyped fun c => .ok c.palette

def state (s : Session) : Except Error Value :=
  s.ask .absent Canvas.state

-- ---------------------------------------------------------------------------
-- Files
-- ---------------------------------------------------------------------------

def directory : String := "files"

def filePath (name : String) : FileTree.Path :=
  if name.startsWith "/" then FileTree.namesOf name else directory :: FileTree.namesOf name

def fileText (s : Session) (name : String) : Except Error String := do
  let text ← (s.files.read (filePath name)).mapError Error.ofFile
  .ok (.ofList (normalizeBreaks text.toList))

def putFile (s : Session) (name text : String) : Except Error Unit × Session :=
  let (_, files) := s.files.ensureDirectories [directory]
  match files.write (filePath name) text with
  | .ok files => (.ok (), { s with files })
  | .error e => (.error (.ofFile e), { s with files })

def saveFile (s : Session) (name : String) : Except Error Unit × Session :=
  let text := Document.writeText (.spaces 2) s.canvas.workspace
  let (result, files) := s.files.save (filePath name) text
  (result.mapError Error.ofFile, { s with files })

def loadFile (s : Session) (name : String) : Except Error Value := do
  let text ← s.fileText name
  let w ← (Document.readText s.canvas.registry (.text text)).mapError .ofMalformed
  .ok w.serialize

end Session

end BlockSketch
