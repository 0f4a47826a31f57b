import BlockSketch.Block.Registry
import BlockSketch.Document.Basic
import BlockSketch.Document.Malformed
import BlockSketch.Json.Writer

/-!
# Reading documents

A document is checked as a whole before a workspace is built from it: first every record by itself,
then the links between records, then the roots and what can be reached from them.
-/

namespace BlockSketch.Document

structure Draft where
  id : Value
  type : Value
  /-- No fields are an empty object. -/
  fields : Value
  inputs : Option (Table Value)
  next : Value
  deletable : Option Value

def Draft.ofValue? : Value → Option Draft
  | .object members =>
    let v := Value.object members
    some
      { id := v.member "id"
        type := v.member "type"
        fields := (v.member? "fields").getD (.object [])
        inputs := ((v.member? "inputs").getD (.object [])).object?.map
          (·.map fun (socket, child) => (.text socket, child))
        next := v.member "next"
        deletable := v.member? "deletable" }
  | _ => none

def Draft.ofRecord (record : BlockRecord) : Draft where
  id := record.id
  type := record.type
  fields := .object record.fields
  inputs := some record.inputs
  next := record.next
  deletable := some record.deletable

structure Entry where
  id : String
  type : BlockType
  fields : Assoc Value
  inputs : Table Value
  next : Value
  deletable : Value

def fail (reason : MalformedReason) : Except Malformed α :=
  .error { reason }

def failAt (id : String) (reason : MalformedReason) : Except Malformed α :=
  .error { reason, block := some id }

def require (ok : Bool) (error : Malformed) : Except Malformed Unit :=
  if ok then .ok () else .error error

def readVariables (v : Option Value) : Except Malformed (List String) :=
  match (v.getD (.list [])).list?.bind (·.mapM Value.text?) with
  | none => fail .variablesNotNames
  | some names =>
    if names.any String.isEmpty then fail .variablesNotNames
    else if names.eraseDups.length = names.length then .ok names
    else fail .duplicateVariables

def orElse (a : Option α) (error : Malformed) : Except Malformed α :=
  a.elim (.error error) .ok

def checkVariables (id : String) (t : BlockType) (variableNames : List String)
    (fields : Assoc Value) :
    Except Malformed Unit :=
  t.variableFields.forM fun name =>
    let v := (fields.find? name).getD .null
    require ((v.text?.filter variableNames.contains).isSome) ⟨.undeclaredVariable v, some id⟩

def readDeletable (id : String) (t : BlockType) (given : Option Value) :
    Except Malformed Value :=
  match given with
  | none => .ok t.deletable
  | some (.bool b) =>
    if b && !t.isDeletable then failAt id (.alwaysProtected t.typeId) else .ok (.bool b)
  | some _ => failAt id .deletableNotBool

def readType (registry : Registry) (id : String) (v : Value) : Except Malformed BlockType :=
  match v with
  | .text type =>
    match registry.find? (.text type) with
    | some t => .ok t
    | none => failAt id (.unknownType type)
  | _ => failAt id .noType

def readId (v : Value) : Except Malformed String :=
  match v with
  | .text id => if id.isEmpty then fail .noId else .ok id
  | _ => fail .noId

def readRecord (registry : Registry) (variableNames : List String) (draft : Option Draft) :
    Except Malformed Entry := do
  let draft ← orElse draft { reason := .recordNotObject }
  let id ← readId draft.id
  let type ← readType registry id draft.type
  let given ← orElse draft.fields.object? ⟨.fieldsNotObject, some id⟩
  let fields ← (type.validateFields given false).mapError fun e => ⟨.fields e, some id⟩
  checkVariables id type variableNames given
  let inputs ← orElse draft.inputs ⟨.inputsNotObject, some id⟩
  let deletable ← readDeletable id type draft.deletable
  .ok { id, type, fields, inputs, next := draft.next, deletable }

def readRecords (registry : Registry) (variableNames : List String) (before : List Entry) :
    List (Option Draft) → Except Malformed (List Entry)
  | [] => .ok before
  | draft :: rest => do
    let entry ← readRecord registry variableNames draft
    require (!before.any (·.id == entry.id)) ⟨.duplicateId, some entry.id⟩
    readRecords registry variableNames (before ++ [entry]) rest

def find? (entries : List Entry) (id : String) : Option Entry :=
  entries.find? (·.id == id)

abbrev Parents := Assoc String

/-- The entry that a link leads to, which gets `parent` as its only parent. -/
def adopt (entries : List Entry) (parents : Parents) (parent : String) (v : Value) :
    Except Malformed (Entry × Parents) :=
  match v.text?.bind (find? entries) with
  | none => failAt parent (.noSuchBlock v)
  | some child =>
    if parents.has child.id then failAt child.id .manyParents
    else .ok (child, parents.put child.id parent)

def checkSocket (parent : String) (name : Value) (child : BlockType) :
    Socket → Except Malformed Unit
  | .statement _ => require child.isLink ⟨.needsStatement name, some parent⟩
  | .value s =>
    require (!child.isStatement && s.accepts child.output)
      ⟨.socketRejects name child.typeId, some parent⟩

def checkInputs (entries : List Entry) (entry : Entry) (parents : Parents) :
    Table Value → Except Malformed Parents
  | [] => .ok parents
  | (name, v) :: rest =>
    match entry.type.socket? name with
    | none => failAt entry.id (.unknownSocket name)
    | some socket =>
      if v.isNull then checkInputs entries entry parents rest
      else do
        let (child, parents) ← adopt entries parents entry.id v
        checkSocket entry.id name child.type socket
        checkInputs entries entry parents rest

def checkNext (entries : List Entry) (entry : Entry) (parents : Parents) :
    Except Malformed Parents :=
  if entry.next.isNull then .ok parents
  else do
    require entry.type.isLink ⟨.noNextLink, some entry.id⟩
    let (child, parents) ← adopt entries parents entry.id entry.next
    require child.type.isLink ⟨.nextNotStatement, some entry.id⟩
    .ok parents

def checkLinks (entries : List Entry) (parents : Parents) : List Entry → Except Malformed Parents
  | [] => .ok parents
  | entry :: rest => do
    let parents ← checkInputs entries entry parents entry.inputs
    let parents ← checkNext entries entry parents
    checkLinks entries parents rest

def checkRoot (entries : List Entry) (parents : Parents) (id : String) : Except Malformed Unit := do
  require (find? entries id).isSome { reason := .noSuchRoot id }
  require (!parents.has id) ⟨.rootHasParent, some id⟩

def checkEntryPoint (entries : List Entry) (parents : Parents) : Except Malformed Unit :=
  match entries.filter (·.type.typeId.same entryType) with
  | [] => .ok ()
  | [entry] => require (!parents.has entry.id) ⟨.entryNotRoot, some entry.id⟩
  | _ => fail .manyEntryPoints

def Entry.links (entry : Entry) : List String :=
  (entry.inputs.map Prod.snd ++ [entry.next]).filterMap Value.text?

def unmet (reached : List String) : List Entry → Nat
  | [] => 0
  | entry :: rest => unmet reached rest + if reached.contains entry.id then 0 else 1

theorem unmet_cons_le (entries : List Entry) (reached : List String) (id : String) :
    unmet (id :: reached) entries ≤ unmet reached entries := by
  induction entries with
  | nil => simp [unmet]
  | cons e entries ih =>
    simp only [unmet, List.contains_cons]
    cases e.id == id <;> cases reached.contains e.id <;> simp <;> omega

theorem unmet_cons_lt {entries : List Entry} {reached : List String} {id : String} {entry : Entry}
    (hnew : ¬reached.contains id = true) (h : find? entries id = some entry) :
    unmet (id :: reached) entries < unmet reached entries := by
  induction entries with
  | nil => simp [find?] at h
  | cons e entries ih =>
    have hle := unmet_cons_le entries reached id
    by_cases he : e.id = id
    · have hmet : id ∉ reached := by simpa using hnew
      simp only [unmet, he, List.contains_cons]
      simp [hmet]
      omega
    · have hlater : find? entries id = some entry := by simpa [find?, he] using h
      have hlt := ih hlater
      simp only [unmet, List.contains_cons]
      cases reached.contains e.id <;> simp [he] <;> omega

/-- The ids met from a stack of ids, the last pushed first. No id may be met twice. -/
def reach (entries : List Entry) (reached : List String) :
    List String → Except Malformed (List String)
  | [] => .ok reached
  | id :: rest =>
    if _hnew : reached.contains id then failAt id .cycle
    else match _h : find? entries id with
      | some entry => reach entries (id :: reached) (entry.links.reverse ++ rest)
      | none => reach entries (id :: reached) rest
termination_by stack => (unmet reached entries, stack.length)
decreasing_by
  · exact Prod.Lex.left _ _ (unmet_cons_lt _hnew _h)
  · rcases Nat.lt_or_eq_of_le (unmet_cons_le entries reached id) with hlt | heq
    · exact Prod.Lex.left _ _ hlt
    · rw [heq]
      exact Prod.Lex.right _ (by simp)

def checkReach (entries : List Entry) (roots : List String) : Except Malformed Unit := do
  let reached ← reach entries [] roots.reverse
  match Text.sorted ((entries.map Entry.id).filter (!reached.contains ·)) with
  | [] => .ok ()
  | id :: _ => failAt id .unreachable

def checkRoots (entries : List Entry) (parents : Parents) (roots : List Value) :
    Except Malformed (List String) :=
  match roots.mapM Value.text? with
  | none => fail .rootsNotTexts
  | some ids => do
    require (ids.eraseDups.length == ids.length) { reason := .duplicateRoots }
    ids.forM (checkRoot entries parents)
    checkEntryPoint entries parents
    checkReach entries ids
    .ok ids

def refOf (entries : List Entry) (v : Value) : Option Ref :=
  v.text?.bind fun id => entries.findIdx? (·.id == id)

def Entry.toBlock (entries : List Entry) (entry : Entry) : Block where
  type := entry.type.typeId
  id := .text entry.id
  fields := entry.fields
  inputs := entry.inputs.map fun (name, v) => (name, refOf entries v)
  next := refOf entries entry.next
  deletable := entry.deletable

def build (entries : List Entry) (roots variableNames : List String) : Workspace where
  blocks := (entries.map (Entry.toBlock entries)).toArray
  roots := roots.filterMap fun id => refOf entries (.text id)
  variableNames := variableNames.map .text

def assemble (registry : Registry) (variableNames : List String) (records : List (Option Draft))
    (roots : List Value) : Except Malformed Workspace := do
  let entries ← readRecords registry variableNames [] records
  let parents ← checkLinks entries [] entries
  let ids ← checkRoots entries parents roots
  .ok (build entries ids variableNames)

def read (registry : Registry) (v : Value) : Except Malformed Workspace := do
  require v.object?.isSome { reason := .notObject }
  let format := v.member "format"
  require (format.same (.text formatName)) { reason := .format format }
  let version := v.member "version"
  require (version.same (.int currentVersion)) { reason := .version version }
  let variableNames ← readVariables (v.member? "variables")
  let records ← match v.member "blocks" with
    | .list records => .ok records
    | _ => fail .blocksNotList
  let roots ← match v.member "top_blocks" with
    | .list roots => .ok roots
    | _ => fail .rootsNotList
  assemble registry variableNames (records.map Draft.ofValue?) roots

/-- Reads a document that was just saved, in which the names of sockets are not written out. -/
def reread (registry : Registry) (document : Document) : Except Malformed Workspace := do
  let variableNames ← readVariables (some (.list document.variableNames))
  assemble registry variableNames (document.blocks.map fun record => some (.ofRecord record))
    document.topBlocks

def readText (registry : Registry) (text : Value) : Except Malformed Workspace :=
  match text with
  | .text s =>
    match Json.read s with
    | .ok v => read registry v
    | .error e => fail (.notJson e)
  | v => fail (.notJsonText v.kindName)

def writeText (layout : Json.Layout) (w : Workspace) : String :=
  Json.write layout ((Document.ofWorkspace w).toValue Json.keyText)

end BlockSketch.Document
