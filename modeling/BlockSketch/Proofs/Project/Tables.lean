import BlockSketch.Project.Store
import Mathlib.Data.List.Nodup

/-!
# The tables of a store

What the statements on the two tables of a store do. A row is looked up, added, changed and removed
by its id, and the components of a save are added all or none. A save is thereby one of three things:
a project that is added, a project that is changed, or nothing.
-/

namespace BlockSketch

-- ---------------------------------------------------------------------------
-- What a request stores
-- ---------------------------------------------------------------------------

/-- What a request stores besides its texts: the description, and components no two of which have
one id. -/
def SaveRequest.contents? (request : SaveRequest) :
    Option (Option String × List StoredComponent) := do
  let description ← Column.store request.description
  let components ← request.components.mapM ComponentRecord.stored?
  if (components.map (·.id)).Nodup then some (description, components) else none

def StoredComponent.record (c : StoredComponent) : ComponentRecord :=
  ⟨.text c.id, .text c.kind, optionalText c.name⟩

theorem Column.store_optionalText (s : Option String) : Column.store (optionalText s) = some s := by
  cases s <;> rfl

theorem StoredComponent.stored?_record (c : StoredComponent) : c.record.stored? = some c := by
  obtain ⟨id, kind, name⟩ := c
  cases name <;> rfl

theorem StoredComponent.mapM_stored? (components : List StoredComponent) :
    (components.map record).mapM ComponentRecord.stored? = some components := by
  induction components with
  | nil => rfl
  | cons c components ih => simp [stored?_record, ih]

theorem SaveRequest.contents?_texts {request : SaveRequest} {description : Option String}
    {components : List StoredComponent} (hdescription : request.description = optionalText description)
    (hcomponents : request.components = components.map StoredComponent.record) :
    request.contents? =
      if (components.map (·.id)).Nodup then some (description, components) else none := by
  simp only [contents?, hdescription, hcomponents, Column.store_optionalText,
    StoredComponent.mapM_stored?, Option.bind_eq_bind, Option.bind_some]

namespace Store

-- ---------------------------------------------------------------------------
-- Rows of components
-- ---------------------------------------------------------------------------

variable {store : Store} {id : String} {n : Nat}

/-- The rows of a project's components, numbered from a position on. -/
def numbered (id : String) : Nat → List StoredComponent → List ComponentRow
  | _, [] => []
  | n, c :: rest => ⟨c, id, n⟩ :: numbered id (n + 1) rest

theorem numbered_components (id : String) (n : Nat) (cs : List StoredComponent) :
    (numbered id n cs).map (·.toStoredComponent) = cs := by
  induction cs generalizing n with
  | nil => rfl
  | cons c cs ih => exact congrArg (c :: ·) (ih (n + 1))

theorem le_of_mem_numbered (h : row ∈ numbered id n cs) : n ≤ row.position := by
  induction cs generalizing n with
  | nil => cases h
  | cons c cs ih =>
    rcases List.mem_cons.mp h with rfl | h
    · exact Nat.le_refl n
    · exact Nat.le_of_succ_le (ih h)

theorem numbered_sorted (id : String) (n : Nat) (cs : List StoredComponent) :
    (numbered id n cs).Pairwise fun a b => decide (a.position ≤ b.position) = true := by
  induction cs generalizing n with
  | nil => exact .nil
  | cons c cs ih =>
    refine .cons (fun row hrow => ?_) (ih (n + 1))
    exact decide_eq_true (Nat.le_of_succ_le (le_of_mem_numbered hrow))

theorem numbered_filter (id other : String) (n : Nat) (cs : List StoredComponent) :
    (numbered id n cs).filter (·.project == other) =
      if id = other then numbered id n cs else [] := by
  induction cs generalizing n with
  | nil => simp [numbered]
  | cons c cs ih =>
    by_cases h : id = other
    · simp only [numbered, List.filter_cons, ih, if_pos h, beq_iff_eq]
    · simp only [numbered, List.filter_cons, ih, if_neg h, beq_iff_eq]

def takenIds (store : Store) (id : String) : List String :=
  (store.components.filter (·.project == id)).map (·.id)

theorem insertComponent?_eq (row : ComponentRow)
    (hproject : (store.row? row.project).isSome = true) :
    store.insertComponent? row =
      if row.id ∈ store.takenIds row.project then none
      else some { store with components := store.components ++ [row] } := by
  have hany : store.components.any (fun other => other.project == row.project && other.id == row.id) =
      true ↔ row.id ∈ store.takenIds row.project := by
    simp [takenIds, and_assoc]
  unfold insertComponent?
  by_cases hmem : row.id ∈ store.takenIds row.project
  · rw [if_pos hmem, hany.mpr hmem, Bool.or_true, if_pos rfl]
  · rw [if_neg hmem, Bool.eq_false_iff.mpr (hany.not.mpr hmem), Bool.or_false, if_neg]
    simp [Option.isSome_iff_ne_none.mp hproject]

/-- Components are added all or none: each must be storable, and none may have the id of another one
of the project, be it there already or added with it. -/
theorem insertComponents?_eq (hproject : (store.row? id).isSome = true)
    (hnodup : (store.takenIds id).Nodup) (n : Nat) (cs : List ComponentRecord) :
    store.insertComponents? (some id) n cs =
      (cs.mapM ComponentRecord.stored?).bind fun stored =>
        if (store.takenIds id ++ stored.map (·.id)).Nodup then
          some { store with components := store.components ++ numbered id n stored }
        else none := by
  induction cs generalizing store n with
  | nil => simp [insertComponents?, numbered, hnodup]
  | cons c cs ih =>
    cases hstored : c.stored? with
    | none => simp [insertComponents?, hstored]
    | some stored =>
      have hinsert := insertComponent?_eq ⟨stored, id, n⟩ hproject
      simp only [insertComponents?, hstored, List.mapM_cons, Option.bind_eq_bind, Option.bind_some,
        hinsert]
      by_cases hmem : stored.id ∈ store.takenIds id
      · have hrepeated : ∀ others : List StoredComponent,
            ¬(store.takenIds id ++ (stored :: others).map (·.id)).Nodup := by
          intro others h
          exact (List.nodup_append.mp h).2.2 _ hmem _ List.mem_cons_self rfl
        rw [if_pos hmem, Option.bind_none]
        cases cs.mapM ComponentRecord.stored? with
        | none => rfl
        | some others => exact (if_neg (hrepeated others)).symm
      · have htaken : takenIds { store with components := store.components ++ [⟨stored, id, n⟩] } id =
            store.takenIds id ++ [stored.id] := by
          simp [takenIds]
        have hnodup' : (store.takenIds id ++ [stored.id]).Nodup :=
          List.nodup_append.mpr ⟨hnodup, List.nodup_singleton _, by
            rintro a ha b hb rfl
            exact hmem (List.mem_singleton.mp hb ▸ ha)⟩
        have hproject' : (row? { store with components := store.components ++ [⟨stored, id, n⟩] }
            id).isSome = true := hproject
        rw [if_neg hmem, Option.bind_some, ih hproject' (by rwa [htaken]), htaken]
        cases cs.mapM ComponentRecord.stored? with
        | none => rfl
        | some others => simp [numbered, List.append_assoc]

theorem insertComponents?_new (hproject : (store.row? id).isSome = true)
    (htaken : store.takenIds id = []) (cs : List ComponentRecord) :
    store.insertComponents? (some id) 0 cs =
      (cs.mapM ComponentRecord.stored?).bind fun stored =>
        if (stored.map (·.id)).Nodup then
          some { store with components := store.components ++ numbered id 0 stored }
        else none := by
  rw [insertComponents?_eq hproject (htaken ▸ List.nodup_nil), htaken]
  simp only [List.nil_append]

theorem filter_deleteComponents (store : Store) (id other : String) :
    (store.components.filter (·.project != id)).filter (·.project == other) =
      if other = id then [] else store.components.filter (·.project == other) := by
  rw [List.filter_filter]
  split
  · rename_i hother
    subst hother
    exact List.filter_eq_nil_iff.mpr fun row _ => by simp
  · rename_i hother
    refine List.filter_congr fun row _ => ?_
    rw [Bool.eq_iff_iff]
    simp only [Bool.and_eq_true, beq_iff_eq, bne_iff_ne]
    exact ⟨fun hboth => hboth.1, fun heq => ⟨heq, heq ▸ hother⟩⟩

-- ---------------------------------------------------------------------------
-- Rows of projects
-- ---------------------------------------------------------------------------

theorem row?_deleteProject (store : Store) (id other : String) :
    (store.deleteProject id).row? other = if other = id then none else store.row? other := by
  simp only [Store.deleteProject, row?, List.find?_filter]
  split
  · rename_i hother
    subst hother
    exact List.find?_eq_none.mpr fun row _ => by simp
  · rename_i hother
    congr 1
    funext row
    rw [Bool.eq_iff_iff]
    simp only [bne_iff_ne, beq_iff_eq, decide_eq_true_eq]
    refine ⟨fun hboth => hboth.2, fun heq => ⟨fun hid => hother ?_, heq⟩⟩
    exact Option.some.inj (heq.symm.trans hid)

theorem row?_updateProject (store : Store) (id other : String) {f : ProjectRow → ProjectRow}
    (hf : ∀ row, (f row).id = row.id) :
    (store.updateProject id f).row? other =
      (store.row? other).map fun row => if other = id then f row else row := by
  have hid : (fun row : ProjectRow => row.id == some other) ∘
      (fun row => if row.id == some id then f row else row) = fun row => row.id == some other := by
    funext row
    simp only [Function.comp_apply]
    split
    · rw [hf]
    · rfl
  simp only [row?, updateProject, List.find?_map, hid]
  cases hfind : store.projects.find? (·.id == some other) with
  | none => rfl
  | some row =>
    have hrow := List.find?_some hfind
    simp only [beq_iff_eq] at hrow
    simp only [Option.map_some, hrow, beq_iff_eq, Option.some.injEq]

-- ---------------------------------------------------------------------------
-- Saves
-- ---------------------------------------------------------------------------

variable {now : Nat} {request : SaveRequest}
def newRow (now : Nat) (id : String) (request : SaveRequest) (description : Option String) :
    ProjectRow where
  id := some id
  name := request.name
  description
  createdAt := now
  updatedAt := now
  workspaceText := Json.write .line request.workspace

def created (store : Store) (now : Nat) (id : String) (request : SaveRequest)
    (description : Option String) (components : List StoredComponent) : Store :=
  { store with
    projects := store.projects ++ [newRow now id request description]
    components := store.components ++ numbered id 0 components }

def nextRow (now : Nat) (request : SaveRequest) (description : Option String) (row : ProjectRow) :
    ProjectRow :=
  { row with
    name := request.name, description, updatedAt := now
    workspaceText := Json.write .line request.workspace }

theorem nextRow_id (now : Nat) (request : SaveRequest) (description : Option String)
    (row : ProjectRow) : (nextRow now request description row).id = row.id :=
  rfl

def overwritten (store : Store) (now : Nat) (id : String) (request : SaveRequest)
    (description : Option String) (components : List StoredComponent) : Store :=
  { store.updateProject id (nextRow now request description) with
    components := store.components.filter (·.project != id) ++ numbered id 0 components }

theorem row?_created (hrow : store.row? id = none) (description : Option String)
    (components : List StoredComponent) (other : String) :
    (store.created now id request description components).row? other =
      if other = id then some (newRow now id request description) else store.row? other := by
  simp only [row?, Store.created, List.find?_append]
  split
  · rename_i hother
    subst hother
    rw [row?] at hrow
    simp [hrow, newRow]
  · rename_i hother
    have hnew : [newRow now id request description].find? (·.id == some other) = none :=
      List.find?_eq_none.mpr fun row hmem => by
        simpa [List.mem_singleton.mp hmem, newRow] using Ne.symm hother
    rw [hnew, Option.or_none]

theorem create?_known (hrow : store.row? id = some row) (now : Nat) (request : SaveRequest) :
    store.create? now (.text id) request = none := by
  have hid : Column.store (.text id) = some (some id) := rfl
  cases hdescription : Column.store request.description <;>
    simp [create?, hid, hdescription, insertProject?, hrow]

theorem create?_eq (hrow : store.row? id = none) (htaken : store.takenIds id = []) (now : Nat)
    (request : SaveRequest) :
    store.create? now (.text id) request =
      request.contents?.map fun contents => store.created now id request contents.1 contents.2 := by
  have hid : Column.store (.text id) = some (some id) := rfl
  cases hdescription : Column.store request.description with
  | none => simp [create?, SaveRequest.contents?, hid, hdescription]
  | some description =>
    have hinsert : store.insertProject? (newRow now id request description) =
        some { store with projects := store.projects ++ [newRow now id request description] } := by
      simp [insertProject?, newRow, hrow]
    have hproject : (row? { store with
        projects := store.projects ++ [newRow now id request description] } id).isSome = true := by
      simp [row?, List.find?_append, newRow]
    simp only [newRow] at hinsert hproject
    simp only [create?, SaveRequest.contents?, hid, hdescription, Option.bind_eq_bind,
      Option.bind_some, hinsert]
    rw [insertComponents?_new hproject htaken]
    cases request.components.mapM ComponentRecord.stored? with
    | none => rfl
    | some components =>
      simp only [Option.bind_some]
      split <;> rfl

theorem overwrite?_eq (hrow : store.row? id = some row) (now : Nat) (request : SaveRequest) :
    store.overwrite? now id request =
      request.contents?.map fun contents =>
        store.overwritten now id request contents.1 contents.2 := by
  cases hdescription : Column.store request.description with
  | none => simp [overwrite?, SaveRequest.contents?, hdescription]
  | some description =>
    have hupdated := row?_updateProject store id id (nextRow_id now request description)
    rw [hrow] at hupdated
    have hproject : (((store.updateProject id (nextRow now request description)).deleteComponents
        id).row? id).isSome = true := Option.isSome_iff_exists.mpr ⟨_, hupdated⟩
    have htaken : takenIds ((store.updateProject id (nextRow now request description)).deleteComponents
        id) id = [] := by
      simp [takenIds, deleteComponents]
    simp only [overwrite?, SaveRequest.contents?, hdescription, Option.bind_eq_bind, Option.bind_some]
    change ((store.updateProject id (nextRow now request description)).deleteComponents
      id).insertComponents? (some id) 0 request.components = _
    rw [insertComponents?_new hproject htaken]
    cases request.components.mapM ComponentRecord.stored? with
    | none => rfl
    | some components =>
      simp only [Option.bind_some]
      split <;> rfl

/-- A save is an attempt to create or to overwrite, and only a successful one changes the store. -/
theorem saveAt_eq (hid : request.chooseId supply = (.text id, supply'))
    (hknown : (if request.id.isEmpty then none else store.known? (.text id)) = known)
    (hattempt : known.elim (store.create? now (.text id) request)
      (fun key => store.overwrite? now key request) = attempt) :
    store.saveAt now supply request =
      (attempt.map fun _ => request.record (.text id) known.isNone now, attempt.getD store,
        supply') := by
  simp only [saveAt, hid, hknown, hattempt]
  cases attempt <;> rfl

end Store

end BlockSketch
