import BlockSketch.Proofs.Canvas.Undoing

/-!
# What deletions leave

A deleted block goes with all that is nested in it. A deleted variable takes along the blocks that
refer to it, each with all that is nested in it. What is left stands in its old order, and refers to
variables that are still declared.
-/

namespace BlockSketch

namespace Workspace

variable {w w' : Workspace} {registry : Registry}

-- ---------------------------------------------------------------------------
-- Deleting a block
-- ---------------------------------------------------------------------------

theorem delete_ok_iff {block : Value} (h : Invariant registry w) :
    w.delete block = .ok (removed, w') ↔ ∃ r, (w.Live r ∧ (w.block r).id = block) ∧
      w.deleteRef r = .ok (removed, w') := by
  simp only [delete, bind_ok, locate_ok, h.findBlock?_ok]

theorem delete_isOk_iff {block : Value} (h : Invariant registry w) :
    (∃ removed w', w.delete block = .ok (removed, w')) ↔
    ∃ r, w.Live r ∧ (w.block r).id = block ∧ (w.block r).isDeletable = true := by
  simp only [delete_ok_iff h]
  constructor
  · rintro ⟨removed, w', r, ⟨hr, hid⟩, hdelete⟩
    exact ⟨r, hr, hid, deleteRef_deletable hdelete⟩
  · rintro ⟨r, hr, hid, hdeletable⟩
    obtain ⟨removed, w', hdelete⟩ := deleteRef_isOk hdeletable
    exact ⟨removed, w', r, ⟨hr, hid⟩, hdelete⟩

-- ---------------------------------------------------------------------------
-- Deleting a variable
-- ---------------------------------------------------------------------------

theorem preorder_congr (h : ∀ x, w'.children x = w.children x) (d : Nat) (r : Ref) :
    w'.preorder d r = w.preorder d r := by
  induction d generalizing r with
  | zero => rfl
  | succ d ih =>
    rw [preorder, preorder, h]
    exact congrArg _ (List.flatMap_congr fun c _ => ih c)

theorem SameLinks.allBlocks (h : SameLinks w w') : w'.allBlocks = w.allBlocks := by
  have hchildren : ∀ x, w'.children x = w.children x := by
    intro x
    obtain ⟨fields, hblock⟩ := h.block x
    rw [children, hblock]
    rfl
  rw [allBlocks_eq, allBlocks_eq, h.roots, subtree_eq_preorder, subtree_eq_preorder, depth, depth,
    h.size]
  exact List.flatMap_congr fun r _ => preorder_congr hchildren _ r

def Refers (registry : Registry) (w : Workspace) (r : Ref) (v : Value) : Prop :=
  ∃ t, registry.find? (w.block r).type = some t ∧
    ∃ field ∈ t.variableFields, (w.block r).fields.find? field = some v

theorem usesVariable_iff {name : String} :
    usesVariable registry (.text name) (w.block r) = true ↔ Refers registry w r (.text name) := by
  constructor
  · intro huses
    unfold usesVariable at huses
    split at huses
    · cases huses
    · rename_i t ht
      obtain ⟨field, hfield, hsame⟩ := List.any_eq_true.mp huses
      rw [Value.same_text] at hsame
      refine ⟨t, ht, field, hfield, ?_⟩
      cases hfind : (w.block r).fields.find? field with
      | none => simp [hfind] at hsame
      | some v => simpa [hfind] using hsame
  · rintro ⟨t, ht, field, hfield, hfind⟩
    exact usesVariable_of_find ht hfield hfind

/-- What the deletion of a variable does. The other variables keep their order. Those blocks go that
refer to the variable, with all that is nested in them; what is left keeps its order and is what it
was, and refers to no variable that is not declared. -/
structure DeletesUsers (registry : Registry) (w : Workspace) (name : Value) (w' : Workspace) :
    Prop where
  names : ∃ before after, w.variableNames = before ++ name :: after ∧
    w'.variableNames = before ++ after ∧ name ∉ w'.variableNames
  survives : x ∈ w'.allBlocks ↔
    x ∈ w.allBlocks ∧ ∀ q ∈ w.allBlocks, Refers registry w q name → ¬w.Nested q x
  order : w'.allBlocks = w.allBlocks.filter (· ∈ w'.allBlocks)
  type : (w'.block x).type = (w.block x).type
  id : (w'.block x).id = (w.block x).id
  fields : (w'.block x).fields = (w.block x).fields
  deletable : (w'.block x).deletable = (w.block x).deletable
  declared : x ∈ w'.allBlocks → Refers registry w' x v → v ∈ w'.variableNames

/-- A variable that is deleted was declared, and its users could be deleted one after the other. -/
theorem deleteVariable_true (h : Invariant registry w) (hregular : registry.Regular)
    (hdelete : w.deleteVariable registry name = (.ok true, w')) :
    name ∈ w.variableNames ∧ ∃ w₁, w.deleteEach (w.users registry name) = (.ok (), w₁) ∧
      w' = (w₁.removeVariable name).2 := by
  unfold deleteVariable at hdelete
  rw [usersOf_eq h hregular] at hdelete
  split at hdelete
  · cases hdelete
  · rename_i hdeclares
    refine ⟨h.declares_iff.mp (by simpa using hdeclares), ?_⟩
    cases hrun : w.deleteEach (w.users registry name) with
    | mk result w₁ =>
      simp only [hrun] at hdelete
      cases result with
      | ok u => exact ⟨w₁, rfl, (Prod.mk.inj hdelete).2.symm⟩
      | error e => cases hdelete

theorem removeVariable_names (h : Invariant registry w) (hname : name ∈ w.variableNames) :
    ∃ before after, w.variableNames = before ++ name :: after ∧
      (w.removeVariable name).2.variableNames = before ++ after ∧
      name ∉ (w.removeVariable name).2.variableNames := by
  obtain ⟨s, rfl⟩ := h.names name hname
  obtain ⟨v, before, after, -, hv, hsplit, herase⟩ :=
    List.exists_of_eraseP (p := fun v => v.coincides (.text s)) hname (Value.coincides_text.mpr rfl)
  obtain rfl := Value.coincides_text.mp hv
  have hnames : (w.removeVariable (.text s)).2.variableNames = before ++ after := by
    rw [removeVariable, if_pos (h.declares_iff.mpr hname)]
    exact herase
  have honce := h.namesOnce
  rw [hsplit, List.nodup_middle] at honce
  rw [hnames]
  exact ⟨before, after, hsplit, rfl, (List.nodup_cons.mp honce).1⟩

theorem deleteVariable_deletesUsers (h : Invariant registry w) (hregular : registry.Regular)
    (hdelete : w.deleteVariable registry name = (.ok true, w')) :
    DeletesUsers registry w name w' := by
  obtain ⟨hname, w₁, hrun, hw'⟩ := deleteVariable_true h hregular hdelete
  have hkeeps := h.deleteVariable hregular name
  rw [hdelete] at hkeeps
  have hspec := deleteEach_spec h hregular (w.users registry name)
  rw [hrun] at hspec
  have hspares := deleteEach_spares h hregular hrun
  have hblocks := deleteEach_blocks h hregular hrun
  obtain ⟨hsame, -⟩ := removeVariable_sameLinks w₁ name
  have hfields : ∀ x, ((w₁.removeVariable name).2.block x).fields = (w₁.block x).fields := by
    intro x
    unfold removeVariable
    split <;> rfl
  have hnames := removeVariable_names hspec.inv (hspec.content.names.symm ▸ hname)
  rw [hspec.content.names] at hnames
  subst hw'
  refine ⟨hnames, fun {x} => ?_, ?_, fun {x} => ?_, fun {x} => ?_, fun {x} => ?_, fun {x} => ?_,
    fun {x v} hx hrefers => ?_⟩
  · obtain ⟨s, rfl⟩ := h.names name hname
    rw [hsame.allBlocks, hspec.inv.forest.mem_allBlocks, hspares.live, h.forest.mem_allBlocks]
    refine and_congr_right fun _ => ⟨fun hno q hq hrefers => ?_, fun hno q hq => ?_⟩
    · exact hno q ((mem_users h.forest).mpr ⟨h.forest.mem_allBlocks.mp hq,
        usesVariable_iff.mpr hrefers⟩)
    · obtain ⟨hlive, huses⟩ := (mem_users h.forest).mp hq
      exact hno q (h.forest.mem_allBlocks.mpr hlive) (usesVariable_iff.mp huses)
  · rw [hsame.allBlocks]
    exact hblocks
  · exact (hsame.type x).trans hspec.content.type
  · exact (hsame.id x).trans hspec.content.id
  · exact (hfields x).trans hspec.content.fields
  · exact (hsame.deletable x).trans hspec.content.deletable
  · obtain ⟨t, ht, field, hfield, hfind⟩ := hrefers
    obtain ⟨v', hv', hfind'⟩ := hkeeps.inv.declared (hkeeps.inv.forest.mem_allBlocks.mp hx) ht field
      hfield
    exact Option.some.inj (hfind'.symm.trans hfind) ▸ hv'

end Workspace

namespace Canvas

open Document (guardedDocument guardedWorkspace)
open Workspace (ClosesGap DeletesUsers)

variable {c : Canvas}

theorem deleteBlock_eq (h : c.workspace.delete block = .ok (removed, w)) :
    (c.deleteBlock block).result = .ok removed ∧ (c.deleteBlock block).canvas.workspace = w := by
  simp only [deleteBlock, h]
  exact ⟨rfl, rfl⟩

theorem deleteBlock_ok (h : (c.deleteBlock block).result = .ok removed) :
    c.workspace.delete block = .ok (removed, (c.deleteBlock block).canvas.workspace) := by
  unfold deleteBlock at h ⊢
  split at h
  · cases h
  · rename_i heq
    cases h
    exact heq

/-- A block is deleted exactly if it is there and deletable. The answer lists what is gone, the
successor of the block closes the gap, and nothing else changes. -/
theorem deleteBlock_closes_gap (settings : Settings) (c : Canvas) (ops : List Operation)
    (hstart : start settings limit = .ok c) (hproper : c.ProperRun ops) (block : Value) :
    ((∃ removed, ((c.run ops).1.deleteBlock block).result = .ok removed) ↔
      ∃ r, (c.run ops).1.workspace.Live r ∧ ((c.run ops).1.workspace.block r).id = block ∧
        ((c.run ops).1.workspace.block r).isDeletable = true) ∧
    ∀ removed, ((c.run ops).1.deleteBlock block).result = .ok removed →
      ∃ r gone, (c.run ops).1.workspace.Live r ∧ ((c.run ops).1.workspace.block r).id = block ∧
        removed = gone.map (fun x => ((c.run ops).1.workspace.block x).id) ∧
        ClosesGap (c.run ops).1.workspace ((c.run ops).1.deleteBlock block).canvas.workspace r
          gone := by
  have hgood := (good_start hstart).run hproper
  refine ⟨Iff.trans ?_ (Workspace.delete_isOk_iff hgood.inv), fun removed hresult => ?_⟩
  · constructor
    · rintro ⟨removed, hresult⟩
      exact ⟨removed, _, deleteBlock_ok hresult⟩
    · rintro ⟨removed, w', hdelete⟩
      exact ⟨removed, (deleteBlock_eq hdelete).1⟩
  · obtain ⟨r, ⟨hr, hid⟩, hdelete⟩ :=
      (Workspace.delete_ok_iff hgood.inv).mp (deleteBlock_ok hresult)
    obtain ⟨gone, hids, hgap⟩ := Workspace.deleteRef_closesGap hgood.inv hgood.regular hr hdelete
    exact ⟨r, gone, hr, hid, hids, hgap⟩

/-- The first assignment of a chain goes with the number in it, and the second one, which is
protected, becomes the root. -/
theorem deleteBlock_closes_gap_chained : ∃ c, start {} = .ok c ∧ c.ProperRun chainAssignments ∧
    ∃ removed, ((c.run chainAssignments).1.deleteBlock "a").result = .ok removed ∧
      ∃ r gone, ((c.run chainAssignments).1.workspace.block r).id = "a" ∧
        removed = gone.map (fun x => ((c.run chainAssignments).1.workspace.block x).id) ∧
        ClosesGap (c.run chainAssignments).1.workspace
          ((c.run chainAssignments).1.deleteBlock "a").canvas.workspace r gone := by
  obtain ⟨c, hstart⟩ := exists_start
  have hproper := chainAssignments_proper c
  obtain ⟨hiff, hgap⟩ := deleteBlock_closes_gap {} c _ hstart hproper "a"
  have hthere : chainedWorkspace.Live 1 ∧ (chainedWorkspace.block 1).id = "a" ∧
      (chainedWorkspace.block 1).isDeletable = true :=
    ⟨⟨1, List.mem_cons_self, .refl⟩, rfl, rfl⟩
  rw [← chainAssignments_run hstart] at hthere
  obtain ⟨removed, hresult⟩ := hiff.mpr ⟨1, hthere⟩
  obtain ⟨r, gone, -, hid, hids, hcloses⟩ := hgap removed hresult
  exact ⟨c, hstart, hproper, removed, hresult, r, gone, hid, hids, hcloses⟩

theorem deleteVariable_ok (h : (c.deleteVariable name).result = .ok deleted) :
    c.workspace.deleteVariable c.registry name =
      (.ok deleted, (c.deleteVariable name).canvas.workspace) := by
  unfold deleteVariable at h ⊢
  split at h
  · cases h
  · rename_i heq
    cases h
    exact heq

/-- A variable that is deleted takes its users along, and nothing else. -/
theorem deleteVariable_deletes_users (settings : Settings) (c : Canvas) (ops : List Operation)
    (hstart : start settings limit = .ok c) (hproper : c.ProperRun ops) (name : Value)
    (hdeleted : ((c.run ops).1.deleteVariable name).result = .ok true) :
    DeletesUsers Catalog.registry (c.run ops).1.workspace name
      ((c.run ops).1.deleteVariable name).canvas.workspace := by
  have hgood := (good_start hstart).run hproper
  rw [← hgood.registry]
  exact Workspace.deleteVariable_deletesUsers hgood.inv hgood.regular (deleteVariable_ok hdeleted)

/-- Loads two assignments to one variable, and has the protected one set another variable. -/
def renameProtected : List Operation :=
  [.load guardedDocument, .createVariable "y", .setField "b" "VAR" "y"]

def renamedWorkspace : Workspace where
  blocks := #[
    { type := "variables_set", id := "b", fields := [("VAR", "y")], deletable := .bool false },
    { type := "variables_set", id := "a", fields := [("VAR", "x")], inputs := [("VALUE", some 2)] },
    { type := "math_number", id := "c", fields := [("NUM", .int 7)], deletable := .bool false }]
  roots := [1, 0]
  variableNames := ["x", "y"]

theorem renameProtected_proper (c : Canvas) : c.ProperRun renameProtected :=
  ⟨(guarded_proper c).1, trivial, trivial, trivial⟩

theorem renameProtected_edits :
    guardedWorkspace.createVariable "y" =
      .ok (true, { guardedWorkspace with variableNames := ["x", "y"] }) ∧
    Workspace.setField Catalog.registry { guardedWorkspace with variableNames := ["x", "y"] } "b"
      "VAR" "y" = .ok ("y", renamedWorkspace) := by
  refine ⟨rfl, ?_⟩
  have hlocate : Workspace.locate { guardedWorkspace with variableNames := ["x", "y"] } "b" =
      .ok 0 := Workspace.locate_ok.mpr (Workspace.search_eq_findSome? _ _ _)
  rw [Workspace.setField, hlocate, Catalog.registry_eq]
  rfl

theorem run_cons (c : Canvas) (op : Operation) (ops : List Operation) :
    (c.run (op :: ops)).1 = ((c.run [op]).1.run ops).1 :=
  rfl

theorem renameProtected_run (h : start settings limit = .ok c) :
    (c.run renameProtected).1.workspace = renamedWorkspace := by
  have hloaded := guarded_loaded h
  have hregistry := ((good_start h).run (guarded_proper c)).registry
  obtain ⟨hcreate, hset⟩ := renameProtected_edits
  rw [renameProtected, run_cons]
  generalize (c.run [.load guardedDocument]).1 = c' at hloaded hregistry
  show ((c'.createVariable "y").canvas.setField "b" "VAR" "y").canvas.workspace = _
  have hcreated : (c'.createVariable "y").canvas.workspace =
      { guardedWorkspace with variableNames := ["x", "y"] } ∧
      (c'.createVariable "y").canvas.registry = Catalog.registry := by
    simp only [createVariable, hloaded, hcreate]
    exact ⟨rfl, hregistry⟩
  generalize (c'.createVariable "y").canvas = c'' at hcreated
  simp only [setField, hcreated.1, hcreated.2, hset]
  rfl

theorem renamed_deleteVariable :
    ∃ w, renamedWorkspace.deleteVariable Catalog.registry "x" = (.ok true, w) := by
  have hall : renamedWorkspace.allBlocks = [1, 2, 0] := Workspace.drain_eq_listing _ _
  have husers : renamedWorkspace.usersOf Catalog.registry "x" = .ok [1] := by
    simp only [Workspace.usersOf, hall, Catalog.registry_eq]
    rfl
  have hfind : renamedWorkspace.findBlock? (renamedWorkspace.block 1).id = some 1 :=
    Workspace.search_eq_findSome? _ _ _
  obtain ⟨removed, w, hdelete⟩ := Workspace.deleteRef_isOk (w := renamedWorkspace) (r := 1) rfl
  have hrun : renamedWorkspace.deleteEach [1] = (.ok (), w) := by
    rw [Workspace.deleteEach, if_pos hfind, hdelete]
    rfl
  simp only [Workspace.deleteVariable, husers, hrun]
  exact ⟨_, rfl⟩

/-- The assignment to the variable goes with the protected number in it. -/
theorem deleteVariable_deletes_users_renamed : ∃ c, start {} = .ok c ∧
    c.ProperRun renameProtected ∧
    ((c.run renameProtected).1.deleteVariable "x").result = .ok true ∧
    DeletesUsers Catalog.registry (c.run renameProtected).1.workspace "x"
      ((c.run renameProtected).1.deleteVariable "x").canvas.workspace := by
  obtain ⟨c, hstart⟩ := exists_start
  have hproper := renameProtected_proper c
  have hregistry := ((good_start hstart).run hproper).registry
  obtain ⟨w, hdelete⟩ := renamed_deleteVariable
  rw [← renameProtected_run hstart, ← hregistry] at hdelete
  have hdeleted : ((c.run renameProtected).1.deleteVariable "x").result = .ok true := by
    simp only [deleteVariable, hdelete]
    rfl
  exact ⟨c, hstart, hproper, hdeleted,
    deleteVariable_deletes_users {} c _ hstart hproper "x" hdeleted⟩

end Canvas

end BlockSketch
