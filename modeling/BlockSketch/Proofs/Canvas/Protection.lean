import BlockSketch.Proofs.Canvas.Runs
import BlockSketch.Proofs.Document.RoundTrip
import BlockSketch.Proofs.Workspace.Deleting

/-!
# Protected blocks

A protected block stops its own deletion, and with it the deletion of a variable that it uses; what
was deleted for the variable before stays deleted. Protection reaches no further: with a block goes
all that is nested in it, protected or not.
-/

namespace BlockSketch

open Relation (ReflTransGen TransGen)

namespace Workspace

variable {w w' : Workspace} {registry : Registry} {given : Value}

/-- What an edit does to the blocks that were there. They stay what they are, and those go that are
nested in a deletable target that goes. -/
structure Loses (registry : Registry) (given : Value) (w : Workspace) (target : Ref → Prop)
    (w' : Workspace) : Prop where
  carries : Carries registry given w w'
  live : w.Live x → (¬w'.Live x ↔ ∃ p, target p ∧ w.Live p ∧ (w.block p).isDeletable = true ∧
    ¬w'.Live p ∧ w.Nested p x)

theorem Retains.loses (h : Retains registry given w w') (target : Ref → Prop) :
    Loses registry given w target w' where
  carries := h.carries
  live hx := by
    refine ⟨fun hgone => (hgone (h.live hx)).elim, ?_⟩
    rintro ⟨p, -, hp, -, hgone, -⟩
    exact (hgone (h.live hp)).elim

theorem Spares.loses (h : Forest w) (hspares : Spares w refs w') {target : Ref → Prop}
    (htarget : ∀ p ∈ refs, target p) : Loses registry given w target w' where
  carries := hspares.content.carries
  live {x} hx := by
    have hgone : ∀ {y}, w.Live y → (¬w'.Live y ↔ ∃ q ∈ refs, w.Nested q y) := by
      intro y hy
      rw [hspares.live]
      simp [hy]
    rw [hgone hx]
    constructor
    · rintro ⟨q, hq, hqx⟩
      have hlive := h.slots.live_of_path hqx.path hx
      obtain ⟨p, hp, hplive, hdeletable, hpq⟩ := hspares.deletable hq hlive
      exact ⟨p, htarget p hp, hplive, hdeletable, (hgone hplive).mpr ⟨p, hp, .self p⟩, hpq.trans hqx⟩
    · rintro ⟨p, -, hplive, -, hpgone, hpx⟩
      obtain ⟨q, hq, hqp⟩ := (hgone hplive).mp hpgone
      exact ⟨q, hq, hqp.trans hpx⟩

theorem delete_loses (h : Invariant registry w) (hregular : registry.Regular)
    (hdelete : w.delete v = .ok (removed, w')) :
    Loses registry given w (fun p => (w.block p).id = v) w' := by
  simp only [Workspace.delete, bind_ok, locate_ok, h.findBlock?_ok] at hdelete
  obtain ⟨r, ⟨hr, hid⟩, hdelete⟩ := hdelete
  obtain ⟨hrewires, -⟩ := deleteRef_ok h hr hregular hdelete
  have hspares : Spares w [r] w' := .cons h.forest hr (deleteRef_deletable hdelete) hrewires.content
    (deleteRef_closes h hr hdelete) (.nil w')
  exact hspares.loses h.forest (List.forall_mem_singleton.mpr hid)

/-- What is done to fields and variables afterwards loses nothing more. -/
theorem Loses.sameLinks (h : Loses registry given w target w') (hsame : SameLinks w' w'')
    (hnames : .text "" ∈ w''.variableNames → .text "" ∈ w'.variableNames) :
    Loses registry given w target w'' where
  carries := h.carries.trans (hsame.carries hnames)
  live hx := by
    simp only [hsame.live]
    exact h.live hx

theorem removeVariable_sameLinks (w : Workspace) (name : Value) :
    SameLinks w (w.removeVariable name).2 ∧
      (w.removeVariable name).2.variableNames ⊆ w.variableNames := by
  unfold removeVariable
  split
  · exact ⟨.setNames w _, List.eraseP_subset⟩
  · exact ⟨.setNames w w.variableNames, List.Subset.refl _⟩

theorem deleteVariable_loses (h : Invariant registry w) (hregular : registry.Regular) (name : Value) :
    Loses registry given w (fun p => usesVariable registry name (w.block p) = true)
      (w.deleteVariable registry name).2 := by
  have husers : ∀ p ∈ w.users registry name, usesVariable registry name (w.block p) = true :=
    fun p hp => ((mem_users h.forest).mp hp).2
  rcases deleteVariable_cases h hregular name with heq | ⟨w₁, hspares, heq⟩ |
    ⟨before, r, after, w₁, hsplit, -, hspares, -, -, heq⟩
  · rw [heq]
    exact (Retains.refl w).loses _
  · rw [heq]
    obtain ⟨hsame, hnames⟩ := removeVariable_sameLinks w₁ name
    exact (hspares.loses h.forest husers).sameLinks hsame fun hv => hnames hv
  · rw [heq]
    refine hspares.loses h.forest fun p hp => husers p ?_
    rw [hsplit]
    exact List.mem_append_left _ hp

/-- The deletion of a variable that stopped at one of its users. The users before it are deleted with
all that was nested in them; all else is there, and is what it was. -/
structure StopsAt (registry : Registry) (w : Workspace) (name : Value) (e : Error) (w' : Workspace)
    (before : List Ref) (p : Ref) : Prop where
  users : ∃ after, w.users registry name = before ++ p :: after
  kept : (w.block p).isDeletable = false
  error : e = .protectedBlock (w.block p).id
  deleted : w.deleteEach before = (.ok (), w')
  content : SameContent w w'
  live : w'.Live x ↔ w.Live x ∧ ∀ q ∈ before, ¬w.Nested q x
  unchanged : w' = w ↔ before = []

theorem deleteVariable_stopsAt (h : Invariant registry w) (hregular : registry.Regular)
    (hstop : w.deleteVariable registry name = (.error e, w')) :
    ∃ before p, StopsAt registry w name e w' before p := by
  rcases deleteVariable_cases h hregular name with heq | ⟨w₁, -, heq⟩ |
    ⟨before, p, after, w₁, husers, hdeleted, hspares, -, hkept, heq⟩
  · cases hstop.symm.trans heq
  · cases hstop.symm.trans heq
  · cases hstop.symm.trans heq
    refine ⟨before, p, ⟨after, husers⟩, hkept, rfl, hdeleted, hspares.content, hspares.live, ?_, ?_⟩
    · rintro rfl
      rw [List.eq_nil_iff_forall_not_mem]
      intro q hq
      -- A user before the protected one was live and is gone.
      have hlive := ((mem_users h.forest).mp (husers ▸ List.mem_append_left _ hq)).1
      exact (hspares.live.mp hlive).2 q hq (.self q)
    · rintro rfl
      exact (Prod.mk.inj hdeleted).2.symm

end Workspace

-- ---------------------------------------------------------------------------
-- Edits
-- ---------------------------------------------------------------------------

/-- The operations that edit blocks and variables, as opposed to whole workspaces. -/
def Operation.IsEdit : Operation → Prop
  | .createBlock _ | .connect .. | .detach _ | .deleteBlock _ | .setField .. | .createVariable _
  | .deleteVariable _ => True
  | _ => False

theorem Operation.IsEdit.reading? {op : Operation} (h : op.IsEdit) (c : Canvas) :
    op.reading? c = none := by
  cases op with
  | load _ | reload | loadText _ => exact h.elim
  | _ => rfl

def Operation.Targets (registry : Registry) (w : Workspace) : Operation → Ref → Prop
  | .deleteBlock v, p => (w.block p).id = v
  | .deleteVariable name, p => Workspace.usesVariable registry name (w.block p) = true
  | _, _ => False

def Operation.givenId : Operation → Value
  | .createBlock request => request.id
  | _ => .null

namespace Canvas

open Document (guardedDocument guardedWorkspace)
open Workspace (Loses Retains StopsAt)

variable {c : Canvas}

theorem Good.loses (h : Good c) (hedit : op.IsEdit) :
    Loses c.registry op.givenId c.workspace (op.Targets c.registry c.workspace)
      (c.apply op).canvas.workspace := by
  obtain ⟨supply, hreworks⟩ := c.apply_reworks op
  generalize (c.apply op).canvas.workspace = w at hreworks ⊢
  cases hreworks with
  | kept => exact (Retains.refl c.workspace).loses _
  | placed hplace => exact (Workspace.place_retains h.inv h.regular hplace).loses _
  | connected block parent socket =>
    exact (Workspace.connect_retains h.inv h.regular block parent socket).loses _
  | detached hdetach => exact (Workspace.detach_retains h.inv h.regular hdetach).loses _
  | deleted hdelete => exact Workspace.delete_loses h.inv h.regular hdelete
  | changed hset => exact (Workspace.setField_retains h.inv hset).loses _
  | declared hcreate => exact (Workspace.createVariable_retains hcreate).loses _
  | undeclared name => exact Workspace.deleteVariable_loses h.inv h.regular name
  | cleared => exact hedit.elim
  | loaded hread => cases (hedit.reading? c).symm.trans hread

-- ---------------------------------------------------------------------------
-- A run that loads protected blocks
-- ---------------------------------------------------------------------------

def guardedRest : Workspace :=
  { guardedWorkspace with roots := [0] }

theorem guarded_proper (c : Canvas) : c.ProperRun [.load guardedDocument] := by
  refine ⟨⟨Document.guardedDocument_wellKeyed, ?_⟩, trivial⟩
  rintro records hrecords record hrecord s hs
  obtain rfl := Value.list.inj hrecords
  simp only [Document.guardedRecords, List.mem_cons, List.not_mem_nil, or_false] at hrecord
  rcases hrecord with rfl | rfl | rfl <;> obtain rfl := Value.text.inj hs <;>
    exact Supply.past_of_head _ (by decide)

theorem guarded_loaded (h : start settings limit = .ok c) :
    (c.run [.load guardedDocument]).1.workspace = guardedWorkspace := by
  have hread := Document.read_guarded
  rw [← (good_start h).registry] at hread
  simp only [run, apply, load, hread]
  rfl

theorem guarded_deleteRef : guardedWorkspace.deleteRef 1 = .ok (["a", "c"], guardedRest) := by
  have hsubtree : guardedRest.subtree 1 = [1, 2] := Workspace.drain_eq_listing _ _
  show Except.ok ((guardedRest.subtree 1).map fun r => (guardedRest.block r).id, guardedRest) = _
  rw [hsubtree]
  rfl

theorem guarded_find : guardedWorkspace.findBlock? (guardedWorkspace.block 1).id = some 1 :=
  Workspace.search_eq_findSome? _ _ _

theorem guarded_delete : guardedWorkspace.delete "a" = .ok (["a", "c"], guardedRest) := by
  have hlocate : guardedWorkspace.locate "a" = .ok 1 := Workspace.locate_ok.mpr guarded_find
  rw [Workspace.delete, hlocate]
  exact guarded_deleteRef

theorem guarded_deleteVariable : guardedWorkspace.deleteVariable Catalog.registry "x" =
    (.error (.protectedBlock "b"), guardedRest) := by
  have hall : guardedWorkspace.allBlocks = [1, 2, 0] := Workspace.drain_eq_listing _ _
  have husers : guardedWorkspace.usersOf Catalog.registry "x" = .ok [1, 0] := by
    simp only [Workspace.usersOf, hall, Catalog.registry_eq]
    rfl
  have hrest : guardedRest.findBlock? (guardedRest.block 0).id = some 0 :=
    Workspace.search_eq_findSome? _ _ _
  have hdelete : guardedWorkspace.deleteEach [1, 0] =
      (.error (.protectedBlock "b"), guardedRest) := by
    rw [Workspace.deleteEach, if_pos guarded_find, guarded_deleteRef]
    show guardedRest.deleteEach [0] = _
    rw [Workspace.deleteEach, if_pos hrest]
    rfl
  simp only [Workspace.deleteVariable, husers, hdelete]
  rfl

theorem guarded_live : guardedWorkspace.Live 2 ∧ ¬guardedRest.Live 2 := by
  constructor
  · exact ⟨1, List.mem_cons_self, .single ⟨.input 1 "VALUE", rfl, List.mem_cons_self⟩⟩
  · rintro ⟨root, hroot, hpath⟩
    obtain rfl := List.mem_singleton.mp hroot
    rcases hpath.cases_head with heq | ⟨q, ⟨s, hs, hq⟩, -⟩
    · cases heq
    · cases s with
      | root => cases hs
      | next p =>
        cases hs
        cases hq
      | input p k =>
        cases hs
        cases hq

theorem guarded_deleteBlock (h : start settings limit = .ok c) :
    ((c.run [.load guardedDocument]).1.apply (.deleteBlock "a")).canvas.workspace = guardedRest := by
  have hworkspace := guarded_loaded h
  generalize (c.run [.load guardedDocument]).1 = c' at hworkspace
  simp only [apply, deleteBlock, hworkspace, guarded_delete]
  rfl

theorem guarded_stops (h : start settings limit = .ok c) :
    ((c.run [.load guardedDocument]).1.deleteVariable "x").result = .error (.protectedBlock "b") ∧
      ((c.run [.load guardedDocument]).1.deleteVariable "x").canvas.workspace = guardedRest := by
  have hworkspace := guarded_loaded h
  have hregistry := ((good_start h).run (guarded_proper c)).registry
  generalize (c.run [.load guardedDocument]).1 = c' at hworkspace hregistry
  simp only [deleteVariable, hworkspace, hregistry, guarded_deleteVariable]
  exact ⟨rfl, rfl⟩

-- ---------------------------------------------------------------------------
-- What edits do to protected blocks
-- ---------------------------------------------------------------------------

/-- An edit takes a protected block along exactly if the block stands in a deletable one that the edit
deletes. All blocks stay what they are. -/
theorem protected_lost_iff (settings : Settings) (c : Canvas) (ops : List Operation)
    (hstart : start settings limit = .ok c) (hproper : c.ProperRun ops) (op : Operation)
    (hedit : op.IsEdit) (r : Ref) (hr : (c.run ops).1.workspace.Live r)
    (hprotected : ((c.run ops).1.workspace.block r).isDeletable = false) :
    (¬((c.run ops).1.apply op).canvas.workspace.Live r ↔
      ∃ p, op.Targets Catalog.registry (c.run ops).1.workspace p ∧ (c.run ops).1.workspace.Live p ∧
        ((c.run ops).1.workspace.block p).isDeletable = true ∧
        ¬((c.run ops).1.apply op).canvas.workspace.Live p ∧
        (c.run ops).1.workspace.Inside p r) ∧
    (((c.run ops).1.apply op).canvas.workspace.block r).id = ((c.run ops).1.workspace.block r).id ∧
    (((c.run ops).1.apply op).canvas.workspace.block r).isDeletable = false := by
  have hgood := (good_start hstart).run hproper
  have hloses := hgood.loses hedit
  rw [hgood.registry] at hloses
  have hlt := hgood.inv.forest.live_lt hr
  refine ⟨(hloses.live hr).trans (exists_congr fun p => ?_), hloses.carries.id hlt, ?_⟩
  · refine and_congr_right fun _ => and_congr_right fun _ => and_congr_right fun hdeletable => ?_
    refine and_congr_right fun _ => ⟨fun hnested => hnested.resolve_left ?_, .inr⟩
    rintro rfl
    rw [hprotected] at hdeletable
    cases hdeletable
  · rw [Block.isDeletable, hloses.carries.deletable hlt]
    exact hprotected

theorem protected_lost_iff_guarded : ∃ c, start {} = .ok c ∧
    c.ProperRun [.load guardedDocument] ∧ (Operation.deleteBlock "a").IsEdit ∧
    (c.run [.load guardedDocument]).1.workspace.Live 2 ∧
    ((c.run [.load guardedDocument]).1.workspace.block 2).isDeletable = false ∧
    (¬((c.run [.load guardedDocument]).1.apply (.deleteBlock "a")).canvas.workspace.Live 2 ↔
      ∃ p, (Operation.deleteBlock "a").Targets Catalog.registry
          (c.run [.load guardedDocument]).1.workspace p ∧
        (c.run [.load guardedDocument]).1.workspace.Live p ∧
        ((c.run [.load guardedDocument]).1.workspace.block p).isDeletable = true ∧
        ¬((c.run [.load guardedDocument]).1.apply (.deleteBlock "a")).canvas.workspace.Live p ∧
        (c.run [.load guardedDocument]).1.workspace.Inside p 2) := by
  obtain ⟨c, hstart⟩ := exists_start
  have hworkspace := guarded_loaded hstart
  have hlive : (c.run [.load guardedDocument]).1.workspace.Live 2 := hworkspace ▸ guarded_live.1
  have hprotected : ((c.run [.load guardedDocument]).1.workspace.block 2).isDeletable = false := by
    rw [hworkspace]
    rfl
  exact ⟨c, hstart, guarded_proper c, trivial, hlive, hprotected,
    (protected_lost_iff {} c _ hstart (guarded_proper c) (.deleteBlock "a") trivial 2 hlive
      hprotected).1⟩

/-- The number is protected, and goes with the assignment that it stands in. -/
theorem protected_number_lost : ∃ c, start {} = .ok c ∧ c.ProperRun [.load guardedDocument] ∧
    ∃ r, (c.run [.load guardedDocument]).1.workspace.Live r ∧
      ((c.run [.load guardedDocument]).1.workspace.block r).isDeletable = false ∧
      ¬((c.run [.load guardedDocument]).1.apply (.deleteBlock "a")).canvas.workspace.Live r := by
  obtain ⟨c, hstart⟩ := exists_start
  refine ⟨c, hstart, guarded_proper c, 2, ?_⟩
  rw [guarded_loaded hstart, guarded_deleteBlock hstart]
  exact ⟨guarded_live.1, rfl, guarded_live.2⟩

/-- The deletion of a variable fails at a protected user only, and changes nothing exactly if this is
the first of the users. -/
theorem deleteVariable_stops_at_protected (settings : Settings) (c : Canvas) (ops : List Operation)
    (hstart : start settings limit = .ok c) (hproper : c.ProperRun ops) (name : Value) (e : Error)
    (hraise : ((c.run ops).1.deleteVariable name).result = .error e) :
    ∃ before p, StopsAt Catalog.registry (c.run ops).1.workspace name e
      ((c.run ops).1.deleteVariable name).canvas.workspace before p := by
  have hgood := (good_start hstart).run hproper
  unfold deleteVariable at hraise ⊢
  rw [← hgood.registry]
  split at hraise <;> rename_i heq
  · cases hraise
    exact Workspace.deleteVariable_stopsAt hgood.inv hgood.regular heq
  · cases hraise

theorem deleteVariable_stops_guarded : ∃ c, start {} = .ok c ∧
    c.ProperRun [.load guardedDocument] ∧
    ((c.run [.load guardedDocument]).1.deleteVariable "x").result = .error (.protectedBlock "b") ∧
    ∃ before p, StopsAt Catalog.registry (c.run [.load guardedDocument]).1.workspace "x"
      (.protectedBlock "b") ((c.run [.load guardedDocument]).1.deleteVariable "x").canvas.workspace
      before p := by
  obtain ⟨c, hstart⟩ := exists_start
  have hraise := (guarded_stops hstart).1
  exact ⟨c, hstart, guarded_proper c, hraise,
    deleteVariable_stops_at_protected {} c _ hstart (guarded_proper c) _ _ hraise⟩

/-- The first assignment is deleted before the protected one stops the deletion. -/
theorem deleteVariable_changes_then_fails : ∃ c, start {} = .ok c ∧
    c.ProperRun [.load guardedDocument] ∧
    (∃ e, ((c.run [.load guardedDocument]).1.deleteVariable "x").result = .error e) ∧
    ((c.run [.load guardedDocument]).1.deleteVariable "x").canvas.workspace ≠
      (c.run [.load guardedDocument]).1.workspace := by
  obtain ⟨c, hstart⟩ := exists_start
  obtain ⟨hraise, hrest⟩ := guarded_stops hstart
  refine ⟨c, hstart, guarded_proper c, ⟨_, hraise⟩, ?_⟩
  rw [hrest, guarded_loaded hstart]
  intro hsame
  have hroots : [0] = [1, 0] := congrArg Workspace.roots hsame
  cases hroots

end Canvas

end BlockSketch
