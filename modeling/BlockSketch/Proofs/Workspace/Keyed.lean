import BlockSketch.Proofs.Document.Build

/-!
# Types of blocks and names of variables

Most edits bring in no type and no name: they change links, roots and fields, or take something away.
Types come with a new block and with the expressions in its sockets. The type of a block and the name
of a variable are looked up, which a list or an object cannot be. No edit brings one in, whatever
types are registered, as long as these are registered under keys themselves. Nothing else is asked of
a workspace here: it may be any graph.
-/

namespace BlockSketch

def Registry.Keyed (registry : Registry) : Prop :=
  ∀ v t, registry.find? v = some t → t.typeId.isContainer = false

namespace Workspace

variable {w w' w'' : Workspace} {registry : Registry}

-- ---------------------------------------------------------------------------
-- Changes that add nothing
-- ---------------------------------------------------------------------------

structure AddsNothing (w w' : Workspace) : Prop where
  types : ∀ r, (w'.block r).type = (w.block r).type
  names : w'.variableNames.Sublist w.variableNames

theorem AddsNothing.refl (w : Workspace) : AddsNothing w w :=
  ⟨fun _ => rfl, .refl _⟩

theorem AddsNothing.trans (h : AddsNothing w w') (h' : AddsNothing w' w'') : AddsNothing w w'' :=
  ⟨fun r => (h'.types r).trans (h.types r), h'.names.trans h.names⟩

theorem addsNothing_modify (w : Workspace) (r : Ref) (f : Block → Block)
    (hf : ∀ b, (f b).type = b.type) : AddsNothing w (w.modify r f) where
  types x := by
    simp only [block, modify, Array.getElem?_modify]
    split
    · cases w.blocks[x]? <;> simp [hf]
    · rfl
  names := .refl _

theorem addsNothing_setNext (w : Workspace) (r : Ref) (next : Option Ref) :
    AddsNothing w (w.setNext r next) :=
  addsNothing_modify w r _ fun _ => rfl

theorem addsNothing_setInput (w : Workspace) (r : Ref) (socket : Value) (child : Option Ref) :
    AddsNothing w (w.setInput r socket child) :=
  addsNothing_modify w r _ fun _ => rfl

theorem addsNothing_withRoots (w : Workspace) (roots : List Ref) :
    AddsNothing w { w with roots } :=
  ⟨fun _ => rfl, .refl _⟩

theorem addsNothing_addRoot (w : Workspace) (r : Ref) : AddsNothing w (w.addRoot r) := by
  unfold addRoot
  split
  · exact addsNothing_withRoots _ _
  · exact addsNothing_withRoots _ _

theorem addsNothing_cutOut (w : Workspace) (r : Ref) : AddsNothing w (w.cutOut r) := by
  unfold cutOut
  split
  · exact addsNothing_withRoots _ _
  · split
    · exact addsNothing_setNext _ _ _
    · exact addsNothing_setInput _ _ _ _
    · exact .refl w

theorem addsNothing_attach (w : Workspace) (r p : Ref) (target : Target) :
    AddsNothing w (w.attach r p target) := by
  cases target with
  | next => exact (addsNothing_setNext _ _ _).trans (addsNothing_setNext _ _ _)
  | body socket => exact (addsNothing_setInput _ _ _ _).trans (addsNothing_setNext _ _ _)
  | operand socket =>
    have hset := addsNothing_setInput w p socket (some r)
    simp only [attach]
    cases (w.block p).input? socket with
    | none => exact hset
    | some displaced => exact hset.trans (addsNothing_addRoot _ displaced)

theorem addsNothing_replaceAt (w : Workspace) (r : Ref) (successor : Option Ref) :
    AddsNothing w (w.replaceAt r successor) := by
  unfold replaceAt
  split
  · split
    · exact addsNothing_withRoots _ _
    · exact addsNothing_withRoots _ _
  · split
    · exact addsNothing_setNext _ _ _
    · exact addsNothing_setInput _ _ _ _
    · exact .refl w

-- ---------------------------------------------------------------------------
-- Edits that add nothing
-- ---------------------------------------------------------------------------

theorem addsNothing_connect (registry : Registry) (w : Workspace) (block parent socket : Value) :
    AddsNothing w (w.connect registry block parent socket).2 := by
  unfold connect
  split
  · exact .refl w
  · split
    · exact addsNothing_cutOut _ _
    · exact (addsNothing_cutOut _ _).trans (addsNothing_attach _ _ _ _)

theorem addsNothing_detach (h : w.detach v = .ok (moved, w')) : AddsNothing w w' := by
  simp only [detach, bind_ok, Except.ok.injEq] at h
  obtain ⟨r, -, heq⟩ := h
  split at heq
  · cases heq
    exact .refl w
  · cases heq
    exact (addsNothing_cutOut w r).trans (addsNothing_addRoot _ r)

theorem addsNothing_deleteRef (h : w.deleteRef r = .ok (removed, w')) : AddsNothing w w' := by
  simp only [deleteRef] at h
  split at h
  · cases h
    exact (addsNothing_setNext _ _ _).trans (addsNothing_replaceAt _ _ _)
  · cases h

theorem addsNothing_delete (h : w.delete v = .ok (removed, w')) : AddsNothing w w' := by
  simp only [delete, bind_ok] at h
  obtain ⟨r, -, hdelete⟩ := h
  exact addsNothing_deleteRef hdelete

theorem addsNothing_deleteEach (w : Workspace) (refs : List Ref) :
    AddsNothing w (w.deleteEach refs).2 := by
  induction refs generalizing w with
  | nil => exact .refl w
  | cons r refs ih =>
    rw [deleteEach]
    split
    · split
      · rename_i hdelete
        exact (addsNothing_deleteRef hdelete).trans (ih _)
      · exact .refl w
    · exact ih w

theorem addsNothing_setField (h : w.setField registry x name given = .ok (v, w')) :
    AddsNothing w w' := by
  simp only [setField, bind_ok, Except.ok.injEq, Prod.mk.injEq] at h
  obtain ⟨r, -, t, -, p, -, _, -, -, rfl⟩ := h
  exact addsNothing_modify w r _ fun _ => rfl

theorem addsNothing_deleteVariable (registry : Registry) (w : Workspace) (name : Value) :
    AddsNothing w (w.deleteVariable registry name).2 := by
  unfold deleteVariable
  split
  · exact .refl w
  · split
    · exact .refl w
    · rename_i users _
      have hdeleted := addsNothing_deleteEach w users
      split <;> rename_i heq <;> rw [heq] at hdeleted
      · refine hdeleted.trans ?_
        unfold removeVariable
        split
        · exact ⟨fun _ => rfl, List.eraseP_sublist⟩
        · exact .refl _
      · exact hdeleted

-- ---------------------------------------------------------------------------
-- New variables and blocks
-- ---------------------------------------------------------------------------

theorem addVariable_types (w : Workspace) (name : Value) (r : Ref) :
    ((w.addVariable name).2.block r).type = (w.block r).type := by
  unfold addVariable
  split <;> rfl

theorem createVariable_types (h : w.createVariable v = .ok (added, w')) (r : Ref) :
    (w'.block r).type = (w.block r).type := by
  simp only [createVariable, bind_ok, Except.ok.injEq] at h
  obtain ⟨name, -, heq⟩ := h
  have htypes := addVariable_types w (.text name) r
  rw [heq] at htypes
  exact htypes

theorem declareAll_types (w : Workspace) (names : List String) (r : Ref) :
    ((w.declareAll names).block r).type = (w.block r).type :=
  List.foldlRecOn names _ (motive := fun u : Workspace => (u.block r).type = (w.block r).type) rfl
    fun u hu name _ => (addVariable_types u (.text name) r).trans hu

theorem addTree_types (w : Workspace) (b : Block) (shadows : List (Value × Block)) (r : Ref) :
    ((w.addTree b shadows).block r).type = (w.block r).type ∨
      ((w.addTree b shadows).block r).type ∈ b.type :: shadows.map (·.2.type) := by
  simp only [addTree, (addsNothing_addRoot _ _).types]
  refine List.foldlRecOn shadows _ (motive := fun u : Workspace =>
    (u.block r).type = (w.block r).type ∨ (u.block r).type ∈ b.type :: shadows.map (·.2.type))
    ?_ fun u hu s hs => ?_
  · rw [block_alloc]
    split
    · exact .inr List.mem_cons_self
    · exact .inl rfl
  · simp only [(addsNothing_setInput _ _ _ _).types, block_alloc]
    split
    · exact .inr (List.mem_cons_of_mem _ (List.mem_map_of_mem hs))
    · exact hu

theorem addRoot_variableNames (w : Workspace) (r : Ref) :
    (w.addRoot r).variableNames = w.variableNames := by
  unfold addRoot
  split <;> rfl

theorem addTree_variableNames (w : Workspace) (b : Block) (shadows : List (Value × Block)) :
    (w.addTree b shadows).variableNames = w.variableNames := by
  refine (addRoot_variableNames _ _).trans ?_
  exact List.foldlRecOn shadows _
    (motive := fun u : Workspace => u.variableNames = w.variableNames) rfl fun _ hu _ _ => hu

theorem buildBlock_type (h : (buildBlock t fields given supply).1 = .ok b) : b.type = t.typeId := by
  simp only [buildBlock] at h
  split at h
  · cases h
  · cases h
    rfl

/-- A type that comes with a block of another type: it is that of the expression for a socket. -/
def Accompanies (registry : Registry) (t : BlockType) (v : Value) : Prop :=
  ∃ socket, Socket.value socket ∈ t.sockets ∧ ∃ given, socket.shadow = some given ∧
    ∃ u, registry.find? given.type = some u ∧ v = u.typeId

theorem planShadow_registered {socket : ValueSocket}
    (h : planShadow registry socket = .ok (some (t, fields))) :
    ∃ given, socket.shadow = some given ∧ registry.find? given.type = some t := by
  unfold planShadow at h
  split at h
  · cases h
  · rename_i shadow hshadow
    split at h
    · cases h
    · split at h
      · cases h
      · rename_i u hu
        simp only [bind_ok, Except.ok.injEq, Option.some.injEq, Prod.mk.injEq] at h
        obtain ⟨_, -, _, -, rfl, -⟩ := h
        exact ⟨shadow, hshadow, hu⟩

theorem buildShadows_types (h : (buildShadows registry supply sockets).1 = .ok shadows)
    (hs : s ∈ shadows) : ∃ socket ∈ sockets, ∃ given, socket.shadow = some given ∧
      ∃ u, registry.find? given.type = some u ∧ s.2.type = u.typeId := by
  induction sockets generalizing supply shadows with
  | nil =>
    cases h
    cases hs
  | cons socket sockets ih =>
    have hlater : ∀ {supply shadows}, (buildShadows registry supply sockets).1 = .ok shadows →
        s ∈ shadows → ∃ x ∈ socket :: sockets, ∃ given, x.shadow = some given ∧
          ∃ u, registry.find? given.type = some u ∧ s.2.type = u.typeId := fun h hs => by
      obtain ⟨x, hx, hfrom⟩ := ih h hs
      exact ⟨x, List.mem_cons_of_mem _ hx, hfrom⟩
    simp only [buildShadows] at h
    split at h
    · cases h
    · exact hlater h hs
    · rename_i t fields hplan
      split at h
      · cases h
      · rename_i b later hbuild
        obtain ⟨others, hothers, rfl⟩ := map_ok.mp h
        rcases List.mem_cons.mp hs with rfl | hs
        · obtain ⟨given, hgiven, ht⟩ := planShadow_registered hplan
          exact ⟨socket, List.mem_cons_self, given, hgiven, t, ht,
            buildBlock_type (congrArg Prod.fst hbuild)⟩
        · exact hlater hothers hs

theorem plan_type (h : plan registry kinds w request = .ok p) :
    Gate.placeableType registry kinds request.type = .ok p.type := by
  simp only [plan, bind_ok] at h
  obtain ⟨t, ht, h⟩ := h
  split at h
  · cases h
  · split at h
    · cases h
    · simp only [bind_ok, Except.ok.injEq] at h
      obtain ⟨_, -, _, -, rfl⟩ := h
      exact ht

/-- The blocks that are new after a placement have the type that was asked for, or come with it. -/
theorem place_types (h : place registry kinds w supply request = (.ok placed, supply')) :
    ∃ t, Gate.placeableType registry kinds request.type = .ok t ∧
      ∀ r, (placed.workspace.block r).type = (w.block r).type ∨
        (placed.workspace.block r).type = t.typeId ∨
        Accompanies registry t (placed.workspace.block r).type := by
  obtain ⟨p, b, shadows, hplan, hbuild, hshadows, heq⟩ := place_steps h
  refine ⟨p.type, plan_type hplan, fun r => ?_⟩
  rw [heq]
  rcases addTree_types (w.declareAll p.variableNames) b shadows r with hold | hnew
  · exact .inl (hold.trans (declareAll_types w p.variableNames r))
  · rcases List.mem_cons.mp hnew with hroot | hshadow
    · exact .inr (.inl (hroot.trans (buildBlock_type hbuild)))
    · obtain ⟨s, hs, htype⟩ := List.mem_map.mp hshadow
      obtain ⟨socket, hsocket, given, hgiven, u, hu, hs⟩ :=
        buildShadows_types (congrArg Prod.fst hshadows) hs
      exact .inr (.inr ⟨socket, valueSockets_mem socket hsocket, given, hgiven, u, hu,
        htype.symm.trans hs⟩)

-- ---------------------------------------------------------------------------
-- Keys
-- ---------------------------------------------------------------------------

structure Keyed (w : Workspace) : Prop where
  types : ∀ r, (w.block r).type.isContainer = false
  names : ∀ v ∈ w.variableNames, v.isContainer = false

theorem Keyed.fresh (id : String) : Keyed (fresh id) where
  types r := by
    match r with
    | 0 => rfl
    | r + 1 => rfl
  names v hv := by cases hv

theorem Keyed.mono (h : Keyed w) (hadds : AddsNothing w w') : Keyed w' where
  types r := hadds.types r ▸ h.types r
  names v hv := h.names v (hadds.names.subset hv)

theorem Keyed.addVariable (h : Keyed w) (name : String) :
    Keyed (w.addVariable (.text name)).2 where
  types r := addVariable_types w _ r ▸ h.types r
  names v hv := by
    unfold Workspace.addVariable at hv
    split at hv
    · exact h.names v hv
    · rcases List.mem_append.mp hv with hv | hv
      · exact h.names v hv
      · rw [List.mem_singleton.mp hv]
        rfl

theorem Keyed.createVariable (h : Keyed w) (hcreate : w.createVariable v = .ok (added, w')) :
    Keyed w' := by
  simp only [Workspace.createVariable, bind_ok, Except.ok.injEq] at hcreate
  obtain ⟨name, -, heq⟩ := hcreate
  have hadd := h.addVariable name
  rw [heq] at hadd
  exact hadd

theorem Keyed.declareAll (h : Keyed w) (names : List String) : Keyed (w.declareAll names) :=
  List.foldlRecOn names _ (motive := Keyed) h fun _ hu name _ => hu.addVariable name

theorem Keyed.place (h : Keyed w) (hregistry : registry.Keyed)
    (hplace : place registry kinds w supply request = (.ok placed, supply')) :
    Keyed placed.workspace where
  types r := by
    obtain ⟨t, ht, htypes⟩ := place_types hplace
    rcases htypes r with hold | hnew | ⟨_, -, given, -, u, hu, hnew⟩
    · rw [hold]
      exact h.types r
    · rw [hnew]
      exact hregistry request.type t (placeableType_ok ht)
    · rw [hnew]
      exact hregistry given.type u hu
  names := by
    obtain ⟨p, b, shadows, -, -, -, heq⟩ := place_steps hplace
    rw [heq, addTree_variableNames]
    exact (h.declareAll _).names

end Workspace

-- ---------------------------------------------------------------------------
-- Documents
-- ---------------------------------------------------------------------------

namespace Document

variable {registry : Registry} {w : Workspace}

theorem assemble_keyed {drafts : List (Option Draft)} (hregistry : registry.Keyed)
    (h : assemble registry names drafts roots = .ok w) : w.Keyed := by
  obtain ⟨entries, ids, hread, -, -, rfl⟩ := assemble_ok.mp h
  refine ⟨fun r => ?_, fun v hv => ?_⟩
  · rw [Workspace.block]
    cases hb : (build entries ids names).blocks[r]? with
    | none => rfl
    | some b =>
      obtain ⟨e, he, rfl⟩ : ∃ e, e ∈ entries ∧ e.toBlock entries = b := by
        have hmem := Array.mem_of_getElem? hb
        simpa [build] using hmem
      obtain ⟨draft, -, hdraft⟩ := exists_mem_left hread he
      obtain ⟨d, -, hreads⟩ := readRecord_ok.mp hdraft
      obtain ⟨type, -, htype⟩ := hreads.type
      exact hregistry _ _ htype
  · obtain ⟨name, -, rfl⟩ := List.mem_map.mp hv
    rfl

theorem read_keyed (hregistry : registry.Keyed) (h : read registry v = .ok w) : w.Keyed := by
  obtain ⟨names, records, roots, -, hassemble⟩ := read_ok.mp h
  exact assemble_keyed hregistry hassemble

theorem readText_keyed (hregistry : registry.Keyed) (h : readText registry v = .ok w) :
    w.Keyed := by
  obtain ⟨s, document, -, -, hread⟩ := readText_ok h
  exact read_keyed hregistry hread

theorem reread_keyed (hregistry : registry.Keyed) (h : reread registry document = .ok w) :
    w.Keyed := by
  simp only [reread, bind_ok] at h
  obtain ⟨names, -, hassemble⟩ := h
  exact assemble_keyed hregistry hassemble

end Document

end BlockSketch
