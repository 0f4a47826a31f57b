import BlockSketch.Proofs.Canvas.Regeneration
import BlockSketch.Proofs.Session

/-!
# Gating

Blocks come in through the gate, or as the expressions in the sockets of such blocks, and these are
always available. So as long as no program is read and no component is taken out, every block is one
that may still be placed. In any case the violations are the blocks that the gate would refuse now.
-/

namespace BlockSketch

-- ---------------------------------------------------------------------------
-- The built-in types at the gate
-- ---------------------------------------------------------------------------

def Registry.NamesCapabilities (registry : Registry) : Prop :=
  ∀ v t, registry.find? v = some t → Value.AllTexts t.capabilities

theorem Catalog.registry_namesCapabilities : Catalog.registry.NamesCapabilities := by
  have hall : ∀ t ∈ blockTypes, Value.AllTexts t.capabilities := by
    simp only [blockTypes, List.forall_mem_cons]
    simp [Value.AllTexts, unlockedBy]
  exact fun v t ht => hall t (find?_registry ht).1

namespace Gate

variable {registry : Registry} {kinds : List ComponentKind}

theorem placeableType_ne_illTyped (hnames : registry.NamesCapabilities)
    (hv : v.isContainer = false) : placeableType registry kinds v ≠ .error .illTyped := by
  simp only [placeableType, describe, hv, Bool.false_eq_true, if_false]
  cases hfind : registry.find? v with
  | none => simp [bind, Except.bind]
  | some t =>
    obtain ⟨names, htexts⟩ := (hnames v t hfind).mapM_text?
    simp only [bind, Except.bind, violation, htexts]
    split <;> simp

theorem lockedBy_eq_none {b : Block} (hnames : registry.NamesTypes)
    (h : b.type ∈ allowedTypes registry kinds ∨ registry.find? b.type = none) :
    lockedBy registry kinds b = none := by
  unfold lockedBy placeableType describe
  split
  · rename_i v heq
    split at heq
    · cases heq
    · split at heq
      · rename_i t hfind
        rcases h with hin | hnone
        · have hallowed : isAllowed registry kinds b.type = true :=
            ((allowedTypes_texts hnames kinds).isIn_iff hin).mpr hin
          simp [hallowed, bind, Except.bind] at heq
        · rw [hfind] at hnone
          cases hnone
      · cases heq
  · rfl

theorem placeableType_allowed (h : placeableType registry kinds v = .ok t) :
    isAllowed registry kinds v = true := by
  simp only [placeableType, bind_ok] at h
  obtain ⟨u, -, h⟩ := h
  split at h
  · assumption
  · simp only [bind_ok] at h
    obtain ⟨_, -, h⟩ := h
    cases h

/-- What is placed may be placed, and so may be all that comes with it. -/
theorem placed_allowed (h : placeableType Catalog.registry kinds v = .ok t)
    (hx : x = t.typeId ∨ Workspace.Accompanies Catalog.registry t x) :
    x ∈ allowedTypes Catalog.registry kinds := by
  obtain ⟨ht, rfl⟩ := Catalog.find?_registry (Workspace.placeableType_ok h)
  rcases hx with rfl | ⟨socket, hsocket, given, hgiven, u, hu, rfl⟩
  · obtain ⟨s, hs⟩ := Catalog.typeId_text t ht
    have hallowed := placeableType_allowed h
    rw [hs] at hallowed ⊢
    exact Value.text_isIn.mp hallowed
  · obtain ⟨u', hu', -, -, hbase⟩ := Catalog.shadow_fits t ht socket hsocket given hgiven
    obtain rfl := Option.some.inj (hu.symm.trans hu')
    refine (mem_allowedTypes Catalog.registry_namesTypes).mpr (.inr ⟨u, ?_, by simp [hbase], rfl⟩)
    rw [Registry.all, Catalog.registry_types, List.map_map]
    simpa using (Catalog.find?_registry hu).1

end Gate

/-- The operations that bring blocks in through the gate only, and take no component out. -/
def Operation.IsGated : Operation → Prop
  | .load _ | .reload | .loadText _ | .removeComponent _ | .clearComponents
  | .replaceComponents _ => False
  | _ => True

namespace Canvas

variable {c : Canvas} {op : Operation}

theorem addComponent_kinds (c : Canvas) (request : Component) :
    c.selection.kinds ⊆ (c.addComponent request).canvas.selection.kinds := by
  unfold addComponent
  split
  · exact List.Subset.refl _
  · rename_i component selection supply hadmitted
    dsimp only
    split
    · exact List.Subset.refl _
    · intro kind hkind
      obtain ⟨x, hx, hkind⟩ := Selection.mem_kinds.mp hkind
      refine Selection.mem_kinds.mpr ⟨x, ?_, hkind⟩
      rcases Selection.admitComponent_ok hadmitted with rfl | ⟨rfl, -⟩
      · exact hx
      · exact List.mem_append_left _ hx

/-- Every block has a type that may be placed now. Where there is no block, the type is null. -/
structure Gated (c : Canvas) : Prop where
  registry : c.registry = Catalog.registry
  types : ∀ r, (c.workspace.block r).type = .null ∨
    (c.workspace.block r).type ∈ Gate.allowedTypes Catalog.registry c.selection.kinds

theorem gated_fresh (id : String) (kinds : List ComponentKind) (r : Ref) :
    ((Workspace.fresh id).block r).type = .null ∨
      ((Workspace.fresh id).block r).type ∈ Gate.allowedTypes Catalog.registry kinds := by
  match r with
  | 0 => exact .inr ((Gate.mem_allowedTypes Catalog.registry_namesTypes).mpr (.inl rfl))
  | r + 1 => exact .inl rfl

theorem gated_start (h : start settings limit = .ok c) : Gated c := by
  have hnew := new_of_start h
  refine ⟨hnew.registry, ?_⟩
  rw [hnew.workspace]
  exact gated_fresh _ _

theorem apply_kinds (hop : op.IsGated) :
    c.selection.kinds ⊆ (c.apply op).canvas.selection.kinds := by
  rcases (c.apply_ends op).selection with hselecting | hsame
  · cases op with
    | addComponent request => exact addComponent_kinds c request
    | removeComponent id => exact hop.elim
    | clearComponents => exact hop.elim
    | replaceComponents components => exact hop.elim
    | _ => exact hselecting.elim
  · rw [hsame]
    exact List.Subset.refl _

theorem Gated.apply (h : Gated c) (hop : op.IsGated) : Gated (c.apply op).canvas := by
  have hkinds := Gate.allowedTypes_mono Catalog.registry_namesTypes (apply_kinds (c := c) hop)
  refine ⟨(apply_registry c op).trans h.registry, ?_⟩
  have hbrings := apply_brings c op
  generalize (c.apply op).canvas.workspace = w at hbrings ⊢
  generalize (c.apply op).canvas.selection.kinds = kinds at hkinds ⊢
  have hold : ∀ r, (c.workspace.block r).type = .null ∨
      (c.workspace.block r).type ∈ Gate.allowedTypes Catalog.registry kinds :=
    fun r => (h.types r).imp_right fun hin => hkinds hin
  cases hbrings with
  | nothing hadds => exact fun r => hadds.types r ▸ hold r
  | block hplace =>
    rw [h.registry] at hplace
    obtain ⟨t, ht, htypes⟩ := Workspace.place_types hplace
    intro r
    rcases htypes r with hsame | hnew
    · exact hsame ▸ hold r
    · exact .inr (hkinds (Gate.placed_allowed ht hnew))
  | name hcreate => exact fun r => Workspace.createVariable_types hcreate r ▸ hold r
  | entry id => exact gated_fresh id kinds
  | document hread =>
    cases op with
    | load document => exact hop.elim
    | reload => exact hop.elim
    | loadText text => exact hop.elim
    | _ => cases hread

/-- The violations by the blocks that the gate would refuse now, in the order of the blocks. -/
def locked (c : Canvas) : List Violation :=
  c.workspace.allBlocks.filterMap fun r =>
    Gate.lockedBy c.registry c.selection.kinds (c.workspace.block r)

theorem Keyed.violations (h : Keyed c) (hnames : c.registry.NamesCapabilities) :
    c.violations = .ok c.locked :=
  Gate.violations_ok.mpr ⟨fun r _ =>
    Gate.placeableType_ne_illTyped hnames (h.workspace.types r), rfl⟩

theorem Gated.locked (h : Gated c) : c.locked = [] := by
  refine List.filterMap_eq_nil_iff.mpr fun r _ => ?_
  rw [h.registry]
  refine Gate.lockedBy_eq_none Catalog.registry_namesTypes ?_
  rcases h.types r with hnull | hallowed
  · rw [hnull]
    exact .inr Catalog.registry_null
  · exact .inl hallowed

end Canvas

-- ---------------------------------------------------------------------------
-- Sessions
-- ---------------------------------------------------------------------------

namespace Session

variable {s : Session} {action : Action}

theorem Acts.keyed (h : Acts c action c') (hkeyed : c.Keyed) : c'.Keyed := by
  cases h with
  | nothing => exact hkeyed
  | edited => exact hkeyed.apply _
  | staged supply => exact ⟨hkeyed.registry, hkeyed.workspace⟩
  | used selection allowed => exact ⟨hkeyed.registry, hkeyed.workspace⟩

def Action.IsGated : Action → Prop
  | .edit op => op.IsGated
  | .stage _ => True
  | .useStaged _ => False

theorem Acts.gated (h : Acts c action c') (haction : action.IsGated) (hgated : c.Gated) :
    c'.Gated := by
  cases h with
  | nothing => exact hgated
  | edited => exact hgated.apply haction
  | staged supply => exact ⟨hgated.registry, hgated.types⟩
  | used selection allowed => exact haction.elim

theorem Acts.workspace (h : Acts c action c') (haction : action.IsSelecting) :
    c'.workspace = c.workspace := by
  cases h with
  | @edited op =>
    refine c.apply_workspace (.inl ?_)
    cases op with
    | addComponent _ | removeComponent _ | clearComponents | replaceComponents _ => trivial
    | _ => exact haction.elim
  | _ => rfl

/-- Without loads and with no component taken out there are no violations. Actions on components
leave the workspace alone. The violations in any state are the blocks that the gate would refuse,
and unless a type cannot be looked up or a capability told, they can be listed. -/
theorem gate_enforced (settings : Settings) (s : Session)
    (hstart : Canvas.start settings limit = .ok s.canvas) (actions : List Action) :
    ((∀ action ∈ actions, action.IsGated) → (s.run actions).1.canvas.violations = .ok []) ∧
    (s.run actions).1.canvas.violations = .ok (s.run actions).1.canvas.locked ∧
    (∀ (s' : Session) (action : Action), action.IsSelecting →
      (s'.perform action).session.canvas.workspace = s'.canvas.workspace) ∧
    ∀ (c : Canvas) (found : List Violation), c.violations = .ok found ↔
      (∀ r ∈ c.workspace.allBlocks, Gate.placeableType c.registry c.selection.kinds
        (c.workspace.block r).type ≠ .error .illTyped) ∧ found = c.locked := by
  have hkeyed : (s.run actions).1.canvas.Keyed :=
    run_keeps (fun _ _ _ _ hacts hkeyed => hacts.keyed hkeyed) (Canvas.keyed_start hstart)
  have hregistry : (s.run actions).1.canvas.registry = Catalog.registry :=
    run_keeps (P := fun c => c.registry = Catalog.registry)
      (fun _ _ _ _ hacts hsame => hacts.registry.trans hsame) (Canvas.gated_start hstart).registry
  have hlisted := hkeyed.violations (hregistry ▸ Catalog.registry_namesCapabilities)
  refine ⟨fun hactions => ?_, hlisted, fun s' action haction => ?_, fun c found => ?_⟩
  · have hgated : (s.run actions).1.canvas.Gated :=
      run_keeps (fun action haction _ _ hacts hgated => hacts.gated (hactions action haction) hgated)
        (Canvas.gated_start hstart)
    rw [hlisted, hgated.locked]
  · exact (perform_acts s' action).workspace haction
  · exact Gate.violations_ok

/-- Only with a lamp can a block be placed that writes to a pin. A loop comes in with a number. -/
def lightActions : List Action := [
  .edit (.createBlock { type := "arduino_digital_write" }),
  .edit .clear,
  .edit (.createBlock { type := "controls_repeat_ext" }),
  .stage [],
  .edit (.addComponent { id := "lamp", kind := .led }),
  .edit (.createBlock { type := "arduino_digital_write" })]

/-- The block is no violation until the lamp is taken out. -/
theorem gate_enforced_lightActions : ∃ s : Session, Canvas.start {} = .ok s.canvas ∧
    (∀ action ∈ lightActions, action.IsGated) ∧
    ((s.run lightActions).1.canvas.workspace.allBlocks.map fun r =>
      ((s.run lightActions).1.canvas.workspace.block r).type.text?) =
        [some entryType, some "controls_repeat_ext", some "math_number",
          some "arduino_digital_write"] ∧
    (s.run lightActions).1.canvas.violations = .ok [] ∧
    Action.IsSelecting (.edit .clearComponents) ∧
    ((s.run lightActions).1.perform (.edit .clearComponents)).session.canvas.workspace =
      (s.run lightActions).1.canvas.workspace ∧
    ((s.run (lightActions ++ [.edit .clearComponents])).1.canvas.violations.toOption.map fun found =>
      found.map (·.type.text?)) = some [some "arduino_digital_write"] := by
  have hgated : ∀ action ∈ lightActions, action.IsGated := by
    simp [lightActions, Action.IsGated, Operation.IsGated]
  have hstart : Canvas.start {} = .ok _ := rfl
  obtain ⟨hnone, -, hworkspace, -⟩ := gate_enforced {} { canvas := _ } hstart lightActions
  exact ⟨_, hstart, hgated, by decide +kernel, hnone hgated, trivial, hworkspace _ _ trivial,
    by decide +kernel⟩

end Session

end BlockSketch
