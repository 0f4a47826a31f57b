import BlockSketch.Proofs.Workspace.Rewiring

/-!
# The invariant of a workspace

What holds of every workspace that an editor shows. The links of all blocks are well typed, also of
those that were deleted and are held by no root any more; ids and variables matter for live blocks
only.
-/

namespace BlockSketch.Workspace

open Ancestry
open Relation (ReflTransGen TransGen)

variable {w w' : Workspace} {registry : Registry}

structure Invariant (registry : Registry) (w : Workspace) : Prop where
  linked : Linked registry w
  stored : r < w.blocks.size → TypeIs registry w r t → t.Stored (w.block r).fields
  ids : w.Live r → ∃ s, (w.block r).id = .text s
  distinct : w.Live r → w.Live r' → (w.block r).id = (w.block r').id → r = r'
  declared : w.Live r → TypeIs registry w r t → ∀ field ∈ t.variableFields,
    ∃ v ∈ w.variableNames, (w.block r).fields.find? field = some v
  names : ∀ v ∈ w.variableNames, ∃ s, v = .text s
  namesOnce : w.variableNames.Nodup
  entryOnce : w.Holds .root r → w.Holds .root r' → (w.block r).type = .text entryType →
    (w.block r').type = .text entryType → r = r'
  entryKept : r < w.blocks.size → (w.block r).type = .text entryType →
    (w.block r).isDeletable = false

theorem Invariant.forest (h : Invariant registry w) : Forest w :=
  h.linked.forest

/-- A block that is found by an id is the live block with that id. -/
theorem Invariant.findBlock?_ok (h : Invariant registry w) :
    w.findBlock? v = some r ↔ w.Live r ∧ (w.block r).id = v := by
  constructor
  · intro hfind
    obtain ⟨hlive, hsame⟩ := h.forest.findBlock?_some hfind
    obtain ⟨s, hs⟩ := h.ids hlive
    simp only [hs, Value.text_same] at hsame
    exact ⟨hlive, hs.trans hsame.symm⟩
  · rintro ⟨hlive, rfl⟩
    obtain ⟨s, hs⟩ := h.ids hlive
    cases hfind : w.findBlock? (w.block r).id with
    | none =>
      have hother := h.forest.findBlock?_none hfind hlive
      rw [hs, Bool.eq_false_iff] at hother
      exact (hother (Value.text_same.mpr rfl)).elim
    | some r' =>
      obtain ⟨hlive', hsame⟩ := h.forest.findBlock?_some hfind
      obtain ⟨s', hs'⟩ := h.ids hlive'
      simp only [hs', Value.text_same] at hsame
      rw [h.distinct hlive' hlive (hs'.trans hsame.symm)]

theorem locate_ok : w.locate v = .ok r ↔ w.findBlock? v = some r := by
  unfold locate
  split <;> simp_all

theorem typeOf_ok (h : registry.Regular) :
    w.typeOf registry r = .ok t ↔ TypeIs registry w r t := by
  unfold typeOf Gate.describe TypeIs
  split
  · rename_i hcontainer
    simp only [reduceCtorEq, false_iff]
    intro hfind
    obtain ⟨-, s, hs⟩ := h.typeId hfind
    simp [hs, Value.isContainer] at hcontainer
  · split <;> simp_all

theorem entry_of_fits (hregular : registry.Regular) (h : SlotFits registry w s c) (hs : s ≠ .root) :
    (w.block c).type ≠ .text entryType := by
  intro hentry
  have hno : ∀ u, TypeIs registry w c u → u.isStatement = true ∧ u.isLink = false := by
    intro u hu
    rw [TypeIs, hentry] at hu
    obtain ⟨hstatement, hlink, -⟩ := hregular.entry hu
    exact ⟨hstatement, hlink⟩
  cases s with
  | root => exact hs rfl
  | next p =>
    obtain ⟨t, u, -, hu, -, hlink⟩ := h
    simp [(hno u hu).2] at hlink
  | input p k =>
    obtain ⟨t, u, socket, -, hu, -, hfits⟩ := h
    cases socket with
    | statement name => simp [Socket.Fits, (hno u hu).2] at hfits
    | value socket => simp [Socket.Fits, (hno u hu).1] at hfits

theorem Invariant.entry_root (h : Invariant registry w) (hregular : registry.Regular)
    (hlive : w.Live r) (hentry : (w.block r).type = .text entryType) : w.Holds .root r := by
  obtain ⟨s, hs⟩ := hlive.held
  by_cases hroot : s = .root
  · exact hroot ▸ hs
  · exact (entry_of_fits hregular (h.linked.fits hs) hroot hentry).elim

def HasId (w : Workspace) (v : Value) : Prop :=
  ∃ r, w.Live r ∧ (w.block r).id = v

theorem Invariant.findBlock?_isSome (h : Invariant registry w) :
    (w.findBlock? v).isSome = true ↔ w.HasId v := by
  simp only [Option.isSome_iff_exists, h.findBlock?_ok, HasId]

/-- A change that keeps the invariant and brings no new ids. -/
structure Keeps (registry : Registry) (w w' : Workspace) : Prop where
  inv : Invariant registry w'
  ids : w'.HasId v → w.HasId v

theorem Invariant.keeps (h : Invariant registry w) : Keeps registry w w :=
  ⟨h, fun hv => hv⟩

theorem Keeps.trans (h : Keeps registry w w') (h' : Keeps registry w' w'') :
    Keeps registry w w'' :=
  ⟨h'.inv, fun hv => h.ids (h'.ids hv)⟩

-- ---------------------------------------------------------------------------
-- Edits of links
-- ---------------------------------------------------------------------------

/-- Live blocks get other places, and no entry point becomes a root. -/
structure Rewires (registry : Registry) (w w' : Workspace) : Prop where
  linked : Linked registry w'
  content : SameContent w w'
  moved : w'.Holds s c → w.Holds s c ∨ w.Live c
  roots : w'.Holds .root c → w.Holds .root c ∨ (w.block c).type ≠ .text entryType

theorem Rewires.live (h : Rewires registry w w') (hr : w'.Live r) : w.Live r :=
  hr.of_moved fun _ _ => h.moved

theorem Rewires.invariant (hrewires : Rewires registry w w') (h : Invariant registry w) :
    Invariant registry w' where
  linked := hrewires.linked
  stored hr ht := by
    rw [hrewires.content.fields]
    exact h.stored (hrewires.content.size ▸ hr) (hrewires.content.typeIs.mp ht)
  ids hr := by
    rw [hrewires.content.id]
    exact h.ids (hrewires.live hr)
  distinct hr hr' hid := by
    rw [hrewires.content.id, hrewires.content.id] at hid
    exact h.distinct (hrewires.live hr) (hrewires.live hr') hid
  declared hr ht := by
    rw [hrewires.content.fields, hrewires.content.names]
    exact h.declared (hrewires.live hr) (hrewires.content.typeIs.mp ht)
  names := hrewires.content.names ▸ h.names
  namesOnce := hrewires.content.names ▸ h.namesOnce
  entryOnce {r r'} hr hr' ht ht' := by
    rw [hrewires.content.type] at ht ht'
    have hroot := (hrewires.roots hr).resolve_right (not_not.mpr ht)
    have hroot' := (hrewires.roots hr').resolve_right (not_not.mpr ht')
    exact h.entryOnce hroot hroot' ht ht'
  entryKept hr ht := by
    rw [Block.isDeletable, hrewires.content.deletable]
    exact h.entryKept (hrewires.content.size ▸ hr) (hrewires.content.type ▸ ht)

theorem Rewires.keeps (hrewires : Rewires registry w w') (h : Invariant registry w) :
    Keeps registry w w' := by
  refine ⟨hrewires.invariant h, ?_⟩
  rintro v ⟨r, hr, rfl⟩
  exact ⟨r, hrewires.live hr, hrewires.content.id.symm⟩

end BlockSketch.Workspace
