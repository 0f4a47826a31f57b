import BlockSketch.Proofs.Canvas.Moving
import BlockSketch.Proofs.Workspace.Closing

/-!
# Undoing a move

Every place of a workspace is one that its block can be connected to: types fit together wherever a
block stands. To cut a block out and put it back is to fill its place twice, so that connecting a
detached block to its old place restores the workspace, and connecting a block to the place that it
has leaves all as it is.
-/

namespace BlockSketch

open Relation (ReflTransGen)

theorem Table.put_put (entries : Table α) (s : String) (a b : α) :
    (entries.put (.text s) a).put (.text s) b = entries.put (.text s) b := by
  induction entries with
  | nil => simp [put]
  | cons e entries ih =>
    rw [put_cons, put_cons]
    split
    · rename_i hfound
      rw [put_cons, if_pos hfound]
    · rename_i hother
      rw [put_cons, if_neg hother, ih]

namespace Workspace

variable {w w' : Workspace} {registry : Registry} {place : Option Value}

-- ---------------------------------------------------------------------------
-- Filling a place twice
-- ---------------------------------------------------------------------------

theorem modify_modify (w : Workspace) (r : Ref) (f g : Block → Block) :
    (w.modify r f).modify r g = w.modify r (g ∘ f) := by
  have hblocks : (w.blocks.modify r f).modify r g = w.blocks.modify r (g ∘ f) := by
    refine Array.ext (by simp) fun i _ _ => ?_
    simp only [Array.getElem_modify]
    split <;> rfl
  rw [modify, modify, hblocks]
  rfl

theorem modify_eq_self {f : Block → Block} (h : f (w.block r) = w.block r) : w.modify r f = w := by
  have hblocks : w.blocks.modify r f = w.blocks := by
    refine Array.ext (by simp) fun i _ hi => ?_
    rw [Array.getElem_modify]
    split
    · rename_i hr
      subst hr
      simpa [block, hi] using h
    · rfl
  rw [modify, hblocks]

theorem fill_fill (h : Forest w) (hslot : w.Holds (slotAt p place) r) (content : Option Ref) :
    (w.fill p place content).fill p place (some r) = w := by
  cases place with
  | none =>
    have hnext : (w.block p).next = some r := hslot
    refine (modify_modify w p _ _).trans (modify_eq_self ?_)
    show { w.block p with next := some r } = w.block p
    rw [← hnext]
  | some socket =>
    obtain ⟨s, rfl⟩ := (h.keys p).1 socket (Table.mem_keys.mpr ⟨_, hslot⟩)
    have hsame : (w.block p).inputs.put (.text s) (some r) = (w.block p).inputs :=
      (Table.put_eq_map (h.keys p) hslot id fun _ _ _ => rfl).trans (List.map_id _)
    refine (modify_modify w p _ _).trans (modify_eq_self ?_)
    show { w.block p with
        inputs := ((w.block p).inputs.put (.text s) content).put (.text s) (some r) } = w.block p
    rw [Table.put_put, hsame]

theorem fill_end (h : (w.block e).next = none) : w.fill e none none = w := by
  refine modify_eq_self ?_
  show { w.block e with next := none } = w.block e
  rw [← h]

-- ---------------------------------------------------------------------------
-- Where blocks stand
-- ---------------------------------------------------------------------------

/-- How the parts of an editor name a place: null is the place after the parent. -/
def socketName (place : Option Value) : Value :=
  place.getD .null

theorem SlotFits.target (h : SlotFits registry w (slotAt p place) r) (hnamed : NamedPlace place) :
    ∃ t u target, TypeIs registry w r t ∧ TypeIs registry w p u ∧
      TargetFits t u (socketName place) target ∧ target.place = place ∧
      (target = .next ↔ socketName place = .null) := by
  cases place with
  | none =>
    obtain ⟨u, t, hu, ht, hulink, htlink⟩ := h
    exact ⟨t, u, .next, ht, hu, ⟨hulink, htlink⟩, rfl, iff_of_true rfl rfl⟩
  | some k =>
    obtain ⟨s, rfl⟩ := hnamed k rfl
    obtain ⟨u, t, socket, hu, ht, hsocket, hfits⟩ := h
    cases socket with
    | statement name =>
      exact ⟨t, u, .body (.text s), ht, hu, ⟨rfl, hfits, name, hsocket⟩, rfl, by simp [socketName]⟩
    | value socket =>
      exact ⟨t, u, .operand (.text s), ht, hu, ⟨rfl, hfits.1, socket, hsocket, hfits.2⟩, rfl,
        by simp [socketName]⟩

section

variable (h : Forest w) (hr : w.Live r) (hslot : w.Holds (slotAt p place) r)
include h hslot

theorem Forest.not_root_of_slot : ¬w.Holds .root r := by
  intro hroot
  cases place <;> cases h.slots.unique hslot hroot

theorem Forest.parent_live (hr : w.Live r) : w.Live p := by
  obtain ⟨q, hq, hlink⟩ := hr.cases.resolve_left (h.not_root_of_slot hslot)
  obtain rfl := h.slots.oneParent _ _ _ hlink ⟨_, slotAt_parent p place, hslot⟩
  exact hq

theorem Forest.not_above : ¬ReflTransGen w.Link r p := fun hpath =>
  h.slots.acyclic r (.tail' hpath ⟨_, slotAt_parent p place, hslot⟩)

include hr

theorem cutOut_slot : w.cutOut r = w.fill p place none := by
  have hroot := h.not_root_of_slot hslot
  obtain ⟨q, place', hfind, hslot'⟩ := h.findParent?_some hr hroot
  obtain ⟨rfl, rfl⟩ := slotAt_inj.mp (h.slots.unique hslot' hslot)
  rw [cutOut_eq, replaceAt_slot hroot hfind]

/-- To cut a block out and to put it back changes nothing. -/
theorem attach_cutOut (htarget : target.place = place) : (w.cutOut r).attach r p target = w := by
  have hnamed : NamedPlace place := by
    rintro k rfl
    exact (h.keys p).1 k (Table.mem_keys.mpr ⟨_, hslot⟩)
  have hback := fill_fill h hslot none
  have hempty := contentAt_fill_self (parent_lt hslot) h.keys hnamed none
  have hchain : (w.fill p place none).chainIn r p place = w := by
    rw [chainIn, hback, hempty, fill_end (h.chainEnd_spec r).1]
  rw [cutOut_slot h hr hslot]
  subst htarget
  cases target with
  | next => exact hchain
  | body name => exact hchain
  | operand name =>
    rw [attach_operand]
    exact (congrArg (Option.elim · _ _) hempty).trans hback

theorem cutOut_detached : ((w.cutOut r).addRoot r).cutOut r = w.cutOut r := by
  have hroots : (w.cutOut r).roots = w.roots := by
    rw [cutOut_slot h hr hslot, fill_roots]
  have hnew : r ∉ (w.cutOut r).roots := hroots ▸ h.not_root_of_slot hslot
  have hroot : ((w.cutOut r).addRoot r).isRoot r = true :=
    isRoot_iff.mpr (holds_addRoot.mpr (.inr ⟨rfl, rfl⟩))
  rw [Workspace.cutOut, if_pos hroot, removeRoot, addRoot]
  split
  · rw [List.erase_cons_head]
  · rw [List.erase_append_right _ hnew, List.erase_cons_head, List.append_nil]

end

section

variable (h : Invariant registry w) (hregular : registry.Regular) (hr : w.Live r)
  (hslot : w.Holds (slotAt p place) r)
include h hr hslot

/-- A block can be connected to the place that it has. -/
theorem connects_here : ∃ target, target.place = place ∧
    Connects registry w (w.block r).id (w.block p).id (socketName place) r p target := by
  obtain ⟨t, u, target, ht, hu, hfits, hplace, hnext⟩ :=
    (h.linked.fits hslot).target (h.linked.placeOf hslot).named
  exact ⟨target, hplace, ⟨hr, rfl⟩, ⟨h.forest.parent_live hslot hr, rfl⟩, h.forest.not_above hslot,
    ⟨t, u, ht, hu, hfits⟩, hnext⟩

theorem detach_slot : w.detach (w.block r).id = .ok (true, (w.cutOut r).addRoot r) := by
  have hlocate : w.locate (w.block r).id = .ok r := locate_ok.mpr (h.findBlock?_ok.mpr ⟨hr, rfl⟩)
  have hroot : ¬w.isRoot r = true := isRoot_iff.not.mpr (h.forest.not_root_of_slot hslot)
  rw [detach, hlocate]
  exact congrArg Except.ok (if_neg hroot)

include hregular

theorem connect_here :
    w.connect registry (w.block r).id (w.block p).id (socketName place) = (.ok (), w) := by
  obtain ⟨target, hplace, hconnects⟩ := connects_here h hr hslot
  rw [connect_eq h hregular hconnects, attach_cutOut h.forest hr hslot hplace]

theorem connects_back : ∃ target, target.place = place ∧
    Connects registry ((w.cutOut r).addRoot r) (w.block r).id (w.block p).id (socketName place) r p
      target := by
  have hrewires := Rewires.detach h hregular hr (h.forest.not_root_of_slot hslot)
  have hretains : Retains registry .null w _ :=
    detach_retains h hregular (detach_slot h hr hslot)
  obtain ⟨target, hplace, hconnects⟩ := connects_here h hr hslot
  obtain ⟨t, u, ht, hu, hfits⟩ := hconnects.fits
  refine ⟨target, hplace, ⟨hretains.live hr, hrewires.content.id⟩,
    ⟨hretains.live hconnects.parent.1, hrewires.content.id⟩, fun hpath => hconnects.outside ?_,
    ⟨t, u, hrewires.content.typeIs.mpr ht, hrewires.content.typeIs.mpr hu, hfits⟩, hconnects.named⟩
  -- Detaching brings no link that was not there.
  refine hpath.lift (fun x => x) ?_
  rintro a b ⟨s, hs, hb⟩
  rcases holds_addRoot.mp hb with hb | ⟨rfl, -⟩
  · exact ⟨s, hs, ((holds_cutOut h.forest hr).mp hb).1⟩
  · cases hs

theorem connect_back :
    ((w.cutOut r).addRoot r).connect registry (w.block r).id (w.block p).id (socketName place) =
      (.ok (), w) := by
  have hinv := (Rewires.detach h hregular hr (h.forest.not_root_of_slot hslot)).invariant h
  obtain ⟨target, hplace, hconnects⟩ := connects_back h hregular hr hslot
  rw [connect_eq hinv hregular hconnects, cutOut_detached h.forest hr hslot,
    attach_cutOut h.forest hr hslot hplace]

end

end Workspace

namespace Canvas

open Document (guardedDocument guardedWorkspace)
open Workspace (Connects slotAt socketName)

variable {c : Canvas}

theorem detach_eq (h : c.workspace.detach block = .ok (moved, w)) :
    (c.detach block).result = .ok moved ∧ (c.detach block).canvas.workspace = w ∧
      (c.detach block).canvas.registry = c.registry := by
  simp only [detach, h]
  exact ⟨rfl, rfl, rfl⟩

/-- A block can be detached and connected again to a place, which restores the workspace. It can
also be connected there right away, which changes nothing. -/
structure Undone (c : Canvas) (block parent socket : Value) : Prop where
  detached : (c.detach block).result = .ok true
  connected : ((c.detach block).canvas.connect block parent socket).result = .ok ()
  restored : ((c.detach block).canvas.connect block parent socket).canvas.workspace = c.workspace
  accepted : (c.connect block parent socket).result = .ok ()
  unchanged : (c.connect block parent socket).canvas.workspace = c.workspace

/-- Every block that is no root can be taken out of its place and put back. -/
theorem move_undone (settings : Settings) (c : Canvas) (ops : List Operation)
    (hstart : start settings limit = .ok c) (hproper : c.ProperRun ops) (r p : Ref)
    (place : Option Value) (hr : (c.run ops).1.workspace.Live r)
    (hslot : (c.run ops).1.workspace.Holds (slotAt p place) r) :
    Undone (c.run ops).1 ((c.run ops).1.workspace.block r).id ((c.run ops).1.workspace.block p).id
      (socketName place) := by
  have hgood := (good_start hstart).run hproper
  have hhere := Workspace.connect_here hgood.inv hgood.regular hr hslot
  have hback := Workspace.connect_back hgood.inv hgood.regular hr hslot
  obtain ⟨hresult, hworkspace, hregistry⟩ := detach_eq (Workspace.detach_slot hgood.inv hr hslot)
  rw [← hworkspace, ← hregistry] at hback
  obtain ⟨hagain, hsame⟩ := connect_result (c.run ops).1 ((c.run ops).1.workspace.block r).id
    ((c.run ops).1.workspace.block p).id (socketName place)
  obtain ⟨hconnected, hrestored⟩ := connect_result _ ((c.run ops).1.workspace.block r).id
    ((c.run ops).1.workspace.block p).id (socketName place)
  refine ⟨hresult, hconnected.trans (congrArg Prod.fst hback),
    hrestored.trans (congrArg Prod.snd hback), hagain.trans (congrArg Prod.fst hhere),
    hsame.trans (congrArg Prod.snd hhere)⟩

-- ---------------------------------------------------------------------------
-- A run that chains two assignments
-- ---------------------------------------------------------------------------

/-- Loads two assignments, and has the protected one follow the other. -/
def chainAssignments : List Operation :=
  [.load guardedDocument, .connect "b" "a" .null]

def chainedWorkspace : Workspace where
  blocks := #[
    { type := "variables_set", id := "b", fields := [("VAR", "x")], deletable := .bool false },
    { type := "variables_set", id := "a", fields := [("VAR", "x")], inputs := [("VALUE", some 2)]
      next := some 0 },
    { type := "math_number", id := "c", fields := [("NUM", .int 7)], deletable := .bool false }]
  roots := [1]
  variableNames := ["x"]

theorem chainAssignments_proper (c : Canvas) : c.ProperRun chainAssignments :=
  ⟨(guarded_proper c).1, trivial, trivial⟩

theorem chainAssignments_run (h : start settings limit = .ok c) :
    (c.run chainAssignments).1.workspace = chainedWorkspace := by
  have hgood := (good_start h).run (guarded_proper c)
  have hloaded := guarded_loaded h
  have hfits : ∃ t u, Catalog.registry.find? "variables_set" = some t ∧
      Catalog.registry.find? "variables_set" = some u ∧
        Workspace.TargetFits t u .null .next := by
    rw [Catalog.registry_eq]
    exact ⟨_, _, rfl, rfl, rfl, rfl⟩
  have hconnects : Connects Catalog.registry guardedWorkspace "b" "a" .null 0 1 .next :=
    .ofRoots (hloaded ▸ hgood.inv.forest) (by decide) (by decide) (by decide) rfl rfl hfits
      (by simp)
  exact (hgood.connect hloaded hconnects rfl).2

/-- The assignment at the end of the chain is taken off and put back. -/
theorem move_undone_chained : ∃ c, start {} = .ok c ∧ c.ProperRun chainAssignments ∧
    (c.run chainAssignments).1.workspace.Live 0 ∧
    (c.run chainAssignments).1.workspace.Holds (slotAt 1 none) 0 ∧
    Undone (c.run chainAssignments).1 ((c.run chainAssignments).1.workspace.block 0).id
      ((c.run chainAssignments).1.workspace.block 1).id (socketName none) := by
  obtain ⟨c, hstart⟩ := exists_start
  have hproper := chainAssignments_proper c
  have hslot : chainedWorkspace.Holds (slotAt 1 none) 0 := rfl
  have hlive : chainedWorkspace.Live 0 := ⟨1, List.mem_cons_self, .single ⟨_, rfl, hslot⟩⟩
  rw [← chainAssignments_run hstart] at hslot hlive
  exact ⟨c, hstart, hproper, hlive, hslot,
    move_undone {} c _ hstart hproper 0 1 none hlive hslot⟩

end Canvas

end BlockSketch
