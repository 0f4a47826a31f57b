import BlockSketch.Canvas.Placement
import BlockSketch.Proofs.Workspace.Editing

/-!
# Placing keeps the invariant

A placed block and the expressions in its sockets are added one by one. Each enters as a bare block
with an id of its own, first among the blocks that nothing refers to and then into its place.
-/

namespace BlockSketch

namespace Workspace

open Ancestry
open Relation (ReflTransGen TransGen)

variable {w w' : Workspace} {registry : Registry}

-- ---------------------------------------------------------------------------
-- A block that nothing refers to
-- ---------------------------------------------------------------------------

/-- A block of a type that holds no other blocks yet. -/
structure IsBare (registry : Registry) (b : Block) (t : BlockType) : Prop where
  type : registry.find? b.type = some t
  next : b.next = none
  empty : (k, x) ∈ b.inputs → x = none
  keys : Table.TextKeys b.inputs
  sockets : k ∈ b.inputs.keys → ∃ socket, t.socket? k = some socket
  stored : t.Stored b.fields
  kept : b.type = .text entryType → b.isDeletable = false
  flag : b.deletable = t.deletable

theorem block_alloc (w : Workspace) (b : Block) (x : Ref) :
    (w.alloc b).2.block x = if x = w.blocks.size then b else w.block x := by
  simp only [alloc, block, Array.getElem?_push]
  split <;> rfl

theorem block_alloc_of_lt (hx : x < w.blocks.size) (b : Block) :
    (w.alloc b).2.block x = w.block x := by
  rw [block_alloc, if_neg (Nat.ne_of_lt hx)]

theorem alloc_size (w : Workspace) (b : Block) :
    (w.alloc b).2.blocks.size = w.blocks.size + 1 := by
  simp [alloc]

section

variable (hbare : IsBare registry b t)
include hbare

theorem holds_alloc (w : Workspace) : (w.alloc b).2.Holds = w.Holds := by
  funext s c
  by_cases hs : s.parent? = some w.blocks.size
  · refine propext ⟨fun hc => ?_, fun hc => (Nat.lt_irrefl _ (holder_lt hc hs)).elim⟩
    cases s with
    | root => simp [Slot.parent?] at hs
    | next p =>
      cases hs
      simp [Holds, block_alloc, hbare.next] at hc
    | input p k =>
      cases hs
      simp only [Holds, block_alloc, if_true] at hc
      cases hbare.empty hc
  · cases s with
    | root => rfl
    | next p =>
      have hp : p ≠ w.blocks.size := by simpa [Slot.parent?] using hs
      simp [Holds, block_alloc, hp]
    | input p k =>
      have hp : p ≠ w.blocks.size := by simpa [Slot.parent?] using hs
      simp [Holds, block_alloc, hp]

theorem typeIs_alloc : TypeIs registry (w.alloc b).2 w.blocks.size t := by
  rw [TypeIs, block_alloc, if_pos rfl]
  exact hbare.type

omit hbare in
theorem slotFits_alloc (h : Linked registry w) (hc : w.Holds s c) :
    SlotFits registry (w.alloc b).2 s c := by
  have hfits := h.fits hc
  have hclt := h.forest.bounded hc
  cases s with
  | root => trivial
  | next p =>
    have hplt := holder_lt hc rfl
    simp only [SlotFits, TypeIs, block_alloc_of_lt hplt, block_alloc_of_lt hclt]
    exact hfits
  | input p k =>
    have hplt := holder_lt hc rfl
    simp only [SlotFits, TypeIs, block_alloc_of_lt hplt, block_alloc_of_lt hclt]
    exact hfits

theorem Linked.alloc (h : Linked registry w) : Linked registry (w.alloc b).2 where
  forest :=
    { keys r := by
        rw [block_alloc]
        split
        · exact hbare.keys
        · exact h.forest.keys r
      bounded hc := by
        rw [holds_alloc hbare] at hc
        rw [alloc_size]
        exact Nat.lt_succ_of_lt (h.forest.bounded hc)
      nodup := h.forest.nodup
      slots := holds_alloc hbare w ▸ h.forest.slots }
  known {r} hr := by
    rw [alloc_size] at hr
    rcases Nat.lt_succ_iff_lt_or_eq.mp hr with hr | rfl
    · obtain ⟨u, hu⟩ := h.known hr
      exact ⟨u, by rw [TypeIs, block_alloc_of_lt hr]; exact hu⟩
    · exact ⟨t, typeIs_alloc hbare⟩
  sockets {r k} hk := by
    rw [block_alloc] at hk
    split at hk
    · rename_i hr
      obtain ⟨socket, hsocket⟩ := hbare.sockets hk
      exact ⟨t, socket, hr ▸ typeIs_alloc hbare, hsocket⟩
    · rename_i hr
      obtain ⟨u, socket, hu, hsocket⟩ := h.sockets hk
      exact ⟨u, socket, by rw [TypeIs, block_alloc, if_neg hr]; exact hu, hsocket⟩
  fits hc := by
    rw [holds_alloc hbare] at hc
    exact slotFits_alloc h hc

theorem live_alloc : (w.alloc b).2.Live r ↔ w.Live r := by
  rw [Live, Live, holds_alloc hbare]

theorem Invariant.alloc (h : Invariant registry w) : Invariant registry (w.alloc b).2 where
  linked := h.linked.alloc hbare
  stored {r u} hr hu := by
    rw [TypeIs, block_alloc] at hu
    rw [block_alloc]
    rw [alloc_size] at hr
    split at hu
    · rename_i heq
      obtain rfl := Option.some.inj (hbare.type.symm.trans hu)
      rw [if_pos heq]
      exact hbare.stored
    · rename_i hne
      rw [if_neg hne]
      exact h.stored (Nat.lt_of_le_of_ne (Nat.le_of_lt_succ hr) hne) hu
  ids {r} hr := by
    rw [live_alloc hbare] at hr
    rw [block_alloc_of_lt (h.forest.live_lt hr)]
    exact h.ids hr
  distinct {r r'} hr hr' hid := by
    rw [live_alloc hbare] at hr hr'
    rw [block_alloc_of_lt (h.forest.live_lt hr), block_alloc_of_lt (h.forest.live_lt hr')] at hid
    exact h.distinct hr hr' hid
  declared {r u} hr hu := by
    rw [live_alloc hbare] at hr
    rw [TypeIs, block_alloc_of_lt (h.forest.live_lt hr)] at hu
    rw [block_alloc_of_lt (h.forest.live_lt hr)]
    exact h.declared hr hu
  names := h.names
  namesOnce := h.namesOnce
  entryOnce {r r'} hr hr' ht ht' := by
    rw [holds_alloc hbare] at hr hr'
    rw [block_alloc_of_lt (h.forest.bounded hr)] at ht
    rw [block_alloc_of_lt (h.forest.bounded hr')] at ht'
    exact h.entryOnce hr hr' ht ht'
  entryKept {r} hr ht := by
    rw [block_alloc] at ht ⊢
    rw [alloc_size] at hr
    split at ht
    · rename_i heq
      rw [if_pos heq]
      exact hbare.kept ht
    · rename_i hne
      rw [if_neg hne]
      exact h.entryKept (Nat.lt_of_le_of_ne (Nat.le_of_lt_succ hr) hne) ht

theorem hasId_alloc (h : Forest w) : (w.alloc b).2.HasId v ↔ w.HasId v := by
  simp only [HasId, live_alloc hbare]
  refine exists_congr fun r => and_congr_right fun hr => ?_
  rw [block_alloc_of_lt (h.live_lt hr)]

end

-- ---------------------------------------------------------------------------
-- A block enters
-- ---------------------------------------------------------------------------

/-- A block without a place that has nothing below it, whose id is new. -/
structure Newcomer (registry : Registry) (w : Workspace) (r : Ref) : Prop where
  lt : r < w.blocks.size
  free : ¬w.Holds s r
  leaf : ¬w.Link r c
  id : ∃ s, (w.block r).id = .text s
  fresh : ¬w.HasId (w.block r).id
  declared : TypeIs registry w r t → ∀ field ∈ t.variableFields,
    ∃ v ∈ w.variableNames, (w.block r).fields.find? field = some v

/-- A newcomer gets a place, as a root only if there is no second entry point. -/
structure Admits (registry : Registry) (w w' : Workspace) (r : Ref) : Prop where
  linked : Linked registry w'
  content : SameContent w w'
  moved : w'.Holds s c → w.Holds s c ∨ c = r
  roots : w'.Holds .root r → (w.block r).type = .text entryType → w.Holds .root x →
    (w.block x).type ≠ .text entryType

section

variable (h : Invariant registry w) (hnew : Newcomer registry w r) (hadmits : Admits registry w w' r)
include hnew hadmits

theorem Admits.live (hx : w'.Live x) : w.Live x ∨ x = r := by
  obtain ⟨root, hroot, hpath⟩ := hx
  induction hpath with
  | refl => exact (hadmits.moved hroot).imp_left .root
  | tail _ hlink ih =>
    obtain ⟨s, hs, hc⟩ := hlink
    rcases hadmits.moved hc with hc | rfl
    · rcases ih with ih | rfl
      · exact .inl (ih.child ⟨s, hs, hc⟩)
      · exact (hnew.leaf ⟨s, hs, hc⟩).elim
    · exact .inr rfl

theorem Admits.hasId (hv : w'.HasId v) : w.HasId v ∨ v = (w.block r).id := by
  obtain ⟨x, hx, rfl⟩ := hv
  rw [hadmits.content.id]
  rcases hadmits.live hnew hx with hx | rfl
  · exact .inl ⟨x, hx, rfl⟩
  · exact .inr rfl

include h

theorem Admits.invariant : Invariant registry w' where
  linked := hadmits.linked
  stored hx hu := by
    rw [hadmits.content.fields]
    exact h.stored (hadmits.content.size ▸ hx) (hadmits.content.typeIs.mp hu)
  ids hx := by
    rw [hadmits.content.id]
    rcases hadmits.live hnew hx with hx | rfl
    · exact h.ids hx
    · exact hnew.id
  distinct {x y} hx hy hid := by
    rw [hadmits.content.id, hadmits.content.id] at hid
    rcases hadmits.live hnew hx with hx | rfl
    · rcases hadmits.live hnew hy with hy | rfl
      · exact h.distinct hx hy hid
      · exact (hnew.fresh ⟨x, hx, hid⟩).elim
    · rcases hadmits.live hnew hy with hy | rfl
      · exact (hnew.fresh ⟨y, hy, hid.symm⟩).elim
      · rfl
  declared hx hu := by
    rw [hadmits.content.fields, hadmits.content.names]
    rcases hadmits.live hnew hx with hx | rfl
    · exact h.declared hx (hadmits.content.typeIs.mp hu)
    · exact hnew.declared (hadmits.content.typeIs.mp hu)
  names := hadmits.content.names ▸ h.names
  namesOnce := hadmits.content.names ▸ h.namesOnce
  entryOnce {x y} hx hy ht ht' := by
    rw [hadmits.content.type] at ht ht'
    rcases hadmits.moved hx with hx' | rfl
    · rcases hadmits.moved hy with hy' | rfl
      · exact h.entryOnce hx' hy' ht ht'
      · exact (hadmits.roots hy ht' hx' ht).elim
    · rcases hadmits.moved hy with hy' | rfl
      · exact (hadmits.roots hx ht hy' ht').elim
      · rfl
  entryKept hx ht := by
    rw [Block.isDeletable, hadmits.content.deletable]
    exact h.entryKept (hadmits.content.size ▸ hx) (hadmits.content.type ▸ ht)

end

/-- A change that keeps the invariant and brings only the listed ids. -/
structure Gains (registry : Registry) (w w' : Workspace) (added : List Value) : Prop where
  inv : Invariant registry w'
  ids : w'.HasId v → w.HasId v ∨ v ∈ added

structure Placeable (registry : Registry) (w : Workspace) (b : Block) (t : BlockType) : Prop where
  bare : IsBare registry b t
  id : ∃ s, b.id = .text s
  fresh : ¬w.HasId b.id
  declared : ∀ field ∈ t.variableFields, ∃ v ∈ w.variableNames, b.fields.find? field = some v

section

variable (h : Invariant registry w) (hplace : Placeable registry w b t)
include h hplace

theorem Placeable.newcomer : Newcomer registry (w.alloc b).2 w.blocks.size := by
  have hblock : (w.alloc b).2.block w.blocks.size = b := by rw [block_alloc, if_pos rfl]
  refine ⟨?_, fun {s} hs => ?_, fun {c} hlink => ?_, ?_, ?_, fun {u} hu => ?_⟩
  · rw [alloc_size]
    exact Nat.lt_succ_self _
  · rw [holds_alloc hplace.bare] at hs
    exact Nat.lt_irrefl _ (h.forest.bounded hs)
  · rw [Link, holds_alloc hplace.bare] at hlink
    obtain ⟨s, hs, hc⟩ := hlink
    exact Nat.lt_irrefl _ (holder_lt hc hs)
  · rw [hblock]
    exact hplace.id
  · rw [hblock, hasId_alloc hplace.bare h.forest]
    exact hplace.fresh
  · obtain rfl := (typeIs_alloc hplace.bare).unique hu
    rw [hblock]
    exact hplace.declared

theorem Placeable.gains (hadmits : Admits registry (w.alloc b).2 w' w.blocks.size) :
    Gains registry w w' [b.id] := by
  have hnew := hplace.newcomer h
  refine ⟨hadmits.invariant (h.alloc hplace.bare) hnew, fun {v} hv => ?_⟩
  rcases hadmits.hasId hnew hv with hv | rfl
  · exact .inl ((hasId_alloc hplace.bare h.forest).mp hv)
  · rw [block_alloc, if_pos rfl]
    exact .inr (List.mem_singleton_self _)

theorem Invariant.addNew (hentry : b.type = .text entryType → w.entry? = none) :
    Gains registry w ((w.alloc b).2.addRoot w.blocks.size) [b.id] := by
  have hnew := hplace.newcomer h
  refine hplace.gains h ⟨?_, addRoot_content _ _, fun hc => ?_, fun {x} _ ht hx htx => ?_⟩
  · exact (h.linked.alloc hplace.bare).addRoot hnew.lt fun _ => hnew.free
  · exact (holds_addRoot.mp hc).imp_right And.right
  · rw [block_alloc, if_pos rfl] at ht
    rw [holds_alloc hplace.bare] at hx
    rw [block_alloc_of_lt (h.forest.bounded hx)] at htx
    have hno := List.find?_eq_none.mp (hentry ht) x hx
    rw [isEntry, htx, Value.same_text] at hno
    exact hno rfl

end

-- ---------------------------------------------------------------------------
-- A block with expressions in its sockets
-- ---------------------------------------------------------------------------

def plug (p : Ref) (w : Workspace) (e : Value × Block) : Workspace :=
  (w.alloc e.2).2.setInput p e.1 (some w.blocks.size)

/-- A bare expression for a socket of a type that names no variables. -/
structure Suits (registry : Registry) (t : BlockType) (e : Value × Block) : Prop where
  socket : ∃ u s socket, IsBare registry e.2 u ∧ u.variableFields = [] ∧ e.1 = .text s ∧
    t.socket? e.1 = some socket ∧ socket.Fits u
  id : ∃ s, e.2.id = .text s
  named : e.2.id ≠ .text ""

theorem Invariant.plug (h : Invariant registry w) (hp : TypeIs registry w p t)
    (hlt : p < w.blocks.size) (hsuits : Suits registry t e) (hfresh : ¬w.HasId e.2.id) :
    Gains registry w (w.plug p e) [e.2.id] ∧ TypeIs registry (w.plug p e) p t ∧
      p < (w.plug p e).blocks.size := by
  obtain ⟨k, b⟩ := e
  obtain ⟨⟨u, s, socket, hbare, hnone, rfl, hsocket, hfits⟩, hid, -⟩ := hsuits
  have hplace : Placeable registry w b u := ⟨hbare, hid, hfresh, by simp [hnone]⟩
  have hnew := hplace.newcomer h
  have hlinked := h.linked.alloc hbare
  have hp' : TypeIs registry (w.alloc b).2 p t := by
    rw [TypeIs, block_alloc_of_lt hlt]
    exact hp
  have hlt' : p < (w.alloc b).2.blocks.size := by
    rw [alloc_size]
    exact Nat.lt_succ_of_lt hlt
  have henter : CanEnter registry (w.alloc b).2 w.blocks.size p (some (.text s)) := by
    refine ⟨hnew.lt, hlt', fun _ => hnew.free, fun hpath => ?_, ?_, ?_⟩
    · rcases hpath.cases_head with heq | ⟨c, hlink, -⟩
      · exact Nat.ne_of_lt hlt heq.symm
      · exact hnew.leaf hlink
    · rintro _ ⟨⟩
      exact ⟨⟨s, rfl⟩, t, socket, hp', hsocket⟩
    · exact ⟨t, u, socket, hp', typeIs_alloc hbare, hsocket, hfits⟩
  have hcontent := (enter_edited hlinked henter).content
  refine ⟨hplace.gains h ⟨hlinked.enter henter, hcontent, enter_moved hlinked henter, ?_⟩,
    hcontent.typeIs.mpr hp', hcontent.size ▸ hlt'⟩
  intro x hroot
  rcases (holds_enter hlinked henter _ _).mp hroot with ⟨hslot, -⟩ | ⟨-, hroot⟩
  · cases hslot
  · exact (hnew.free hroot).elim

theorem Invariant.plugAll {shadows : List (Value × Block)} (h : Invariant registry w)
    (hp : TypeIs registry w p t) (hlt : p < w.blocks.size)
    (hsuits : ∀ e ∈ shadows, Suits registry t e)
    (hnodup : (shadows.map (·.2.id)).Nodup) (hfresh : ∀ e ∈ shadows, ¬w.HasId e.2.id) :
    Gains registry w (shadows.foldl (Workspace.plug p) w) (shadows.map (·.2.id)) := by
  induction shadows generalizing w with
  | nil => exact ⟨h, .inl⟩
  | cons e shadows ih =>
    obtain ⟨hgains, hp', hlt'⟩ := h.plug hp hlt (hsuits e (by simp)) (hfresh e (by simp))
    obtain ⟨hne, hnodup⟩ := List.nodup_cons.mp hnodup
    have ih := ih hgains.inv hp' hlt' (fun e' he' => hsuits e' (by simp [he'])) hnodup
      fun e' he' hid => ?_
    · refine ⟨ih.inv, fun {v} hv => ?_⟩
      rcases ih.ids hv with hv | hv
      · rcases hgains.ids hv with hv | hv
        · exact .inl hv
        · exact .inr (by simp_all)
      · exact .inr (List.mem_cons_of_mem _ hv)
    · rcases hgains.ids hid with hid | hid
      · exact hfresh e' (by simp [he']) hid
      · exact hne (List.mem_map.mpr ⟨e', he', List.mem_singleton.mp hid⟩)

theorem addRoot_plug (hlt : r < w.blocks.size) (e : Value × Block) :
    (w.plug r e).addRoot r = (w.addRoot r).plug r e := by
  have hentry : (w.plug r e).isEntry r = w.isEntry r := by
    have hlt' : r < (w.alloc e.2).2.blocks.size := by
      rw [alloc_size]
      exact Nat.lt_succ_of_lt hlt
    simp only [isEntry, plug, setInput, block_modify hlt', block_alloc_of_lt hlt, if_true]
  simp only [addRoot, hentry]
  split <;> rfl

/-- The block can become a root before its sockets are filled. -/
theorem addTree_eq (w : Workspace) (b : Block) (shadows : List (Value × Block)) :
    w.addTree b shadows =
      shadows.foldl (plug w.blocks.size) ((w.alloc b).2.addRoot w.blocks.size) := by
  suffices hall : ∀ w' : Workspace, w.blocks.size < w'.blocks.size →
      (shadows.foldl (plug w.blocks.size) w').addRoot w.blocks.size =
        shadows.foldl (plug w.blocks.size) (w'.addRoot w.blocks.size) from
    hall (w.alloc b).2 (by simp [alloc_size])
  intro w' hlt
  induction shadows generalizing w' with
  | nil => rfl
  | cons e shadows ih =>
    rw [List.foldl_cons, List.foldl_cons, ih, addRoot_plug hlt]
    simp only [plug, setInput, modify, Array.size_modify, alloc_size]
    exact Nat.lt_succ_of_lt hlt

-- ---------------------------------------------------------------------------
-- Variables of a placed block
-- ---------------------------------------------------------------------------

theorem readVariable_ok (h : readVariable v = .ok name) : v = .text name ∧ name ≠ "" := by
  unfold readVariable at h
  split at h
  · rename_i s hs
    cases h
    obtain ⟨htext, hname⟩ := Option.filter_eq_some_iff.mp hs
    refine ⟨Value.text?_eq_some.mp htext, ?_⟩
    rintro rfl
    simp [Sketch.isVariableName, Sketch.hasNameForm] at hname
  · cases h

theorem newVariables_ok {fields : List String}
    (h : w.newVariables values found fields = .ok names) :
    found ⊆ names ∧ ("" ∈ names → "" ∈ found) ∧
      ∀ field ∈ fields, ∃ name, values.find? field = some (.text name) ∧
        (w.declares (.text name) = true ∨ name ∈ names) := by
  induction fields generalizing found with
  | nil =>
    cases h
    exact ⟨fun _ hx => hx, id, by simp⟩
  | cons field fields ih =>
    simp only [newVariables, bind_ok] at h
    obtain ⟨name, hname, h⟩ := h
    obtain ⟨hsub, hempty, hrest⟩ := ih h
    obtain ⟨hread, hne⟩ := readVariable_ok hname
    have hfind : values.find? field = some (.text name) := by
      cases hv : values.find? field with
      | none => simp [hv] at hread
      | some v => simpa [hv] using hread
    refine ⟨fun x hx => hsub ?_, fun hx => ?_, fun f hf => ?_⟩
    · split
      · exact hx
      · exact List.mem_append_left _ hx
    · have hx := hempty hx
      split at hx
      · exact hx
      · rcases List.mem_append.mp hx with hx | hx
        · exact hx
        · exact (hne (List.mem_singleton.mp hx).symm).elim
    · rcases List.mem_cons.mp hf with rfl | hf
      · refine ⟨name, hfind, ?_⟩
        by_cases hold : (w.declares (.text name) || found.contains name) = true
        · rw [if_pos hold] at hsub
          rcases Bool.or_eq_true_iff.mp hold with hold | hold
          · exact .inl hold
          · exact .inr (hsub (List.contains_iff_mem.mp hold))
        · rw [if_neg hold] at hsub
          exact .inr (hsub (by simp))
      · exact hrest f hf

theorem Invariant.declareAll (h : Invariant registry w) (names : List String) :
    Keeps registry w (w.declareAll names) ∧
      (∀ v ∈ w.variableNames, v ∈ (w.declareAll names).variableNames) ∧
      ∀ name ∈ names, .text name ∈ (w.declareAll names).variableNames := by
  induction names generalizing w with
  | nil => exact ⟨h.keeps, fun _ hv => hv, by simp⟩
  | cons name names ih =>
    have hadd := h.addVariable name
    obtain ⟨hkeeps, hold, hnew⟩ := ih hadd.inv
    refine ⟨hadd.trans hkeeps, fun v hv => hold v (addVariable_sub w _ hv), fun n hn => ?_⟩
    rcases List.mem_cons.mp hn with rfl | hn
    · refine hold _ ?_
      rcases addVariable_names w (.text n) with ⟨heq, hdeclares⟩ | ⟨heq, -⟩
      · rw [heq]
        exact h.declares_iff.mp hdeclares
      · simp [heq]
    · exact hnew n hn

end Workspace

-- ---------------------------------------------------------------------------
-- Fresh ids
-- ---------------------------------------------------------------------------

namespace Supply

/-- An id that is not going to be drawn. -/
def Past (supply : Supply) (id : String) : Prop :=
  ∀ later : Supply, supply.drawn ≤ later.drawn → id ≠ later.drawId.1

variable {supply later : Supply} {s : String}

theorem Past.mono (h : supply.Past s) (hle : supply.drawn ≤ later.drawn) : later.Past s :=
  fun latest hlatest => h latest (Nat.le_trans hle hlatest)

theorem Past.ne_drawId (h : supply.Past s) : s ≠ supply.drawId.1 :=
  h supply (Nat.le_refl _)

theorem drawId_inj (h : supply.drawId.1 = later.drawId.1) : supply.drawn = later.drawn := by
  simp only [drawId, draw, String.append_right_inj, Nat.toString_eq_ofList_toDigits,
    String.ofList_inj] at h
  refine Nat.succ.inj ?_
  rw [← @Nat.ofDigitChars_ten_toDigits supply.drawn.succ, h, Nat.ofDigitChars_ten_toDigits]

theorem drawId_past (supply : Supply) : supply.drawId.2.Past supply.drawId.1 := by
  intro later hle heq
  rw [← drawId_inj heq] at hle
  exact Nat.not_succ_le_self _ hle

theorem past_of_head (supply : Supply) (h : s.toList.head? ≠ some 'u') : supply.Past s := by
  rintro later - rfl
  simp [drawId] at h

theorem drawId_ne_empty (supply : Supply) : supply.drawId.1 ≠ "" :=
  (past_of_head supply (by decide)).ne_drawId.symm

theorem drawId_le (supply : Supply) : supply.drawn ≤ supply.drawId.2.drawn :=
  Nat.le_succ _

end Supply

namespace Workspace

variable {w w' : Workspace} {registry : Registry} {supply supply' : Supply}

-- ---------------------------------------------------------------------------
-- Building blocks
-- ---------------------------------------------------------------------------

theorem buildBlock_supply (t : BlockType) (fields : Assoc Value) (v : Value) (supply : Supply) :
    (buildBlock t fields v supply).2 = supply.drawId.2 := by
  rfl

theorem buildBlock_ok (hregular : registry.Regular) (ht : registry.find? x = some t)
    (hstored : t.Stored fields) (hbuild : (buildBlock t fields v supply).1 = .ok b) :
    IsBare registry b t ∧ b.type = x ∧
      b.id = if v.isNull then .text supply.drawId.1 else v := by
  simp only [buildBlock] at hbuild
  split at hbuild
  · cases hbuild
  · cases hbuild
    obtain ⟨rfl, -⟩ := hregular.typeId ht
    have htexts := (hregular.socketNames ht).1
    have hentries : ∀ e ∈ t.sockets.map fun socket => (socket.name, (none : Option Ref)),
        ∃ s, e.1 = .text s := by
      simpa using htexts
    obtain ⟨hkeys, hmem⟩ := Table.ofList_texts hentries
    refine ⟨⟨ht, rfl, fun {k x} hk => ?_, hkeys, fun {k} hk => ?_, hstored, fun hentry => ?_, rfl⟩, rfl,
      rfl⟩
    · obtain ⟨socket, -, heq⟩ := List.mem_map.mp (hmem _ hk)
      exact (Prod.mk.inj heq).2.symm
    · obtain ⟨x, hx⟩ := Table.mem_keys.mp hk
      obtain ⟨socket, hsocket, heq⟩ := List.mem_map.mp (hmem _ hx)
      obtain ⟨rfl, -⟩ := Prod.mk.inj heq
      exact ⟨socket, hregular.socket?_mem ht hsocket⟩
    · exact (hregular.entry (hentry ▸ ht)).2.2

theorem planShadow_ok (hregular : registry.Regular) {socket : ValueSocket}
    (h : planShadow registry socket = .ok (some (u, fields))) :
    ∃ given, socket.shadow = some given ∧ registry.find? given.type = some u ∧
      u.Stored fields := by
  unfold planShadow at h
  split at h
  · cases h
  · rename_i given hgiven
    split at h
    · cases h
    · split at h
      · cases h
      · rename_i t ht
        simp only [bind_ok, mapError_ok, Except.ok.injEq, Option.some.injEq, Prod.mk.injEq] at h
        obtain ⟨values, -, fields', hfields, rfl, rfl⟩ := h
        exact ⟨given, hgiven, ht,
          BlockType.stored_of_filled (fun _ => hregular.initial ht)
            (BlockType.validateFields_ok.mp hfields).2⟩

structure Drawn (supply supply' : Supply) (ids : List Value) : Prop where
  le : supply.drawn ≤ supply'.drawn
  once : ids.Nodup
  past : v ∈ ids → ∃ s, v = .text s ∧ supply'.Past s
  fresh : v ∈ ids → ∀ s, supply.Past s → v ≠ .text s

theorem Drawn.nil (hle : supply.drawn ≤ supply'.drawn) : Drawn supply supply' [] :=
  ⟨hle, .nil, by simp, by simp⟩

theorem Drawn.cons (h : Drawn supply.drawId.2 supply' ids) :
    Drawn supply supply' (.text supply.drawId.1 :: ids) := by
  have hle := supply.drawId_le
  refine ⟨Nat.le_trans hle h.le, List.nodup_cons.mpr ⟨fun hmem => ?_, h.once⟩, fun {v} hv => ?_,
    fun {v} hv s hs => ?_⟩
  · exact h.fresh hmem _ supply.drawId_past rfl
  · rcases List.mem_cons.mp hv with rfl | hv
    · exact ⟨_, rfl, supply.drawId_past.mono h.le⟩
    · exact h.past hv
  · rcases List.mem_cons.mp hv with rfl | hv
    · exact fun heq => hs.ne_drawId (Value.text.inj heq).symm
    · exact h.fresh hv s (hs.mono hle)

theorem buildShadows_le (registry : Registry) (supply : Supply) (sockets : List ValueSocket) :
    supply.drawn ≤ (buildShadows registry supply sockets).2.drawn := by
  induction sockets generalizing supply with
  | nil => exact Nat.le_refl _
  | cons socket sockets ih =>
    simp only [buildShadows]
    split
    · exact Nat.le_refl _
    · exact ih supply
    · rename_i u fields _
      have hle : supply.drawn ≤ (buildBlock u fields .null supply).2.drawn := supply.drawId_le
      split <;> rename_i heq <;> rw [heq] at hle
      · exact hle
      · exact Nat.le_trans hle (ih _)

theorem buildShadows_ok (hregular : registry.Regular) (ht : registry.find? x = some t)
    {sockets : List ValueSocket} (hsockets : ∀ socket ∈ sockets, Socket.value socket ∈ t.sockets)
    (hbuild : buildShadows registry supply sockets = (.ok shadows, supply')) :
    (∀ e ∈ shadows, Suits registry t e) ∧ Drawn supply supply' (shadows.map (·.2.id)) := by
  induction sockets generalizing supply shadows with
  | nil =>
    cases hbuild
    exact ⟨by simp, .nil (Nat.le_refl _)⟩
  | cons socket sockets ih =>
    have hrest : ∀ socket ∈ sockets, Socket.value socket ∈ t.sockets := fun s hs =>
      hsockets s (by simp [hs])
    simp only [buildShadows] at hbuild
    split at hbuild
    · cases hbuild
    · exact ih hrest hbuild
    · rename_i u fields hplan
      obtain ⟨given, hgiven, hu, hstored⟩ := planShadow_ok hregular hplan
      have hmem : Socket.value socket ∈ t.sockets := hsockets socket (by simp)
      obtain ⟨hfits, hnone⟩ := hregular.shadow ht hmem hgiven hu
      split at hbuild
      · cases hbuild
      · rename_i b later heq
        obtain rfl : supply.drawId.2 = later := by
          rw [← buildBlock_supply u fields .null, heq]
        obtain ⟨hbare, -, hid⟩ := buildBlock_ok hregular hu hstored (congrArg Prod.fst heq)
        simp only [Prod.mk.injEq, map_ok] at hbuild
        obtain ⟨⟨others, hothers, rfl⟩, hsupply⟩ := hbuild
        obtain ⟨hsuits, hdrawn⟩ := ih hrest (Prod.ext hothers hsupply)
        obtain ⟨name, hname⟩ := (hregular.socketNames ht).1 _ hmem
        have hsuit : Suits registry t (socket.name, b) := by
          refine ⟨⟨u, name, _, hbare, hnone, hname, hregular.socket?_mem ht hmem, hfits⟩, ⟨_, hid⟩, ?_⟩
          rw [hid]
          exact fun heq => supply.drawId_ne_empty (Value.text.inj heq)
        refine ⟨fun e he => ?_, ?_⟩
        · rcases List.mem_cons.mp he with rfl | he
          · exact hsuit
          · exact hsuits e he
        · rw [List.map_cons, hid]
          exact .cons hdrawn

-- ---------------------------------------------------------------------------
-- Placing
-- ---------------------------------------------------------------------------

theorem placeableType_ok (h : Gate.placeableType registry kinds v = .ok t) :
    registry.find? v = some t := by
  simp only [Gate.placeableType, Gate.describe, bind_ok] at h
  obtain ⟨t', hfound, h⟩ := h
  split at hfound
  · cases hfound
  · split at hfound
    · rename_i u hu
      cases hfound
      split at h
      · cases h
        exact hu
      · simp only [bind_ok] at h
        obtain ⟨_, -, h⟩ := h
        cases h
    · cases hfound

structure Planned (registry : Registry) (w : Workspace) (request : BlockRequest) (plan : Plan) :
    Prop where
  type : registry.find? request.type = some plan.type
  stored : plan.type.Stored plan.fields
  entry : request.type = .text entryType → w.entry? = none
  fresh : request.id ≠ .null → ¬w.HasId request.id
  named : field ∈ plan.type.variableFields → ∃ name, plan.fields.find? field = some (.text name) ∧
    (w.declares (.text name) = true ∨ name ∈ plan.variableNames)
  nonempty : "" ∉ plan.variableNames

theorem plan_ok (h : Invariant registry w) (hregular : registry.Regular)
    (hplan : plan registry kinds w request = .ok p) : Planned registry w request p := by
  simp only [plan, bind_ok] at hplan
  obtain ⟨t, ht, hplan⟩ := hplan
  replace ht := placeableType_ok ht
  obtain ⟨htype, -⟩ := hregular.typeId ht
  split at hplan
  · cases hplan
  · rename_i hsecond
    split at hplan
    · cases hplan
    · rename_i hused
      simp only [bind_ok, mapError_ok, Except.ok.injEq] at hplan
      obtain ⟨fields, hfields, names, hnames, rfl⟩ := hplan
      obtain ⟨-, hempty, hnamed⟩ := newVariables_ok hnames
      refine ⟨ht, BlockType.validateInput_ok (hregular.initial ht) hfields, fun hentry => ?_,
        fun hid hhas => hused ?_, fun {field} => hnamed field, fun hx => nomatch hempty hx⟩
      · rw [htype, hentry, Bool.and_eq_true, Value.same_text, not_and] at hsecond
        exact Option.not_isSome_iff_eq_none.mp (hsecond rfl)
      · rw [Bool.and_eq_true, h.findBlock?_isSome]
        exact ⟨by simpa [← Value.isNull_iff] using hid, hhas⟩

theorem declareAll_entry (w : Workspace) (names : List String) :
    Workspace.entry? (w.declareAll names) = w.entry? := by
  induction names generalizing w with
  | nil => rfl
  | cons name names ih =>
    refine (ih (w.addVariable (.text name)).2).trans ?_
    unfold addVariable
    split <;> rfl

/-- The ids of all live blocks have been drawn, or will not be. -/
def PastIds (w : Workspace) (supply : Supply) : Prop :=
  ∀ v, w.HasId v → ∃ s, v = .text s ∧ supply.Past s

theorem PastIds.mono (h : PastIds w supply) (hle : supply.drawn ≤ supply'.drawn) :
    PastIds w supply' := by
  intro v hv
  obtain ⟨s, rfl, hs⟩ := h v hv
  exact ⟨s, rfl, hs.mono hle⟩

theorem Keeps.pastIds (h : Keeps registry w w') (hids : PastIds w supply) : PastIds w' supply :=
  fun v hv => hids v (h.ids hv)

theorem Invariant.addTree {shadows : List (Value × Block)} (h : Invariant registry w)
    (hids : PastIds w supply) (hplace : Placeable registry w b t)
    (hentry : b.type = .text entryType → w.entry? = none)
    (hid : ∃ s, b.id = .text s ∧ supply.Past s) (hsuits : ∀ e ∈ shadows, Suits registry t e)
    (hdrawn : Drawn supply supply' (shadows.map (·.2.id))) :
    Invariant registry (w.addTree b shadows) ∧ PastIds (w.addTree b shadows) supply' := by
  rw [addTree_eq]
  have hroot := h.addNew hplace hentry
  have hpast : PastIds ((w.alloc b).2.addRoot w.blocks.size) supply := by
    intro v hv
    rcases hroot.ids hv with hv | hv
    · exact hids v hv
    · rw [List.mem_singleton.mp hv]
      exact hid
  have hcontent := addRoot_content (w.alloc b).2 w.blocks.size
  have hplug := hroot.inv.plugAll (hcontent.typeIs.mpr (typeIs_alloc hplace.bare)) ?_ hsuits
    hdrawn.once fun e he hhas => ?_
  · refine ⟨hplug.inv, fun v hv => ?_⟩
    rcases hplug.ids hv with hv | hv
    · exact hpast.mono hdrawn.le v hv
    · exact hdrawn.past hv
  · rw [hcontent.size, alloc_size]
    exact Nat.lt_succ_self _
  · obtain ⟨s, hs, hold⟩ := hpast _ hhas
    exact hdrawn.fresh (List.mem_map_of_mem he) s hold hs

theorem valueSockets_mem {t : BlockType} {shadows : Bool} :
    ∀ socket ∈ if shadows then t.valueSockets else [], Socket.value socket ∈ t.sockets := by
  intro socket hsocket
  split at hsocket
  · simp only [BlockType.valueSockets, List.mem_filterMap] at hsocket
    obtain ⟨x, hx, hvalue⟩ := hsocket
    cases x with
    | value s =>
      cases hvalue
      exact hx
    | statement name => cases hvalue
  · cases hsocket

/-- A block that is placed was planned, built and filled. -/
theorem place_steps (h : place registry kinds w supply request = (.ok placed, supply')) :
    ∃ p b shadows, plan registry kinds w request = .ok p ∧
      (buildBlock p.type p.fields request.id supply).1 = .ok b ∧
      buildShadows registry supply.drawId.2 (if request.shadows then p.type.valueSockets else []) =
        (.ok shadows, supply') ∧
      placed.workspace = (w.declareAll p.variableNames).addTree b shadows := by
  unfold Workspace.place at h
  split at h
  · cases h
  · rename_i t fields names hplan
    split at h
    · cases h
    · rename_i b later heq
      obtain rfl : supply.drawId.2 = later := by
        rw [← buildBlock_supply t fields request.id, heq]
      split at h
      · cases h
      · rename_i shadows last hshadows
        cases h
        exact ⟨_, b, shadows, hplan, congrArg Prod.fst heq, hshadows, rfl⟩

theorem place_ok (h : Invariant registry w) (hregular : registry.Regular)
    (hplace : place registry kinds w supply request = (.ok placed, supply')) :
    ∃ p b shadows, Planned registry w request p ∧
      (buildBlock p.type p.fields request.id supply).1 = .ok b ∧
      buildShadows registry supply.drawId.2 (if request.shadows then p.type.valueSockets else []) =
        (.ok shadows, supply') ∧
      placed.workspace = (w.declareAll p.variableNames).addTree b shadows := by
  obtain ⟨p, b, shadows, hplan, hbuilt⟩ := place_steps hplace
  exact ⟨p, b, shadows, plan_ok h hregular hplan, hbuilt⟩

def ProperRequest (supply : Supply) (request : BlockRequest) : Prop :=
  request.id = .null ∨ ∃ s, request.id = .text s ∧ supply.Past s

section

variable (h : Invariant registry w) (hregular : registry.Regular) (hids : PastIds w supply)
  (hrequest : ProperRequest supply request)
include h hregular hids hrequest

theorem Planned.placeable (hplan : Planned registry w request p)
    (hbuild : (buildBlock p.type p.fields request.id supply).1 = .ok b) :
    Placeable registry (w.declareAll p.variableNames) b p.type ∧ b.type = request.type ∧
      ∃ s, b.id = .text s ∧ supply.drawId.2.Past s := by
  obtain ⟨hbare, htype, hid⟩ := buildBlock_ok hregular hplan.type hplan.stored hbuild
  obtain ⟨hkeeps, hold, hnew⟩ := h.declareAll p.variableNames
  have hpast : ∃ s, b.id = .text s ∧ supply.drawId.2.Past s ∧ ¬w.HasId b.id := by
    rcases hrequest with hnull | ⟨s, hs, hpast⟩
    · rw [hnull] at hid
      refine ⟨supply.drawId.1, hid, supply.drawId_past, fun hhas => ?_⟩
      obtain ⟨s, hs, hpast⟩ := hids _ hhas
      exact hpast.ne_drawId (Value.text.inj (hs.symm.trans hid))
    · have hne : request.id ≠ .null := by simp [hs]
      rw [if_neg (Value.isNull_iff.not.mpr hne)] at hid
      refine ⟨s, hid.trans hs, hpast.mono supply.drawId_le, ?_⟩
      rw [hid]
      exact hplan.fresh hne
  obtain ⟨s, hs, hlater, hfresh⟩ := hpast
  refine ⟨⟨hbare, ⟨s, hs⟩, fun hhas => hfresh (hkeeps.ids hhas), fun field hf => ?_⟩, htype,
    s, hs, hlater⟩
  obtain ⟨name, hfind, hname⟩ := hplan.named hf
  have hfields : b.fields = p.fields := by
    simp only [buildBlock] at hbuild
    split at hbuild <;> cases hbuild
    rfl
  refine ⟨.text name, ?_, hfields ▸ hfind⟩
  rcases hname with hname | hname
  · exact hold _ (h.declares_iff.mp hname)
  · exact hnew name hname

theorem Invariant.place (hplace : place registry kinds w supply request = (.ok placed, supply')) :
    Invariant registry placed.workspace ∧ PastIds placed.workspace supply' := by
  obtain ⟨p, b, shadows, hplan, hbuild, hshadows, hw⟩ := place_ok h hregular hplace
  obtain ⟨hplaceable, htype, s, hid, hpast⟩ := hplan.placeable h hregular hids hrequest hbuild
  obtain ⟨hkeeps, -⟩ := h.declareAll p.variableNames
  obtain ⟨hsuits, hdrawn⟩ := buildShadows_ok hregular hplan.type valueSockets_mem hshadows
  rw [hw]
  refine hkeeps.inv.addTree ((hkeeps.pastIds hids).mono supply.drawId_le) hplaceable
    (fun hentry => ?_) ⟨s, hid, hpast⟩ hsuits hdrawn
  rw [declareAll_entry]
  exact hplan.entry (htype.symm.trans hentry)

end

theorem place_le (registry : Registry) (kinds : List ComponentKind) (w : Workspace)
    (supply : Supply) (request : BlockRequest) :
    supply.drawn ≤ (place registry kinds w supply request).2.drawn := by
  unfold place
  split
  · exact Nat.le_refl _
  · rename_i t fields names _
    have hle : supply.drawn ≤ (buildBlock t fields request.id supply).2.drawn := supply.drawId_le
    split <;> rename_i heq <;> rw [heq] at hle
    · exact hle
    · rename_i later
      have hle' := buildShadows_le registry later (if request.shadows then t.valueSockets else [])
      split <;> rename_i heq' <;> rw [heq'] at hle'
      · exact Nat.le_trans hle hle'
      · exact Nat.le_trans hle hle'

end Workspace

end BlockSketch
