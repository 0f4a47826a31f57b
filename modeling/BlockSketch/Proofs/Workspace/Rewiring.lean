import BlockSketch.Canvas.Edit
import BlockSketch.Proofs.Block
import BlockSketch.Proofs.Workspace.Forest

/-!
# Rewiring

Connecting, detaching and deleting blocks change links and nothing else. Each is made of three kinds
of steps: a slot of a block gets another content, a block leaves the roots, or it becomes one. What
every slot holds afterwards is said by one lemma for each kind, and the edits keep the links of a
workspace well typed and a forest.
-/

namespace BlockSketch.Workspace

open Ancestry
open Relation (ReflTransGen TransGen)

variable {w w' : Workspace} {registry : Registry} {place : Option Value}

-- ---------------------------------------------------------------------------
-- What stays
-- ---------------------------------------------------------------------------

theorem block_modify (hr : r < w.blocks.size) (f : Block → Block) (x : Ref) :
    (w.modify r f).block x = if x = r then f (w.block r) else w.block x := by
  simp only [block, modify, Array.getElem?_modify]
  by_cases hx : r = x
  · subst hx
    simp [hr]
  · simp [hx, Ne.symm hx]

/-- Two workspaces that differ in their links and roots only. -/
structure SameContent (w w' : Workspace) : Prop where
  size : w'.blocks.size = w.blocks.size
  names : w'.variableNames = w.variableNames
  type : (w'.block r).type = (w.block r).type
  id : (w'.block r).id = (w.block r).id
  fields : (w'.block r).fields = (w.block r).fields
  deletable : (w'.block r).deletable = (w.block r).deletable

theorem SameContent.refl (w : Workspace) : SameContent w w :=
  ⟨rfl, rfl, rfl, rfl, rfl, rfl⟩

theorem SameContent.trans (h : SameContent w w') (h' : SameContent w' w'') :
    SameContent w w'' where
  size := h'.size.trans h.size
  names := h'.names.trans h.names
  type := h'.type.trans h.type
  id := h'.id.trans h.id
  fields := h'.fields.trans h.fields
  deletable := h'.deletable.trans h.deletable

theorem SameContent.roots (w : Workspace) (roots : List Ref) :
    SameContent w { w with roots } :=
  ⟨rfl, rfl, rfl, rfl, rfl, rfl⟩

-- ---------------------------------------------------------------------------
-- Filling a slot
-- ---------------------------------------------------------------------------

/-- Gives the successor of a block, or what is in a socket of it, another content. -/
def fill (w : Workspace) (p : Ref) : Option Value → Option Ref → Workspace
  | none, content => w.setNext p content
  | some socket, content => w.setInput p socket content

@[simp] theorem fill_roots (w : Workspace) (p : Ref) (place : Option Value) (content : Option Ref) :
    (w.fill p place content).roots = w.roots := by
  cases place <;> rfl

@[simp] theorem fill_size (w : Workspace) (p : Ref) (place : Option Value) (content : Option Ref) :
    (w.fill p place content).blocks.size = w.blocks.size := by
  cases place <;> simp [fill, setNext, setInput, modify]

theorem fill_content (hp : p < w.blocks.size) (place : Option Value) (content : Option Ref) :
    SameContent w (w.fill p place content) := by
  have hblock : ∀ r, ∃ inputs next,
      (w.fill p place content).block r = { w.block r with inputs, next } := by
    intro r
    cases place with
    | none =>
      simp only [fill, setNext, block_modify hp]
      split
      · rename_i hr
        exact ⟨_, _, by rw [hr]⟩
      · exact ⟨_, _, rfl⟩
    | some socket =>
      simp only [fill, setInput, block_modify hp]
      split
      · rename_i hr
        exact ⟨_, _, by rw [hr]⟩
      · exact ⟨_, _, rfl⟩
  refine ⟨by simp, by cases place <;> rfl, ?_, ?_, ?_, ?_⟩ <;>
  · intro r
    obtain ⟨_, _, h⟩ := hblock r
    rw [h]

theorem root_fill (p : Ref) (place : Option Value) (content : Option Ref) :
    (w.fill p place content).Holds .root c ↔ w.Holds .root c := by
  simp [Holds]

/-- A socket is told by a text. -/
def NamedPlace (place : Option Value) : Prop :=
  ∀ k, place = some k → ∃ s, k = .text s

theorem holds_fill (hp : p < w.blocks.size) (hkeys : Table.TextKeys (w.block p).inputs)
    (hplace : NamedPlace place) (content : Option Ref) :
    (w.fill p place content).Holds s c ↔
      s = slotAt p place ∧ content = some c ∨ s ≠ slotAt p place ∧ w.Holds s c := by
  cases place with
  | none =>
    cases s with
    | next q =>
      simp only [fill, setNext, Holds, block_modify hp, slotAt, Slot.next.injEq]
      by_cases hq : q = p <;> simp [hq]
    | root => simp [fill, setNext, Holds, slotAt, modify]
    | input q k =>
      simp only [fill, setNext, Holds, block_modify hp, slotAt]
      by_cases hq : q = p <;> simp [hq]
  | some socket =>
    obtain ⟨name, rfl⟩ := hplace socket rfl
    cases s with
    | next q =>
      simp only [fill, setInput, Holds, block_modify hp, slotAt]
      by_cases hq : q = p <;> simp [hq]
    | root => simp [fill, setInput, Holds, slotAt, modify]
    | input q k =>
      simp only [fill, setInput, Holds, block_modify hp, slotAt, Slot.input.injEq]
      by_cases hq : q = p
      · subst hq
        simp only [↓reduceIte, Table.mem_put hkeys, ne_eq, Slot.input.injEq, true_and,
          @eq_comm _ (some c) content]
      · simp [hq]

theorem keys_fill (hp : p < w.blocks.size) (hkeys : ∀ r, Table.TextKeys (w.block r).inputs)
    (hplace : NamedPlace place) (content : Option Ref) (r : Ref) :
    Table.TextKeys ((w.fill p place content).block r).inputs ∧
      ∀ k ∈ ((w.fill p place content).block r).inputs.keys,
        k ∈ (w.block r).inputs.keys ∨ r = p ∧ place = some k := by
  cases place with
  | none =>
    simp only [fill, setNext, block_modify hp]
    split
    · rename_i hr
      exact ⟨hr ▸ hkeys r, fun k hk => .inl (hr ▸ hk)⟩
    · exact ⟨hkeys r, fun k hk => .inl hk⟩
  | some socket =>
    obtain ⟨name, rfl⟩ := hplace socket rfl
    simp only [fill, setInput, block_modify hp]
    split
    · rename_i hr
      subst hr
      refine ⟨(hkeys r).put, fun k hk => ?_⟩
      rcases Table.keys_put (w.block r).inputs name content with ⟨he, -⟩ | ⟨he, -⟩
      · exact .inl (he ▸ hk)
      · rw [he] at hk
        rcases List.mem_append.mp hk with hk | hk
        · exact .inl hk
        · exact .inr ⟨rfl, by rw [List.mem_singleton.mp hk]⟩
    · exact ⟨hkeys r, fun k hk => .inl hk⟩

-- ---------------------------------------------------------------------------
-- Well typed links
-- ---------------------------------------------------------------------------

def TypeIs (registry : Registry) (w : Workspace) (r : Ref) (t : BlockType) : Prop :=
  registry.find? (w.block r).type = some t

def SlotFits (registry : Registry) (w : Workspace) : Slot → Ref → Prop
  | .root, _ => True
  | .next p, c => ∃ t u, TypeIs registry w p t ∧ TypeIs registry w c u ∧
      t.isLink = true ∧ u.isLink = true
  | .input p k, c => ∃ t u socket, TypeIs registry w p t ∧ TypeIs registry w c u ∧
      t.socket? k = some socket ∧ socket.Fits u

/-- A forest of blocks of known types, in which every block stands where it may stand. -/
structure Linked (registry : Registry) (w : Workspace) : Prop where
  forest : Forest w
  known : r < w.blocks.size → ∃ t, TypeIs registry w r t
  sockets {r k} : k ∈ (w.block r).inputs.keys →
    ∃ t socket, TypeIs registry w r t ∧ t.socket? k = some socket
  fits : w.Holds s c → SlotFits registry w s c

theorem TypeIs.unique (h : TypeIs registry w r t) (h' : TypeIs registry w r u) : t = u :=
  Option.some.inj (h.symm.trans h')

theorem SameContent.typeIs (h : SameContent w w') : TypeIs registry w' r t ↔ TypeIs registry w r t := by
  simp only [TypeIs, h.type]

theorem SameContent.slotFits (h : SameContent w w') :
    SlotFits registry w' s c ↔ SlotFits registry w s c := by
  cases s <;> simp only [SlotFits, h.typeIs]

/-- A reference that leads nowhere stands for a block that holds nothing. -/
theorem holder_lt (hc : w.Holds s c) (hs : s.parent? = some p) : p < w.blocks.size := by
  by_contra hlt
  have hdefault : w.block p = default := by
    simp [block, Array.getElem?_eq_none (Nat.not_lt.mp hlt)]
  have hnext : (default : Block).next = none := rfl
  have hinputs : (default : Block).inputs = [] := rfl
  cases s with
  | root => cases hs
  | next q =>
    cases hs
    simp [Holds, hdefault, hnext] at hc
  | input q k =>
    cases hs
    simp [Holds, hdefault, hinputs] at hc

theorem parent_lt (hs : w.Holds (slotAt p place) c) : p < w.blocks.size :=
  holder_lt hs (slotAt_parent p place)

def PlaceOf (registry : Registry) (w : Workspace) (p : Ref) (place : Option Value) : Prop :=
  ∀ k, place = some k →
    (∃ s, k = .text s) ∧ ∃ t socket, TypeIs registry w p t ∧ t.socket? k = some socket

theorem PlaceOf.named (h : PlaceOf registry w p place) : NamedPlace place :=
  fun k hk => (h k hk).1

theorem placeOf_next (registry : Registry) (w : Workspace) (p : Ref) : PlaceOf registry w p none :=
  fun _ hk => nomatch hk

theorem Linked.placeOf (h : Linked registry w) (hs : w.Holds (slotAt p place) c) :
    PlaceOf registry w p place := by
  rintro k rfl
  have hk := Table.mem_keys.mpr ⟨_, hs⟩
  exact ⟨(h.forest.keys p).1 k hk, h.sockets hk⟩

/-- An edit of links: no block gets an input that its type has no socket for. -/
structure Edited (registry : Registry) (w w' : Workspace) : Prop where
  content : SameContent w w'
  textKeys : (∀ r, Table.TextKeys (w.block r).inputs) → ∀ r, Table.TextKeys (w'.block r).inputs
  sockets {r k} : k ∈ (w'.block r).inputs.keys → k ∈ (w.block r).inputs.keys ∨
    ∃ t socket, TypeIs registry w r t ∧ t.socket? k = some socket

theorem Edited.roots (w : Workspace) (roots : List Ref) : Edited registry w { w with roots } :=
  ⟨.roots w roots, fun hkeys => hkeys, .inl⟩

theorem Edited.fill (hp : p < w.blocks.size) (hkeys : ∀ r, Table.TextKeys (w.block r).inputs)
    (hplace : PlaceOf registry w p place) (content : Option Ref) :
    Edited registry w (w.fill p place content) where
  content := fill_content hp place content
  textKeys _ r := (keys_fill hp hkeys hplace.named content r).1
  sockets {r k} hk := by
    rcases (keys_fill hp hkeys hplace.named content r).2 k hk with hk | ⟨rfl, rfl⟩
    · exact .inl hk
    · exact .inr (hplace k rfl).2

/-- An edit keeps the links well typed if what was newly put somewhere fits there. -/
theorem Linked.edit (h : Linked registry w) (hedit : Edited registry w w')
    (hnodup : w'.roots.Nodup) (hslots : Slot.IsForest w'.Holds)
    (hnew : ∀ s c, w'.Holds s c →
      w.Holds s c ∨ c < w.blocks.size ∧ SlotFits registry w s c) : Linked registry w' where
  forest :=
    { keys := hedit.textKeys h.forest.keys
      bounded {s c} hc := by
        rw [hedit.content.size]
        rcases hnew s c hc with hc | ⟨hlt, -⟩
        · exact h.forest.bounded hc
        · exact hlt
      nodup := hnodup
      slots := hslots }
  known hr := by
    obtain ⟨t, ht⟩ := h.known (hedit.content.size ▸ hr)
    exact ⟨t, hedit.content.typeIs.mpr ht⟩
  sockets hk := by
    have hsocket := (hedit.sockets hk).elim h.sockets fun hk => hk
    obtain ⟨t, socket, ht, hsocket⟩ := hsocket
    exact ⟨t, socket, hedit.content.typeIs.mpr ht, hsocket⟩
  fits {s c} hc := by
    rw [hedit.content.slotFits]
    rcases hnew s c hc with hc | ⟨-, hfits⟩
    · exact h.fits hc
    · exact hfits

-- ---------------------------------------------------------------------------
-- Taking a block out of its place
-- ---------------------------------------------------------------------------

theorem Forest.single_at (h : Forest w) (hc : w.Holds (slotAt p place) c)
    (hc' : w.Holds (slotAt p place) c') : c = c' :=
  h.slots.single (by cases place <;> simp [slotAt]) hc hc'

theorem holds_roots {roots : List Ref} : { w with roots := roots }.Holds s c ↔
    s = .root ∧ c ∈ roots ∨ s ≠ .root ∧ w.Holds s c := by
  cases s <;> simp [Holds, block]

theorem mem_replace {roots : List Ref} (hnodup : roots.Nodup) :
    c ∈ roots.replace r x ↔ c ∈ roots ∧ c ≠ r ∨ r ∈ roots ∧ x = c := by
  induction roots with
  | nil => simp
  | cons a roots ih =>
    obtain ⟨hnew, hrest⟩ := List.nodup_cons.mp hnodup
    by_cases ha : r = a
    · subst ha
      simp only [List.replace_cons, BEq.rfl, List.mem_cons]
      grind
    · simp only [List.replace_cons, beq_false_of_ne ha, List.mem_cons, ih hrest]
      grind

theorem nodup_replace {roots : List Ref} (hnodup : roots.Nodup) (hx : x ∉ roots) (r : Ref) :
    (roots.replace r x).Nodup := by
  induction roots with
  | nil => simp
  | cons a roots ih =>
    obtain ⟨hnew, hrest⟩ := List.nodup_cons.mp hnodup
    obtain ⟨hxa, hxrest⟩ := not_or.mp (List.mem_cons.not.mp hx)
    by_cases ha : r = a
    · subst ha
      simpa using ⟨hxrest, hrest⟩
    · simp only [List.replace_cons, beq_false_of_ne ha, List.nodup_cons, mem_replace hrest]
      refine ⟨?_, ih hrest hxrest⟩
      rintro (⟨hmem, -⟩ | ⟨-, hxa'⟩)
      · exact hnew hmem
      · exact hxa hxa'

theorem cutOut_eq (w : Workspace) (r : Ref) : w.cutOut r = w.replaceAt r none := rfl

theorem replaceAt_slot (hroot : ¬w.Holds .root r) (hfind : w.findParent? r = some (p, place))
    (successor : Option Ref) : w.replaceAt r successor = w.fill p place successor := by
  unfold replaceAt
  rw [if_neg (isRoot_iff.not.mpr hroot), hfind]
  cases place <;> rfl

theorem holds_replaceAt (h : Forest w) (hr : w.Live r) (successor : Option Ref) :
    (w.replaceAt r successor).Holds s c ↔
      w.Holds s c ∧ c ≠ r ∨ w.Holds s r ∧ successor = some c := by
  by_cases hroot : w.Holds .root r
  · have hroots : ∀ s, w.Holds s r ↔ s = .root := fun s =>
      ⟨fun hs => h.slots.unique hs hroot, fun hs => hs ▸ hroot⟩
    have hmem : r ∈ w.roots := hroot
    have hother : s ≠ .root → w.Holds s c → c ≠ r := by
      rintro hs hc rfl
      exact hs ((hroots s).mp hc)
    have hhere : s = .root → (w.Holds s c ↔ c ∈ w.roots) := by
      rintro rfl
      rfl
    unfold replaceAt
    rw [if_pos (isRoot_iff.mpr hroot), hroots]
    cases successor with
    | none =>
      simp only [removeRoot, holds_roots, h.nodup.mem_erase_iff, reduceCtorEq, and_false, or_false]
      tauto
    | some x =>
      simp only [holds_roots, mem_replace h.nodup, Option.some.injEq]
      tauto
  · obtain ⟨p, place, hfind, hslot⟩ := h.findParent?_some hr hroot
    have hplace : NamedPlace place := by
      rintro k rfl
      exact (h.keys p).1 k (Table.mem_keys.mpr ⟨_, hslot⟩)
    have hsame : ∀ s, w.Holds s r ↔ s = slotAt p place := fun s =>
      ⟨fun hs => h.slots.unique hs hslot, fun hs => hs ▸ hslot⟩
    have hne : w.Holds s c → (s ≠ slotAt p place ↔ c ≠ r) := by
      intro hc
      refine not_congr ⟨fun hs => ?_, fun hcr => (hsame s).mp (hcr ▸ hc)⟩
      subst hs
      exact h.single_at hc hslot
    rw [replaceAt_slot hroot hfind, holds_fill (parent_lt hslot) (h.keys p) hplace, hsame]
    tauto

theorem replaceAt_edited (h : Linked registry w) (hr : w.Live r) (successor : Option Ref) :
    Edited registry w (w.replaceAt r successor) := by
  by_cases hroot : w.Holds .root r
  · unfold replaceAt
    rw [if_pos (isRoot_iff.mpr hroot)]
    cases successor <;> exact .roots _ _
  · obtain ⟨p, place, hfind, hslot⟩ := h.forest.findParent?_some hr hroot
    rw [replaceAt_slot hroot hfind]
    exact .fill (parent_lt hslot) h.forest.keys (h.placeOf hslot) _

/-- A block without a place can take the place of another. -/
structure CanReplace (registry : Registry) (w : Workspace) (r x : Ref) : Prop where
  lt : x < w.blocks.size
  free : ∀ s, ¬w.Holds s x
  up : ∀ p, w.Link p r → ¬ReflTransGen w.Link x p
  fits : ∀ s, w.Holds s r → SlotFits registry w s x

theorem replaceAt_nodup (h : Forest w) (hr : w.Live r)
    (hfree : ∀ x, successor = some x → ¬w.Holds .root x) :
    (w.replaceAt r successor).roots.Nodup := by
  by_cases hroot : w.Holds .root r
  · unfold replaceAt
    rw [if_pos (isRoot_iff.mpr hroot)]
    cases successor with
    | none => exact h.nodup.erase r
    | some x => exact nodup_replace h.nodup (hfree x rfl) r
  · obtain ⟨p, place, hfind, -⟩ := h.findParent?_some hr hroot
    rw [replaceAt_slot hroot hfind, fill_roots]
    exact h.nodup

theorem Linked.replaceAt (h : Linked registry w) (hr : w.Live r)
    (hsuccessor : ∀ x, successor = some x → CanReplace registry w r x) :
    Linked registry (w.replaceAt r successor) := by
  have hholds := fun s c => holds_replaceAt (s := s) (c := c) h.forest hr successor
  have hwithout : Slot.IsForest fun s c => w.Holds s c ∧ c ≠ r :=
    h.forest.slots.mono fun _ _ hc => hc.1
  refine h.edit (replaceAt_edited h hr successor)
    (replaceAt_nodup h.forest hr fun x hx => (hsuccessor x hx).free _) ?_ fun s c hc => ?_
  · cases successor with
    | none =>
      refine hwithout.mono fun s c hc => ?_
      simpa using (hholds s c).mp hc
    | some x =>
      obtain ⟨slot, hslot⟩ := hr.held
      have hx := hsuccessor x rfl
      refine hwithout.put (fun s hc => hx.free s hc.1) (fun hs c hc => ?_) (fun p hp hpath => ?_)
        (s := slot) (c := x) fun s c hc => ?_
      · exact hc.2 (h.forest.slots.single hs hc.1 hslot)
      · exact hx.up p ⟨slot, hp, hslot⟩ (Slot.path_mono (fun _ _ hc => hc.1) hpath)
      · rcases (hholds s c).mp hc with hc | ⟨hs, hc⟩
        · exact .inl hc
        · exact .inr ⟨h.forest.slots.unique hs hslot, (Option.some.inj hc).symm⟩
  · rcases (hholds s c).mp hc with hc | ⟨hs, hc⟩
    · exact .inl hc.1
    · exact .inr ⟨(hsuccessor c hc).lt, (hsuccessor c hc).fits s hs⟩

-- ---------------------------------------------------------------------------
-- Putting a block into a place
-- ---------------------------------------------------------------------------

theorem holds_addRoot : (w.addRoot r).Holds s c ↔ w.Holds s c ∨ s = .root ∧ c = r := by
  have hhere : s = .root → (w.Holds s c ↔ c ∈ w.roots) := by
    rintro rfl
    rfl
  unfold addRoot
  split <;> simp only [holds_roots, List.mem_cons, List.mem_append, List.not_mem_nil, or_false] <;>
    tauto

theorem addRoot_edited (w : Workspace) (r : Ref) : Edited registry w (w.addRoot r) := by
  unfold addRoot
  split <;> exact .roots _ _

theorem addRoot_content (w : Workspace) (r : Ref) : SameContent w (w.addRoot r) := by
  unfold addRoot
  split <;> exact .roots _ _

theorem Linked.addRoot (h : Linked registry w) (hlt : r < w.blocks.size)
    (hfree : ∀ s, ¬w.Holds s r) : Linked registry (w.addRoot r) := by
  refine h.edit (addRoot_edited w r) ?_ ?_ fun s c hc => ?_
  · have hnew : r ∉ w.roots := hfree .root
    unfold Workspace.addRoot
    split
    · exact List.nodup_cons.mpr ⟨hnew, h.forest.nodup⟩
    · exact List.nodup_append_comm.mpr (List.nodup_cons.mpr ⟨hnew, h.forest.nodup⟩)
  · exact h.forest.slots.put hfree (fun hs => (hs rfl).elim) (fun p hp => by simp [Slot.parent?] at hp)
      fun s c hc => holds_addRoot.mp hc
  · rcases holds_addRoot.mp hc with hc | ⟨rfl, rfl⟩
    · exact .inl hc
    · exact .inr ⟨hlt, trivial⟩

/-- A block without a place that can be put into a slot below a parent. -/
structure CanEnter (registry : Registry) (w : Workspace) (r p : Ref) (place : Option Value) :
    Prop where
  lt : r < w.blocks.size
  parent_lt : p < w.blocks.size
  free : ∀ s, ¬w.Holds s r
  up : ¬ReflTransGen w.Link r p
  socket : PlaceOf registry w p place
  fits : SlotFits registry w (slotAt p place) r

section

variable (h : Linked registry w) (henter : CanEnter registry w r p place)
include h henter

theorem holds_enter : ∀ s c, (w.fill p place (some r)).Holds s c ↔
    s = slotAt p place ∧ c = r ∨ s ≠ slotAt p place ∧ w.Holds s c := by
  intro s c
  rw [holds_fill henter.parent_lt (h.forest.keys p) henter.socket.named, Option.some.injEq,
    @eq_comm _ r c]

theorem enter_moved (hc : (w.fill p place (some r)).Holds s c) : w.Holds s c ∨ c = r := by
  rcases (holds_enter h henter s c).mp hc with ⟨-, rfl⟩ | ⟨-, hc⟩
  · exact .inr rfl
  · exact .inl hc

theorem enter_edited : Edited registry w (w.fill p place (some r)) :=
  .fill henter.parent_lt h.forest.keys henter.socket _

theorem Linked.enter : Linked registry (w.fill p place (some r)) := by
  refine h.edit (enter_edited h henter) (by simpa using h.forest.nodup) ?_ fun s c hc => ?_
  · exact h.forest.slots.displace (slotAt_parent p place) henter.free henter.up
      (holds_enter h henter)
  · rcases (holds_enter h henter s c).mp hc with ⟨rfl, rfl⟩ | ⟨-, hc⟩
    · exact .inr ⟨henter.lt, henter.fits⟩
    · exact .inl hc

theorem Linked.enter_bump (hd : w.Holds (slotAt p place) d) :
    Linked registry ((w.fill p place (some r)).addRoot d) := by
  refine (h.enter henter).addRoot ?_ ?_
  · rw [fill_size]
    exact h.forest.bounded hd
  · exact h.forest.slots.displaced_free henter.free (holds_enter h henter) hd

theorem chainEnd_enter (hlink : TypeIs registry w r t) (ht : t.isLink = true) :
    let w' := w.fill p place (some r)
    (w'.block (w'.chainEnd r)).next = none ∧ ReflTransGen w'.Link r (w'.chainEnd r) ∧
      w'.chainEnd r < w.blocks.size ∧ ∃ u, TypeIs registry w (w'.chainEnd r) u ∧ u.isLink = true := by
  intro w'
  have h' := h.enter henter
  obtain ⟨hend, hpath⟩ := h'.forest.chainEnd_spec r
  refine ⟨hend, hpath.lift (fun x => x) fun _ _ => Follows.link, ?_⟩
  rcases hpath.cases_tail with heq | ⟨q, -, hq⟩
  · rw [heq]
    exact ⟨henter.lt, t, hlink, ht⟩
  · have hlt := h'.forest.bounded hq
    obtain ⟨_, u, -, hu, -, hulink⟩ := h'.fits hq
    rw [fill_size] at hlt
    exact ⟨hlt, u, (enter_edited h henter).content.typeIs.mp hu, hulink⟩

/-- What stood in the slot follows the chain of the block that displaced it. -/
theorem canEnter_chainEnd (hr : TypeIs registry w r t) (ht : t.isLink = true)
    (hd : w.Holds (slotAt p place) d) (hdt : TypeIs registry w d u) (hu : u.isLink = true) :
    let w' := w.fill p place (some r)
    CanEnter registry w' d (w'.chainEnd r) none := by
  intro w'
  have hsame := (enter_edited h henter).content
  obtain ⟨-, hpath, hlt, v, hv, hvlink⟩ := chainEnd_enter h henter hr ht
  refine ⟨?_, ?_, ?_, ?_, placeOf_next _ _ _, ?_⟩
  · rw [fill_size]
    exact h.forest.bounded hd
  · rw [fill_size]
    exact hlt
  · exact h.forest.slots.displaced_free henter.free (holds_enter h henter) hd
  · exact h.forest.slots.displaced_up (slotAt_parent p place) henter.free henter.up
      (holds_enter h henter) hd hpath
  · exact ⟨v, u, hsame.typeIs.mpr hv, hsame.typeIs.mpr hdt, hvlink, hu⟩

end

theorem holds_clear (h : Linked registry w) (hp : p < w.blocks.size)
    (hplace : PlaceOf registry w p place) :
    (w.fill p place none).Holds s c ↔ s ≠ slotAt p place ∧ w.Holds s c := by
  simp [holds_fill hp (h.forest.keys p) hplace.named]

theorem Linked.clear (h : Linked registry w) (hp : p < w.blocks.size)
    (hplace : PlaceOf registry w p place) : Linked registry (w.fill p place none) := by
  have hsub : ∀ s c, (w.fill p place none).Holds s c → w.Holds s c := fun s c hc =>
    ((holds_clear h hp hplace).mp hc).2
  exact h.edit (.fill hp h.forest.keys hplace _) (by simpa using h.forest.nodup)
    (h.forest.slots.mono hsub) fun s c hc => .inl (hsub s c hc)

def contentAt (w : Workspace) (p : Ref) : Option Value → Option Ref
  | none => (w.block p).next
  | some socket => (w.block p).input? socket

theorem contentAt_eq_some (hkeys : Table.TextKeys (w.block p).inputs) (hplace : NamedPlace place) :
    w.contentAt p place = some d ↔ w.Holds (slotAt p place) d := by
  cases place with
  | none => rfl
  | some k =>
    obtain ⟨name, rfl⟩ := hplace k rfl
    simp only [contentAt, Block.input?, Holds, slotAt, Option.join_eq_some_iff,
      Table.find?_text hkeys]

/-- Puts a chain into a slot; what stood there follows it. -/
def chainIn (w : Workspace) (r p : Ref) (place : Option Value) : Workspace :=
  let w' := w.fill p place (some r)
  w'.fill (w'.chainEnd r) none (w.contentAt p place)

theorem attach_next (w : Workspace) (r p : Ref) : w.attach r p .next = w.chainIn r p none := rfl

theorem attach_body (w : Workspace) (r p : Ref) (socket : Value) :
    w.attach r p (.body socket) = w.chainIn r p (some socket) := rfl

theorem attach_operand (w : Workspace) (r p : Ref) (socket : Value) :
    w.attach r p (.operand socket) = (w.contentAt p (some socket)).elim
      (w.fill p (some socket) (some r)) (w.fill p (some socket) (some r)).addRoot := rfl

/-- What putting blocks into a place did: nothing but what went in or stood there has moved. -/
structure Entered (registry : Registry) (w w' : Workspace) (r p : Ref) (place : Option Value) :
    Prop where
  linked : Linked registry w'
  content : SameContent w w'
  moved : w'.Holds s c → w.Holds s c ∨ c = r ∨ w.Holds (slotAt p place) c
  roots : w'.Holds .root c → w.Holds .root c ∨ w.Holds (slotAt p place) c

theorem chainIn_entered (h : Linked registry w) (henter : CanEnter registry w r p place)
    (hr : TypeIs registry w r t) (ht : t.isLink = true)
    (hdisplaced : ∀ d, w.Holds (slotAt p place) d → ∃ u, TypeIs registry w d u ∧ u.isLink = true) :
    Entered registry w (w.chainIn r p place) r p place := by
  have h' := h.enter henter
  have hedit := enter_edited h henter
  have hcontent := fun d => contentAt_eq_some (d := d) (h.forest.keys p) henter.socket.named
  unfold chainIn
  cases hd : w.contentAt p place with
  | none =>
    obtain ⟨-, -, hlt, -⟩ := chainEnd_enter h henter hr ht
    have hlt' := (fill_size w p place (some r)).symm ▸ hlt
    have hnone := placeOf_next registry (w.fill p place (some r))
    refine ⟨h'.clear hlt' (hnone _), hedit.content.trans (fill_content hlt' _ _), fun {s c} hc => ?_,
      fun hc => .inl ((root_fill _ _ _).mp ((root_fill _ _ _).mp hc))⟩
    rcases enter_moved h henter ((holds_clear h' hlt' (hnone _)).mp hc).2 with hc | rfl
    · exact .inl hc
    · exact .inr (.inl rfl)
  | some d =>
    have hslot := (hcontent d).mp hd
    obtain ⟨u, hu, hulink⟩ := hdisplaced d hslot
    have henter' := canEnter_chainEnd h henter hr ht hslot hu hulink
    refine ⟨h'.enter henter', hedit.content.trans (enter_edited h' henter').content,
      fun {s c} hc => ?_, fun hc => .inl ((root_fill _ _ _).mp ((root_fill _ _ _).mp hc))⟩
    rcases (holds_enter h' henter' s c).mp hc with ⟨-, rfl⟩ | ⟨-, hc⟩
    · exact .inr (.inr hslot)
    · rcases enter_moved h henter hc with hc | rfl
      · exact .inl hc
      · exact .inr (.inl rfl)

theorem operandIn_entered (h : Linked registry w)
    (henter : CanEnter registry w r p (some socket)) :
    Entered registry w (w.attach r p (.operand socket)) r p (some socket) := by
  have h' := h.enter henter
  have hedit := enter_edited h henter
  rw [attach_operand]
  cases hd : w.contentAt p (some socket) with
  | none =>
    rw [Option.elim_none]
    refine ⟨h', hedit.content, fun {s c} hc => ?_, fun hc => .inl ((root_fill _ _ _).mp hc)⟩
    rcases enter_moved h henter hc with hc | rfl
    · exact .inl hc
    · exact .inr (.inl rfl)
  | some d =>
    have hslot := (contentAt_eq_some (h.forest.keys p) henter.socket.named).mp hd
    rw [Option.elim_some]
    refine ⟨h.enter_bump henter hslot, hedit.content.trans (addRoot_content _ d),
      fun {s c} hc => ?_, fun {c} hc => ?_⟩
    · rcases holds_addRoot.mp hc with hc | ⟨-, rfl⟩
      · rcases enter_moved h henter hc with hc | rfl
        · exact .inl hc
        · exact .inr (.inl rfl)
      · exact .inr (.inr hslot)
    · rcases holds_addRoot.mp hc with hc | ⟨-, rfl⟩
      · exact .inl ((root_fill _ _ _).mp hc)
      · exact .inr hslot

end BlockSketch.Workspace
