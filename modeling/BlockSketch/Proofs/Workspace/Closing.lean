import BlockSketch.Proofs.Workspace.Deleting

/-!
# Closing a gap

The exact workspace that a deletion leaves. Every mention of the deleted block is replaced by its
successor, so that the traversal afterwards is the traversal before without what was nested in the
block. Deletions one after the other thin out the traversal step by step.
-/

namespace BlockSketch

open Relation (ReflTransGen TransGen)

-- ---------------------------------------------------------------------------
-- Replacing a mention
-- ---------------------------------------------------------------------------

theorem filterMap_replace {l : List Ref} (h : l.Nodup) (r : Ref) (successor : Option Ref) :
    l.filterMap (fun x => if x = r then successor else some x) =
      successor.elim (l.erase r) (l.replace r) := by
  induction l with
  | nil => cases successor <;> rfl
  | cons a l ih =>
    obtain ⟨hnew, hrest⟩ := List.nodup_cons.mp h
    by_cases ha : a = r
    · subst ha
      have hsame : l.filterMap (fun x => if x = a then successor else some x) = l := by
        refine (List.filterMap_congr fun x hx => if_neg ?_).trans List.filterMap_some
        rintro rfl
        exact hnew hx
      cases successor <;> simp [hsame]
    · have hbeq : (r == a) = false := beq_false_of_ne (Ne.symm ha)
      rw [List.filterMap_cons, if_neg ha, ih hrest]
      cases successor <;> simp [List.replace_cons, ha, hbeq]

theorem Table.put_eq_map {entries : Table α} (hkeys : TextKeys entries)
    (hmem : (.text s, a) ∈ entries) (f : α → α) (hf : ∀ e ∈ entries, e.1 ≠ .text s → f e.2 = e.2) :
    entries.put (.text s) (f a) = entries.map fun e => (e.1, f e.2) := by
  induction entries with
  | nil => cases hmem
  | cons e entries ih =>
    obtain ⟨hfirst, hrest⟩ := List.forall_mem_cons.mp hf
    have hnodup : (e.1 :: keys entries).Nodup := hkeys.2
    obtain ⟨hnew, -⟩ := List.nodup_cons.mp hnodup
    rw [put_cons]
    split
    · rename_i hfound
      rw [Value.coincides_text] at hfound
      have hne : ∀ x ∈ entries, x.1 ≠ .text s := fun x hx heq =>
        hnew (hfound ▸ heq ▸ List.mem_map_of_mem hx)
      have ha : e = (.text s, a) := by
        rcases List.mem_cons.mp hmem with heq | hin
        · exact heq.symm
        · exact (hne _ hin rfl).elim
      have hsame : entries.map (fun x => (x.1, f x.2)) = entries := by
        refine (List.map_congr_left fun x hx => ?_).trans (List.map_id _)
        rw [hrest x hx (hne x hx)]
        rfl
      rw [List.map_cons, hsame, ha]
    · rename_i hother
      rw [Value.coincides_text] at hother
      have hin := (List.mem_cons.mp hmem).resolve_left fun heq => hother (heq ▸ rfl)
      rw [List.map_cons, hfirst hother, ih hkeys.tail hin hrest]

namespace Workspace

variable {w w' : Workspace} {registry : Registry} {gone : List Ref} {place : Option Value}

/-- What stands in a place once a block has left its place to its successor. -/
def closed (w : Workspace) (r : Ref) (content : Option Ref) : Option Ref :=
  if content = some r then (w.block r).next else content

theorem closed_self (w : Workspace) (r : Ref) : w.closed r (some r) = (w.block r).next :=
  if_pos rfl

theorem closed_other (h : content ≠ some r) : w.closed r content = content :=
  if_neg h

theorem roots_closed (h : w.roots.Nodup) (r : Ref) :
    w.roots.filterMap (fun x => w.closed r (some x)) =
      (w.block r).next.elim (w.roots.erase r) (w.roots.replace r) := by
  rw [← filterMap_replace h]
  exact List.filterMap_congr fun x _ => by simp [closed]

theorem inputs_unheld (h : ∀ k, ¬w.Holds (.input x k) r) :
    (w.block x).inputs.map (fun e => (e.1, w.closed r e.2)) = (w.block x).inputs := by
  refine (List.map_congr_left fun e he => ?_).trans (List.map_id _)
  have hother : e.2 ≠ some r := by
    intro heq
    rw [← Prod.eta e, heq] at he
    exact h e.1 he
  rw [closed_other hother]
  rfl

/-- What a deletion makes of the places of a workspace: the successor of the block stands where the
block stood, and the block has no successor any more. -/
structure Rewired (w w' : Workspace) (r : Ref) : Prop where
  roots : w'.roots = w.roots.filterMap fun x => w.closed r (some x)
  next : x ≠ r → (w'.block x).next = w.closed r (w.block x).next
  last : (w'.block r).next = none
  inputs : (w'.block x).inputs = (w.block x).inputs.map fun e => (e.1, w.closed r e.2)

section

variable (h : Invariant registry w) (hr : w.Live r)
include h hr

theorem block_cutNext (x : Ref) : (w.setNext r none).block x =
    if x = r then { w.block r with next := none } else w.block x :=
  block_modify (h.forest.live_lt hr) _ x

theorem inputs_cutNext (x : Ref) : ((w.setNext r none).block x).inputs = (w.block x).inputs := by
  rw [block_cutNext h hr]
  split
  · rename_i hx
    rw [hx]
  · rfl

theorem Rewired.root (hroot : w.Holds .root r) :
    Rewired w ((w.setNext r none).replaceAt r (w.block r).next) r := by
  have hreplace : (w.setNext r none).replaceAt r (w.block r).next =
      { w.setNext r none with
        roots := (w.block r).next.elim (w.roots.erase r) (w.roots.replace r) } := by
    unfold replaceAt
    rw [if_pos (isRoot_iff (w := w.setNext r none) |>.mpr hroot)]
    cases (w.block r).next <;> rfl
  have hslot : ∀ s, w.Holds s r → s = .root := fun s hs => h.forest.slots.unique hs hroot
  have hblock := block_cutNext h hr
  rw [hreplace]
  refine ⟨(roots_closed h.forest.nodup r).symm, fun {x} hx => ?_, ?_, fun {x} => ?_⟩
  · refine (congrArg Block.next ((hblock x).trans (if_neg hx))).trans (closed_other ?_).symm
    exact fun hnext => by cases hslot (.next x) hnext
  · exact congrArg Block.next ((hblock r).trans (if_pos rfl))
  · refine (inputs_cutNext h hr x).trans (inputs_unheld fun k hk => ?_).symm
    cases hslot (.input x k) hk

theorem Rewired.slot (hroot : ¬w.Holds .root r) (hslot : w.Holds (slotAt p place) r) :
    Rewired w ((w.setNext r none).fill p place (w.block r).next) r := by
  have hsame : ∀ s, w.Holds s r → s = slotAt p place := fun s hs => h.forest.slots.unique hs hslot
  have hblock := block_cutNext h hr
  have hne : p ≠ r := by
    rintro rfl
    exact h.forest.slots.acyclic p (.single ⟨_, slotAt_parent p place, hslot⟩)
  have hp : p < (w.setNext r none).blocks.size := by
    rw [setNext, modify, Array.size_modify]
    exact parent_lt hslot
  have hroots : ∀ x ∈ w.roots, w.closed r (some x) = some x := fun x hx =>
    closed_other fun heq => hroot (Option.some.inj heq ▸ hx)
  have hkept := ((List.filterMap_congr hroots).trans List.filterMap_some).symm
  cases place with
  | none =>
    have hfill := block_modify hp fun b => { b with next := (w.block r).next }
    refine ⟨hkept, fun {x} hx => ?_, ?_, fun {x} => ?_⟩
    · refine (congrArg Block.next (hfill x)).trans ?_
      split
      · rename_i hxp
        rw [hxp, show (w.block p).next = some r from hslot, closed_self]
      · rename_i hxp
        rw [hblock, if_neg hx, closed_other]
        intro hnext
        cases hsame (.next x) hnext
        exact hxp rfl
    · refine (congrArg Block.next (hfill r)).trans ?_
      rw [if_neg (Ne.symm hne), hblock, if_pos rfl]
    · refine (congrArg Block.inputs (hfill x)).trans ?_
      have hother : ∀ k, ¬w.Holds (.input x k) r := fun k hk => by cases hsame (.input x k) hk
      rw [inputs_unheld hother, ← inputs_cutNext h hr]
      split
      · rename_i hxp
        rw [hxp]
      · rfl
  | some socket =>
    obtain ⟨name, rfl⟩ := (h.forest.keys p).1 socket (Table.mem_keys.mpr ⟨_, hslot⟩)
    have hfill := block_modify hp fun b =>
      { b with inputs := b.inputs.put (.text name) (w.block r).next }
    refine ⟨hkept, fun {x} hx => ?_, ?_, fun {x} => ?_⟩
    · refine (congrArg Block.next (hfill x)).trans ?_
      rw [closed_other fun hnext => by cases hsame (.next x) hnext]
      split
      · rename_i hxp
        rw [hxp, hblock, if_neg hne]
      · rw [hblock, if_neg hx]
    · refine (congrArg Block.next (hfill r)).trans ?_
      rw [if_neg (Ne.symm hne), hblock, if_pos rfl]
    · refine (congrArg Block.inputs (hfill x)).trans ?_
      split
      · rename_i hxp
        rw [hxp, inputs_cutNext h hr, ← closed_self w r]
        refine Table.put_eq_map (h.forest.keys p) hslot (w.closed r) fun e he hkey =>
          closed_other ?_
        intro heq
        rw [← Prod.eta e, heq] at he
        exact hkey (Slot.input.inj (hsame (.input p e.1) he)).2
      · rename_i hxp
        rw [inputs_cutNext h hr, inputs_unheld]
        intro k hk
        cases hsame (.input x k) hk
        exact hxp rfl

theorem deleteRef_rewired (hdelete : w.deleteRef r = .ok (removed, w')) : Rewired w w' r := by
  simp only [deleteRef] at hdelete
  split at hdelete
  · simp only [Except.ok.injEq, Prod.mk.injEq] at hdelete
    obtain ⟨-, rfl⟩ := hdelete
    by_cases hroot : w.Holds .root r
    · exact .root h hr hroot
    · have h₁ : Linked registry (w.setNext r none) :=
        h.linked.clear (h.forest.live_lt hr) (placeOf_next registry w r)
      obtain ⟨p, place, hfind, hslot⟩ := h₁.forest.findParent?_some (live_cutNext h hr) hroot
      rw [replaceAt_slot (w := w.setNext r none) hroot hfind]
      exact .slot h hr hroot ((holds_cutNext h hr _ r).mp hslot).2
  · cases hdelete

end

-- ---------------------------------------------------------------------------
-- The traversal
-- ---------------------------------------------------------------------------

/-- A block and what is nested in it, in tree order. -/
def within (w : Workspace) (r : Ref) : List Ref :=
  r :: ((w.block r).inputs.filterMap Prod.snd).flatMap w.subtree

theorem Forest.subtree_within (h : Forest w) (r : Ref) :
    w.subtree r = w.within r ++ (w.block r).next.toList.flatMap w.subtree := by
  rw [h.subtree_eq, children, List.flatMap_append]
  rfl

theorem Forest.mem_within (h : Forest w) : x ∈ w.within r ↔ w.Nested r x := by
  rw [within, List.mem_cons, List.mem_flatMap]
  refine or_congr_right ⟨?_, ?_⟩
  · rintro ⟨c, hc, hx⟩
    obtain ⟨⟨k, _⟩, hmem, rfl⟩ := List.mem_filterMap.mp hc
    exact ⟨k, c, hmem, h.mem_subtree.mp hx⟩
  · rintro ⟨k, c, hc, hpath⟩
    exact ⟨c, List.mem_filterMap.mpr ⟨(k, some c), hc, rfl⟩, h.mem_subtree.mpr hpath⟩

theorem Forest.subtree_infix (h : Forest w) (hpath : ReflTransGen w.Link p x) :
    w.subtree x <:+: w.subtree p := by
  induction hpath using ReflTransGen.head_induction_on with
  | refl => exact List.infix_rfl
  | @head p c hlink _ ih =>
    rw [h.subtree_eq p]
    refine (ih.trans ?_).trans (List.suffix_cons p _).isInfix
    exact List.infix_of_mem_flatten (List.mem_map_of_mem (mem_children.mpr hlink))

/-- What is nested in a live block is listed without interruption. -/
theorem Forest.within_infix (h : Forest w) (hr : w.Live r) : w.within r <:+: w.allBlocks := by
  obtain ⟨root, hroot, hpath⟩ := hr
  have hsubtree : w.subtree root <:+: w.allBlocks := by
    rw [allBlocks_eq]
    exact List.infix_of_mem_flatten (List.mem_map_of_mem hroot)
  refine List.IsInfix.trans ?_ ((h.subtree_infix hpath).trans hsubtree)
  exact ⟨[], _, (h.subtree_within r).symm⟩

section

variable (h : Forest w) (h' : Forest w') (hw : Rewired w w' r)
include hw

theorem Rewired.children (hx : x ≠ r) :
    w'.children x = (w.children x).filterMap fun c => w.closed r (some c) := by
  have hsockets : (w'.block x).inputs.filterMap Prod.snd =
      ((w.block x).inputs.filterMap Prod.snd).filterMap fun c => w.closed r (some c) := by
    rw [hw.inputs, List.filterMap_map, List.filterMap_filterMap]
    refine List.filterMap_congr fun e _ => ?_
    cases he : e.2 with
    | none => simp [he, closed_other]
    | some c => simp [he]
  have hnext : (w'.block x).next.toList =
      (w.block x).next.toList.filterMap fun c => w.closed r (some c) := by
    rw [hw.next hx]
    cases (w.block x).next with
    | none => rw [closed_other (by simp)]; rfl
    | some c => cases hc : w.closed r (some c) <;> simp [hc]
  rw [Workspace.children, Workspace.children, List.filterMap_append, hsockets, hnext]

include h h'

theorem Rewired.subtree_apart (hx : ¬ReflTransGen w.Link x r) : w'.subtree x = w.subtree x := by
  induction x using h.induct with
  | step x ih =>
    have hkept : ∀ c ∈ w.children x, w.closed r (some c) = some c := by
      intro c hc
      refine closed_other fun heq => hx ?_
      exact .single (Option.some.inj heq ▸ mem_children.mp hc)
    have hchildren : w'.children x = w.children x := by
      rw [hw.children (r := r) fun heq => hx (heq ▸ .refl), List.filterMap_congr hkept,
        List.filterMap_some]
    rw [h.subtree_eq, h'.subtree_eq, hchildren]
    congr 1
    refine List.flatMap_congr fun c hc => ih c (mem_children.mp hc) fun hpath => hx ?_
    exact .head (mem_children.mp hc) hpath

theorem Rewired.subtree_self : w'.subtree r = w.within r := by
  have hlink : ∀ k c, (k, some c) ∈ (w.block r).inputs → ¬ReflTransGen w.Link c r :=
    fun k c hc hpath => h.slots.acyclic r (TransGen.head' ⟨.input r k, rfl, hc⟩ hpath)
  have hinputs : (w'.block r).inputs = (w.block r).inputs := by
    rw [hw.inputs, inputs_unheld]
    exact fun k hk => hlink k r hk .refl
  rw [h'.subtree_eq, Workspace.children, hw.last, hinputs, Option.toList_none, List.append_nil,
    within]
  congr 1
  refine List.flatMap_congr fun c hc => hw.subtree_apart h h' ?_
  obtain ⟨⟨k, _⟩, hmem, rfl⟩ := List.mem_filterMap.mp hc
  exact hlink k c hmem

/-- What takes the place of a block lists all that the block listed but what is gone. -/
theorem Rewired.subtree_closed (hx : ¬w.Inside r x) :
    (w.closed r (some x)).toList.flatMap w'.subtree =
      (w.subtree x).filter (· ∉ w.within r) := by
  induction x using h.induct with
  | step x ih =>
    by_cases hxr : x = r
    · subst hxr
      have hgone : (w.within x).filter (· ∉ w.within x) = [] := by simp
      rw [closed_self, h.subtree_within, List.filter_append, hgone, List.nil_append]
      cases hnext : (w.block x).next with
      | none => rfl
      | some n =>
        have hslot : w.Holds (.next x) n := hnext
        have hnested := Slot.next_not_nested h.slots hslot
        have hn := ih n ⟨_, rfl, hslot⟩ fun hin => hnested (.inr hin)
        rw [closed_other fun heq => hnested (.inl (Option.some.inj heq))] at hn
        rw [hn]
        simp
    · have hnested : ¬w.Nested r x := fun hnested => hnested.elim hxr hx
      have hchild : ∀ c ∈ w.children x, (w.closed r (some c)).toList.flatMap w'.subtree =
          (w.subtree c).filter (· ∉ w.within r) := by
        intro c hc
        have hlink := mem_children.mp hc
        refine ih c hlink fun hin => hnested (Slot.Nested.parent h.slots (.inr hin) ?_ hlink).1
        rintro rfl
        obtain ⟨k, d, hd, hpath⟩ := hin
        exact h.slots.acyclic c (TransGen.head' ⟨.input c k, rfl, hd⟩ hpath)
      rw [closed_other fun heq => hxr (Option.some.inj heq), Option.toList_some,
        List.flatMap_singleton, h.subtree_eq, h'.subtree_eq, hw.children hxr, List.filter_cons,
        if_pos (by simpa [h.mem_within] using hnested), List.filter_flatMap,
        List.filterMap_eq_flatMap_toList, List.flatMap_assoc, List.flatMap_congr hchild]

theorem Rewired.allBlocks : w'.allBlocks = w.allBlocks.filter (· ∉ w.within r) := by
  have hroot : ∀ x ∈ w.roots, (w.closed r (some x)).toList.flatMap w'.subtree =
      (w.subtree x).filter (· ∉ w.within r) := by
    intro x hx
    refine hw.subtree_closed h h' fun hin => ?_
    obtain rfl := Slot.Nested.root h.slots hx (.inr hin)
    obtain ⟨k, d, hd, hpath⟩ := hin
    exact h.slots.acyclic x (TransGen.head' ⟨.input x k, rfl, hd⟩ hpath)
  rw [allBlocks_eq, allBlocks_eq, hw.roots, List.filter_flatMap, List.filterMap_eq_flatMap_toList,
    List.flatMap_assoc, List.flatMap_congr hroot]

end

/-- What a deletion does. The blocks that are gone are the block and what was nested in it, listed
as the traversal listed them. The successor of the block stands where the block stood, and nothing
else has changed. -/
structure ClosesGap (w w' : Workspace) (r : Ref) (gone : List Ref) : Prop where
  mem : x ∈ gone ↔ w.Nested r x
  listed : gone <:+: w.allBlocks
  blocks : w'.allBlocks = w.allBlocks.filter (· ∉ gone)
  roots : w'.roots = w.roots.filterMap fun x => w.closed r (some x)
  next : x ≠ r → (w'.block x).next = w.closed r (w.block x).next
  inputs : (w'.block x).inputs = (w.block x).inputs.map fun e => (e.1, w.closed r e.2)
  content : SameContent w w'

/-- A deletable block can be deleted, and its deletion closes the gap. -/
theorem deleteRef_closesGap (h : Invariant registry w) (hregular : registry.Regular)
    (hr : w.Live r) (hdelete : w.deleteRef r = .ok (removed, w')) :
    ∃ gone, removed = gone.map (fun x => (w.block x).id) ∧ ClosesGap w w' r gone := by
  obtain ⟨hrewires, -⟩ := deleteRef_ok h hr hregular hdelete
  have hw := deleteRef_rewired h hr hdelete
  have h' := hrewires.linked.forest
  refine ⟨w.within r, ?_, h.forest.mem_within, h.forest.within_infix hr, hw.allBlocks h.forest h',
    hw.roots, hw.next, hw.inputs, hrewires.content⟩
  have hids : removed = (w'.subtree r).map fun x => (w'.block x).id := by
    simp only [deleteRef] at hdelete
    split at hdelete
    · simp only [Except.ok.injEq, Prod.mk.injEq] at hdelete
      obtain ⟨rfl, rfl⟩ := hdelete
      rfl
    · cases hdelete
  rw [hids, hw.subtree_self h.forest h']
  exact List.map_congr_left fun x _ => hrewires.content.id

theorem deleteRef_isOk (hdeletable : (w.block r).isDeletable = true) :
    ∃ removed w', w.deleteRef r = .ok (removed, w') := by
  simp only [deleteRef, if_pos hdeletable]
  exact ⟨_, _, rfl⟩

-- ---------------------------------------------------------------------------
-- One deletion after the other
-- ---------------------------------------------------------------------------

theorem deleteEach_blocks (h : Invariant registry w) (hregular : registry.Regular)
    (hdone : w.deleteEach refs = (result, w')) :
    w'.allBlocks = w.allBlocks.filter (· ∈ w'.allBlocks) := by
  have hself : ∀ w : Workspace, w.allBlocks = w.allBlocks.filter (· ∈ w.allBlocks) := fun w =>
    (List.filter_eq_self.mpr fun x hx => decide_eq_true hx).symm
  induction refs generalizing w with
  | nil =>
    cases hdone
    exact hself _
  | cons r refs ih =>
    unfold deleteEach at hdone
    split at hdone
    · rename_i hfind
      obtain ⟨hr, -⟩ := h.findBlock?_ok.mp hfind
      split at hdone
      · rename_i removed w₁ hdelete
        obtain ⟨hrewires, -⟩ := deleteRef_ok h hr hregular hdelete
        obtain ⟨gone, -, hgap⟩ := deleteRef_closesGap h hregular hr hdelete
        have hrest := ih (hrewires.invariant h) hdone
        have hkept : ∀ x ∈ w'.allBlocks, x ∉ gone := by
          intro x hx
          rw [hrest, hgap.blocks] at hx
          simpa using (List.mem_filter.mp (List.mem_of_mem_filter hx)).2
        rw [hgap.blocks, List.filter_filter] at hrest
        refine hrest.trans (List.filter_congr fun x _ => ?_)
        by_cases hx : x ∈ w'.allBlocks
        · simp [hx, hkept x hx]
        · simp [hx]
      · cases hdone
        exact hself _
    · exact ih h hdone

end Workspace

end BlockSketch
