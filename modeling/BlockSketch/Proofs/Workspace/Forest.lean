import BlockSketch.Proofs.Value
import BlockSketch.Proofs.Workspace.Slots
import BlockSketch.Workspace.Traversal
import Mathlib.Data.Finset.Card

/-!
# Workspaces that are forests

The traversals of a workspace are bounded by its number of blocks. In a forest the bound is never
met: the rank of a block, the number of blocks below it, falls along every link. So a subtree lists
exactly what a block leads to, every live block is listed once, and a chain has an end.
-/

namespace BlockSketch.Workspace

open Ancestry
open Relation (ReflTransGen TransGen)

variable {w : Workspace} {place : Option Value}

def Holds (w : Workspace) : Slot → Ref → Prop
  | .root, c => c ∈ w.roots
  | .next p, c => (w.block p).next = some c
  | .input p k, c => (k, some c) ∈ (w.block p).inputs

abbrev Link (w : Workspace) : Ref → Ref → Prop := Slot.Link w.Holds

abbrev Live (w : Workspace) : Ref → Prop := Slot.Live w.Holds

structure Forest (w : Workspace) : Prop where
  keys : ∀ r, Table.TextKeys (w.block r).inputs
  bounded : w.Holds s c → c < w.blocks.size
  nodup : w.roots.Nodup
  slots : Slot.IsForest w.Holds

theorem mem_children : c ∈ w.children p ↔ w.Link p c := by
  simp only [children, List.mem_append, List.mem_filterMap, Option.mem_toList]
  constructor
  · rintro (⟨⟨k, _⟩, hmem, rfl⟩ | h)
    · exact ⟨.input p k, rfl, hmem⟩
    · exact ⟨.next p, rfl, h⟩
  · rintro ⟨s, hs, hc⟩
    cases s with
    | root => simp [Slot.parent?] at hs
    | next q =>
      cases hs
      exact .inr hc
    | input q k =>
      cases hs
      exact .inl ⟨(k, some c), hc, rfl⟩

theorem Forest.live_lt (h : Forest w) (hr : w.Live r) : r < w.blocks.size := by
  obtain ⟨s, hs⟩ := hr.held
  exact h.bounded hs

-- ---------------------------------------------------------------------------
-- Ranks
-- ---------------------------------------------------------------------------

/-- A rank falls along every link from the blocks of a set, and no link leads out of the set. -/
structure Descends (w : Workspace) (P : Ref → Prop) (rank : Ref → Nat) : Prop where
  closed : P p → w.Link p c → P c
  falls : P p → w.Link p c → rank c < rank p
  bounded : P r → rank r ≤ w.depth

open Classical in
/-- The number of blocks below a block. -/
noncomputable def rank (w : Workspace) (r : Ref) : Nat :=
  ((Finset.range w.blocks.size).filter (TransGen w.Link r)).card

theorem rank_le (w : Workspace) (r : Ref) : w.rank r ≤ w.depth := by
  classical
  calc w.rank r ≤ (Finset.range w.blocks.size).card := Finset.card_filter_le _ _
    _ = w.depth := Finset.card_range _

theorem Forest.rank_lt (h : Forest w) (hlink : w.Link p c) : w.rank c < w.rank p := by
  classical
  refine Finset.card_lt_card (Finset.ssubset_iff_of_subset ?_ |>.mpr ⟨c, ?_, ?_⟩)
  · intro x hx
    simp only [Finset.mem_filter] at hx ⊢
    exact ⟨hx.1, TransGen.head hlink hx.2⟩
  · simp only [Finset.mem_filter, Finset.mem_range]
    refine ⟨?_, .single hlink⟩
    obtain ⟨s, -, hc⟩ := hlink
    exact h.bounded hc
  · simp only [Finset.mem_filter, not_and]
    exact fun _ => h.slots.acyclic c

theorem Forest.descends (h : Forest w) : Descends w (fun _ => True) w.rank where
  closed _ _ := trivial
  falls _ hlink := h.rank_lt hlink
  bounded _ := rank_le w _

-- ---------------------------------------------------------------------------
-- Subtrees
-- ---------------------------------------------------------------------------

theorem subtree_eq_preorder (w : Workspace) : w.subtree = w.preorder w.depth := by
  funext r
  simp [subtree, drain_eq_listing, listing]

theorem allBlocks_eq (w : Workspace) : w.allBlocks = w.roots.flatMap w.subtree := by
  rw [subtree_eq_preorder, allBlocks, drain_eq_listing, listing, rootStack, List.flatMap_map]

/-- If every subtree is its block and what is in the blocks of the subtree, then so are subtrees one
after the other. -/
theorem places_of_subtrees {refs : List Ref}
    (h : ∀ r ∈ refs, (r :: (w.subtree r).flatMap w.children).Perm (w.subtree r)) :
    (refs ++ (refs.flatMap w.subtree).flatMap w.children).Perm (refs.flatMap w.subtree) := by
  rw [List.flatMap_assoc]
  have hsplit := List.map_append_flatMap_perm refs id fun r => (w.subtree r).flatMap w.children
  rw [List.map_id] at hsplit
  exact hsplit.trans (.flatMap_left _ h)

namespace Descends

variable {P : Ref → Prop} {rank : Ref → Nat}

theorem induct (h : Descends w P rank) {motive : ∀ r, P r → Prop}
    (step : ∀ r hr, (∀ c (hc : w.Link r c), motive c (h.closed hr hc)) → motive r hr) (r : Ref)
    (hr : P r) : motive r hr := by
  induction hn : rank r using Nat.strongRecOn generalizing r with
  | ind n ih => exact step r hr fun c hc => ih _ (hn ▸ h.falls hr hc) c (h.closed hr hc) rfl

theorem children_eq_nil (h : Descends w P rank) (hr : P r) (hrank : rank r = 0) :
    w.children r = [] := by
  rw [List.eq_nil_iff_forall_not_mem]
  intro c hc
  have := h.falls hr (mem_children.mp hc)
  omega

/-- A depth that the rank allows is as good as any other. -/
theorem preorder_stable (h : Descends w P rank) (hr : P r) (hd : rank r ≤ d) (hd' : rank r ≤ d') :
    w.preorder d r = w.preorder d' r := by
  induction d generalizing r d' with
  | zero =>
    have hnil := h.children_eq_nil hr (Nat.le_zero.mp hd)
    cases d' <;> simp [preorder, hnil]
  | succ d ih =>
    cases d' with
    | zero =>
      have hnil := h.children_eq_nil hr (Nat.le_zero.mp hd')
      simp [preorder, hnil]
    | succ d' =>
      simp only [preorder]
      congr 1
      refine List.flatMap_congr fun c hc => ?_
      have hlink := mem_children.mp hc
      have hlt := h.falls hr hlink
      exact ih (h.closed hr hlink) (by omega) (by omega)

theorem subtree_eq (h : Descends w P rank) (hr : P r) :
    w.subtree r = r :: (w.children r).flatMap w.subtree := by
  have hle := h.bounded hr
  rw [subtree_eq_preorder, h.preorder_stable hr hle (Nat.le_succ_of_le hle), preorder]

theorem mem_subtree (h : Descends w P rank) (hr : P r) :
    x ∈ w.subtree r ↔ ReflTransGen w.Link r x := by
  induction r, hr using h.induct with
  | step r hr ih =>
    rw [h.subtree_eq hr, List.mem_cons, List.mem_flatMap]
    constructor
    · rintro (rfl | ⟨c, hc, hx⟩)
      · exact .refl
      · have hlink := mem_children.mp hc
        exact .head hlink ((ih c hlink).mp hx)
    · intro hpath
      rcases hpath.cases_head with rfl | ⟨c, hlink, hx⟩
      · exact .inl rfl
      · exact .inr ⟨c, mem_children.mpr hlink, (ih c hlink).mpr hx⟩

theorem subtree_places (h : Descends w P rank) (hr : P r) :
    (r :: (w.subtree r).flatMap w.children).Perm (w.subtree r) := by
  induction r, hr using h.induct with
  | step r hr ih =>
    rw [h.subtree_eq hr, List.flatMap_cons]
    exact .cons r (places_of_subtrees fun c hc => ih c (mem_children.mp hc))

section
variable (h : Descends w P rank) (hroots : ∀ r ∈ w.roots, P r)
include h hroots

theorem mem_allBlocks : x ∈ w.allBlocks ↔ w.Live x := by
  rw [allBlocks_eq, List.mem_flatMap]
  exact exists_congr fun r => and_congr_right fun hr => h.mem_subtree (hroots r hr)

theorem places : (w.roots ++ w.allBlocks.flatMap w.children).Perm w.allBlocks := by
  rw [allBlocks_eq]
  exact places_of_subtrees fun r hr => h.subtree_places (hroots r hr)

end

end Descends

section
variable (h : Forest w)
include h

theorem Forest.induct {motive : Ref → Prop}
    (step : ∀ r, (∀ c, w.Link r c → motive c) → motive r) (r : Ref) : motive r :=
  h.descends.induct (motive := fun r _ => motive r) (fun r _ => step r) r trivial

theorem Forest.subtree_eq (r : Ref) : w.subtree r = r :: (w.children r).flatMap w.subtree :=
  h.descends.subtree_eq trivial

theorem Forest.mem_subtree : x ∈ w.subtree r ↔ ReflTransGen w.Link r x :=
  h.descends.mem_subtree trivial

theorem Forest.mem_allBlocks : x ∈ w.allBlocks ↔ w.Live x :=
  h.descends.mem_allBlocks fun _ _ => trivial

/-- Every live block is a root or stands in one block, once. -/
theorem Forest.places : (w.roots ++ w.allBlocks.flatMap w.children).Perm w.allBlocks :=
  h.descends.places fun _ _ => trivial

end

theorem Forest.children_nodup (h : Forest w) (r : Ref) : (w.children r).Nodup := by
  have hunique : ∀ s s' c, w.Holds s c → w.Holds s' c → s = s' := fun _ _ _ => h.slots.unique
  refine List.nodup_append.mpr ⟨?_, by cases (w.block r).next <;> simp, ?_⟩
  · have hkeys : (w.block r).inputs.Pairwise fun a b => a.1 ≠ b.1 := by
      simpa [Table.keys, List.Nodup, List.pairwise_map] using (h.keys r).2
    refine List.pairwise_filterMap.mpr (hkeys.imp_of_mem fun {a b} ha hb hne c hc c' hc' => ?_)
    rintro rfl
    obtain ⟨k, x⟩ := a
    obtain ⟨k', x'⟩ := b
    simp only at hc hc'
    subst hc hc'
    have := hunique (.input r k) (.input r k') c ha hb
    simp only [Slot.input.injEq, true_and] at this
    exact hne this
  · rintro c hc c' hc' rfl
    obtain ⟨⟨k, _⟩, hmem, rfl⟩ := List.mem_filterMap.mp hc
    have := hunique (.input r k) (.next r) c hmem (Option.mem_toList.mp hc')
    simp at this

theorem Forest.subtrees_disjoint (h : Forest w) (hc : w.Link r c) (hc' : w.Link r c')
    (hx : ReflTransGen w.Link c x) (hx' : ReflTransGen w.Link c' x) : c = c' := by
  have hback : ∀ a b, w.Link r a → w.Link r b → ReflTransGen w.Link a b → a = b := by
    intro a b ha hb hab
    rcases hab.cases_tail with rfl | ⟨p, hap, hpb⟩
    · rfl
    · obtain rfl := h.slots.oneParent _ _ _ hpb hb
      exact (h.slots.acyclic p (TransGen.head' ha hap)).elim
  rcases h.slots.oneParent.comparable hx hx' with hpath | hpath
  · exact hback c c' hc hc' hpath
  · exact (hback c' c hc' hc hpath).symm

theorem Forest.subtree_nodup (h : Forest w) (r : Ref) : (w.subtree r).Nodup := by
  induction r using h.induct with
  | step r ih =>
    rw [h.subtree_eq, List.nodup_cons, List.mem_flatMap, List.nodup_flatMap]
    refine ⟨?_, fun c hc => ih c (mem_children.mp hc), ?_⟩
    · rintro ⟨c, hc, hr⟩
      exact h.slots.acyclic r (TransGen.head' (mem_children.mp hc) (h.mem_subtree.mp hr))
    · refine (h.children_nodup r).imp_of_mem fun {c c'} hc hc' hne x hx hx' => hne ?_
      exact h.subtrees_disjoint (mem_children.mp hc) (mem_children.mp hc') (h.mem_subtree.mp hx)
        (h.mem_subtree.mp hx')

theorem Forest.allBlocks_nodup (h : Forest w) : w.allBlocks.Nodup := by
  rw [allBlocks_eq, List.nodup_flatMap]
  refine ⟨fun r _ => h.subtree_nodup r, h.nodup.imp_of_mem fun {a b} ha hb hne x hx hx' => hne ?_⟩
  rcases h.slots.oneParent.comparable (h.mem_subtree.mp hx) (h.mem_subtree.mp hx') with hab | hba
  · exact eq_of_no_parent (h.slots.no_parent hb) hab
  · exact (eq_of_no_parent (h.slots.no_parent ha) hba).symm

-- ---------------------------------------------------------------------------
-- Searches
-- ---------------------------------------------------------------------------

theorem isRoot_iff : w.isRoot r = true ↔ w.Holds .root r := by
  simp [isRoot, Holds]

theorem search_rootStack (w : Workspace) (f : Ref → Option α) :
    w.search f w.rootStack = w.allBlocks.findSome? f := by
  rw [search_eq_findSome?, allBlocks, drain_eq_listing]

theorem Forest.reaches_iff (h : Forest w) : w.reaches r x = true ↔ ReflTransGen w.Link r x := by
  have hlisting : w.listing [(w.depth, r)] = w.subtree r := by
    rw [subtree, drain_eq_listing]
  simp only [reaches, search_eq_findSome?, hlisting, List.findSome?_isSome_iff, ← h.mem_subtree]
  simp

theorem Forest.findBlock?_some (h : Forest w) (hfind : w.findBlock? v = some r) :
    w.Live r ∧ (w.block r).id.same v = true := by
  rw [findBlock?, search_rootStack] at hfind
  obtain ⟨x, hx, hsome⟩ := List.exists_of_findSome?_eq_some hfind
  split at hsome
  · rename_i hsame
    cases hsome
    exact ⟨h.mem_allBlocks.mp hx, hsame⟩
  · cases hsome

theorem Forest.findBlock?_none (h : Forest w) (hfind : w.findBlock? v = none) (hr : w.Live r) :
    (w.block r).id.same v = false := by
  rw [findBlock?, search_rootStack, List.findSome?_eq_none_iff] at hfind
  simpa using hfind r (h.mem_allBlocks.mpr hr)

/-- The slot of a block that is told by its socket, or by nothing for its successor. -/
def slotAt (p : Ref) : Option Value → Slot
  | none => .next p
  | some socket => .input p socket

theorem slotAt_parent (p : Ref) (place : Option Value) : (slotAt p place).parent? = some p := by
  cases place <;> rfl

theorem slot_cases (s : Slot) : s = .root ∨ ∃ p place, s = slotAt p place := by
  cases s with
  | root => exact .inl rfl
  | next p => exact .inr ⟨p, none, rfl⟩
  | input p k => exact .inr ⟨p, some k, rfl⟩

theorem placeOf?_some (h : w.placeOf? (some c) p = some place) : w.Holds (slotAt p place) c := by
  unfold placeOf? at h
  split at h
  · cases h
    assumption
  · obtain ⟨⟨k, x⟩, hfind, rfl⟩ := Option.map_eq_some_iff.mp h
    have hx := List.find?_some hfind
    simp only [beq_iff_eq] at hx
    subst hx
    exact List.mem_of_find?_eq_some hfind

theorem placeOf?_isSome (h : w.Link p c) : (w.placeOf? (some c) p).isSome = true := by
  unfold placeOf?
  split
  · rfl
  · rename_i hnext
    obtain ⟨s, hs, hc⟩ := h
    cases s with
    | root => simp [Slot.parent?] at hs
    | next q =>
      cases hs
      exact (hnext hc).elim
    | input q k =>
      cases hs
      simp only [Option.isSome_map, List.find?_isSome]
      exact ⟨_, hc, by simp⟩

theorem Forest.findParent?_some (h : Forest w) (hr : w.Live r) (hroot : ¬w.Holds .root r) :
    ∃ p place, w.findParent? r = some (p, place) ∧ w.Holds (slotAt p place) r := by
  obtain ⟨q, hq, hlink⟩ := hr.cases.resolve_left hroot
  have hsome : (w.findParent? r).isSome = true := by
    rw [findParent?, findPlace?, search_rootStack, List.findSome?_isSome_iff]
    exact ⟨q, h.mem_allBlocks.mpr hq, by simpa using placeOf?_isSome hlink⟩
  obtain ⟨⟨p, place⟩, hfind⟩ := Option.isSome_iff_exists.mp hsome
  refine ⟨p, place, hfind, ?_⟩
  rw [findParent?, findPlace?, search_rootStack] at hfind
  obtain ⟨x, -, hx⟩ := List.exists_of_findSome?_eq_some hfind
  obtain ⟨place', hplace, heq⟩ := Option.map_eq_some_iff.mp hx
  cases heq
  exact placeOf?_some hplace

-- ---------------------------------------------------------------------------
-- Chains
-- ---------------------------------------------------------------------------

def Follows (w : Workspace) (a b : Ref) : Prop :=
  w.Holds (.next a) b

theorem Follows.link (h : w.Follows a b) : w.Link a b :=
  ⟨.next a, rfl, h⟩

theorem Forest.chainFrom_last (h : Forest w) (hfuel : w.rank r ≤ fuel) :
    ∃ e, (w.chainFrom fuel r).getLast? = some e ∧ (w.block e).next = none ∧
      ReflTransGen w.Follows r e := by
  induction fuel generalizing r with
  | zero =>
    have hnil := h.descends.children_eq_nil trivial (Nat.le_zero.mp hfuel)
    simp only [children, List.append_eq_nil_iff, Option.toList_eq_nil_iff] at hnil
    exact ⟨r, rfl, hnil.2, .refl⟩
  | succ fuel ih =>
    cases hnext : (w.block r).next with
    | none => exact ⟨r, by simp [chainFrom, hnext], hnext, .refl⟩
    | some c =>
      have hfollows : w.Follows r c := hnext
      have hlt := h.rank_lt hfollows.link
      obtain ⟨e, hlast, hend, hpath⟩ := ih (show w.rank c ≤ fuel by omega)
      refine ⟨e, ?_, hend, .head hfollows hpath⟩
      simp only [chainFrom, hnext]
      rw [List.getLast?_cons, hlast]
      rfl

theorem Forest.chainEnd_spec (h : Forest w) (r : Ref) :
    (w.block (w.chainEnd r)).next = none ∧ ReflTransGen w.Follows r (w.chainEnd r) := by
  obtain ⟨e, hlast, hend, hpath⟩ := h.chainFrom_last (rank_le w r)
  have heq : w.chainEnd r = e := by simp [chainEnd, chain, hlast]
  exact heq ▸ ⟨hend, hpath⟩

end BlockSketch.Workspace
