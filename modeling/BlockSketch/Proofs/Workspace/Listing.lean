import BlockSketch.Proofs.Workspace.Faults
import Mathlib.Logic.Function.Iterate

/-!
# Listing a forest

The blocks of a forest are listed recursively: a block, what is in its sockets, and what follows it.
The relation `Lists` says this without a bound on the depth. A walk with a stack that nothing bounds
meets the same blocks in the same order and comes to an end, and so do the traversals of a
workspace. In a forest every block is met once, and its parent is found by the one link that leads
to it.
-/

namespace BlockSketch.Workspace

open Relation (ReflTransGen TransGen)

variable {w : Workspace}

-- ---------------------------------------------------------------------------
-- The recursive listing
-- ---------------------------------------------------------------------------

/-- The blocks that links lead to, one link after the other: each block comes before what is in its
sockets, in their order, and this before what follows the block. -/
inductive Lists (w : Workspace) : List (Option Ref) → List Ref → Prop
  | nil : Lists w [] []
  | empty (hrest : Lists w links out) : Lists w (none :: links) out
  | block (hinputs : Lists w ((w.block r).inputs.map Prod.snd) inside)
      (hnext : Lists w [(w.block r).next] behind) (hrest : Lists w links out) :
      Lists w (some r :: links) (r :: (inside ++ behind ++ out))

namespace Lists

theorem append (h : Lists w links out) (h' : Lists w links' out') :
    Lists w (links ++ links') (out ++ out') := by
  induction h with
  | nil => exact h'
  | empty _ ih => exact .empty ih
  | block hinputs hnext _ _ _ ih =>
    rw [List.cons_append, List.cons_append, List.append_assoc]
    exact .block hinputs hnext ih

theorem tail (h : Lists w (some r :: links) out) : ∃ rest, out = r :: rest ∧
    Lists w ((w.block r).inputs.map Prod.snd ++ (w.block r).next :: links) rest := by
  cases h with
  | block hinputs hnext hrest =>
    refine ⟨_, rfl, ?_⟩
    rw [List.append_assoc]
    exact hinputs.append (hnext.append hrest)

theorem somes (h : Lists w links out) : Lists w ((links.filterMap id).map some) out := by
  induction h with
  | nil => exact .nil
  | empty _ ih => exact ih
  | block hinputs hnext _ _ _ ih => exact .block hinputs hnext ih

theorem unique (h : Lists w links out) (h' : Lists w links out') : out = out' := by
  induction h generalizing out' with
  | nil =>
    cases h'
    rfl
  | empty _ ih =>
    cases h' with
    | empty hrest => exact ih hrest
  | block _ _ _ ihinputs ihnext ihrest =>
    cases h' with
    | block hinputs hnext hrest => rw [ihinputs hinputs, ihnext hnext, ihrest hrest]

theorem flatMap {f : Ref → List Ref} (h : ∀ r ∈ links.filterMap id, Lists w [some r] (f r)) :
    Lists w links ((links.filterMap id).flatMap f) := by
  induction links with
  | nil => exact .nil
  | cons link links ih =>
    cases link with
    | none => exact .empty (ih h)
    | some r =>
      obtain ⟨hfirst, hrest⟩ := List.forall_mem_cons.mp h
      exact hfirst.append (ih hrest)

end Lists

-- ---------------------------------------------------------------------------
-- A walk with a stack
-- ---------------------------------------------------------------------------

/-- The blocks that a walk has met, and those it has still to go on from, the topmost first. -/
structure Walk where
  pending : List Ref
  met : List Ref := []

namespace Walk

def push (stack : List Ref) : Option Ref → List Ref
  | none => stack
  | some r => r :: stack

/-- What follows a block goes on the stack first, then what is in its sockets, from the last one to
the first. -/
def pushLinks (b : Block) (stack : List Ref) : List Ref :=
  (b.inputs.map Prod.snd).reverse.foldl push (push stack b.next)

def step (w : Workspace) (walk : Walk) : Walk :=
  match walk.pending with
  | [] => walk
  | r :: rest => { pending := pushLinks (w.block r) rest, met := walk.met ++ [r] }

theorem push_eq (stack : List Ref) (link : Option Ref) :
    push stack link = link.toList ++ stack := by
  cases link <;> rfl

theorem pushLinks_eq (b : Block) (stack : List Ref) : pushLinks b stack =
    (b.inputs.map Prod.snd ++ b.next :: stack.map some).filterMap id := by
  have hfold : ∀ (links : List (Option Ref)) (stack : List Ref),
      links.reverse.foldl push stack = links.filterMap id ++ stack := by
    intro links stack
    rw [List.foldl_reverse]
    induction links with
    | nil => rfl
    | cons link links ih =>
      rw [List.foldr_cons, ih, push_eq]
      cases link <;> rfl
  rw [pushLinks, hfold, List.filterMap_append, push_eq, List.append_right_inj]
  cases b.next <;> simp

/-- A walk meets what its stack lists, in this order, and has then nothing left to do. -/
theorem met_iterate (h : Lists w (stack.map some) out) (met : List Ref) (turns : Nat) :
    ((step w)^[turns] ⟨stack, met⟩).met = met ++ out.take turns ∧
      (((step w)^[turns] ⟨stack, met⟩).pending = [] ↔ out.length ≤ turns) := by
  induction turns generalizing stack met out with
  | zero =>
    refine ⟨by simp, ?_⟩
    cases stack with
    | nil =>
      cases h
      simp
    | cons r rest =>
      obtain ⟨tail, rfl, -⟩ := h.tail
      simp
  | succ turns ih =>
    rw [Function.iterate_succ_apply]
    cases stack with
    | nil =>
      cases h
      have hnil : Lists w (([] : List Ref).map some) [] := .nil
      have hstay : step w ⟨[], met⟩ = ⟨[], met⟩ := rfl
      rw [hstay]
      simpa using ih hnil met
    | cons r rest =>
      obtain ⟨tail, rfl, htail⟩ := h.tail
      have hlinks := htail.somes
      rw [← pushLinks_eq] at hlinks
      obtain ⟨hmet, hpending⟩ := ih hlinks (met ++ [r])
      refine ⟨hmet.trans ?_, hpending.trans ?_⟩
      · simp
      · simp

end Walk

-- ---------------------------------------------------------------------------
-- Forests
-- ---------------------------------------------------------------------------

/-- A forest: every live block has one place, in the list of roots or in a live block. -/
def PlacedOnce (w : Workspace) : Prop :=
  ∀ r, w.Live r → w.references.count r = 1

theorem mem_liveBlocks : r ∈ w.liveBlocks ↔ r < w.blocks.size ∧ w.Live r := by
  simp [liveBlocks]

namespace PlacedOnce

variable (h : PlacedOnce w)
include h

theorem no_parent (hr : r ∈ w.roots) (hp : w.Live p) : ¬w.Link p r := by
  intro hlink
  have hcount := h r (.root hr)
  have hmem : r ∈ w.liveBlocks.flatMap w.children :=
    List.mem_flatMap.mpr ⟨p, mem_liveBlocks.mpr ⟨lt_of_link hlink, hp⟩, mem_children.mpr hlink⟩
  have hroot := List.count_pos_iff.mpr hr
  have hchild := List.count_pos_iff.mpr hmem
  rw [references, List.count_append] at hcount
  omega

theorem one_parent (hp : w.Live p) (hq : w.Live q) (hpr : w.Link p r) (hqr : w.Link q r) :
    p = q := by
  by_contra hne
  have hcount := h r (hp.child hpr)
  have hpmem := mem_liveBlocks.mpr ⟨lt_of_link hpr, hp⟩
  have hqmem := mem_liveBlocks.mpr ⟨lt_of_link hqr, hq⟩
  have hperm := (List.perm_cons_erase hpmem).trans
    ((List.perm_cons_erase ((List.mem_erase_of_ne (Ne.symm hne)).mpr hqmem)).cons p)
  rw [references, List.count_append, (hperm.flatMap_right w.children).count_eq,
    List.flatMap_cons, List.flatMap_cons, List.count_append, List.count_append] at hcount
  have hfirst := List.count_pos_iff.mpr (mem_children.mpr hpr)
  have hsecond := List.count_pos_iff.mpr (mem_children.mpr hqr)
  omega

/-- A way from a root into a cycle would end at a block with two places. -/
theorem acyclic (r : Ref) (hr : w.Live r) : ¬TransGen w.Link r r := by
  obtain ⟨root, hroot, hpath⟩ := hr
  induction hpath with
  | refl =>
    intro hcycle
    obtain ⟨p, hp, hlink⟩ := TransGen.tail'_iff.mp hcycle
    exact h.no_parent hroot ⟨root, hroot, hp⟩ hlink
  | @tail y x hy hlink ih =>
    intro hcycle
    obtain ⟨p, hp, hback⟩ := TransGen.tail'_iff.mp hcycle
    have hlive : w.Live y := ⟨root, hroot, hy⟩
    obtain rfl := h.one_parent ((hlive.child hlink).trans hp) hlive hback hlink
    exact ih (TransGen.head' hlink hp)

end PlacedOnce

/-- Where there are no cycles, a subtree is the recursive listing of its block. -/
theorem Descends.lists {P : Ref → Prop} {rank : Ref → Nat} (h : Descends w P rank) (hr : P r) :
    Lists w [some r] (w.subtree r) := by
  induction r, hr using h.induct with
  | step r hr ih =>
    have hchildren : w.children r = ((w.block r).inputs.map Prod.snd).filterMap id ++
        [(w.block r).next].filterMap id := by
      rw [children, List.filterMap_map, Function.id_comp]
      cases (w.block r).next <;> rfl
    have hlists : ∀ {links}, links.filterMap id ⊆ w.children r →
        Lists w links ((links.filterMap id).flatMap w.subtree) := fun hsub =>
      .flatMap fun c hc => ih c (mem_children.mp (hsub hc))
    have hinputs := hlists (hchildren ▸ List.subset_append_left _ _)
    have hnext := hlists (hchildren ▸ List.subset_append_right _ _)
    have hblock := Lists.block hinputs hnext .nil
    rw [List.append_nil, ← List.flatMap_append, ← hchildren, ← h.subtree_eq hr] at hblock
    exact hblock

-- ---------------------------------------------------------------------------
-- Parents
-- ---------------------------------------------------------------------------

theorem eq_of_nodup_filterMap {f : α → Option β} {l : List α} (h : (l.filterMap f).Nodup)
    (ha : a ∈ l) (hb : b ∈ l) (hfa : f a = some x) (hfb : f b = some x) : a = b := by
  by_contra hne
  have hpairs : l.Pairwise fun a b => f a = some x → f b ≠ some x :=
    (List.pairwise_filterMap.mp h).imp fun hdiffer hfa hfb => hdiffer x hfa x hfb rfl
  have : Std.Symm fun a b : α => f a = some x → f b ≠ some x :=
    ⟨fun _ _ hdiffer hb ha => hdiffer ha hb⟩
  exact hpairs.forall ha hb hne hfa hfb

variable {place place' : Option Value}

theorem link_slotAt (h : w.Holds (slotAt p place) c) : w.Link p c :=
  ⟨_, slotAt_parent p place, h⟩

theorem place_unique (hnodup : (w.children p).Nodup) (h : w.Holds (slotAt p place) c)
    (h' : w.Holds (slotAt p place') c) : place = place' := by
  obtain ⟨hinputs, -, hapart⟩ := List.nodup_append.mp hnodup
  have hnext : ∀ {k}, (w.block p).next = some c → (k, some c) ∉ (w.block p).inputs :=
    fun hnext hentry => hapart c (List.mem_filterMap.mpr ⟨_, hentry, rfl⟩) c
      (Option.mem_toList.mpr hnext) rfl
  cases place with
  | none =>
    cases place' with
    | none => rfl
    | some k => exact (hnext h h').elim
  | some k =>
    cases place' with
    | none => exact (hnext h' h).elim
    | some k' => exact congrArg (some ·.1) (eq_of_nodup_filterMap hinputs h h' rfl rfl)

namespace PlacedOnce

variable (h : PlacedOnce w)
include h

theorem allBlocks_nodup : w.allBlocks.Nodup :=
  (allBlocks_nodup_iff h.acyclic).mpr h

theorem mem_allBlocks : r ∈ w.allBlocks ↔ w.Live r :=
  mem_allBlocks_live h.acyclic

theorem children_nodup (hp : w.Live p) : (w.children p).Nodup := by
  have hplaces := (live_descends h.acyclic).places fun r hr => ⟨r, hr, .refl⟩
  have hnodup := (List.nodup_append.mp (hplaces.nodup_iff.mpr h.allBlocks_nodup)).2.1
  exact (List.nodup_flatMap.mp hnodup).1 p (h.mem_allBlocks.mpr hp)

theorem findParent?_isSome (hp : w.Live p) (hlink : w.Link p x) :
    (w.findParent? x).isSome = true := by
  rw [findParent?, findPlace?, search_rootStack, List.findSome?_isSome_iff]
  exact ⟨p, h.mem_allBlocks.mpr hp, by simpa using placeOf?_isSome hlink⟩

/-- The parent that is found is the one live block with a link to the block. -/
theorem findParent?_eq_some : w.findParent? x = some (p, place) ↔
    w.Live p ∧ w.Holds (slotAt p place) x := by
  have hfound : ∀ {p place}, w.findParent? x = some (p, place) →
      w.Live p ∧ w.Holds (slotAt p place) x := by
    intro p place hfind
    rw [findParent?, findPlace?, search_rootStack] at hfind
    obtain ⟨q, hq, hsome⟩ := List.exists_of_findSome?_eq_some hfind
    obtain ⟨_, hplace, heq⟩ := Option.map_eq_some_iff.mp hsome
    cases heq
    exact ⟨h.mem_allBlocks.mp hq, placeOf?_some hplace⟩
  refine ⟨hfound, ?_⟩
  rintro ⟨hp, hholds⟩
  have hlink := link_slotAt hholds
  obtain ⟨⟨q, place'⟩, hfind⟩ := Option.isSome_iff_exists.mp (h.findParent?_isSome hp hlink)
  obtain ⟨hq, hholds'⟩ := hfound hfind
  obtain rfl := h.one_parent hp hq hlink (link_slotAt hholds')
  rw [hfind, place_unique (h.children_nodup hp) hholds hholds']

theorem findParent?_eq_none (hx : w.Live x) : w.findParent? x = none ↔ x ∈ w.roots := by
  constructor
  · intro hnone
    refine hx.cases.resolve_right ?_
    rintro ⟨p, hp, hlink⟩
    have hsome := h.findParent?_isSome hp hlink
    rw [hnone] at hsome
    cases hsome
  · intro hroot
    rw [Option.eq_none_iff_forall_ne_some]
    rintro ⟨p, place⟩ hfind
    obtain ⟨hp, hholds⟩ := h.findParent?_eq_some.mp hfind
    exact h.no_parent hroot hp (link_slotAt hholds)

end PlacedOnce

-- ---------------------------------------------------------------------------
-- Traversals and look-ups
-- ---------------------------------------------------------------------------

/-- In a forest a walk from any block comes to an end after the recursive listing of the block,
which is what the traversal of its subtree gives. So all blocks are listed, each once, and the
parent of a block is where its one link is; a root has none. -/
theorem traversals_agree (h : w.PlacedOnce) :
    (∀ r, w.Live r → (∀ out, w.Lists [some r] out ↔ w.subtree r = out) ∧
      ∀ turns, ((Walk.step w)^[turns] { pending := [r] }).met = (w.subtree r).take turns ∧
        (((Walk.step w)^[turns] { pending := [r] }).pending = [] ↔
          (w.subtree r).length ≤ turns)) ∧
    (w.Lists (w.roots.map some) w.allBlocks ∧ w.allBlocks.Nodup ∧
      ∀ r, r ∈ w.allBlocks ↔ w.Live r) ∧
    ∀ x, w.Live x →
      (∀ p place, w.findParent? x = some (p, place) ↔ w.Live p ∧ w.Holds (slotAt p place) x) ∧
      (w.findParent? x = none ↔ x ∈ w.roots) := by
  have hlists : ∀ r, w.Live r → w.Lists [some r] (w.subtree r) := fun r hr =>
    (live_descends h.acyclic).lists hr
  refine ⟨fun r hr => ⟨fun out => ⟨(hlists r hr).unique, ?_⟩, ?_⟩,
    ⟨?_, h.allBlocks_nodup, fun r => h.mem_allBlocks⟩,
    fun x hx => ⟨fun p place => h.findParent?_eq_some, h.findParent?_eq_none hx⟩⟩
  · rintro rfl
    exact hlists r hr
  · have hstack : w.Lists ([r].map some) (w.subtree r) := hlists r hr
    simpa using Walk.met_iterate hstack []
  · have hroots : (w.roots.map some).filterMap id = w.roots := by simp
    have hlive : ∀ r ∈ (w.roots.map some).filterMap id, w.Live r := by
      rw [hroots]
      exact fun r hr => .root hr
    have hall := Lists.flatMap fun r hr => hlists r (hlive r hr)
    rwa [hroots, ← allBlocks_eq] at hall

/-- A choice with a condition and a body, followed by a statement, and a loose block. -/
def branched : Workspace where
  blocks := #[
    { type := "controls_setup", id := "entry", inputs := [("SETUP", some 1), ("LOOP", none)] },
    { type := "controls_if", id := "choice", inputs := [("IF0", some 3), ("DO0", some 2)]
      next := some 4 },
    { type := "arduino_imu_begin", id := "inner" },
    { type := "logic_boolean", id := "condition" },
    { type := "arduino_imu_begin", id := "after" },
    { type := "logic_boolean", id := "loose" }]
  roots := [0, 5]

theorem branched_traversed : branched.PlacedOnce ∧
    branched.Lists [some 1] [1, 3, 2, 4] ∧
    ((Walk.step branched)^[4] { pending := [1] }).pending = [] ∧
    branched.findParent? 3 = some (1, some (.text "IF0")) ∧
    branched.findParent? 4 = some (1, none) ∧ branched.findParent? 5 = none := by
  have hplaced : branched.PlacedOnce := by
    have hacyclic : ∀ r, branched.Live r → ¬TransGen branched.Link r r := fun r _ =>
      acyclic_of_later (by decide) r
    refine (allBlocks_nodup_iff hacyclic).mp ?_
    rw [allBlocks, drain_eq_listing]
    decide
  obtain ⟨hlisted, -, hparents⟩ := traversals_agree hplaced
  have hchoice : branched.Live 1 :=
    ⟨0, List.mem_cons_self, .single ⟨.input 0 "SETUP", rfl, List.mem_cons_self⟩⟩
  have hcondition : branched.Holds (slotAt 1 (some "IF0")) 3 := List.mem_cons_self
  have hafter : branched.Holds (slotAt 1 none) 4 := rfl
  have hloose : branched.Holds .root 5 := List.mem_cons_of_mem _ List.mem_cons_self
  have hsubtree : branched.subtree 1 = [1, 3, 2, 4] := by
    rw [subtree_eq_preorder]
    rfl
  refine ⟨hplaced, ((hlisted 1 hchoice).1 _).mpr hsubtree, ((hlisted 1 hchoice).2 4).2.mpr ?_,
    ((hparents 3 (hchoice.child (link_slotAt hcondition))).1 _ _).mpr ⟨hchoice, hcondition⟩,
    ((hparents 4 (hchoice.child (link_slotAt hafter))).1 _ _).mpr ⟨hchoice, hafter⟩,
    (hparents 5 (.root hloose)).2.mpr hloose⟩
  rw [hsubtree]
  exact Nat.le_refl 4

end BlockSketch.Workspace
