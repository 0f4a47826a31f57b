import BlockSketch.Proofs.Workspace.Forest
import BlockSketch.Workspace.Check

/-!
# Workspaces without faults

Checking a workspace goes through a listing of its blocks, in which a block stands once for every way
that leads to it. Without cycles the listing is complete, and the ways to a block are the ways to the
blocks around it, each followed by one place of the block. So no block is listed twice exactly if every
block has one place, counting the list of roots and the links of live blocks.
-/

namespace BlockSketch

-- ---------------------------------------------------------------------------
-- Values that do not coincide
-- ---------------------------------------------------------------------------

theorem Number.same_comm (m n : Number) : m.same n = n.same m := by
  unfold same
  cases m.magnitude with
  | dyadic a e =>
    cases n.magnitude with
    | dyadic b e' =>
      simp only [Magnitude.align, min_comm e' e]
      exact BEq.comm
    | _ => rfl
  | infinite s =>
    cases n.magnitude with
    | infinite t => exact BEq.comm
    | _ => rfl
  | undefined => cases n.magnitude <;> rfl

namespace Value

theorem sameScalar_comm (v w : Value) : sameScalar v w = sameScalar w v := by
  cases v <;> cases w <;> simp [sameScalar, number?, Number.same_comm, Bool.beq_comm]

theorem coincides_comm {v w : Value} (hv : v.isContainer = false) (hw : w.isContainer = false) :
    v.coincides w = w.coincides v := by
  have hscalar : ∀ {v : Value} (w : Value), v.isContainer = false →
      v.coincides w = coincidesScalar v w := by
    intro v w hv
    cases v with
    | list items => cases hv
    | object members => cases hv
    | _ => rfl
  rw [hscalar w hv, hscalar v hw, coincidesScalar, coincidesScalar, sameScalar_comm]
  congr 1
  cases v.label? <;> cases w.label? <;> simp [Bool.beq_comm]

/-- Taking values one by one and leaving out those that coincide with one taken before leaves out
nothing exactly if no two coincide. -/
theorem length_distinct (items found : List Value) :
    let all := items.foldl (fun found v => if v.isIn found then found else found ++ [v]) found
    all.length ≤ found.length + items.length ∧
      (all.length = found.length + items.length ↔ (∀ v ∈ items, v.isIn found = false) ∧
        items.Pairwise fun v v' => v.coincides v' = false) := by
  induction items generalizing found with
  | nil => simp
  | cons v items ih =>
    simp only [List.foldl_cons, List.length_cons, List.forall_mem_cons, List.pairwise_cons]
    cases hv : v.isIn found with
    | true =>
      obtain ⟨hle, -⟩ := ih found
      simp only [if_true, Bool.true_eq_false, false_and, iff_false]
      omega
    | false =>
      obtain ⟨hle, heq⟩ := ih (found ++ [v])
      have hin : ∀ u : Value, u.isIn (found ++ [v]) = false ↔
          u.isIn found = false ∧ v.coincides u = false := by
        simp [isIn]
      simp only [List.length_append, List.length_singleton, hin] at hle heq
      simp only [Bool.false_eq_true, if_false, true_and, ← Nat.add_assoc, Nat.add_right_comm _ _ 1]
      refine ⟨hle, heq.trans ?_⟩
      rw [forall₂_and, and_assoc]

theorem areDistinct_iff {items : List Value} : areDistinct items = true ↔
    items.Pairwise fun v v' => v.coincides v' = false := by
  obtain ⟨-, hlength⟩ := length_distinct items []
  rw [areDistinct, beq_iff_eq, distinct]
  simpa [isIn] using hlength

end Value

namespace Workspace

open Relation (ReflTransGen TransGen)

variable {w : Workspace}

-- ---------------------------------------------------------------------------
-- Faults along a listing
-- ---------------------------------------------------------------------------

theorem faultsAlong_eq_nil {seen : List Ref} {ids : List Value} {listing : List Ref} :
    w.faultsAlong seen ids listing = [] ↔
      (∀ r ∈ listing, r ∉ seen ∧ (w.block r).id.isIn ids = false) ∧ listing.Nodup ∧
        listing.Pairwise fun r r' => (w.block r).id.coincides (w.block r').id = false := by
  induction listing generalizing seen ids with
  | nil => simp [faultsAlong]
  | cons r listing ih =>
    simp only [faultsAlong, List.contains_iff_mem, List.forall_mem_cons, List.nodup_cons,
      List.pairwise_cons]
    by_cases hseen : r ∈ seen
    · simp [hseen]
    · cases hid : (w.block r).id.isIn ids with
      | true => simp [hseen]
      | false =>
        have hin : ∀ v : Value, v.isIn ((w.block r).id :: ids) = false ↔
            (w.block r).id.coincides v = false ∧ v.isIn ids = false := by
          simp [Value.isIn]
        simp only [hseen, Bool.false_eq_true, if_false, ih, List.mem_cons, not_or, hin]
        constructor
        · rintro ⟨hall, hnodup, hpairs⟩
          exact ⟨⟨⟨id, trivial⟩, fun x hx => ⟨(hall x hx).1.2, (hall x hx).2.2⟩⟩,
            ⟨fun hr => (hall r hr).1.1 rfl, hnodup⟩, fun x hx => (hall x hx).2.1, hpairs⟩
        · rintro ⟨⟨-, hall⟩, ⟨hr, hnodup⟩, hfirst, hpairs⟩
          refine ⟨fun x hx => ⟨⟨?_, (hall x hx).1⟩, hfirst x hx, (hall x hx).2⟩, hnodup, hpairs⟩
          rintro rfl
          exact hr hx

-- ---------------------------------------------------------------------------
-- Listings without cycles
-- ---------------------------------------------------------------------------

open Classical in
/-- The number of placed blocks that a block leads to, itself among them. -/
noncomputable def height (w : Workspace) (r : Ref) : Nat :=
  ((Finset.range w.blocks.size).filter (ReflTransGen w.Link r)).card

theorem lt_of_link (h : w.Link p c) : p < w.blocks.size := by
  by_contra hge
  have hblock : w.block p = default := by simp [block, Nat.not_lt.mp hge]
  have hc := mem_children.mpr h
  rw [children, hblock] at hc
  cases hc

theorem height_lt (hacyclic : ¬TransGen w.Link p p) (hlink : w.Link p c) :
    w.height c < w.height p := by
  classical
  refine Finset.card_lt_card (Finset.ssubset_iff_of_subset ?_ |>.mpr ⟨p, ?_, ?_⟩)
  · intro x hx
    simp only [Finset.mem_filter] at hx ⊢
    exact ⟨hx.1, hx.2.head hlink⟩
  · exact Finset.mem_filter.mpr ⟨Finset.mem_range.mpr (lt_of_link hlink), .refl⟩
  · exact fun hp => hacyclic (TransGen.head' hlink (Finset.mem_filter.mp hp).2)

open Classical in
noncomputable def liveBlocks (w : Workspace) : List Ref :=
  (List.range w.blocks.size).filter fun r => w.Live r

/-- The references to blocks: the entries of the list of roots, and what is in live blocks. -/
noncomputable def references (w : Workspace) : List Ref :=
  w.roots ++ w.liveBlocks.flatMap w.children

theorem count_flatMap_filter (l : List Ref) (f : Ref → List Ref) (x : Ref) :
    (l.flatMap f).count x = ((l.filter fun a => x ∈ f a).flatMap f).count x := by
  induction l with
  | nil => rfl
  | cons a l ih =>
    by_cases hx : x ∈ f a
    · simp [hx, List.count_append, ih]
    · simp [hx, List.count_append, ih, List.count_eq_zero.mpr hx]

section
variable (hacyclic : ∀ r, w.Live r → ¬TransGen w.Link r r)
include hacyclic

theorem live_descends : Descends w w.Live w.height where
  closed hp hlink := hp.child hlink
  falls hp hlink := height_lt (hacyclic _ hp) hlink
  bounded _ := by
    classical
    exact (Finset.card_filter_le _ _).trans_eq (Finset.card_range _)

theorem mem_allBlocks_live : r ∈ w.allBlocks ↔ w.Live r :=
  (live_descends hacyclic).mem_allBlocks fun r hr => ⟨r, hr, .refl⟩

/-- A block is listed as often as it is referred to, if none of the blocks around it is listed
twice. -/
theorem count_allBlocks (hparents : ∀ p, w.Link p r → w.allBlocks.count p ≤ 1) :
    w.allBlocks.count r = w.references.count r := by
  have hplaces := (live_descends hacyclic).places fun r hr => ⟨r, hr, .refl⟩
  rw [← hplaces.count_eq, references, List.count_append, List.count_append, count_flatMap_filter,
    count_flatMap_filter w.liveBlocks]
  congr 1
  refine (List.Perm.flatMap_right _ ?_).count_eq r
  refine (List.perm_ext_iff_of_nodup ?_ ?_).mpr fun p => ?_
  · rw [List.nodup_iff_count_le_one]
    intro p
    by_cases hp : r ∈ w.children p
    · rw [List.count_filter (by simpa using hp)]
      exact hparents p (mem_children.mp hp)
    · rw [List.count_eq_zero.mpr (by simp [hp])]
      exact Nat.zero_le 1
  · exact (List.nodup_range.filter _).filter _
  · simp only [List.mem_filter, liveBlocks, List.mem_range, decide_eq_true_eq,
      mem_allBlocks_live hacyclic]
    refine and_congr_left fun hp => (and_iff_right ?_).symm
    exact lt_of_link (mem_children.mp hp)

/-- No block is listed twice exactly if every live block is referred to once. -/
theorem allBlocks_nodup_iff :
    w.allBlocks.Nodup ↔ ∀ r, w.Live r → w.references.count r = 1 := by
  have hdescends := live_descends hacyclic
  constructor
  · intro hnodup r hr
    have hle := List.nodup_iff_count_le_one.mp hnodup
    rw [← count_allBlocks hacyclic fun p _ => hle p]
    exact List.count_eq_one_of_mem hnodup ((mem_allBlocks_live hacyclic).mpr hr)
  · intro hall
    have hdead : ∀ r, ¬w.Live r → w.allBlocks.count r = 0 := fun r hr =>
      List.count_eq_zero.mpr fun hmem => hr ((mem_allBlocks_live hacyclic).mp hmem)
    -- From a block to the blocks around it the height goes up, which the number of blocks bounds.
    have hcount : ∀ r, w.allBlocks.count r ≤ 1 := by
      intro r
      by_cases hr : w.Live r
      · induction hk : w.depth - w.height r using Nat.strongRecOn generalizing r with
        | ind k ih =>
          rw [count_allBlocks hacyclic, hall r hr]
          intro p hlink
          by_cases hp : w.Live p
          · have hup := hdescends.falls hp hlink
            have hbound := hdescends.bounded hp
            exact ih _ (by omega) p hp rfl
          · exact (hdead p hp).trans_le (Nat.zero_le 1)
      · exact (hdead r hr).trans_le (Nat.zero_le 1)
    exact List.nodup_iff_count_le_one.mpr hcount

theorem faultsAlong_allBlocks (hids : ∀ r, w.Live r → (w.block r).id.isContainer = false) :
    w.faultsAlong [] [] w.allBlocks = [] ↔ (∀ r, w.Live r → w.references.count r = 1) ∧
      ∀ r r', w.Live r → w.Live r' → r ≠ r' →
        (w.block r).id.coincides (w.block r').id = false := by
  rw [faultsAlong_eq_nil, ← allBlocks_nodup_iff hacyclic]
  have hnone : ∀ r ∈ w.allBlocks, r ∉ ([] : List Ref) ∧ (w.block r).id.isIn [] = false :=
    fun r _ => ⟨List.not_mem_nil, rfl⟩
  rw [and_iff_right hnone]
  refine and_congr_right fun hnodup => ⟨fun hpairs r r' hr hr' hne => ?_, fun hall => ?_⟩
  · let Differ (r r' : Ref) : Prop := w.Live r → w.Live r' →
      (w.block r).id.coincides (w.block r').id = false
    have : Std.Symm Differ := ⟨fun r r' hdiffer hr' hr =>
      (Value.coincides_comm (hids r' hr') (hids r hr)).trans (hdiffer hr hr')⟩
    have hdiffer : w.allBlocks.Pairwise Differ := hpairs.imp fun h _ _ => h
    have hmem : ∀ {r}, w.Live r → r ∈ w.allBlocks := (mem_allBlocks_live hacyclic).mpr
    exact hdiffer.forall (hmem hr) (hmem hr') hne hr hr'
  · have hlive : ∀ {r}, r ∈ w.allBlocks → w.Live r := (mem_allBlocks_live hacyclic).mp
    exact hnodup.imp_of_mem fun hr hr' hne => hall _ _ (hlive hr) (hlive hr') hne

end

theorem variableFaults_eq_nil : w.variableFaults = [] ↔
    w.variableNames.Pairwise fun v v' => v.coincides v' = false := by
  rw [← Value.areDistinct_iff, variableFaults]
  cases Value.areDistinct w.variableNames <;> simp

/-- A workspace without cycles can be checked, and has no faults exactly if every live block is
referred to once, no two live blocks have one id and no two variables have one name. -/
theorem faultless_iff_placed_once (hacyclic : ∀ r, w.Live r → ¬TransGen w.Link r r)
    (hids : ∀ r, w.Live r → (w.block r).id.isContainer = false)
    (hnames : ∀ v ∈ w.variableNames, v.isContainer = false) :
    w.canCheck = true ∧ (w.faults = [] ↔
      (∀ r, w.Live r → w.references.count r = 1) ∧
      (∀ r r', w.Live r → w.Live r' → r ≠ r' →
        (w.block r).id.coincides (w.block r').id = false) ∧
      w.variableNames.Pairwise fun v v' => v.coincides v' = false) := by
  constructor
  · have hall : ∀ r ∈ w.allBlocks, (w.block r).id.isContainer = false := fun r hr =>
      hids r ((mem_allBlocks_live hacyclic).mp hr)
    simpa [canCheck] using ⟨hall, hnames⟩
  · rw [faults, List.append_eq_nil_iff, faultsAlong_allBlocks hacyclic hids, variableFaults_eq_nil,
      and_assoc]

/-- If every link leads to a later block, there are no cycles. -/
theorem acyclic_of_later (h : ∀ p < w.blocks.size, ∀ c ∈ w.children p, p < c) (r : Ref) :
    ¬TransGen w.Link r r := by
  have hlater : ∀ {r x}, TransGen w.Link r x → r < x := by
    intro r x hpath
    induction hpath with
    | single hlink => exact h _ (lt_of_link hlink) _ (mem_children.mpr hlink)
    | tail _ hlink ih => exact ih.trans (h _ (lt_of_link hlink) _ (mem_children.mpr hlink))
  exact fun hcycle => (hlater hcycle).false

/-- Two statements that are both followed by a third one. -/
def joined : Workspace where
  blocks := #[
    { type := "controls_setup", id := "entry", inputs := [("SETUP", some 1), ("LOOP", some 2)] },
    { type := "arduino_imu_begin", id := "first", next := some 3 },
    { type := "arduino_imu_begin", id := "second", next := some 3 },
    { type := "arduino_imu_begin", id := "third" }]
  roots := [0]
  variableNames := ["x", "y"]

theorem joined_placed_twice :
    (∀ r, joined.Live r → ¬TransGen joined.Link r r) ∧
      (∀ r, joined.Live r → (joined.block r).id.isContainer = false) ∧
      (∀ v ∈ joined.variableNames, v.isContainer = false) ∧
      joined.faults.map WorkspaceFault.message = ["Block 'third' has more than one parent"] ∧
      ¬((∀ r, joined.Live r → joined.references.count r = 1) ∧
        (∀ r r', joined.Live r → joined.Live r' → r ≠ r' →
          (joined.block r).id.coincides (joined.block r').id = false) ∧
        joined.variableNames.Pairwise fun v v' => v.coincides v' = false) := by
  have hacyclic : ∀ r, joined.Live r → ¬TransGen joined.Link r r := fun r _ =>
    acyclic_of_later (by decide) r
  have hids : ∀ r, joined.Live r → (joined.block r).id.isContainer = false := by
    intro r _
    rcases r with _ | _ | _ | _ | r <;> rfl
  have hnames : ∀ v ∈ joined.variableNames, v.isContainer = false := by
    simp [joined, Value.isContainer]
  have hfaults : joined.faults.map WorkspaceFault.message =
      ["Block 'third' has more than one parent"] := by
    rw [faults, allBlocks, drain_eq_listing]
    rfl
  refine ⟨hacyclic, hids, hnames, hfaults, fun hall => ?_⟩
  rw [(faultless_iff_placed_once hacyclic hids hnames).2.mpr hall] at hfaults
  cases hfaults

end Workspace

end BlockSketch
