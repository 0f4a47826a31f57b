import BlockSketch.Proofs.Workspace.Editing

/-!
# What a deletion takes along

A deleted block takes along all that is nested in its sockets, and its successors close the gap. The
blocks of a list are deleted one after the other, each with what is still nested in it by then; what
is left does not depend on that order, as closing a gap nests nothing anew.
-/

namespace BlockSketch

open Ancestry
open Relation (ReflTransGen TransGen)

-- ---------------------------------------------------------------------------
-- Nested blocks
-- ---------------------------------------------------------------------------

namespace Slot

variable {H H' : Slot → Ref → Prop}

def Inside (H : Slot → Ref → Prop) (p x : Ref) : Prop :=
  ∃ k c, H (.input p k) c ∧ ReflTransGen (Link H) c x

/-- The block is another one or hangs off a socket of it. Its successors do not. -/
def Nested (H : Slot → Ref → Prop) (p x : Ref) : Prop :=
  x = p ∨ Inside H p x

theorem Nested.self (p : Ref) : Nested H p p :=
  .inl rfl

theorem Nested.path (h : Nested H p x) : ReflTransGen (Link H) p x := by
  rcases h with rfl | ⟨k, c, hc, hpath⟩
  · exact .refl
  · exact .head ⟨.input p k, rfl, hc⟩ hpath

theorem Nested.trans (h : Nested H p q) (h' : Nested H q x) : Nested H p x := by
  rcases h with rfl | ⟨k, c, hc, hpath⟩
  · exact h'
  · exact .inr ⟨k, c, hc, hpath.trans h'.path⟩

theorem Nested.child (h : Nested H p a) (hlink : Link H a c) (hnext : ¬H (.next p) c) :
    Nested H p c := by
  rcases h with rfl | ⟨k, b, hb, hpath⟩
  · obtain ⟨s, hs, hc⟩ := hlink
    cases s with
    | root => cases hs
    | next q =>
      cases hs
      exact (hnext hc).elim
    | input q k =>
      cases hs
      exact .inr ⟨k, c, hc, .refl⟩
  · exact .inr ⟨k, b, hb, hpath.tail hlink⟩

theorem IsForest.live_of_path (h : IsForest H) (hpath : ReflTransGen (Link H) p x)
    (hx : Live H x) : Live H p := by
  obtain ⟨root, hroot, hx⟩ := hx
  rcases h.oneParent.comparable hpath hx with hp | hp
  · exact eq_of_no_parent (h.no_parent hroot) hp ▸ .root hroot
  · exact ⟨root, hroot, hp⟩

section

variable (h : IsForest H)
include h

theorem Nested.root (hroot : H .root x) (hx : Nested H p x) : x = p :=
  (eq_of_no_parent (h.no_parent hroot) hx.path).symm

theorem Nested.parent (hx : Nested H p x) (hne : x ≠ p) (hlink : Link H a x) :
    Nested H p a ∧ ¬H (.next p) x := by
  obtain ⟨k, c, hc, hpath⟩ := hx.resolve_left hne
  rcases hpath.cases_tail with rfl | ⟨q, hcq, hqx⟩
  · obtain rfl : p = a := h.oneParent _ _ _ ⟨.input p k, rfl, hc⟩ hlink
    exact ⟨.self p, fun hnext => nomatch h.unique hnext hc⟩
  · obtain rfl := h.oneParent _ _ _ hqx hlink
    refine ⟨.inr ⟨k, c, hc, hcq⟩, fun hnext => ?_⟩
    obtain rfl : p = q := h.oneParent _ _ _ ⟨.next p, rfl, hnext⟩ hlink
    exact h.acyclic p (TransGen.head' ⟨.input p k, rfl, hc⟩ hcq)

theorem next_not_nested (hnext : H (.next p) x) : ¬Nested H p x := by
  intro hx
  by_cases hne : x = p
  · subst hne
    exact h.acyclic x (.single ⟨.next x, rfl, hnext⟩)
  · exact (hx.parent h hne ⟨.next p, rfl, hnext⟩).2 hnext

end

-- ---------------------------------------------------------------------------
-- Closing a gap
-- ---------------------------------------------------------------------------

/-- A block has left its place to its successor. -/
def Closes (H H' : Slot → Ref → Prop) (r : Ref) : Prop :=
  ∀ s c, H' s c ↔ s ≠ .next r ∧ (H s c ∧ c ≠ r ∨ H s r ∧ H (.next r) c)

section

variable {r : Ref} (h : IsForest H) (hcloses : Closes H H' r)
include hcloses

/-- A link across the gap was a way through the block. -/
theorem Closes.path_of_holds (hc : H' s c) : ∃ d, H s d ∧ ReflTransGen (Link H) d c := by
  obtain ⟨-, ⟨hc, -⟩ | ⟨hr, hnext⟩⟩ := (hcloses s c).mp hc
  · exact ⟨c, hc, .refl⟩
  · exact ⟨r, hr, .single ⟨.next r, rfl, hnext⟩⟩

theorem Closes.path (hpath : ReflTransGen (Link H') a b) : ReflTransGen (Link H) a b := by
  induction hpath with
  | refl => exact .refl
  | tail _ hlink ih =>
    obtain ⟨s, hs, hc⟩ := hlink
    obtain ⟨d, hd, hpath⟩ := hcloses.path_of_holds hc
    exact (ih.tail ⟨s, hs, hd⟩).trans hpath

include h

/-- What is passed on along the links that are left is passed on from a slot to all that the slot led
to, other than the block with what is nested in it. -/
theorem Closes.carry {Q : Ref → Prop} (hstep : ∀ a c, Q a → Link H' a c → Q c) (hs : s ≠ .next r)
    (hslot : ∀ c, H' s c → Q c) (hc : H s c) (hpath : ReflTransGen (Link H) c x) :
    (¬Nested H r x → Q x) ∧ (x = r → ∀ n, H (.next r) n → Q n) := by
  induction hpath with
  | refl =>
    refine ⟨fun hx => hslot c ((hcloses s c).mpr ⟨hs, .inl ⟨hc, fun heq => hx (.inl heq)⟩⟩), ?_⟩
    rintro rfl n hn
    exact hslot n ((hcloses s n).mpr ⟨hs, .inr ⟨hc, hn⟩⟩)
  | @tail a x _ hlink ih =>
    obtain ⟨s', hs', hx⟩ := id hlink
    have hloop : s' = .next r → a = r := by
      rintro rfl
      exact (Option.some.inj hs').symm
    refine ⟨fun hnested => ?_, ?_⟩
    · by_cases ha : a = r
      · subst ha
        have hnext : H (.next a) x := by_contra fun hnot => hnested ((Nested.self a).child hlink hnot)
        exact ih.2 rfl x hnext
      · have hQ := ih.1 fun hnest => hnested (hnest.child hlink fun hnext =>
          ha (h.oneParent _ _ _ hlink ⟨.next r, rfl, hnext⟩))
        refine hstep a x hQ ⟨s', hs', (hcloses s' x).mpr ⟨fun heq => ha (hloop heq), .inl ⟨hx, ?_⟩⟩⟩
        exact fun heq => hnested (.inl heq)
    · rintro rfl n hn
      have hQ := ih.1 fun hnest => h.acyclic x (TransGen.tail' hnest.path hlink)
      refine hstep a n hQ ⟨s', hs', (hcloses s' n).mpr ⟨fun heq => ?_, .inr ⟨hx, hn⟩⟩⟩
      exact h.acyclic.irrefl hlink (hloop heq)

/-- All is left but the block with what is nested in it. -/
theorem Closes.live_iff : Live H' x ↔ Live H x ∧ ¬Nested H r x := by
  constructor
  · rintro ⟨root, hroot, hpath⟩
    induction hpath with
    | refl =>
      obtain ⟨-, ⟨hroot, hne⟩ | ⟨hr, hnext⟩⟩ := (hcloses .root root).mp hroot
      · exact ⟨.root hroot, fun hx => hne (hx.root h hroot)⟩
      · exact ⟨(Live.root hr).child ⟨.next r, rfl, hnext⟩, next_not_nested h hnext⟩
    | tail _ hlink ih =>
      obtain ⟨s, hs, hx⟩ := hlink
      obtain ⟨-, ⟨hx, hne⟩ | ⟨hr, hnext⟩⟩ := (hcloses s _).mp hx
      · exact ⟨ih.1.child ⟨s, hs, hx⟩, fun hnested => ih.2 (hnested.parent h hne ⟨s, hs, hx⟩).1⟩
      · exact ⟨(ih.1.child ⟨s, hs, hr⟩).child ⟨.next r, rfl, hnext⟩, next_not_nested h hnext⟩
  · rintro ⟨⟨root, hroot, hpath⟩, hnested⟩
    exact (hcloses.carry h (fun a c ha hlink => Live.child ha hlink) (by simp) (fun c => Live.root)
      hroot hpath).1 hnested

theorem Closes.nested_iff (hx : ¬Nested H r x) : Nested H' q x ↔ Nested H q x := by
  refine or_congr_right ⟨?_, ?_⟩
  · rintro ⟨k, c, hc, hpath⟩
    obtain ⟨d, hd, hdc⟩ := hcloses.path_of_holds hc
    exact ⟨k, d, hd, hdc.trans (hcloses.path hpath)⟩
  · rintro ⟨k, c, hc, hpath⟩
    refine (hcloses.carry h (Q := Inside H' q) ?_ (by simp) (fun c hc => ⟨k, c, hc, .refl⟩) hc
      hpath).1 hx
    rintro a y ⟨k', c', hc', hpath'⟩ hlink
    exact ⟨k', c', hc', hpath'.tail hlink⟩

end

end Slot

-- ---------------------------------------------------------------------------
-- One block after the other
-- ---------------------------------------------------------------------------

namespace Workspace

variable {w w' : Workspace} {registry : Registry}

abbrev Inside (w : Workspace) : Ref → Ref → Prop := Slot.Inside w.Holds

abbrev Nested (w : Workspace) : Ref → Ref → Prop := Slot.Nested w.Holds

theorem deleteRef_closes (h : Invariant registry w) (hr : w.Live r)
    (hdelete : w.deleteRef r = .ok (removed, w')) : Slot.Closes w.Holds w'.Holds r :=
  holds_deleteRef h hr hdelete

theorem deleteRef_deletable (hdelete : w.deleteRef r = .ok (removed, w')) :
    (w.block r).isDeletable = true := by
  simp only [deleteRef] at hdelete
  split at hdelete
  · assumption
  · cases hdelete

theorem deleteRef_error (hdelete : w.deleteRef r = .error e) :
    (w.block r).isDeletable = false ∧ e = .protectedBlock (w.block r).id := by
  simp only [deleteRef] at hdelete
  split at hdelete
  · cases hdelete
  · rename_i hkept
    exact ⟨by simpa using hkept, (Except.error.inj hdelete).symm⟩

/-- What is left when blocks are deleted: all that is not nested in one of them. A protected block
among them was nested in a deletable one. -/
structure Spares (w : Workspace) (refs : List Ref) (w' : Workspace) : Prop where
  content : SameContent w w'
  live : w'.Live x ↔ w.Live x ∧ ∀ q ∈ refs, ¬w.Nested q x
  deletable : q ∈ refs → w.Live q →
    ∃ p ∈ refs, w.Live p ∧ (w.block p).isDeletable = true ∧ w.Nested p q

theorem Spares.nil (w : Workspace) : Spares w [] w :=
  ⟨.refl w, by simp, by simp⟩

theorem Spares.cons (h : Forest w) (hr : w.Live r) (hdeletable : (w.block r).isDeletable = true)
    (hcontent : SameContent w w₁) (hcloses : Slot.Closes w.Holds w₁.Holds r)
    (hrest : Spares w₁ refs w') : Spares w (r :: refs) w' where
  content := hcontent.trans hrest.content
  live {x} := by
    have hlive : w₁.Live x ↔ w.Live x ∧ ¬w.Nested r x := hcloses.live_iff h.slots
    rw [hrest.live, hlive, List.forall_mem_cons, and_assoc]
    refine and_congr_right fun _ => and_congr_right fun hx => ?_
    exact forall₂_congr fun q _ => not_congr (hcloses.nested_iff h.slots hx)
  deletable {q} hq hlive := by
    by_cases hnested : w.Nested r q
    · exact ⟨r, by simp, hr, hdeletable, hnested⟩
    · have hne : q ≠ r := fun heq => hnested (.inl heq)
      obtain ⟨p, hp, hplive, hpdel, hpq⟩ := hrest.deletable ((List.mem_cons.mp hq).resolve_left hne)
        ((hcloses.live_iff h.slots).mpr ⟨hlive, hnested⟩)
      refine ⟨p, by simp [hp], ((hcloses.live_iff h.slots).mp hplive).1, ?_,
        (hcloses.nested_iff h.slots hnested).mp hpq⟩
      rwa [Block.isDeletable, hcontent.deletable] at hpdel

theorem Spares.skip (h : Forest w) (hr : ¬w.Live r) (hrest : Spares w refs w') :
    Spares w (r :: refs) w' where
  content := hrest.content
  live {x} := by
    rw [hrest.live, List.forall_mem_cons]
    refine and_congr_right fun hx => (and_iff_right fun hnested => hr ?_).symm
    exact h.slots.live_of_path hnested.path hx
  deletable {q} hq hlive := by
    have hne : q ≠ r := fun heq => hr (heq ▸ hlive)
    obtain ⟨p, hp, hrest⟩ := hrest.deletable ((List.mem_cons.mp hq).resolve_left hne) hlive
    exact ⟨p, by simp [hp], hrest⟩

theorem deleteEach_spares (h : Invariant registry w) (hregular : registry.Regular)
    (hdone : w.deleteEach refs = (.ok u, w')) : Spares w refs w' := by
  induction refs generalizing w with
  | nil =>
    cases hdone
    exact .nil _
  | cons r refs ih =>
    unfold deleteEach at hdone
    split at hdone
    · rename_i hfind
      obtain ⟨hr, -⟩ := h.findBlock?_ok.mp hfind
      split at hdone
      · rename_i removed w₁ hdelete
        obtain ⟨hrewires, -⟩ := deleteRef_ok h hr hregular hdelete
        exact .cons h.forest hr (deleteRef_deletable hdelete) hrewires.content
          (deleteRef_closes h hr hdelete) (ih (hrewires.invariant h) hdone)
      · cases hdone
    · rename_i hfind
      exact .skip h.forest (fun hr => hfind (h.findBlock?_ok.mpr ⟨hr, rfl⟩)) (ih h hdone)

/-- Deleting blocks stops at the first one that is protected and still there. -/
theorem deleteEach_stops (hstop : w.deleteEach refs = (.error e, w')) :
    ∃ before r after, refs = before ++ r :: after ∧ w.deleteEach before = (.ok (), w') ∧
      w'.findBlock? (w'.block r).id = some r ∧ (w'.block r).isDeletable = false ∧
      e = .protectedBlock (w'.block r).id := by
  induction refs generalizing w with
  | nil => cases hstop
  | cons r refs ih =>
    unfold deleteEach at hstop
    split at hstop
    · rename_i hfind
      split at hstop
      · rename_i removed w₁ hdelete
        obtain ⟨before, p, after, rfl, hbefore, hrest⟩ := ih hstop
        refine ⟨r :: before, p, after, rfl, ?_, hrest⟩
        rw [deleteEach, if_pos hfind, hdelete]
        exact hbefore
      · rename_i hdelete
        cases hstop
        exact ⟨[], r, refs, rfl, rfl, hfind, deleteRef_error hdelete⟩
    · rename_i hfind
      obtain ⟨before, p, after, rfl, hbefore, hrest⟩ := ih hstop
      refine ⟨r :: before, p, after, rfl, ?_, hrest⟩
      rw [deleteEach, if_neg hfind]
      exact hbefore

-- ---------------------------------------------------------------------------
-- The users of a variable
-- ---------------------------------------------------------------------------

def users (registry : Registry) (w : Workspace) (name : Value) : List Ref :=
  w.allBlocks.filter fun r => usesVariable registry name (w.block r)

theorem mem_users (h : Forest w) :
    r ∈ w.users registry name ↔ w.Live r ∧ usesVariable registry name (w.block r) = true := by
  rw [users, List.mem_filter, h.mem_allBlocks]

theorem usersOf_eq (h : Invariant registry w) (hregular : registry.Regular) (name : Value) :
    w.usersOf registry name = .ok (w.users registry name) := by
  have hkeys : (w.allBlocks.any fun r => (w.block r).type.isContainer) = false := by
    rw [List.any_eq_false]
    intro r hr
    obtain ⟨t, ht⟩ := h.linked.known (h.forest.live_lt (h.forest.mem_allBlocks.mp hr))
    obtain ⟨-, s, hs⟩ := hregular.typeId ht
    simp [hs, Value.isContainer]
  simp only [usersOf, hkeys, Bool.false_eq_true, if_false]
  rfl

/-- How the deletion of a variable ends: there is none of that name, all its users could be deleted
and it goes too, or one of them is protected and the deletion stops there. -/
theorem deleteVariable_cases (h : Invariant registry w) (hregular : registry.Regular)
    (name : Value) :
    w.deleteVariable registry name = (.ok false, w) ∨
      (∃ w₁, Spares w (w.users registry name) w₁ ∧
        w.deleteVariable registry name = (.ok true, (w₁.removeVariable name).2)) ∨
      ∃ before r after w₁, w.users registry name = before ++ r :: after ∧
        w.deleteEach before = (.ok (), w₁) ∧ Spares w before w₁ ∧ w₁.Live r ∧
        (w.block r).isDeletable = false ∧
        w.deleteVariable registry name = (.error (.protectedBlock (w.block r).id), w₁) := by
  unfold Workspace.deleteVariable
  rw [usersOf_eq h hregular]
  split
  · exact .inl rfl
  · refine .inr ?_
    cases hdelete : w.deleteEach (w.users registry name) with
    | mk result w₁ =>
      simp only [hdelete]
      cases result with
      | ok u => exact .inl ⟨w₁, deleteEach_spares h hregular hdelete, rfl⟩
      | error e =>
        obtain ⟨before, r, after, husers, hbefore, hfind, hkept, rfl⟩ := deleteEach_stops hdelete
        have hspares := deleteEach_spares h hregular hbefore
        have hinv := (deleteEach_spec h hregular before).inv
        rw [hbefore] at hinv
        rw [hspares.content.id] at hfind ⊢
        rw [Block.isDeletable, hspares.content.deletable] at hkept
        exact .inr ⟨before, r, after, w₁, husers, hbefore, hspares,
          (hinv.findBlock?_ok.mp hfind).1, hkept, rfl⟩

end Workspace

end BlockSketch
