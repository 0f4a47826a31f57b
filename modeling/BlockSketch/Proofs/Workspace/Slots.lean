import BlockSketch.Proofs.Ancestry
import BlockSketch.Workspace.Basic

/-!
# Slots

The places that hold blocks. Which slot holds which block is a relation, and a forest is such a
relation in which every block has one place, every place other than the list of roots holds one
block, and no block is its own ancestor. Edits of a workspace take blocks out of slots and put blocks
into empty ones: `IsForest.mono` and `IsForest.put` are all that is needed of them.
-/

namespace BlockSketch

open Ancestry
open Relation (ReflTransGen TransGen)

inductive Slot where
  | root
  | next (parent : Ref)
  | input (parent : Ref) (socket : Value)

def Slot.parent? : Slot → Option Ref
  | .root => none
  | .next p => some p
  | .input p _ => some p

namespace Slot

variable {H H' : Slot → Ref → Prop}

/-- A block is the parent of what its slots hold. -/
def Link (H : Slot → Ref → Prop) (p c : Ref) : Prop :=
  ∃ s, s.parent? = some p ∧ H s c

/-- A root leads to the block. -/
def Live (H : Slot → Ref → Prop) (r : Ref) : Prop :=
  ∃ root, H .root root ∧ ReflTransGen (Link H) root r

structure IsForest (H : Slot → Ref → Prop) : Prop where
  unique : H s c → H s' c → s = s'
  single : s ≠ .root → H s c → H s c' → c = c'
  acyclic : Acyclic (Link H)

theorem Link.mono (hsub : ∀ s c, H' s c → H s c) (h : Link H' p c) : Link H p c := by
  obtain ⟨s, hs, hc⟩ := h
  exact ⟨s, hs, hsub s c hc⟩

theorem path_mono (hsub : ∀ s c, H' s c → H s c) (h : ReflTransGen (Link H') a b) :
    ReflTransGen (Link H) a b :=
  h.lift (fun x => x) fun _ _ => Link.mono hsub

theorem Live.root (h : H .root r) : Live H r :=
  ⟨r, h, .refl⟩

theorem Live.child (h : Live H p) (hlink : Link H p c) : Live H c := by
  obtain ⟨root, hroot, hpath⟩ := h
  exact ⟨root, hroot, hpath.tail hlink⟩

theorem Live.trans (h : Live H r) (hpath : ReflTransGen (Link H) r x) : Live H x := by
  obtain ⟨root, hroot, hpath'⟩ := h
  exact ⟨root, hroot, hpath'.trans hpath⟩

/-- If every block that got a new place was live, nothing new is live. -/
theorem Live.of_moved (hmoved : ∀ s c, H' s c → H s c ∨ Live H c) (h : Live H' r) : Live H r := by
  obtain ⟨root, hroot, hpath⟩ := h
  induction hpath with
  | refl => exact (hmoved _ _ hroot).elim .root id
  | tail _ hlink ih =>
    obtain ⟨s, hs, hc⟩ := hlink
    rcases hmoved s _ hc with hc | hc
    · exact ih.child ⟨s, hs, hc⟩
    · exact hc

theorem Live.cases (h : Live H r) : H .root r ∨ ∃ p, Live H p ∧ Link H p r := by
  obtain ⟨root, hroot, hpath⟩ := h
  rcases hpath.cases_tail with rfl | ⟨p, hp, hlink⟩
  · exact .inl hroot
  · exact .inr ⟨p, ⟨root, hroot, hp⟩, hlink⟩

theorem Live.held (h : Live H r) : ∃ s, H s r := by
  rcases h.cases with h | ⟨_, -, s, -, h⟩
  · exact ⟨_, h⟩
  · exact ⟨s, h⟩

/-- A block stays live if only its own slots lose what they hold. -/
theorem Live.of_kept (hacyclic : Acyclic (Link H))
    (hkept : ∀ s c, H s c → s.parent? ≠ some r → H' s c) (h : Live H r) : Live H' r := by
  obtain ⟨root, hroot, hpath⟩ := h
  suffices hall : ∀ x, ReflTransGen (Link H) root x → (ReflTransGen (Link H) r x → x = r) →
      ReflTransGen (Link H') root x from
    ⟨root, hkept _ _ hroot (by simp [parent?]), hall r hpath fun _ => rfl⟩
  intro x hx hup
  induction hx with
  | refl => exact .refl
  | @tail y z _ hlink ih =>
    have hny : ¬ReflTransGen (Link H) r y := by
      intro hry
      obtain rfl := hup (hry.tail hlink)
      exact hacyclic _ (TransGen.tail' hry hlink)
    refine (ih fun hry => (hny hry).elim).tail ?_
    obtain ⟨s, hs, hc⟩ := hlink
    refine ⟨s, hs, hkept s _ hc fun hr => hny ?_⟩
    rw [Option.some.inj (hr.symm.trans hs)]

namespace IsForest

theorem oneParent (h : IsForest H) : OneParent (Link H) := by
  rintro a b c ⟨s, hs, hc⟩ ⟨s', hs', hc'⟩
  obtain rfl := h.unique hc hc'
  exact Option.some.inj (hs.symm.trans hs')

theorem no_parent (h : IsForest H) (hroot : H .root r) : ∀ p, ¬Link H p r := by
  rintro p ⟨s, hs, hr⟩
  obtain rfl := h.unique hr hroot
  simp [parent?] at hs

theorem not_above_root (h : IsForest H) (hroot : H .root p) (hne : r ≠ p) :
    ¬ReflTransGen (Link H) r p := by
  intro hpath
  rcases hpath.cases_tail with heq | ⟨q, -, hlink⟩
  · exact hne heq.symm
  · exact h.no_parent hroot q hlink

theorem mono (h : IsForest H) (hsub : ∀ s c, H' s c → H s c) : IsForest H' where
  unique hc hc' := h.unique (hsub _ _ hc) (hsub _ _ hc')
  single hs hc hc' := h.single hs (hsub _ _ hc) (hsub _ _ hc')
  acyclic := h.acyclic.mono fun _ _ => Link.mono hsub

/-- Putting a block that has no place into an empty slot, not one below itself. -/
theorem put (h : IsForest H) (hfree : ∀ s, ¬H s c) (hempty : s ≠ .root → ∀ c', ¬H s c')
    (hup : ∀ p, s.parent? = some p → ¬ReflTransGen (Link H) c p)
    (hsub : ∀ s' c', H' s' c' → H s' c' ∨ s' = s ∧ c' = c) : IsForest H' where
  unique {s₁ x s₂} hc hc' := by
    rcases hsub _ _ hc with hc | ⟨rfl, rfl⟩
    · rcases hsub _ _ hc' with hc' | ⟨rfl, rfl⟩
      · exact h.unique hc hc'
      · exact (hfree _ hc).elim
    · rcases hsub _ _ hc' with hc' | ⟨rfl, -⟩
      · exact (hfree _ hc').elim
      · rfl
  single {s' x y} hs hc hc' := by
    rcases hsub _ _ hc with hc | ⟨rfl, rfl⟩
    · rcases hsub _ _ hc' with hc' | ⟨rfl, rfl⟩
      · exact h.single hs hc hc'
      · exact (hempty hs _ hc).elim
    · rcases hsub _ _ hc' with hc' | ⟨-, rfl⟩
      · exact (hempty hs _ hc').elim
      · rfl
  acyclic := by
    have hlink : ∀ x y, Link H' x y → Link H x y ∨ s.parent? = some x ∧ y = c := by
      rintro x y ⟨s', hs', hy⟩
      rcases hsub _ _ hy with hy | ⟨rfl, rfl⟩
      · exact .inl ⟨s', hs', hy⟩
      · exact .inr ⟨hs', rfl⟩
    cases hp : s.parent? with
    | none =>
      refine h.acyclic.mono fun x y hxy => (hlink x y hxy).resolve_right fun hnew => ?_
      simp [hp] at hnew
    | some p =>
      refine h.acyclic.extra (hup p hp) fun x y hxy => (hlink x y hxy).imp_right fun hnew => ?_
      exact ⟨(Option.some.inj (hp.symm.trans hnew.1)).symm, hnew.2⟩

section

variable {s : Slot} {p r : Ref} (h : IsForest H) (hs : s.parent? = some p) (hfree : ∀ s, ¬H s r)
  (hup : ¬ReflTransGen (Link H) r p)
  (hH' : ∀ s' c, H' s' c ↔ s' = s ∧ c = r ∨ s' ≠ s ∧ H s' c)
include h hs hfree hup hH'

/-- Putting a block into a slot in place of what is there. -/
theorem displace : IsForest H' := by
  let without : Slot → Ref → Prop := fun s' c => s' ≠ s ∧ H s' c
  have hwithout : IsForest without := h.mono fun _ _ hc => hc.2
  refine hwithout.put (fun _ hc => hfree _ hc.2) (fun _ _ hc => hc.1 rfl) (fun q hq => ?_)
    fun s' c hc => ((hH' s' c).mp hc).symm
  obtain rfl := Option.some.inj (hs.symm.trans hq)
  exact fun hpath => hup (path_mono (fun _ _ hc => hc.2) hpath)

omit hs hup in
theorem displaced_free (hd : H s d) : ∀ s', ¬H' s' d := by
  intro s' hc
  rcases (hH' s' d).mp hc with ⟨-, rfl⟩ | ⟨hne, hc⟩
  · exact hfree s hd
  · exact hne (h.unique hc hd)

theorem displaced_up (hd : H s d) (he : ReflTransGen (Link H') r e) :
    ¬ReflTransGen (Link H') d e := by
  have h' := displace h hs hfree hup hH'
  have hfree' := displaced_free h hfree hH' hd
  have hne : d ≠ r := by
    rintro rfl
    exact hfree s hd
  have hlink : ∀ x y, Link H' x y → Link H x y ∨ x = p ∧ y = r := by
    rintro x y ⟨s', hs', hy⟩
    rcases (hH' s' y).mp hy with ⟨rfl, rfl⟩ | ⟨-, hy⟩
    · exact .inr ⟨(Option.some.inj (hs.symm.trans hs')).symm, rfl⟩
    · exact .inl ⟨s', hs', hy⟩
  intro hde
  rcases h'.oneParent.comparable hde he with hdr | hrd
  · -- The way to `r` ends with the new link, so there was one from `d` back to its parent.
    obtain ⟨q, hdq, s', hs', hr⟩ := hdr.cases_tail.resolve_left (Ne.symm hne)
    obtain rfl : q = p := by
      rcases (hH' s' r).mp hr with ⟨rfl, -⟩ | ⟨-, hr⟩
      · exact Option.some.inj (hs'.symm.trans hs)
      · exact (hfree _ hr).elim
    have hback : ReflTransGen (Link H) d q := by
      rcases Relation.reflTransGen_iff_eq_or_transGen.mp hdq with rfl | hdq
      · exact .refl
      · rcases path_of_extra hlink hdq with hdq | ⟨hdq, -⟩
        · exact hdq.to_reflTransGen
        · exact hdq
    exact h.acyclic q (TransGen.head' ⟨s, hs, hd⟩ hback)
  · exact hne (eq_of_no_parent (fun _ ⟨_, _, hc⟩ => hfree' _ hc) hrd).symm

end

end IsForest

end Slot

end BlockSketch
