import Mathlib.Data.Fintype.Card
import Mathlib.Data.Set.Finite.List
import Mathlib.Logic.Relation

/-!
# Ancestry

Facts about a relation read as "is a parent of". Blocks of a workspace and records of a document are
both related in this way: by the links in their sockets and to their successors. The relation is a
forest if it is acyclic and nothing has two parents.
-/

namespace BlockSketch.Ancestry

open Relation (TransGen ReflTransGen)

variable {α : Type*} {r r' : α → α → Prop}

def Acyclic (r : α → α → Prop) : Prop :=
  ∀ a, ¬TransGen r a a

def OneParent (r : α → α → Prop) : Prop :=
  ∀ a b c, r a c → r b c → a = b

theorem Acyclic.mono (h : Acyclic r) (hsub : ∀ a b, r' a b → r a b) : Acyclic r' :=
  fun a ha => h a (ha.lift id hsub)

theorem Acyclic.irrefl (h : Acyclic r) (hab : r a b) : a ≠ b := by
  rintro rfl
  exact h a (.single hab)

theorem path_of_extra (hsub : ∀ x y, r' x y → r x y ∨ x = a ∧ y = b) (h : TransGen r' x y) :
    TransGen r x y ∨ ReflTransGen r x a ∧ ReflTransGen r b y := by
  induction h with
  | single hxy =>
    rcases hsub _ _ hxy with hxy | ⟨rfl, rfl⟩
    · exact .inl (.single hxy)
    · exact .inr ⟨.refl, .refl⟩
  | tail _ hyz ih =>
    rcases hsub _ _ hyz with hyz | ⟨rfl, rfl⟩
    · rcases ih with ih | ⟨hxa, hby⟩
      · exact .inl (ih.tail hyz)
      · exact .inr ⟨hxa, hby.tail hyz⟩
    · rcases ih with ih | ⟨hxa, -⟩
      · exact .inr ⟨ih.to_reflTransGen, .refl⟩
      · exact .inr ⟨hxa, .refl⟩

theorem Acyclic.extra (h : Acyclic r) (hba : ¬ReflTransGen r b a)
    (hsub : ∀ x y, r' x y → r x y ∨ x = a ∧ y = b) : Acyclic r' := by
  intro x hx
  rcases path_of_extra hsub hx with hx | ⟨hxa, hbx⟩
  · exact h x hx
  · exact hba (hbx.trans hxa)

theorem OneParent.comparable (h : OneParent r) (hac : ReflTransGen r a c)
    (hbc : ReflTransGen r b c) : ReflTransGen r a b ∨ ReflTransGen r b a := by
  induction hac with
  | refl => exact .inr hbc
  | tail hap hpc ih =>
    rcases hbc.cases_tail with rfl | ⟨q, hbq, hqc⟩
    · exact .inl (hap.tail hpc)
    · exact ih (h _ _ _ hqc hpc ▸ hbq)

theorem eq_of_no_parent (hb : ∀ p, ¬r p b) (hab : ReflTransGen r a b) : a = b := by
  rcases hab.cases_tail with rfl | ⟨p, -, hpb⟩
  · rfl
  · exact (hb p hpb).elim

/-- What comes from something without a parent lies on no cycle: going up from it always takes the
same way. -/
theorem OneParent.acyclic_from (h : OneParent r) (hroot : ∀ p, ¬r p root)
    (hx : ReflTransGen r root x) : ¬TransGen r x x := by
  induction hx with
  | refl =>
    intro hcycle
    obtain ⟨p, -, hp⟩ := TransGen.tail'_iff.mp hcycle
    exact hroot p hp
  | tail _ hyx ih =>
    intro hcycle
    obtain ⟨p, hxp, hpx⟩ := TransGen.tail'_iff.mp hcycle
    obtain rfl := h _ _ _ hpx hyx
    exact ih (TransGen.head' hyx hxp)

theorem Acyclic.wellFounded (h : Acyclic r) (nodes : List α) :
    WellFounded fun a b : { a // a ∈ nodes } => TransGen r a b := by
  have : Finite { a // a ∈ nodes } := nodes.finite_toSet.to_subtype
  have : IsTrans { a // a ∈ nodes } fun a b => TransGen r a b := ⟨fun _ _ _ => TransGen.trans⟩
  have : Std.Irrefl fun a b : { a // a ∈ nodes } => TransGen r a b := ⟨fun a => h a⟩
  exact Finite.wellFounded_of_trans_of_irrefl _

/-- Going up from a member of a finite acyclic relation ends at something without a parent. -/
theorem Acyclic.exists_root (h : Acyclic r) (nodes : List α) (hnodes : ∀ a b, r a b → a ∈ nodes)
    (hx : x ∈ nodes) : ∃ root ∈ nodes, (∀ p, ¬r p root) ∧ ReflTransGen r root x := by
  suffices hall : ∀ y : { a // a ∈ nodes },
      ∃ root ∈ nodes, (∀ p, ¬r p root) ∧ ReflTransGen r root y from hall ⟨x, hx⟩
  intro y
  induction y using (h.wellFounded nodes).induction with
  | h y ih =>
    by_cases hy : ∃ p, r p y
    · obtain ⟨p, hpy⟩ := hy
      obtain ⟨root, hroot, hno, hp⟩ := ih ⟨p, hnodes p y hpy⟩ (.single hpy)
      exact ⟨root, hroot, hno, hp.tail hpy⟩
    · exact ⟨y, y.2, fun p hp => hy ⟨p, hp⟩, .refl⟩

end BlockSketch.Ancestry
