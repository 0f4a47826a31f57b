import Mathlib.Data.List.Basic
import Mathlib.Data.List.Induction
import Mathlib.Data.List.Nodup

/-!
# First occurrences

Leaving out repetitions keeps the first occurrence of everything, in the order in which these come.
-/

namespace BlockSketch

variable [BEq α] [LawfulBEq α]

theorem eraseDups_concat (as : List α) (a : α) :
    (as ++ [a]).eraseDups = if a ∈ as then as.eraseDups else as.eraseDups ++ [a] := by
  rw [List.eraseDups_append]
  split
  · rename_i hmem
    simp [List.removeAll, hmem]
  · rename_i hnew
    simp [List.removeAll, hnew, List.eraseDups_cons]

/-- What is kept stands in the order of its first occurrences. -/
theorem eraseDups_inOrder (as : List α) :
    as.eraseDups.Pairwise fun a b => as.idxOf a < as.idxOf b := by
  induction as using List.reverseRecOn with
  | nil => exact .nil
  | append_singleton as a ih =>
    have hkept : ∀ b ∈ as.eraseDups, (as ++ [a]).idxOf b = as.idxOf b := fun b hb =>
      List.idxOf_append_of_mem (List.mem_eraseDups.mp hb)
    have hinit : as.eraseDups.Pairwise fun b c => (as ++ [a]).idxOf b < (as ++ [a]).idxOf c :=
      ih.imp_of_mem fun hb hc hlt => by rwa [hkept _ hb, hkept _ hc]
    rw [eraseDups_concat]
    split
    · exact hinit
    · rename_i hnew
      refine List.pairwise_append.mpr ⟨hinit, List.pairwise_singleton _ _, fun b hb c hc => ?_⟩
      obtain rfl := List.mem_singleton.mp hc
      have hlt := List.idxOf_lt_length_of_mem (List.mem_eraseDups.mp hb)
      rw [hkept b hb, List.idxOf_append_of_notMem hnew]
      omega

theorem nodup_eraseDups (as : List α) : as.eraseDups.Nodup := by
  refine (eraseDups_inOrder as).imp ?_
  rintro a _ hlt rfl
  exact Nat.lt_irrefl _ hlt

theorem eraseDups_eq_self {as : List α} (h : as.Nodup) : as.eraseDups = as := by
  induction as using List.reverseRecOn with
  | nil => rfl
  | append_singleton as a ih =>
    obtain ⟨hfirst, -, hnew⟩ := List.nodup_append.mp h
    have ha : a ∉ as := fun hmem => hnew a hmem a (List.mem_singleton_self a) rfl
    rw [eraseDups_concat, if_neg ha, ih hfirst]

theorem eraseDups_map [BEq β] [LawfulBEq β] {f : α → β} (hinj : Function.Injective f)
    (as : List α) :
    (as.map f).eraseDups = as.eraseDups.map f := by
  induction as using List.reverseRecOn with
  | nil => rfl
  | append_singleton as a ih =>
    rw [List.map_append, List.map_singleton, eraseDups_concat, eraseDups_concat, ih]
    simp only [List.mem_map_of_injective hinj]
    split <;> simp

theorem eraseDups_flatMap [BEq β] [LawfulBEq β] {f : α → List β}
    (hapart : ∀ a b x, x ∈ f a → x ∈ f b → a = b) (as : List α) :
    (as.flatMap f).eraseDups = as.eraseDups.flatMap fun a => (f a).eraseDups := by
  induction as using List.reverseRecOn with
  | nil => rfl
  | append_singleton as a ih =>
    rw [List.flatMap_append, List.flatMap_singleton, List.eraseDups_append, ih, eraseDups_concat]
    split
    · rename_i hmem
      have hnothing : (f a).removeAll (as.flatMap f) = [] := by
        rw [List.removeAll, List.filter_eq_nil_iff]
        intro x hx
        simpa using ⟨a, hmem, hx⟩
      rw [hnothing, List.eraseDups_nil, List.append_nil]
    · rename_i hnew
      have hall : (f a).removeAll (as.flatMap f) = f a := by
        rw [List.removeAll, List.filter_eq_self]
        intro x hx
        have hout : x ∉ as.flatMap f := by
          rw [List.mem_flatMap]
          rintro ⟨b, hb, hxb⟩
          exact hnew (hapart a b x hx hxb ▸ hb)
        simpa using hout
      rw [hall, List.flatMap_append, List.flatMap_singleton]

end BlockSketch
