import BlockSketch.Proofs.Expression.Numerals
import BlockSketch.Sketch.Generator
import Mathlib.Data.List.Perm.Subperm

/-!
# Fresh names

A fresh name is its base with a number behind it, the first one with none. The numbers are tried in
order, one more of them than there are names taken; as no two give the same name, a free one is
found.
-/

namespace BlockSketch.Sketch

open Expression (isDigit_toString isNameChar_digit isWord toString_cons)

def numbering (count : Nat) : String :=
  if count = 1 then "" else toString count

theorem candidate_text (base : String) (count : Nat) :
    candidate (.text base) count = .text (base ++ numbering count) := by
  unfold candidate numbering
  split
  · simp
  · simp [Value.plain]

theorem numbering_inj (h : numbering m = numbering n) : m = n := by
  have hne : ∀ k : Nat, toString k ≠ "" := by
    intro k heq
    obtain ⟨c, rest, hcons⟩ := toString_cons k
    rw [heq] at hcons
    cases hcons
  unfold numbering at h
  split at h <;> split at h
  · rename_i hm hn
    rw [hm, hn]
  · exact (hne n h.symm).elim
  · exact (hne m h).elim
  · simp only [Nat.toString_eq_ofList_toDigits, String.ofList_inj] at h
    rw [← @Nat.ofDigitChars_ten_toDigits m, h, Nat.ofDigitChars_ten_toDigits]

theorem candidate_inj (h : candidate (.text base) m = candidate (.text base) n) : m = n := by
  rw [candidate_text, candidate_text, Value.text.injEq, String.append_right_inj] at h
  exact numbering_inj h

theorem isWord_candidate (h : isWord base.toList = true) (count : Nat) :
    isWord (base ++ numbering count).toList = true := by
  have hdigits : ∀ c ∈ (numbering count).toList, isNameChar c = true := by
    intro c hc
    unfold numbering at hc
    split at hc
    · simp at hc
    · exact isNameChar_digit (isDigit_toString c hc)
  rw [String.toList_append]
  cases hbase : base.toList with
  | nil =>
    rw [hbase] at h
    cases h
  | cons c rest =>
    rw [hbase, isWord, Bool.and_eq_true] at h
    simp [isWord, h.1, h.2, List.all_eq_true.mpr hdigits]

/-- Either the candidate that is found is free, or all candidates before it are taken. -/
theorem freeCount_cases (taken : List Value) (base : Value) (fuel count : Nat) :
    (candidate base (freeCount taken base fuel count)).isIn taken = false ∨
      freeCount taken base fuel count = count + fuel + 1 ∧
        ∀ n, count < n → n ≤ count + fuel → (candidate base n).isIn taken = true := by
  induction fuel generalizing count with
  | zero => exact .inr ⟨rfl, fun n hlow hhigh => by omega⟩
  | succ fuel ih =>
    rw [freeCount]
    split
    · rename_i htaken
      refine (ih (count + 1)).imp_right fun ⟨heq, hall⟩ => ⟨by omega, fun n hlow hhigh => ?_⟩
      by_cases hnext : n = count + 1
      · exact hnext ▸ htaken
      · exact hall n (by omega) (by omega)
    · rename_i hfree
      exact .inl (by simpa using hfree)

/-- One candidate more than there are names taken cannot all be taken. -/
theorem freeCount_free (taken : List Value) (base : String) (count : Nat) :
    candidate (.text base) (freeCount taken (.text base) taken.length count) ∉ taken := by
  rcases freeCount_cases taken (.text base) taken.length count with hfree | ⟨hlast, hall⟩
  · rw [candidate_text] at hfree ⊢
    intro hmem
    rw [Value.text_isIn.mpr hmem] at hfree
    cases hfree
  · rw [hlast]
    intro hmem
    have hnodup : ((List.range' (count + 1) (taken.length + 1)).map
        (candidate (.text base))).Nodup :=
      (List.nodup_range' 1).map fun _ _ => candidate_inj
    have hsubset : (List.range' (count + 1) (taken.length + 1)).map (candidate (.text base)) ⊆
        taken := by
      intro v hv
      obtain ⟨n, hn, rfl⟩ := List.mem_map.mp hv
      rw [List.mem_range'_1] at hn
      by_cases hend : n = count + taken.length + 1
      · exact hend ▸ hmem
      · have htaken := hall n (by omega) (by omega)
        rw [candidate_text] at htaken ⊢
        exact Value.text_isIn.mp htaken
    have hlength := (hnodup.subperm hsubset).length_le
    rw [List.length_map, List.length_range'] at hlength
    omega

theorem freshName_spec (run : Run) (hbase : isWord base.toList = true) :
    ∃ name, run.freshName (.text base) =
        (.text name, { run with
          counters := (run.freshName (.text base)).2.counters, taken := .text name :: run.taken }) ∧
      isWord name.toList = true ∧ .text name ∉ run.taken := by
  have hfree := freeCount_free run.taken base ((run.counters.find? (.text base)).getD 0)
  rw [candidate_text] at hfree
  refine ⟨_, ?_, isWord_candidate hbase _, hfree⟩
  simp only [Run.freshName, candidate_text]

end BlockSketch.Sketch
