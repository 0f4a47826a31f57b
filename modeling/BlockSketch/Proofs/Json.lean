import BlockSketch.Json.Reader
import BlockSketch.Proofs.Value

/-!
# What JSON text is read as

Of two members with one name the later one counts, so that no object that is read has both.
-/

namespace BlockSketch.Json

open Value (WellKeyed)

theorem readWord?_wellKeyed (h : readWord? cs = some (v, rest)) : v.WellKeyed := by
  obtain ⟨⟨word, x⟩, hmem, h⟩ := List.exists_of_findSome?_eq_some h
  simp only at h
  split at h
  · cases h
    refine .scalar ?_
    simp only [words, List.mem_cons, Prod.mk.injEq, List.not_mem_nil, or_false] at hmem
    rcases hmem with ⟨-, rfl⟩ | ⟨-, rfl⟩ | ⟨-, rfl⟩ | ⟨-, rfl⟩ | ⟨-, rfl⟩ | ⟨-, rfl⟩ <;> rfl
  · cases h

theorem object_wellKeyed (h : ∀ m ∈ members, m.2.WellKeyed) :
    WellKeyed (.object (Assoc.ofList members)) :=
  .object (Assoc.ofList_spec members).1 fun m hm => h m ((Assoc.ofList_spec members).2 m hm)

/-- The three readers go down by their fuel together. -/
structure ReadsKeyed (fuel : Nat) : Prop where
  value : readValue fuel cs = .ok (v, rest) → v.WellKeyed
  items : readItems fuel cs = .ok (vs, rest) → ∀ v ∈ vs, v.WellKeyed
  members : readMembers fuel cs = .ok (ms, rest) → ∀ m ∈ ms, m.2.WellKeyed

theorem readValue_step (ih : ReadsKeyed fuel) (h : readValue (fuel + 1) cs = .ok (v, rest)) :
    v.WellKeyed := by
  unfold readValue at h
  split at h
  · obtain ⟨⟨s, _⟩, -, heq⟩ := map_ok.mp h
    cases heq
    exact .scalar rfl
  · split at h
    · cases h
      exact .object .nil (by simp)
    · obtain ⟨⟨ms, _⟩, hms, heq⟩ := map_ok.mp h
      cases heq
      exact object_wellKeyed (ih.members hms)
  · split at h
    · cases h
      exact .list (by simp)
    · obtain ⟨⟨vs, _⟩, hvs, heq⟩ := map_ok.mp h
      cases heq
      exact .list (ih.items hvs)
  · split at h
    · rename_i answer hword
      cases h
      exact readWord?_wellKeyed hword
    · obtain ⟨⟨n, _⟩, -, heq⟩ := map_ok.mp h
      cases heq
      exact .scalar rfl

theorem readItems_step (ih : ReadsKeyed fuel) (h : readItems (fuel + 1) cs = .ok (vs, rest)) :
    ∀ v ∈ vs, v.WellKeyed := by
  simp only [readItems, bind_ok, Prod.exists] at h
  obtain ⟨v, after, hv, h⟩ := h
  have hhead := ih.value hv
  split at h
  · cases h
    simpa using hhead
  · simp only [bind_ok, Prod.exists, Except.ok.injEq, Prod.mk.injEq] at h
    obtain ⟨vs', _, hvs, rfl, -⟩ := h
    exact List.forall_mem_cons.mpr ⟨hhead, ih.items hvs⟩
  · cases h

theorem readMembers_step (ih : ReadsKeyed fuel) (h : readMembers (fuel + 1) cs = .ok (ms, rest)) :
    ∀ m ∈ ms, m.2.WellKeyed := by
  unfold readMembers at h
  split at h
  · simp only [bind_ok, Prod.exists] at h
    obtain ⟨name, _, -, h⟩ := h
    split at h
    · simp only [bind_ok, Prod.exists] at h
      obtain ⟨v, after, hv, h⟩ := h
      have hhead := ih.value hv
      split at h
      · cases h
        simpa using hhead
      · simp only [bind_ok, Prod.exists, Except.ok.injEq, Prod.mk.injEq] at h
        obtain ⟨ms', _, hms, rfl, -⟩ := h
        exact List.forall_mem_cons.mpr ⟨hhead, ih.members hms⟩
      · cases h
    · cases h
  · cases h

theorem readsKeyed (fuel : Nat) : ReadsKeyed fuel := by
  induction fuel with
  | zero =>
    refine ⟨fun h => ?_, fun h => ?_, fun h => ?_⟩
    · cases h
    · cases h
    · cases h
  | succ fuel ih => exact ⟨readValue_step ih, readItems_step ih, readMembers_step ih⟩

theorem read_wellKeyed (h : read s = .ok v) : v.WellKeyed := by
  simp only [read, mapError_ok] at h
  unfold readText at h
  split at h
  · cases h
  · simp only [bind_ok, Prod.exists] at h
    obtain ⟨v', rest, hv, h⟩ := h
    split at h
    · cases h
      exact (readsKeyed _).value hv
    · cases h

end BlockSketch.Json
