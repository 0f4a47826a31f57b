import BlockSketch.Proofs.Sketch.FreshNames

/-!
# Series of fresh names

A name is looked for by counting on from the last name of its base. The count ends, since only
finitely many names are taken, and it passes over nothing but taken names: those before the last name
of a base stay taken, whatever other bases ask for in between. So every name is the first free one of
all candidates, as if the count had started over.
-/

namespace BlockSketch.Sketch

-- ---------------------------------------------------------------------------
-- Counting
-- ---------------------------------------------------------------------------

/-- Counting on, without a bound, until a candidate is free. -/
inductive Seeks (taken : List Value) (base : Value) : Nat → Nat → Prop
  | stop (hfree : (candidate base (count + 1)).isIn taken = false) :
      Seeks taken base count (count + 1)
  | next (htaken : (candidate base (count + 1)).isIn taken = true)
      (rest : Seeks taken base (count + 1) n) : Seeks taken base count n

theorem seeks_of_free {fuel : Nat}
    (hfree : (candidate base (freeCount taken base fuel count)).isIn taken = false) :
    Seeks taken base count (freeCount taken base fuel count) := by
  induction fuel generalizing count with
  | zero => exact .stop hfree
  | succ fuel ih =>
    rw [freeCount] at hfree ⊢
    split at hfree
    · rename_i htaken
      rw [if_pos htaken]
      exact .next htaken (ih hfree)
    · rename_i htaken
      rw [if_neg htaken]
      exact .stop hfree

/-- The bound of the count is never met. -/
theorem freeCount_seeks (taken : List Value) (base : String) (count : Nat) :
    Seeks taken (.text base) count (freeCount taken (.text base) taken.length count) := by
  refine seeks_of_free ?_
  have hfree := freeCount_free taken base count
  rw [candidate_text] at hfree ⊢
  rw [← Bool.not_eq_true, Value.text_isIn]
  exact hfree

theorem Seeks.passes (h : Seeks taken (.text base) count n) :
    count < n ∧ .text (base ++ numbering n) ∉ taken ∧
      ∀ m, count < m → m < n → .text (base ++ numbering m) ∈ taken := by
  induction h with
  | stop hfree =>
    rw [candidate_text, ← Bool.not_eq_true, Value.text_isIn] at hfree
    exact ⟨Nat.lt_succ_self _, hfree, fun m hlow hhigh => by omega⟩
  | @next count n htaken _ ih =>
    obtain ⟨hlt, hfree, hpassed⟩ := ih
    rw [candidate_text, Value.text_isIn] at htaken
    refine ⟨by omega, hfree, fun m hlow hhigh => ?_⟩
    rcases Nat.eq_or_lt_of_le hlow with rfl | hlow
    · exact htaken
    · exact hpassed m hlow hhigh

/-- The first free one of the candidates for a base: the base, and then the base with the numbers
from two on. -/
structure IsFirst (taken : List Value) (base : String) (n : Nat) : Prop where
  pos : 1 ≤ n
  free : .text (base ++ numbering n) ∉ taken
  before : ∀ m, 1 ≤ m → m < n → .text (base ++ numbering m) ∈ taken

-- ---------------------------------------------------------------------------
-- One name
-- ---------------------------------------------------------------------------

namespace Run

def count (run : Run) (base : String) : Nat :=
  (run.counters.find? (.text base)).getD 0

/-- The candidates before the last name of a base are taken, and so is that name. -/
def Counted (run : Run) : Prop :=
  ∀ base n, 1 ≤ n → n ≤ run.count base → .text (base ++ numbering n) ∈ run.taken

theorem counted_start (variableNames : List Value) : (Run.start variableNames).Counted :=
  fun _ _ hlow hhigh => absurd hlow (by simpa [count, start, Table.find?] using hhigh)

theorem count_put (run : Run) (base other : String) (n : Nat) (taken : List Value) :
    count { run with counters := run.counters.put (.text base) n, taken } other =
      if base = other then n else run.count other := by
  simp only [count, Table.find?_put]
  split <;> rfl

theorem freshName_seeks (run : Run) (base : String) :
    ∃ n, Seeks run.taken (.text base) (run.count base) n ∧
      run.freshName (.text base) = (.text (base ++ numbering n), { run with
        counters := run.counters.put (.text base) n
        taken := .text (base ++ numbering n) :: run.taken }) := by
  refine ⟨_, freeCount_seeks run.taken base (run.count base), ?_⟩
  rw [← candidate_text]
  rfl

theorem Counted.isFirst {run : Run} (h : run.Counted)
    (hseeks : Seeks run.taken (.text base) (run.count base) n) : IsFirst run.taken base n := by
  obtain ⟨hlt, hfree, hpassed⟩ := hseeks.passes
  refine ⟨by omega, hfree, fun m hlow hhigh => ?_⟩
  rcases Nat.lt_or_ge (run.count base) m with hm | hm
  · exact hpassed m hm hhigh
  · exact h base m hlow hm

/-- Taking the first free candidate leaves no gap before it. -/
theorem Counted.take {run : Run} (h : run.Counted) (hfirst : IsFirst run.taken base n) :
    Counted { run with
      counters := run.counters.put (.text base) n
      taken := .text (base ++ numbering n) :: run.taken } := by
  intro other m hlow hhigh
  rw [count_put] at hhigh
  refine List.mem_cons.mpr ?_
  split at hhigh
  · rename_i heq
    subst heq
    rcases Nat.eq_or_lt_of_le hhigh with rfl | hhigh
    · exact .inl rfl
    · exact .inr (hfirst.before m hlow hhigh)
  · exact .inr (h other m hlow hhigh)

-- ---------------------------------------------------------------------------
-- Several names
-- ---------------------------------------------------------------------------

def freshNames (run : Run) : List String → List Value × Run
  | [] => ([], run)
  | base :: bases =>
    let first := run.freshName (.text base)
    let rest := first.2.freshNames bases
    (first.1 :: rest.1, rest.2)

/-- Every name of a series is the first free one after the names before it. -/
theorem Counted.freshNames {run : Run} (h : run.Counted) (bases : List String) :
    ∃ names : List String, (run.freshNames bases).1 = names.map .text ∧
      names.length = bases.length ∧ names.Nodup ∧ (∀ name ∈ names, .text name ∉ run.taken) ∧
      ∀ i base, bases[i]? = some base → ∃ n, names[i]? = some (base ++ numbering n) ∧
        IsFirst ((names.take i).map .text ++ run.taken) base n ∧
        Seeks (run.freshNames (bases.take i)).2.taken (.text base)
          ((run.freshNames (bases.take i)).2.count base) n := by
  induction bases generalizing run with
  | nil => exact ⟨[], rfl, rfl, .nil, by simp, by simp⟩
  | cons first bases ih =>
    obtain ⟨n, hseeks, hfresh⟩ := run.freshName_seeks first
    have hfirst := h.isFirst hseeks
    obtain ⟨names, hnames, hlength, hnodup, hfree, hall⟩ := ih (h.take hfirst)
    simp only [List.mem_cons, not_or] at hfree
    refine ⟨(first ++ numbering n) :: names, ?_, congrArg (· + 1) hlength, ?_, ?_, ?_⟩
    · simp only [Run.freshNames, hfresh, hnames, List.map_cons]
    · refine List.nodup_cons.mpr ⟨fun hmem => (hfree _ hmem).1 rfl, hnodup⟩
    · exact List.forall_mem_cons.mpr ⟨hfirst.free, fun name hname => (hfree name hname).2⟩
    · intro i base hbase
      cases i with
      | zero =>
        obtain rfl := Option.some.inj hbase
        exact ⟨n, rfl, hfirst, hseeks⟩
      | succ i =>
        obtain ⟨k, hname, hfirst, hseeks⟩ := hall i base hbase
        refine ⟨k, hname, ⟨hfirst.pos, ?_, fun m hlow hhigh => ?_⟩, ?_⟩
        · simpa [or_left_comm] using hfirst.free
        · simpa [or_left_comm] using hfirst.before m hlow hhigh
        · simpa only [List.take_succ_cons, Run.freshNames, hfresh] using hseeks

end Run

/-- Names for any bases, asked for one after the other: each count ends, no two names are the same,
none is that of a variable, and each is the first candidate for its base that is neither a variable
nor a name given before. -/
theorem freshNames_first_free (variableNames : List Value) (bases : List String) :
    ∃ names : List String,
      ((Run.start variableNames).freshNames bases).1 = names.map .text ∧
      names.length = bases.length ∧ names.Nodup ∧
      (∀ name ∈ names, .text name ∉ variableNames) ∧
      ∀ i base, bases[i]? = some base → ∃ n, names[i]? = some (base ++ numbering n) ∧
        IsFirst ((names.take i).map .text ++ variableNames) base n ∧
        let before := ((Run.start variableNames).freshNames (bases.take i)).2
        Seeks before.taken (.text base) (before.count base) n :=
  (Run.counted_start variableNames).freshNames bases

-- A base with a number behind it can be another base.
example : ((Run.start ["i2"]).freshNames ["i", "i", "i2", "i"]).1 = ["i", "i3", "i22", "i4"] :=
  rfl

end BlockSketch.Sketch
