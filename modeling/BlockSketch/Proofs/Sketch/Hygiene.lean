import BlockSketch.Proofs.Sketch.Compiled

/-!
# Variables in a sketch

An identifier in the functions of a sketch that is the name of a variable should come from a block
that reads or sets this variable. Counters, bounds and all fixed words keep clear of the variables.
Three things do not: a pin whose name is also that of a variable, a name with a line feed at its end,
which is read without it, and an entry point inside another one, which declares all variables again.
-/

namespace BlockSketch.Sketch

open Program (Token bodies? identifiers)

-- ---------------------------------------------------------------------------
-- Uses
-- ---------------------------------------------------------------------------

def Mark.use? : Mark → Option String
  | .use s => some s
  | _ => none

def bodyMarks (w : Workspace) (depth : Nat) (entry : Ref) : List Mark :=
  insideMarks (marks w depth) (w.block entry) (.statement "SETUP") ++
    insideMarks (marks w depth) (w.block entry) (.statement "LOOP")

def usedVariables (w : Workspace) (ms : List Mark) : List String :=
  (ms.filterMap Mark.use?).filter (isVariable w)

def variableTokens (w : Workspace) (ts : List Token) : List String :=
  (identifiers ts).filter (isVariable w)

/-- What brings in the name of a variable and is no use of this variable. -/
def Captured (w : Workspace) : Mark → Prop
  | .text _ _ => False
  | .use s => stem s ≠ s ∧ isVariable w (stem s) = true
  | .pin s => isVariable w s = true
  | .program => ∃ s, isVariable w s = true

section
variable {w : Workspace} {margin : List Char}

theorem variableTokens_word (s : String) (ts : List Token) :
    variableTokens w (.word s :: ts) =
      (if isVariable w s then [s] else []) ++ variableTokens w ts := by
  show (s :: identifiers ts).filter (isVariable w) = _
  rw [List.filter_cons]
  split <;> rfl

theorem variableTokens_quiet (ht : tells (isVariable w) t = false) (ts : List Token) :
    variableTokens w (t :: ts) = variableTokens w ts := by
  cases t with
  | word s =>
    have hs : isVariable w s = false := ht
    simp [variableTokens_word, hs]
  | _ => rfl

theorem variableTokens_append (ts us : List Token) :
    variableTokens w (ts ++ us) = variableTokens w ts ++ variableTokens w us := by
  simp [variableTokens, identifiers]

theorem usedVariables_use (s : String) (ms : List Mark) :
    usedVariables w (.use s :: ms) =
      (if isVariable w s then [s] else []) ++ usedVariables w ms := by
  show (s :: ms.filterMap Mark.use?).filter (isVariable w) = _
  rw [List.filter_cons]
  split <;> rfl

-- ---------------------------------------------------------------------------
-- What the tokens tell
-- ---------------------------------------------------------------------------

theorem append_eq_iff {before found wanted : List String} (h : wanted.Sublist found) :
    before ++ found = wanted ↔ before = [] ∧ found = wanted := by
  constructor
  · intro heq
    have hlength := congrArg List.length heq
    rw [List.length_append] at hlength
    have hle := h.length_le
    obtain rfl : before = [] := List.eq_nil_of_length_eq_zero (by omega)
    exact ⟨rfl, heq⟩
  · rintro ⟨rfl, rfl⟩
    rfl

/-- All uses are there, and nothing else exactly if nothing is captured. -/
structure Clean (w : Workspace) (ms : List Mark) (ts : List Token) : Prop where
  uses : (usedVariables w ms).Sublist (variableTokens w ts)
  only : variableTokens w ts = usedVariables w ms ↔ ∀ m ∈ ms, ¬Captured w m

theorem Clean.other (h : Clean w ms ts) (hnone : usedVariables w (m :: ms) = usedVariables w ms)
    (htokens : variableTokens w ts' = brought ++ variableTokens w ts)
    (hcaptured : Captured w m ↔ brought ≠ []) : Clean w (m :: ms) ts' where
  uses := by
    rw [hnone, htokens]
    exact h.uses.trans (List.sublist_append_right brought _)
  only := by
    rw [hnone, htokens, append_eq_iff h.uses, h.only, List.forall_mem_cons, hcaptured, not_not]

theorem Clean.use (h : Clean w ms ts) (s : String) :
    Clean w (.use s :: ms) (.word (stem s) :: ts) := by
  by_cases hstem : stem s = s
  · have hfree : ¬Captured w (.use s) := fun hcaptured => hcaptured.1 hstem
    refine ⟨?_, ?_⟩
    · rw [usedVariables_use, variableTokens_word, hstem]
      exact h.uses.append_left _
    · rw [usedVariables_use, variableTokens_word, hstem, List.append_cancel_left_eq, h.only,
        List.forall_mem_cons, and_iff_right hfree]
  · have hother : isVariable w s = false := by
      rw [← Bool.not_eq_true]
      exact fun hs => hstem (Piece.stem_self (isVariable_iff.mp hs).2)
    refine h.other ?_ (variableTokens_word _ _) ?_
    · simp [usedVariables_use, hother]
    · simp [Captured, hstem]

theorem Tells.clean (h : Tells margin (isVariable w) ms ts) : Clean w ms ts := by
  induction h with
  | nil => exact ⟨.slnil, by simp [variableTokens, usedVariables, identifiers]⟩
  | quiet ht _ ih =>
    have hsame := variableTokens_quiet ht
    exact ⟨by simpa only [hsame] using ih.uses, by simpa only [hsame] using ih.only⟩
  | @mark _ _ _ m hm _ ih =>
    cases m with
    | text s level =>
      obtain rfl := Option.some.inj hm
      exact ih.other rfl (List.nil_append _).symm (by simp [Captured])
    | use s =>
      obtain rfl := Option.some.inj hm
      exact ih.use s
    | pin s =>
      obtain rfl := Option.some.inj hm
      exact ih.other rfl (variableTokens_word s _) (by simp [Captured])
    | program => cases hm
  | @program us _ _ _ hwords _ ih =>
    refine ih.other rfl (variableTokens_append us _) ?_
    constructor
    · rintro ⟨s, hs⟩
      have hmem : s ∈ identifiers us := List.mem_filterMap.mpr ⟨.word s, hwords s hs, rfl⟩
      exact List.ne_nil_of_mem (List.mem_filter.mpr ⟨hmem, hs⟩)
    · intro hne
      obtain ⟨s, hs⟩ := List.exists_mem_of_ne_nil _ hne
      exact ⟨s, (List.mem_filter.mp hs).2⟩

end

-- ---------------------------------------------------------------------------
-- Sketches
-- ---------------------------------------------------------------------------

/-- In the functions of a sketch, all variables that blocks read or set are named in the order of
the blocks, and no other identifier is the name of a variable, unless something is captured. -/
theorem variables_clean_unless_captured {margin : String} {w : Workspace}
    (hmargin : ∀ c ∈ margin.toList, c = ' ') (h : (arduino margin room).generate w = .ok report)
    (hsuccess : report.success = true) (hentry : w.entry? = some entry)
    (hdepth : w.blocks.size < depth) :
    ∃ setup loop, bodies? report.code = some (setup, loop) ∧
      (usedVariables w (bodyMarks w depth entry)).Sublist (variableTokens w (setup ++ loop)) ∧
      (variableTokens w (setup ++ loop) = usedVariables w (bodyMarks w depth entry) ↔
        ∀ m ∈ bodyMarks w depth entry, ¬Captured w m) := by
  obtain ⟨setup, loop, hbodies, hsetup, hloop⟩ :=
    generate_bodies h hsuccess hentry hmargin hdepth
  have hclean : Clean w (bodyMarks w depth entry) (setup ++ loop) := (hsetup.append hloop).clean
  exact ⟨setup, loop, hbodies, hclean.uses, hclean.only⟩

/-- A variable with the name that loops prefer for their counters. -/
def counting : Workspace where
  blocks := #[
    { type := "controls_setup", id := "entry", inputs := [("SETUP", some 1), ("LOOP", some 3)] },
    { type := "variables_set", id := "start", fields := [("VAR", "count")],
      inputs := [("VALUE", some 2)] },
    { type := "arduino_analog_read", id := "pin", fields := [("PIN", "A0")] },
    { type := "controls_repeat_ext", id := "repeat", inputs := [("TIMES", some 4), ("DO", some 5)] },
    { type := "variables_get", id := "times", fields := [("VAR", "count")] },
    { type := "arduino_serial_print", id := "print", inputs := [("TEXT", some 6)] },
    { type := "text", id := "text", fields := [("TEXT", "count")] }]
  roots := [0]
  variableNames := ["count"]

theorem counting_clean :
    (∀ c ∈ "  ".toList, c = ' ') ∧ counting.entry? = some 0 ∧ counting.blocks.size < 8 ∧
      usedVariables counting (bodyMarks counting 8 0) = ["count", "count"] ∧
      ∃ report, (arduino "  ").generate counting = .ok report ∧ report.success = true ∧
        ∃ setup loop, bodies? report.code = some (setup, loop) ∧
          (usedVariables counting (bodyMarks counting 8 0)).Sublist
            (variableTokens counting (setup ++ loop)) ∧
          (variableTokens counting (setup ++ loop) =
              usedVariables counting (bodyMarks counting 8 0) ↔
            ∀ m ∈ bodyMarks counting 8 0, ¬Captured counting m) := by
  have hmargin : ∀ c ∈ "  ".toList, c = ' ' := by simp
  obtain ⟨report, hreport, hsuccess⟩ :
      ∃ report, (arduino "  ").generate counting = .ok report ∧ report.success = true := by
    rw [arduino, Catalog.registry_eq]
    exact ⟨_, rfl, rfl⟩
  exact ⟨hmargin, rfl, by decide, rfl, report, hreport, hsuccess,
    variables_clean_unless_captured hmargin hreport hsuccess rfl (by decide)⟩

/-- A variable with the name of a pin that is read. -/
def shadowed : Workspace where
  blocks := #[
    { type := "controls_setup", id := "entry", inputs := [("SETUP", some 1)] },
    { type := "arduino_serial_print", id := "p", inputs := [("TEXT", some 2)] },
    { type := "arduino_analog_read", id := "t", fields := [("PIN", "A0")] }]
  roots := [0]
  variableNames := ["A0"]

theorem shadowed_pin_captured :
    usedVariables shadowed (bodyMarks shadowed 4 0) = [] ∧
      ∃ report, (arduino "  ").generate shadowed = .ok report ∧ report.success = true ∧
        (bodies? report.code).map (fun p => variableTokens shadowed (p.1 ++ p.2)) = some ["A0"] := by
  rw [arduino, Catalog.registry_eq]
  exact ⟨rfl, _, rfl, rfl, by decide +kernel⟩

end BlockSketch.Sketch
