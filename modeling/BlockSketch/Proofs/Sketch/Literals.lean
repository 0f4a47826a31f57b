import BlockSketch.Proofs.Sketch.Compiled

/-!
# Texts in a sketch

A text is escaped once and then moved right once for every statement socket around it. Escaping
leaves some line breaks as they are, and moving code right puts a margin behind them. So a text comes
through as it is, unless it holds such a break and stands in a statement socket.
-/

namespace BlockSketch.Sketch

open Program (isInnerBreak iterate_shiftText_eq_self_iff literals shiftText tokens tokens_of_spelled)

def Mark.text? : Mark → Option (String × Nat)
  | .text s level => some (s, level)
  | _ => none

/-- The texts in a block and behind it, in the order of the code: those of text blocks, and the
empty ones of sockets for texts that hold nothing. -/
def placedTexts (w : Workspace) (depth : Nat) (r : Ref) : List (String × Nat) :=
  (marks w depth r).filterMap Mark.text?

/-- The text that a literal stands for, behind all the margins. -/
def moved (margin : String) (text : String × Nat) : String :=
  (shiftText margin.toList)^[text.2] text.1

theorem text?_of_quiet {declared : String → Bool} (ht : tells declared t = false) :
    t.text? = none := by
  cases t with
  | text s => cases ht
  | _ => rfl

theorem Tells.literals_eq {margin : String} {declared : String → Bool}
    (h : Tells margin.toList declared ms ts) :
    literals ts = (ms.filterMap Mark.text?).map (moved margin) := by
  induction h with
  | nil => rfl
  | quiet ht _ ih => rw [literals, List.filterMap_cons_none (text?_of_quiet ht), ← literals, ih]
  | @mark _ _ _ m hm _ ih =>
    cases m with
    | text s level =>
      obtain rfl := Option.some.inj hm
      exact congrArg (List.cons _) ih
    | use s | pin s =>
      obtain rfl := Option.some.inj hm
      exact ih
    | program => cases hm
  | program htexts _ _ ih =>
    simp only [literals, List.filterMap_append] at htexts ih ⊢
    rw [htexts, ih]
    rfl

theorem moved_eq_iff {margin : String} : moved margin (s, level) = s ↔
    level = 0 ∨ margin = "" ∨ ∀ c ∈ s.toList, isInnerBreak c = false := by
  rw [moved, iterate_shiftText_eq_self_iff, String.toList_eq_nil_iff]

/-- Every text block of a sketch has its literal, in order. The literal stands for the text of the
block unless the block is in a statement socket and the text holds a break that is not escaped: then
there is a margin behind the break. -/
theorem literals_stand_for_texts {margin : String} {w : Workspace}
    (hmargin : ∀ c ∈ margin.toList, c = ' ') (h : (arduino margin room).generate w = .ok report)
    (hsuccess : report.success = true) (hentry : w.entry? = some entry)
    (hdepth : w.blocks.size < depth) :
    ∃ ts, tokens report.code = some ts ∧
      literals ts = (placedTexts w depth entry).map (moved margin) ∧
      ∀ s level, (s, level) ∈ placedTexts w depth entry →
        (moved margin (s, level) = s ↔
          level = 0 ∨ margin = "" ∨ ∀ c ∈ s.toList, isInnerBreak c = false) := by
  obtain ⟨ts, hspelled, -, htells⟩ := (generate_piece h hsuccess hentry hmargin hdepth).spelled
  refine ⟨ts, ?_, htells.literals_eq, fun s level _ => moved_eq_iff⟩
  simpa using tokens_of_spelled hspelled rfl

/-- Texts at several depths, with a break that is escaped and one that is not. -/
def greeting : Workspace where
  blocks := #[
    { type := "controls_setup", id := "entry", inputs := [("SETUP", some 1), ("LOOP", some 3)] },
    { type := "arduino_serial_print", id := "hello", inputs := [("TEXT", some 2)] },
    { type := "text", id := "quoted", fields := [("TEXT", "\"é\\\n\"")] },
    { type := "controls_if", id := "if", inputs := [("DO0", some 4)] },
    { type := "arduino_serial_print", id := "page", inputs := [("TEXT", some 5)],
      next := some 6 },
    { type := "text", id := "pages", fields := [("TEXT", "1\x0c2")] },
    { type := "arduino_serial_print", id := "empty" }]
  roots := [0]
  variableNames := []

theorem greeting_literals :
    (∀ c ∈ "  ".toList, c = ' ') ∧ greeting.entry? = some 0 ∧ greeting.blocks.size < 8 ∧
      placedTexts greeting 8 0 = [("\"é\\\n\"", 1), ("1\x0c2", 2), ("", 2)] ∧
      ∃ report, (arduino "  ").generate greeting = .ok report ∧ report.success = true ∧
        ∃ ts, tokens report.code = some ts ∧
          literals ts = (placedTexts greeting 8 0).map (moved "  ") ∧
          ∀ s level, (s, level) ∈ placedTexts greeting 8 0 →
            (moved "  " (s, level) = s ↔
              level = 0 ∨ "  " = "" ∨ ∀ c ∈ s.toList, isInnerBreak c = false) := by
  have hmargin : ∀ c ∈ "  ".toList, c = ' ' := by simp
  obtain ⟨report, hreport, hsuccess⟩ :
      ∃ report, (arduino "  ").generate greeting = .ok report ∧ report.success = true := by
    rw [arduino, Catalog.registry_eq]
    exact ⟨_, rfl, rfl⟩
  exact ⟨hmargin, rfl, by decide, rfl, report, hreport, hsuccess,
    literals_stand_for_texts hmargin hreport hsuccess rfl (by decide)⟩

/-- A vertical tab in a text is a line break where code is moved right. -/
def tabbed : Workspace where
  blocks := #[
    { type := "controls_setup", id := "entry", inputs := [("SETUP", some 1)] },
    { type := "arduino_serial_print", id := "p", inputs := [("TEXT", some 2)] },
    { type := "text", id := "t", fields := [("TEXT", "a\x0bb")] }]
  roots := [0]
  variableNames := []

theorem tabbed_literal_changed :
    ∃ report, (arduino "  ").generate tabbed = .ok report ∧ report.success = true ∧
      (tokens report.code).map literals = some ["a\x0b  b"] := by
  rw [arduino, Catalog.registry_eq]
  exact ⟨_, rfl, rfl, by decide +kernel⟩

end BlockSketch.Sketch
