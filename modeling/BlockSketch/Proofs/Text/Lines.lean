import BlockSketch.Text.Line
import Mathlib.Data.List.Basic
import Mathlib.Logic.Function.Iterate

/-!
# Lines

A text is cut into lines in one way only: each line ends at its first break, where a carriage return
and a line feed behind it are one break. `Lines` says when a list of lines is such a cut, and
`splitLines_eq_iff` that splitting finds it. Margins without breaks leave the cut as it is, so
margins add up, and texts of whole lines are indented one by one.
-/

namespace BlockSketch.Text

def Unbroken (cs : List Char) : Prop :=
  ∀ c ∈ cs, isLineBreak c = false

theorem Unbroken.append (h : Unbroken cs) (h' : Unbroken ds) : Unbroken (cs ++ ds) :=
  List.forall_mem_append.mpr ⟨h, h'⟩

theorem unbroken_spaces (h : ∀ c ∈ cs, c = ' ') : Unbroken cs := by
  intro c hc
  rw [h c hc]
  rfl

-- ---------------------------------------------------------------------------
-- Splitting
-- ---------------------------------------------------------------------------

theorem splitLines_cons (hreturn : c ≠ '\r') : splitLines (c :: rest) =
    if isLineBreak c then [c] :: splitLines rest else consToFirst c (splitLines rest) := by
  rw [splitLines]
  rintro _ rfl
  exact (hreturn rfl).elim

theorem ne_return (h : isLineBreak c = false) : c ≠ '\r' := by
  rintro rfl
  cases h

/-- A line ends at a break, unless this is the first half of one. -/
theorem splitLines_break (hbreak : isLineBreak c = true)
    (hpair : c = '\r' → rest.head? ≠ some '\n') :
    splitLines (c :: rest) = [c] :: splitLines rest := by
  rw [splitLines]
  · rw [if_pos hbreak]
  · rintro _ rfl rfl
    exact hpair rfl rfl

theorem splitLines_unbroken (h : Unbroken cs) (rest : List Char) :
    splitLines (cs ++ rest) = cs.foldr consToFirst (splitLines rest) := by
  induction cs with
  | nil => rfl
  | cons c cs ih =>
    obtain ⟨hc, hcs⟩ := List.forall_mem_cons.mp h
    rw [List.cons_append, splitLines_cons (ne_return hc), hc, ih hcs]
    rfl

theorem foldr_consToFirst (cs line : List Char) (lines : List (List Char)) :
    cs.foldr consToFirst (line :: lines) = (cs ++ line) :: lines := by
  induction cs with
  | nil => rfl
  | cons c cs ih =>
    rw [List.foldr_cons, ih]
    rfl

theorem foldr_consToFirst_nil (hne : cs ≠ []) : cs.foldr consToFirst [] = [cs] := by
  obtain ⟨ds, d, rfl⟩ := (List.eq_nil_or_concat cs).resolve_left hne
  rw [List.concat_eq_append, List.foldr_append]
  exact foldr_consToFirst ds [d] []

theorem splitLines_line (h : ∀ c ∈ cs, isLineBreak c = false) :
    splitLines (cs ++ '\n' :: rest) = (cs ++ ['\n']) :: splitLines rest := by
  rw [splitLines_unbroken h]
  exact foldr_consToFirst cs ['\n'] (splitLines rest)

theorem flatten_consToFirst (c : Char) (lines : List (List Char)) :
    (consToFirst c lines).flatten = c :: lines.flatten := by
  cases lines <;> rfl

theorem flatten_splitLines (cs : List Char) : (splitLines cs).flatten = cs := by
  fun_induction splitLines cs with
  | case1 => rfl
  | case2 rest ih => rw [List.flatten_cons, ih]; rfl
  | case3 c rest _ hbreak ih => rw [List.flatten_cons, ih]; rfl
  | case4 c rest _ hbreak ih => rw [flatten_consToFirst, ih]

-- ---------------------------------------------------------------------------
-- The lines of a text
-- ---------------------------------------------------------------------------

/-- Lines as a text has them. Only the last one may lack its break, and no break falls apart into a
carriage return and a line feed. -/
inductive Lines : List (List Char) → Prop
  | nil : Lines []
  | last (hbody : Unbroken body) (hne : body ≠ []) : Lines [body]
  | line (hbody : Unbroken body) (hbreak : isLineBreak c = true)
      (hpair : c = '\r' → lines.flatten.head? ≠ some '\n') (hlines : Lines lines) :
      Lines ((body ++ [c]) :: lines)
  | pair (hbody : Unbroken body) (hlines : Lines lines) :
      Lines ((body ++ ['\r', '\n']) :: lines)

theorem Lines.consToFirst (h : Lines lines) (hc : isLineBreak c = false) :
    Lines (consToFirst c lines) := by
  have hcons : ∀ {body}, Unbroken body → Unbroken (c :: body) := fun hbody =>
    List.forall_mem_cons.mpr ⟨hc, hbody⟩
  cases h with
  | nil => exact .last (hcons fun _ hd => (List.not_mem_nil hd).elim) (List.cons_ne_nil _ _)
  | last hbody _ => exact .last (hcons hbody) (List.cons_ne_nil _ _)
  | line hbody hbreak hpair hlines => exact .line (hcons hbody) hbreak hpair hlines
  | pair hbody hlines => exact .pair (hcons hbody) hlines

theorem lines_splitLines (cs : List Char) : Lines (splitLines cs) := by
  have hnil : Unbroken [] := fun _ hd => (List.not_mem_nil hd).elim
  fun_induction splitLines cs with
  | case1 => exact .nil
  | case2 rest ih => exact .pair hnil ih
  | case3 c rest hsingle hbreak ih =>
    refine .line hnil hbreak (fun hreturn hfeed => ?_) ih
    rw [flatten_splitLines] at hfeed
    obtain ⟨tail, rfl⟩ := List.head?_eq_some_iff.mp hfeed
    exact hsingle tail hreturn rfl
  | case4 c rest _ hbreak ih => exact ih.consToFirst (by simpa using hbreak)

theorem Lines.splitLines_flatten (h : Lines lines) : splitLines lines.flatten = lines := by
  induction h with
  | nil => rfl
  | @last body hbody hne =>
    have hone : [body].flatten = body ++ [] := rfl
    rw [hone, splitLines_unbroken hbody]
    exact foldr_consToFirst_nil hne
  | line hbody hbreak hpair _ ih =>
    rw [List.flatten_cons, List.append_assoc, splitLines_unbroken hbody, List.singleton_append,
      splitLines_break hbreak hpair, ih, foldr_consToFirst]
  | @pair body lines hbody _ ih =>
    have hbreak : splitLines ('\r' :: '\n' :: lines.flatten) = ['\r', '\n'] :: lines := by
      rw [splitLines, ih]
    rw [List.flatten_cons, List.append_assoc, splitLines_unbroken hbody, List.cons_append,
      List.singleton_append, hbreak, foldr_consToFirst]

theorem splitLines_eq_iff : splitLines cs = lines ↔ Lines lines ∧ lines.flatten = cs := by
  constructor
  · rintro rfl
    exact ⟨lines_splitLines cs, flatten_splitLines cs⟩
  · rintro ⟨hlines, rfl⟩
    exact hlines.splitLines_flatten

theorem Lines.append (h : Lines lines) (h' : Lines lines') (hend : lines.flatten = cs ++ ['\n']) :
    Lines (lines ++ lines') := by
  -- What follows a line is nothing, or ends with a line feed itself.
  have hsplit : ∀ {first : List Char} {rest : List (List Char)} {cs}, Lines rest →
      first ++ rest.flatten = cs ++ ['\n'] → rest = [] ∨ ∃ ds, rest.flatten = ds ++ ['\n'] := by
    intro first rest cs hrest heq
    rcases List.eq_nil_or_concat rest.flatten with hnil | ⟨ds, d, hds⟩
    · exact .inl (by rw [← hrest.splitLines_flatten, hnil]; rfl)
    · rw [List.concat_eq_append] at hds
      rw [hds, ← List.append_assoc] at heq
      obtain ⟨-, hd⟩ := List.append_inj' heq rfl
      exact .inr ⟨ds, hds.trans (by rw [hd])⟩
  induction h generalizing cs with
  | nil => exact h'
  | @last body hbody hne =>
    have hfeed : '\n' ∈ body := by
      have hone : [body].flatten = body := List.append_nil body
      rw [← hone, hend]
      simp
    cases hbody '\n' hfeed
  | @line body c rest hbody hbreak hpair hrest ih =>
    rcases hsplit hrest hend with rfl | ⟨ds, hds⟩
    · have hc : c = '\n' := by
        simp only [List.flatten_cons, List.flatten_nil, List.append_nil] at hend
        simpa using (List.append_inj' hend rfl).2
      refine .line hbody hbreak (fun hreturn => ?_) h'
      rw [hc] at hreturn
      cases hreturn
    · have hhead : (rest ++ lines').flatten.head? = rest.flatten.head? := by
        rw [List.flatten_append, hds]
        cases ds <;> rfl
      rw [← hhead] at hpair
      exact .line hbody hbreak hpair (ih hds)
  | pair hbody hrest ih =>
    rcases hsplit hrest hend with rfl | ⟨ds, hds⟩
    · exact .pair hbody h'
    · exact .pair hbody (ih hds)

theorem splitLines_append (cs rest : List Char) :
    splitLines (cs ++ ['\n'] ++ rest) = splitLines (cs ++ ['\n']) ++ splitLines rest := by
  rw [splitLines_eq_iff, List.flatten_append, flatten_splitLines, flatten_splitLines]
  exact ⟨(lines_splitLines _).append (lines_splitLines rest) (flatten_splitLines _), rfl⟩

-- ---------------------------------------------------------------------------
-- Margins
-- ---------------------------------------------------------------------------

theorem indentLine_eq_append (hmargin : Unbroken margin) (line : List Char) :
    ∃ lead, Unbroken lead ∧ indentLine margin line = lead ++ line := by
  unfold indentLine
  split
  · exact ⟨[], fun _ hd => (List.not_mem_nil hd).elim, rfl⟩
  · exact ⟨margin, hmargin, rfl⟩

/-- No line feed comes to the front, where it would join a carriage return. -/
theorem head?_indented (hmargin : Unbroken margin) {lines : List (List Char)}
    (h : lines.flatten.head? ≠ some '\n') :
    (lines.map (indentLine margin)).flatten.head? ≠ some '\n' := by
  induction lines with
  | nil => exact h
  | cons line rest ih =>
    obtain ⟨lead, hlead, hline⟩ := indentLine_eq_append hmargin line
    rw [List.map_cons, List.flatten_cons, hline]
    cases lead with
    | nil =>
      cases line with
      | nil => exact ih h
      | cons c line => exact h
    | cons c lead =>
      intro hfeed
      have hc : c = '\n' := Option.some.inj hfeed
      have := hlead c List.mem_cons_self
      rw [hc] at this
      cases this

theorem Lines.indented (hmargin : Unbroken margin) (h : Lines lines) :
    Lines (lines.map (indentLine margin)) := by
  induction h with
  | nil => exact .nil
  | @last body hbody hne =>
    obtain ⟨lead, hlead, hline⟩ := indentLine_eq_append hmargin body
    rw [List.map_cons, hline]
    exact .last (hlead.append hbody) (List.append_ne_nil_of_right_ne_nil _ hne)
  | @line body c _ hbody hbreak hpair _ ih =>
    obtain ⟨lead, hlead, hline⟩ := indentLine_eq_append hmargin (body ++ [c])
    rw [List.map_cons, hline, ← List.append_assoc]
    exact .line (hlead.append hbody) hbreak (fun hreturn => head?_indented hmargin (hpair hreturn))
      ih
  | @pair body _ hbody _ ih =>
    obtain ⟨lead, hlead, hline⟩ := indentLine_eq_append hmargin (body ++ ['\r', '\n'])
    rw [List.map_cons, hline, ← List.append_assoc]
    exact .pair (hlead.append hbody) ih

/-- The lines of an indented text are the indented lines of the text. -/
theorem splitLines_indentChars (hmargin : Unbroken margin) (cs : List Char) :
    splitLines (indentChars margin cs) = (splitLines cs).map (indentLine margin) :=
  splitLines_eq_iff.mpr ⟨(lines_splitLines cs).indented hmargin, rfl⟩

theorem toList_indent (margin text : String) : (indent margin text).toList =
    (splitLines text.toList).flatMap fun line =>
      if line.all isBlank then line else margin.toList ++ line :=
  String.toList_ofList

theorem indentLine_indentLine (outer inner line : List Char) :
    indentLine outer (indentLine inner line) = indentLine (outer ++ inner) line := by
  cases hblank : isAllBlank line with
  | true => simp [indentLine, hblank]
  | false =>
    have hinner : isAllBlank (inner ++ line) = false := by
      simp only [isAllBlank] at hblank ⊢
      rw [List.all_append, hblank, Bool.and_false]
    simp [indentLine, hblank, hinner]

theorem indentChars_indentChars {inner : List Char} (hinner : Unbroken inner)
    (outer cs : List Char) :
    indentChars outer (indentChars inner cs) = indentChars (outer ++ inner) cs := by
  have hlines := splitLines_indentChars hinner cs
  unfold indentChars at hlines ⊢
  rw [hlines, List.flatMap_map]
  simp only [indentLine_indentLine]

theorem indent_indent {inner : String} (hinner : Unbroken inner.toList) (outer text : String) :
    indent outer (indent inner text) = indent (outer ++ inner) text := by
  simp only [indent, String.toList_ofList, String.toList_append, indentChars_indentChars hinner]

theorem indent_empty (text : String) : indent "" text = text := by
  have hline : indentLine [] = id := by
    funext line
    unfold indentLine
    split <;> rfl
  have hchars : indentChars [] text.toList = text.toList := by
    rw [indentChars, hline, List.flatMap_id, flatten_splitLines]
  rw [indent]
  exact (congrArg String.ofList hchars).trans String.ofList_toList

theorem iterate_indent (hmargin : Unbroken margin.toList) (depth : Nat) (text : String) :
    (indent margin)^[depth] text = indent (String.join (List.replicate depth margin)) text := by
  induction depth with
  | zero => exact (indent_empty text).symm
  | succ depth ih =>
    have hmargins : Unbroken (String.join (List.replicate depth margin)).toList := by
      intro c hc
      rw [String.toList_join, List.mem_flatMap] at hc
      obtain ⟨s, hs, hc⟩ := hc
      rw [List.eq_of_mem_replicate hs] at hc
      exact hmargin c hc
    rw [Function.iterate_succ_apply', ih, indent_indent hmargins, List.replicate_succ,
      String.join_cons]

-- ---------------------------------------------------------------------------
-- Whole lines
-- ---------------------------------------------------------------------------

/-- A text that is empty or ends with a line feed. -/
def Whole (text : String) : Prop :=
  text = "" ∨ ∃ body, text = body ++ "\n"

theorem whole_empty : Whole "" :=
  .inl rfl

theorem whole_append (text : String) (h : rest.toList.getLast? = some '\n') :
    Whole (text ++ rest) := by
  obtain ⟨cs, hcs⟩ := List.getLast?_eq_some_iff.mp h
  refine .inr ⟨text ++ .ofList cs, ?_⟩
  rw [← String.toList_inj]
  simp [hcs]

theorem indent_append (h : Whole text) (margin rest : String) :
    indent margin (text ++ rest) = indent margin text ++ indent margin rest := by
  rcases h with rfl | ⟨body, rfl⟩
  · rw [String.empty_append]
    exact (String.empty_append).symm
  · have hfeed : "\n".toList = ['\n'] := rfl
    rw [← String.toList_inj]
    simp only [indent, String.toList_append, String.toList_ofList, hfeed, indentChars,
      splitLines_append, List.flatMap_append]

theorem indent_join (h : ∀ text ∈ texts, Whole text) (margin : String) :
    indent margin (String.join texts) = String.join (texts.map (indent margin)) := by
  induction texts with
  | nil => rfl
  | cons text texts ih =>
    obtain ⟨htext, htexts⟩ := List.forall_mem_cons.mp h
    rw [String.join_cons, indent_append htext, ih htexts, List.map_cons, String.join_cons]

end BlockSketch.Text
