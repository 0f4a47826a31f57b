import BlockSketch.Proofs.Program.Tokens
import BlockSketch.Proofs.Sketch.Names
import Mathlib.Logic.Function.Iterate

/-!
# Moving code to the right

Code is moved right line by line, and a line ends at every break, also at those that a string
literal holds as they are. The tokens stay as they were apart from such literals: these stand for
another text afterwards, with margins behind their breaks.
-/

namespace BlockSketch

open Sketch (escapeChar isLineBreak_range isNameChar isNameChar_range isNameStart
  stringLiteralChars)

-- ---------------------------------------------------------------------------
-- Lines
-- ---------------------------------------------------------------------------

namespace Text

theorem isBlank_lineBreak (h : isLineBreak c = true) : isBlank c = true := by
  unfold isLineBreak at h
  unfold isBlank blankRanges CodeRanges.contains
  split at h
  · simp only [Bool.or_eq_true, Bool.and_eq_true, decide_eq_true_eq] at h
    have hle : c.toNat ≤ 30 := ‹c ≤ '\x1e'›
    rcases h with ⟨hlow, hhigh⟩ | hlow
    · have h10 : 10 ≤ c.toNat := hlow
      have h13 : c.toNat ≤ 13 := hhigh
      simp only [List.any_cons, Bool.or_eq_true, Bool.and_eq_true, decide_eq_true_eq]
      omega
    · have h28 : 28 ≤ c.toNat := hlow
      simp only [List.any_cons, Bool.or_eq_true, Bool.and_eq_true, decide_eq_true_eq]
      omega
  · simp only [Bool.or_eq_true, beq_iff_eq] at h
    rcases h with (rfl | rfl) | rfl <;> decide

def firstBlank : List Char → Bool
  | [] => true
  | c :: cs => isLineBreak c || isBlank c && firstBlank cs

def lead (margin cs : List Char) : List Char :=
  if firstBlank cs then [] else margin

/-- The margins behind the breaks of a text: those of all lines but the first. -/
def indentRest (margin : List Char) : List Char → List Char
  | [] => []
  | c :: cs => c :: ((if isLineBreak c then lead margin cs else []) ++ indentRest margin cs)

theorem headD_consToFirst (c : Char) (lines : List (List Char)) :
    (consToFirst c lines).headD [] = c :: lines.headD [] := by
  cases lines <;> rfl

theorem tail_consToFirst (c : Char) (lines : List (List Char)) :
    (consToFirst c lines).tail = lines.tail := by
  cases lines <;> rfl

theorem isAllBlank_first (hreturn : '\r' ∉ cs) :
    isAllBlank ((splitLines cs).headD []) = firstBlank cs := by
  induction cs with
  | nil => rfl
  | cons c cs ih =>
    simp only [List.mem_cons, not_or] at hreturn
    rw [splitLines_cons (Ne.symm hreturn.1), firstBlank]
    cases hbreak : isLineBreak c with
    | true => simp [isAllBlank, isBlank_lineBreak hbreak]
    | false =>
      have hrest := ih hreturn.2
      simp only [isAllBlank] at hrest
      rw [if_neg Bool.false_ne_true, headD_consToFirst, isAllBlank, List.all_cons, hrest]
      rfl

theorem indentChars_lines (hreturn : '\r' ∉ cs) (margin : List Char) :
    indentChars margin cs = lead margin cs ++
      ((splitLines cs).headD [] ++ (splitLines cs).tail.flatMap (indentLine margin)) := by
  have hblank := isAllBlank_first hreturn
  unfold indentChars lead
  cases hlines : splitLines cs with
  | nil => simp [← hblank, hlines, isAllBlank]
  | cons line rest =>
    rw [hlines, List.headD_cons] at hblank
    rw [List.flatMap_cons, indentLine, hblank]
    split <;> simp

theorem first_append_others (hreturn : '\r' ∉ cs) (margin : List Char) :
    (splitLines cs).headD [] ++ (splitLines cs).tail.flatMap (indentLine margin) =
      indentRest margin cs := by
  induction cs with
  | nil => rfl
  | cons c cs ih =>
    simp only [List.mem_cons, not_or] at hreturn
    rw [splitLines_cons (Ne.symm hreturn.1), indentRest, ← ih hreturn.2]
    cases isLineBreak c with
    | true =>
      rw [if_pos rfl, if_pos rfl, ← indentChars_lines hreturn.2]
      rfl
    | false =>
      rw [if_neg Bool.false_ne_true, headD_consToFirst, tail_consToFirst]
      rfl

theorem indentChars_eq (hreturn : '\r' ∉ cs) (margin : List Char) :
    indentChars margin cs = lead margin cs ++ indentRest margin cs := by
  rw [indentChars_lines hreturn, first_append_others hreturn]

end Text

namespace Program

open Text (firstBlank indentRest isBlank isLineBreak lead)

-- ---------------------------------------------------------------------------
-- Literals
-- ---------------------------------------------------------------------------

def isRaw (c : Char) : Bool :=
  escapeChar c = [c]

/-- A break that stands in a literal as it is. -/
def isInnerBreak (c : Char) : Bool :=
  isLineBreak c && isRaw c

/-- Whether only blanks come up to the next break. The quote at the end of a literal is no blank. -/
def blankAhead : List Char → Bool
  | [] => false
  | c :: cs => isInnerBreak c || isBlank c && isRaw c && blankAhead cs

/-- A text with a margin in every line but the first, as far as a literal has lines. -/
def shift (margin : List Char) : List Char → List Char
  | [] => []
  | c :: cs =>
    c :: ((if isInnerBreak c && !blankAhead cs then margin else []) ++ shift margin cs)

theorem escapeChar_cases (c : Char) : escapeChar c = [c] ∧ isRaw c = true ∨
    isRaw c = false ∧ ∃ d, escapeChar c = ['\\', d] ∧ isLineBreak d = false := by
  by_cases hraw : escapeChar c = [c]
  · exact .inl ⟨hraw, decide_eq_true hraw⟩
  · refine .inr ⟨decide_eq_false hraw, ?_⟩
    unfold escapeChar at hraw ⊢
    split at hraw
    case h_6 => exact (hraw rfl).elim
    all_goals exact ⟨_, rfl, rfl⟩

theorem firstBlank_literal (s rest : List Char) :
    firstBlank (s.flatMap escapeChar ++ '"' :: rest) = blankAhead s := by
  induction s with
  | nil => rfl
  | cons c s ih =>
    rw [List.flatMap_cons, List.append_assoc, blankAhead, isInnerBreak]
    rcases escapeChar_cases c with ⟨hcode, hraw⟩ | ⟨hraw, d, hcode, -⟩
    · simp [hcode, hraw, firstBlank, ih]
    · rw [hcode, hraw, Bool.and_false, Bool.and_false]
      rfl

theorem flatMap_escapeChar_spaces {margin : List Char} (hmargin : ∀ c ∈ margin, c = ' ') :
    margin.flatMap escapeChar = margin := by
  induction margin with
  | nil => rfl
  | cons c margin ih =>
    obtain ⟨rfl, hrest⟩ := List.forall_mem_cons.mp hmargin
    rw [List.flatMap_cons, ih hrest]
    rfl

theorem indentRest_escaped (hmargin : ∀ c ∈ margin, c = ' ') (s rest : List Char) :
    indentRest margin (s.flatMap escapeChar ++ '"' :: rest) =
      (shift margin s).flatMap escapeChar ++ '"' :: indentRest margin rest := by
  induction s with
  | nil => rfl
  | cons c s ih =>
    rw [List.flatMap_cons, List.append_assoc, shift, List.flatMap_cons, isInnerBreak]
    rcases escapeChar_cases c with ⟨hcode, hraw⟩ | ⟨hraw, d, hcode, hd⟩
    · have hlead : lead margin (s.flatMap escapeChar ++ '"' :: rest) =
          if blankAhead s then [] else margin := by rw [lead, firstBlank_literal]
      rw [hcode, hraw, Bool.and_true, List.singleton_append, indentRest, ih, hlead]
      cases isLineBreak c <;> cases blankAhead s <;>
        simp [flatMap_escapeChar_spaces hmargin]
    · have hbackslash : isLineBreak '\\' = false := rfl
      simp [hcode, hraw, indentRest, hbackslash, hd, ih]

theorem indentRest_stringLiteral (hmargin : ∀ c ∈ margin, c = ' ') (s rest : List Char) :
    indentRest margin (stringLiteralChars s ++ rest) =
      stringLiteralChars (shift margin s) ++ indentRest margin rest := by
  have hquote : isLineBreak '"' = false := rfl
  simp [stringLiteralChars, indentRest, hquote, indentRest_escaped hmargin]

-- ---------------------------------------------------------------------------
-- Texts that stay as they are
-- ---------------------------------------------------------------------------

theorem exists_innerBreak_of_blankAhead (h : blankAhead s = true) :
    ∃ c ∈ s, isInnerBreak c = true := by
  induction s with
  | nil => cases h
  | cons c s ih =>
    simp only [blankAhead, Bool.or_eq_true, Bool.and_eq_true] at h
    rcases h with h | ⟨-, h⟩
    · exact ⟨c, List.mem_cons_self, h⟩
    · obtain ⟨d, hd, hbreak⟩ := ih h
      exact ⟨d, List.mem_cons_of_mem c hd, hbreak⟩

theorem sublist_shift (margin s : List Char) : s.Sublist (shift margin s) := by
  induction s with
  | nil => exact .slnil
  | cons c s ih => exact (ih.trans (List.sublist_append_right _ _)).cons_cons c

/-- Only a text without breaks stays as it is: no line is blank behind the last break. -/
theorem shift_eq_self_iff : shift margin s = s ↔
    margin = [] ∨ ∀ c ∈ s, isInnerBreak c = false := by
  induction s with
  | nil => simp [shift]
  | cons c s ih =>
    rw [shift, List.cons.injEq, and_iff_right rfl, List.forall_mem_cons]
    constructor
    · intro h
      have hlength := congrArg List.length h
      have hle := (sublist_shift margin s).length_le
      rw [List.length_append] at hlength
      have hnone : (if isInnerBreak c && !blankAhead s then margin else []) = [] :=
        List.eq_nil_of_length_eq_zero (by omega)
      rw [hnone, List.nil_append] at h
      by_cases hmargin : margin = []
      · exact .inl hmargin
      have hrest := (ih.mp h).resolve_left hmargin
      refine .inr ⟨?_, hrest⟩
      cases hc : isInnerBreak c with
      | false => rfl
      | true =>
        cases hahead : blankAhead s with
        | false =>
          simp only [hc, hahead, Bool.not_false, Bool.and_self, if_true] at hnone
          exact (hmargin hnone).elim
        | true =>
          obtain ⟨d, hd, hbreak⟩ := exists_innerBreak_of_blankAhead hahead
          rw [hrest d hd] at hbreak
          cases hbreak
    · rintro (rfl | ⟨hc, hrest⟩)
      · simpa using ih.mpr (.inl rfl)
      · simpa [hc] using ih.mpr (.inr hrest)

/-- What a literal stands for once its code has been moved right. -/
def shiftText (margin : List Char) (s : String) : String :=
  .ofList (shift margin s.toList)

theorem length_le_iterate (margin : List Char) (s : String) (k : Nat) :
    s.toList.length ≤ ((shiftText margin)^[k] s).toList.length := by
  induction k generalizing s with
  | zero => exact Nat.le_refl _
  | succ k ih =>
    refine Nat.le_trans ?_ (ih (shiftText margin s))
    simpa [shiftText] using (sublist_shift margin s.toList).length_le

/-- A text that changes never comes back. -/
theorem iterate_shiftText_eq_self_iff : (shiftText margin)^[k] s = s ↔
    k = 0 ∨ margin = [] ∨ ∀ c ∈ s.toList, isInnerBreak c = false := by
  have hfixed : shiftText margin s = s ↔ shift margin s.toList = s.toList := by
    rw [← String.toList_inj, shiftText, String.toList_ofList]
  rw [← shift_eq_self_iff, ← hfixed]
  cases k with
  | zero => simp
  | succ k =>
    refine ⟨fun h => .inr ?_, fun h => ?_⟩
    · have hle := length_le_iterate margin (shiftText margin s) k
      rw [← Function.iterate_succ_apply, h] at hle
      rw [hfixed]
      have hsub := sublist_shift margin s.toList
      exact (hsub.eq_of_length_le (by simpa [shiftText] using hle)).symm
    · exact Function.iterate_fixed (h.resolve_left (Nat.succ_ne_zero k)) _

-- ---------------------------------------------------------------------------
-- Code
-- ---------------------------------------------------------------------------

def Token.shift (margin : List Char) : Token → Token
  | .text s => .text (shiftText margin s)
  | t => t

theorem isSign_range : ∀ c ∈ signs, 32 ≤ c.toNat ∧ c.toNat ≤ 126 := by
  simp [signs]

theorem start_range (h : start c = some (us, m)) : c = '\n' ∨ 32 ≤ c.toNat ∧ c.toNat ≤ 126 := by
  have hname : isNameChar c = true → 32 ≤ c.toNat ∧ c.toNat ≤ 126 := fun hc => by
    have := isNameChar_range hc
    omega
  unfold start at h
  split at h
  · exact .inr (hname (Expression.isNameChar_start ‹_›))
  split at h
  · exact .inr (hname (Expression.isNameChar_digit ‹_›))
  split at h
  · exact .inr (by subst c; decide)
  split at h
  · exact .inr (by subst c; decide)
  split at h
  · exact .inr (by subst c; decide)
  split at h
  · rename_i hblank
    simp only [Bool.or_eq_true, decide_eq_true_eq] at hblank
    rcases hblank with rfl | rfl
    · exact .inr (by decide)
    · exact .inl rfl
  split at h
  · exact .inr (isSign_range c (by simpa using ‹signs.contains c = true›))
  · cases h

theorem step_range (h : step m c = some (us, m')) (hm : m.inText = false) :
    c = '\n' ∨ 32 ≤ c.toNat ∧ c.toNat ≤ 126 := by
  have hname : isNameChar c = true → c = '\n' ∨ 32 ≤ c.toNat ∧ c.toNat ≤ 126 := fun hc => by
    have := isNameChar_range hc
    omega
  have hfinish : ∀ {t}, finish t c = some (us, m') → c = '\n' ∨ 32 ≤ c.toNat ∧ c.toNat ≤ 126 := by
    intro t hfinish
    obtain ⟨⟨vs, m''⟩, hstart, -⟩ := Option.map_eq_some_iff.mp hfinish
    exact start_range hstart
  cases m with
  | plain => exact start_range h
  | text cs => cases hm
  | escape cs => cases hm
  | word cs | member cs =>
    simp only [step] at h
    split at h
    · exact hname ‹_›
    · exact hfinish h
  | number marked cs =>
    simp only [step] at h
    split at h
    · rename_i hextends
      simp only [Expression.extendsNumber, Bool.or_eq_true, Bool.and_eq_true, decide_eq_true_eq]
        at hextends
      rcases hextends with (hc | rfl) | ⟨-, rfl | rfl⟩
      · exact hname hc
      · exact .inr (by decide)
      · exact .inr (by decide)
      · exact .inr (by decide)
    · exact hfinish h
  | point =>
    simp only [step, Bool.or_eq_true, decide_eq_true_eq] at h
    split at h
    · rename_i hblank
      rcases hblank with rfl | rfl
      · exact .inr (by decide)
      · exact .inl rfl
    split at h
    · exact hname (Expression.isNameChar_start ‹_›)
    · cases h
  | slash =>
    simp only [step] at h
    split at h
    · cases h
    · exact hfinish h

theorem start_shift (h : start c = some (us, m)) : us.map (Token.shift margin) = us := by
  unfold start at h
  grind [Token.shift]

theorem step_shift (h : step m c = some (us, m')) (hm : m.inText = false) (margin : List Char) :
    us.map (Token.shift margin) = us := by
  have hfinish : ∀ {t}, t.shift margin = t → finish t c = some (us, m') →
      us.map (Token.shift margin) = us := by
    intro t ht hfinish
    obtain ⟨⟨vs, m''⟩, hstart, heq⟩ := Option.map_eq_some_iff.mp hfinish
    cases heq
    rw [List.map_cons, ht, start_shift hstart]
  cases m with
  | plain => exact start_shift h
  | text cs => cases hm
  | escape cs => cases hm
  | word cs | member cs | number marked cs =>
    simp only [step] at h
    split at h
    · cases h
      rfl
    · exact hfinish rfl h
  | point =>
    simp only [step] at h
    grind
  | slash =>
    simp only [step] at h
    split at h
    · cases h
    · exact hfinish rfl h

/-- Behind a line feed, spaces change nothing. -/
theorem step_feed (h : step m '\n' = some (us, m')) (hm : m.inText = false) :
    step m' ' ' = some ([], m') := by
  cases m with
  | text cs => cases hm
  | escape cs => cases hm
  | number marked cs =>
    cases marked <;> cases h <;> rfl
  | _ =>
    cases h
    rfl

theorem lead_spaces (hmargin : ∀ c ∈ margin, c = ' ') (cs : List Char) :
    ∀ c ∈ lead margin cs, c = ' ' := by
  unfold lead
  split
  · exact fun c hc => (List.not_mem_nil hc).elim
  · exact hmargin

theorem Spelled.spaces (hmargin : ∀ c ∈ margin, c = ' ') (hm : step m ' ' = some ([], m))
    (hout : m.inText = false) (h : Spelled m cs ts m') : Spelled m (margin ++ cs) ts m' := by
  induction margin with
  | nil => exact h
  | cons c margin ih =>
    obtain ⟨rfl, hrest⟩ := List.forall_mem_cons.mp hmargin
    exact .char hm hout (ih hrest)

theorem Spelled.no_return (h : Spelled m cs ts m') (hm : m.inText = false) : '\r' ∉ cs := by
  induction h with
  | nil => exact List.not_mem_nil
  | char hstep hout _ ih =>
    intro hmem
    rcases List.mem_cons.mp hmem with rfl | hmem
    · rcases step_range hstep hm with heq | hrange
      · cases heq
      · exact absurd hrange (by decide)
    · exact ih hout hmem
  | text s _ ih =>
    have hescaped : ∀ c, '\r' ∉ escapeChar c := by
      intro c
      unfold escapeChar
      split
      case h_6 hreturn _ => simpa using Ne.symm hreturn
      all_goals decide
    have hliteral : '\r' ∉ stringLiteralChars s := by
      simp [stringLiteralChars, hescaped]
    simp [hliteral, ih rfl]

theorem Spelled.indentRest (hmargin : ∀ c ∈ margin, c = ' ') (h : Spelled m cs ts m')
    (hm : m.inText = false) :
    Spelled m (Text.indentRest margin cs) (ts.map (Token.shift margin)) m' := by
  induction h with
  | nil => exact .nil
  | @char _ c _ _ cs _ _ hstep hout _ ih =>
    rw [Text.indentRest, List.map_append, step_shift hstep hm]
    refine .char hstep hout ?_
    cases hbreak : isLineBreak c with
    | false => exact ih hout
    | true =>
      obtain rfl : c = '\n' := by
        refine (step_range hstep hm).resolve_right fun hrange => ?_
        have := isLineBreak_range hbreak
        omega
      exact .spaces (lead_spaces hmargin cs) (step_feed hstep hm) hout (ih hout)
  | text s _ ih =>
    have htoken : Token.shift margin (.text (.ofList s)) = .text (.ofList (shift margin s)) := by
      simp [Token.shift, shiftText]
    rw [indentRest_stringLiteral hmargin, List.map_cons, htoken]
    exact .text (shift margin s) (ih rfl)

/-- Code that is moved right keeps its tokens apart from texts with breaks. -/
theorem Spelled.indent {code : String} {margin : String} (hmargin : ∀ c ∈ margin.toList, c = ' ')
    (h : Spelled .plain code.toList ts m) :
    Spelled .plain (Text.indent margin code).toList (ts.map (Token.shift margin.toList)) m := by
  rw [Text.indent, String.toList_ofList, Text.indentChars_eq (h.no_return rfl)]
  exact .spaces (lead_spaces hmargin _) rfl rfl (h.indentRest hmargin rfl)

theorem Balanced.shift (h : Balanced ts) (margin : List Char) :
    Balanced (ts.map (Token.shift margin)) := by
  have hnest : ∀ depth t, nest depth (Token.shift margin t) = nest depth t := by
    intro depth t
    cases t with
    | text s => simp [Token.shift, nest]
    | _ => rfl
  intro depth
  simpa [List.foldlM_map, hnest] using h depth

end Program

end BlockSketch
