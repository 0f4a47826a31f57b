import BlockSketch.Proofs.Expression.Lexing
import BlockSketch.Proofs.Sketch.Emit
import BlockSketch.Proofs.Text.Lines

/-!
# Names of variables

A name that can be declared is a word that is not reserved, or a word with a line feed at its end.
Its declaration takes one line in the first case and two in the second.
-/

namespace BlockSketch

-- ---------------------------------------------------------------------------
-- Lines
-- ---------------------------------------------------------------------------

namespace Text

def lineCount (s : String) : Nat :=
  (splitLines s.toList).length

end Text

namespace Sketch

open Expression (isWord isNameChar_start)
open Text (isLineBreak lineCount splitLines_line)

-- ---------------------------------------------------------------------------
-- The form of a name
-- ---------------------------------------------------------------------------

theorem isNameTail_iff : isNameTail cs = true ↔
    cs.all isNameChar = true ∨ ∃ word, cs = word ++ ['\n'] ∧ word.all isNameChar = true := by
  fun_induction isNameTail cs with
  | case1 => simp
  | case2 => exact ⟨fun _ => .inr ⟨[], rfl, rfl⟩, fun _ => rfl⟩
  | case3 c rest hlast ih =>
    rw [Bool.and_eq_true, ih, List.all_cons, Bool.and_eq_true]
    constructor
    · rintro ⟨hc, hrest | ⟨word, rfl, hword⟩⟩
      · exact .inl ⟨hc, hrest⟩
      · exact .inr ⟨c :: word, rfl, by simp [hc, hword]⟩
    · rintro (hall | ⟨word, heq, hword⟩)
      · exact ⟨hall.1, .inl hall.2⟩
      · cases word with
        | nil =>
          obtain ⟨rfl, rfl⟩ := List.cons.inj heq
          exact (hlast rfl rfl).elim
        | cons d word =>
          obtain ⟨rfl, rfl⟩ := List.cons.inj heq
          rw [List.all_cons, Bool.and_eq_true] at hword
          exact ⟨hword.1, .inr ⟨word, rfl, hword.2⟩⟩

theorem hasNameForm_iff : hasNameForm cs = true ↔
    isWord cs = true ∨ ∃ word, cs = word ++ ['\n'] ∧ isWord word = true := by
  cases cs with
  | nil => simp [hasNameForm, isWord]
  | cons c rest =>
    simp only [hasNameForm, isWord, Bool.and_eq_true, isNameTail_iff]
    constructor
    · rintro ⟨hc, hrest | ⟨word, rfl, hword⟩⟩
      · exact .inl ⟨hc, hrest⟩
      · exact .inr ⟨c :: word, rfl, by simp [hc, hword]⟩
    · rintro (hall | ⟨word, heq, hword⟩)
      · exact ⟨hall.1, .inl hall.2⟩
      · cases word with
        | nil => cases hword
        | cons d word =>
          obtain ⟨rfl, rfl⟩ := List.cons.inj heq
          rw [Bool.and_eq_true] at hword
          exact ⟨hword.1, .inr ⟨word, rfl, hword.2⟩⟩

/-- What can be declared. A line feed at the end keeps a reserved word from being recognised. -/
theorem isVariableName_iff : isVariableName s = true ↔
    isWord s.toList = true ∧ s ∉ reservedNames ∨
      ∃ word, s = word ++ "\n" ∧ isWord word.toList = true := by
  have hfed : ∀ word : String, word ++ "\n" ∉ reservedNames := by
    intro word hmem
    have hplain : ∀ s ∈ reservedNames, '\n' ∉ s.toList := by decide +kernel
    exact hplain _ hmem (by simp)
  simp only [isVariableName, Bool.and_eq_true, Bool.not_eq_true', List.contains_eq_mem,
    decide_eq_false_iff_not, hasNameForm_iff]
  constructor
  · rintro ⟨hword | ⟨word, heq, hword⟩, hfree⟩
    · exact .inl ⟨hword, hfree⟩
    · refine .inr ⟨.ofList word, ?_, by simpa using hword⟩
      rw [← String.toList_inj, heq]
      simp
  · rintro (⟨hword, hfree⟩ | ⟨word, rfl, hword⟩)
    · exact ⟨.inl hword, hfree⟩
    · exact ⟨.inr ⟨word.toList, by simp, hword⟩, hfed word⟩

theorem isNameChar_range (h : isNameChar c = true) : 48 ≤ c.toNat ∧ c.toNat ≤ 122 := by
  have hbetween : ∀ {a b : Char}, a.val ≤ c.val → c.val ≤ b.val → 48 ≤ a.toNat → b.toNat ≤ 122 →
      48 ≤ c.toNat ∧ c.toNat ≤ 122 := fun hlow hhigh ha hb =>
    ⟨Nat.le_trans ha (UInt32.le_iff_toNat_le.mp hlow),
      Nat.le_trans (UInt32.le_iff_toNat_le.mp hhigh) hb⟩
  rcases Bool.or_eq_true_iff.mp h with h | h
  · rcases Bool.or_eq_true_iff.mp h with h | h
    · rcases Bool.or_eq_true_iff.mp h with h | h
      · have hupper := of_decide_eq_true h
        exact hbetween hupper.1 hupper.2 (by decide) (by decide)
      · obtain ⟨hlow, hhigh⟩ := Bool.and_eq_true_iff.mp h
        exact hbetween (of_decide_eq_true hlow) (of_decide_eq_true hhigh) (by decide) (by decide)
    · obtain ⟨hlow, hhigh⟩ := Bool.and_eq_true_iff.mp h
      exact hbetween (of_decide_eq_true hlow) (of_decide_eq_true hhigh) (by decide) (by decide)
  · obtain rfl := of_decide_eq_true h
    decide

theorem isLineBreak_range (h : isLineBreak c = true) : c.toNat ≤ 30 ∨ 133 ≤ c.toNat := by
  unfold isLineBreak at h
  split at h
  · rename_i hle
    exact .inl hle
  · simp only [Bool.or_eq_true, beq_iff_eq] at h
    rcases h with (rfl | rfl) | rfl
    · exact .inr (by decide)
    · exact .inr (by decide)
    · exact .inr (by decide)

theorem isLineBreak_nameChar (h : isNameChar c = true) : isLineBreak c = false := by
  rw [← Bool.not_eq_true]
  intro hbreak
  have hcode := isLineBreak_range hbreak
  have hrange := isNameChar_range h
  omega

theorem isLineBreak_word (h : isWord cs = true) : ∀ c ∈ cs, isLineBreak c = false := by
  cases cs with
  | nil => cases h
  | cons c cs =>
    simp only [isWord, Bool.and_eq_true, List.all_eq_true] at h
    intro d hd
    rcases List.mem_cons.mp hd with rfl | hd
    · exact isLineBreak_nameChar (isNameChar_start h.1)
    · exact isLineBreak_nameChar (h.2 d hd)

-- ---------------------------------------------------------------------------
-- Declarations
-- ---------------------------------------------------------------------------

def declarationText (name : String) : String :=
  "float " ++ name ++ " = 0;\n"

def declaration (name : String) : Definition where
  key := .text ("variable_" ++ name)
  text := .text (declarationText name)

theorem declaration_key_inj : (declaration s).key = (declaration s').key ↔ s = s' := by
  simp [declaration]

theorem declarationText_inj : declarationText s = declarationText s' ↔ s = s' := by
  simp only [declarationText, String.append_left_inj, String.append_right_inj]

theorem isLineBreak_none {cs : List Char} (h : cs.any isLineBreak = false) :
    ∀ c ∈ cs, isLineBreak c = false := by
  simpa using h

theorem lineCount_declaration (h : isWord name.toList = true) :
    lineCount (declarationText name) = 1 := by
  have hline : ∀ c ∈ "float ".toList ++ name.toList ++ " = 0;".toList, isLineBreak c = false := by
    simp only [List.forall_mem_append]
    exact ⟨⟨isLineBreak_none rfl, isLineBreak_word h⟩, isLineBreak_none rfl⟩
  have hchars : (declarationText name).toList =
      ("float ".toList ++ name.toList ++ " = 0;".toList) ++ ['\n'] := by
    simp [declarationText]
  rw [lineCount, hchars, splitLines_line hline]
  rfl

theorem lineCount_declaration_fed (h : isWord word.toList = true) :
    lineCount (declarationText (word ++ "\n")) = 2 := by
  have hline : ∀ c ∈ "float ".toList ++ word.toList, isLineBreak c = false := by
    simp only [List.forall_mem_append]
    exact ⟨isLineBreak_none rfl, isLineBreak_word h⟩
  have hchars : (declarationText (word ++ "\n")).toList =
      ("float ".toList ++ word.toList) ++ '\n' :: " = 0;\n".toList := by
    simp [declarationText]
  rw [lineCount, hchars, splitLines_line hline]
  rfl

section
variable {operand : Value → Order → Gen Value} {body : Value → Gen String}
  {complain : Complaint → Fault} {names : List String}

theorem declareVariables_cons (h : isVariableName name = true) (rest : List Value) :
    Arduino.declareVariables (.text name :: rest) =
      .define (declaration name) (Arduino.declareVariables rest) := by
  simp only [Arduino.declareVariables, Value.text?, Option.filter, h, if_true]
  rfl

theorem put_new {entries : Table α} (h : Value.text s ∉ entries.keys) (a : α) :
    entries.put (.text s) a = entries ++ [(Value.text s, a)] := by
  induction entries with
  | nil => rfl
  | cons e entries ih =>
    simp only [Table.keys, List.map_cons, List.mem_cons, not_or] at h ih
    rw [Table.put_cons, Value.coincides_text_of_ne (Ne.symm h.1), ih h.2]
    rfl

theorem declareVariables_ok (hvalid : ∀ name ∈ names, isVariableName name = true)
    (hdistinct : names.Nodup) (hnew : ∀ name ∈ names, (declaration name).key ∉ run.definitions.keys) :
    (Arduino.declareVariables (names.map .text)).run operand body complain run =
      .ok ((), { run with
        definitions := run.definitions ++ names.map fun name =>
          ((declaration name).key, declaration name) }) := by
  induction names generalizing run with
  | nil => simp [Arduino.declareVariables]; rfl
  | cons name names ih =>
    obtain ⟨hname, hrest⟩ := List.forall_mem_cons.mp hvalid
    obtain ⟨hfresh, hothers⟩ := List.forall_mem_cons.mp hnew
    obtain ⟨hdiff, hdistinct⟩ := List.nodup_cons.mp hdistinct
    have hadd : run.definitions.add (declaration name) =
        run.definitions ++ [((declaration name).key, declaration name)] := put_new hfresh _
    have hstill : ∀ other ∈ names,
        (declaration other).key ∉ (run.definitions.add (declaration name)).keys := by
      intro other hother
      rw [hadd]
      simp only [Table.keys, List.map_append, List.mem_append, List.map_cons, List.map_nil,
        List.mem_singleton, not_or]
      refine ⟨hothers other hother, fun heq => hdiff ?_⟩
      exact declaration_key_inj.mp heq ▸ hother
    rw [List.map_cons, declareVariables_cons hname]
    refine (ih hrest hdistinct hstill).trans ?_
    simp [hadd]

/-- A sketch that only declares variables has their declarations in its global part, in order. -/
theorem declareVariables_texts (hvalid : ∀ name ∈ names, isVariableName name = true)
    (hdistinct : names.Nodup) :
    ∃ run, (Arduino.declareVariables (names.map .text)).run operand body complain
        (.start (names.map .text)) = .ok ((), run) ∧
      run.definitions.texts (some .global) = names.map fun name => .text (declarationText name) := by
  refine ⟨_, declareVariables_ok hvalid hdistinct (by simp [Run.start, Table.keys]), ?_⟩
  simp [Run.start, Definitions.texts, declaration, List.filter_map, Function.comp_def]

end

end Sketch

end BlockSketch
