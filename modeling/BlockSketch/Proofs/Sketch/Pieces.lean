import BlockSketch.Proofs.Expression.Numerals
import BlockSketch.Proofs.Program.Indentation
import BlockSketch.Sketch.Arduino

/-!
# Pieces of a sketch

What a program tells of its blocks are marks: texts, variables, pins, and programs inside it. A
piece of code is read as tokens that tell its marks in order and, apart from these, hold no string
literal and no declared name. Pieces are put together from templates, names, numbers, literals and
other pieces.
-/

namespace BlockSketch.Sketch

open Expression (isNumeral isWord numeral_cases numberLiteral_eq)
open Program (Balanced Mode Spelled Token flush isClosing literals nest scan shiftText step step_closing
  step_word)

-- ---------------------------------------------------------------------------
-- Marks
-- ---------------------------------------------------------------------------

inductive Mark where
  /-- A text, and in how many statement sockets it stands. -/
  | text (s : String) (level : Nat)
  | use (s : String)
  | pin (s : String)
  /-- A whole program, with all its declarations. -/
  | program
  deriving DecidableEq, Repr

def Mark.deeper : Mark → Mark
  | .text s level => .text s (level + 1)
  | m => m

/-- The identifier at the start of a name. -/
def stem (s : String) : String :=
  .ofList (s.toList.takeWhile isNameChar)

/-- The token of a mark in a program whose lines are moved right by a margin. -/
def Mark.token? (margin : List Char) : Mark → Option Token
  | .text s level => some (.text ((shiftText margin)^[level] s))
  | .use s => some (.word (stem s))
  | .pin s => some (.word s)
  | .program => none

def tells (declared : String → Bool) : Token → Bool
  | .text _ => true
  | .word s => declared s
  | _ => false

/-- Some tokens tell some marks in order, and nothing else. Of a whole program they tell all declared
names. -/
inductive Tells (margin : List Char) (declared : String → Bool) : List Mark → List Token → Prop
  | nil : Tells margin declared [] []
  | quiet (ht : tells declared t = false) (h : Tells margin declared ms ts) :
      Tells margin declared ms (t :: ts)
  | mark (hm : m.token? margin = some t) (h : Tells margin declared ms ts) :
      Tells margin declared (m :: ms) (t :: ts)
  | program (htexts : literals us = []) (hwords : ∀ s, declared s = true → .word s ∈ us)
      (h : Tells margin declared ms ts) : Tells margin declared (.program :: ms) (us ++ ts)

section
variable {margin : List Char} {declared : String → Bool}

theorem Tells.append (h : Tells margin declared ms ts) (h' : Tells margin declared ms' ts') :
    Tells margin declared (ms ++ ms') (ts ++ ts') := by
  induction h with
  | nil => exact h'
  | quiet ht _ ih => exact .quiet ht ih
  | mark hm _ ih => exact .mark hm ih
  | program htexts hwords _ ih =>
    rw [List.append_assoc]
    exact .program htexts hwords ih

theorem Tells.of_quiet (h : ∀ t ∈ ts, tells declared t = false) : Tells margin declared [] ts := by
  induction ts with
  | nil => exact .nil
  | cons t ts ih =>
    obtain ⟨ht, hts⟩ := List.forall_mem_cons.mp h
    exact .quiet ht (ih hts)

theorem tells_shift (t : Token) : tells declared (t.shift margin) = tells declared t := by
  cases t <;> rfl

theorem Mark.token?_deeper {m : Mark} (h : m.token? margin = some t) :
    m.deeper.token? margin = some (t.shift margin) := by
  cases m with
  | text s level =>
    cases h
    simp only [deeper, token?, Token.shift, Function.iterate_succ_apply']
  | use s | pin s =>
    cases h
    rfl
  | program => cases h

theorem literals_shift (h : literals us = []) : literals (us.map (Token.shift margin)) = [] := by
  simp only [literals, List.filterMap_eq_nil_iff] at h ⊢
  intro t ht
  obtain ⟨u, hu, rfl⟩ := List.mem_map.mp ht
  have hnone := h u hu
  cases u with
  | text s => cases hnone
  | _ => rfl

/-- Code that is moved right tells the same marks, one socket deeper. -/
theorem Tells.deeper (h : Tells margin declared ms ts) :
    Tells margin declared (ms.map Mark.deeper) (ts.map (Token.shift margin)) := by
  induction h with
  | nil => exact .nil
  | quiet ht _ ih => exact .quiet ((tells_shift _).trans ht) ih
  | mark hm _ ih => exact .mark (Mark.token?_deeper hm) ih
  | program htexts hwords _ ih =>
    rw [List.map_append]
    exact .program (literals_shift htexts)
      (fun s hs => List.mem_map.mpr ⟨.word s, hwords s hs, rfl⟩) ih

end

-- ---------------------------------------------------------------------------
-- Pieces
-- ---------------------------------------------------------------------------

/-- How a piece ends, which limits what can follow it. -/
inductive Ending where
  | closed
  | name
  | any

def Ending.Holds : Ending → Mode → Prop
  | .closed, m => m = .plain
  | .name, m => ∃ cs, m = .word cs
  | .any, _ => True

def Ending.allows : Ending → Char → Bool
  | .closed, _ => true
  | .name, c => [' ', ')', ';', ',', '+'].contains c
  | .any, c => isClosing c

def Piece (margin : List Char) (declared : String → Bool) (ending : Ending) (ms : List Mark)
    (code : String) : Prop :=
  ∃ ts m last, Spelled .plain code.toList ts m ∧ flush m = some last ∧ ending.Holds m ∧
    Balanced (ts ++ last) ∧ Tells margin declared ms (ts ++ last)

namespace Piece

section
variable {margin : List Char} {declared : String → Bool} {ending ending' : Ending}

theorem spelled (h : Piece margin declared .closed ms code) :
    ∃ ts, Spelled .plain code.toList ts .plain ∧ Balanced ts ∧ Tells margin declared ms ts := by
  obtain ⟨ts, m, last, hspelled, hflush, rfl, hbalanced, htells⟩ := h
  obtain rfl := Option.some.inj hflush
  rw [List.append_nil] at hbalanced htells
  exact ⟨ts, hspelled, hbalanced, htells⟩

theorem of_spelled (hspelled : Spelled .plain code.toList ts .plain) (hbalanced : Balanced ts)
    (htells : Tells margin declared ms ts) : Piece margin declared .closed ms code :=
  ⟨ts, .plain, [], hspelled, rfl, rfl, by simpa using hbalanced, by simpa using htells⟩

theorem weaken (h : Piece margin declared ending ms code) : Piece margin declared .any ms code := by
  obtain ⟨ts, m, last, hspelled, hflush, -, hbalanced, htells⟩ := h
  exact ⟨ts, m, last, hspelled, hflush, trivial, hbalanced, htells⟩

theorem empty : Piece margin declared .closed [] "" :=
  of_spelled .nil .nil .nil

theorem append (h : Piece margin declared .closed ms a) (h' : Piece margin declared ending ms' b) :
    Piece margin declared ending (ms ++ ms') (a ++ b) := by
  obtain ⟨ts, hspelled, hbalanced, htells⟩ := h.spelled
  obtain ⟨us, m, last, hspelled', hflush, hending, hbalanced', htells'⟩ := h'
  refine ⟨ts ++ us, m, last, ?_, hflush, hending, ?_, ?_⟩
  · rw [String.toList_append]
    exact hspelled.append hspelled'
  · rw [List.append_assoc]
    exact hbalanced.append hbalanced'
  · rw [List.append_assoc]
    exact htells.append htells'

/-- What can stand right behind a piece. -/
theorem step_allowed (hflush : flush m = some last) (hending : ending.Holds m)
    (hc : ending.allows c = true) (hstep : step .plain c = some (us, m')) :
    step m c = some (last ++ us, m') := by
  cases ending with
  | closed =>
    obtain rfl : m = .plain := hending
    cases hflush
    exact hstep
  | name =>
    obtain ⟨cs, rfl⟩ : ∃ cs, m = .word cs := hending
    cases hflush
    refine step_word ?_ hstep
    simp only [Ending.allows, List.contains_eq_mem, List.mem_cons, List.not_mem_nil, or_false,
      decide_eq_true_eq] at hc
    rcases hc with rfl | rfl | rfl | rfl | rfl <;> rfl
  | any => exact step_closing hflush hc hstep

theorem follow (h : Piece margin declared ending ms a) (h' : Piece margin declared ending' ms' b)
    (hb : b.toList.head?.any (fun c => ending.allows c && c != '"') = true) :
    Piece margin declared ending' (ms ++ ms') (a ++ b) := by
  obtain ⟨ts, m, last, hspelled, hflush, hending, hbalanced, htells⟩ := h
  obtain ⟨us, m', last', hspelled', hflush', hending', hbalanced', htells'⟩ := h'
  refine ⟨ts ++ last ++ us, m', last', ?_, hflush', hending', ?_, ?_⟩
  · rw [String.toList_append]
    cases hcode : b.toList with
    | nil =>
      rw [hcode] at hb
      cases hb
    | cons d ds =>
      rw [hcode] at hb hspelled'
      simp only [List.head?_cons, Option.any_some, Bool.and_eq_true, bne_iff_ne] at hb
      exact hspelled.follow hspelled' hb.2 (step_allowed hflush hending hb.1)
  · rw [List.append_assoc]
    exact hbalanced.append hbalanced'
  · rw [List.append_assoc]
    exact htells.append htells'

-- ---------------------------------------------------------------------------
-- Names, numbers and literals
-- ---------------------------------------------------------------------------

theorem balanced_single {t : Token} (hopen : t ≠ .sign '\x7b') (hclose : t ≠ .sign '\x7d') :
    Balanced [t] := by
  intro depth
  simp [nest, hopen, hclose]

theorem word (hword : isWord s.toList = true) (htells : Tells margin declared ms [.word s]) :
    Piece margin declared .name ms s :=
  ⟨[], .word s.toList, [.word s], .word hword, by simp [flush], ⟨_, rfl⟩,
    balanced_single (by simp) (by simp), htells⟩

theorem quietWord (hword : isWord s.toList = true) (hs : declared s = false) :
    Piece margin declared .name [] s :=
  word hword (.of_quiet (by simpa [tells] using hs))

theorem pin (hword : isWord s.toList = true) : Piece margin declared .name [.pin s] s :=
  word hword (.mark rfl .nil)

theorem stem_word (hword : isWord s.toList = true) (rest : String)
    (hrest : ∀ c ∈ rest.toList.head?, isNameChar c = false) : stem (s ++ rest) = s := by
  have hall : ∀ c ∈ s.toList, isNameChar c = true := by
    cases hs : s.toList with
    | nil => simp
    | cons c cs =>
      rw [hs, isWord, Bool.and_eq_true, List.all_eq_true] at hword
      exact List.forall_mem_cons.mpr ⟨Expression.isNameChar_start hword.1, hword.2⟩
  have hnone : rest.toList.takeWhile isNameChar = [] := by
    cases hcode : rest.toList with
    | nil => rfl
    | cons c cs => simp [hrest c (by simp [hcode])]
  rw [stem, String.toList_append, List.takeWhile_append_of_pos hall, hnone]
  simp

theorem stem_self (hword : isWord s.toList = true) : stem s = s := by
  simpa using stem_word hword "" (by simp)

theorem spelled_name (h : isVariableName s = true) :
    ∃ ts m last, Spelled .plain s.toList ts m ∧ flush m = some last ∧
      ts ++ last = [.word (stem s)] := by
  rcases isVariableName_iff.mp h with ⟨hword, -⟩ | ⟨word, rfl, hword⟩
  · exact ⟨[], _, _, .word hword, rfl, by simp [stem_self hword]⟩
  · have hstem : stem (word ++ "\n") = word := stem_word hword "\n" (by simp [isNameChar])
    have hstep : ∀ {vs m}, step .plain '\n' = some (vs, m) →
        step (.word word.toList) '\n' = some ([.word word] ++ vs, m) := fun h => by
      rw [step_word rfl h, String.ofList_toList]
      rfl
    refine ⟨[.word word], .plain, [], ?_, rfl, by rw [hstem, List.append_nil]⟩
    rw [String.toList_append]
    exact (Spelled.word hword).follow (.of_scan rfl rfl (by decide)) (by decide) hstep

theorem use (h : isVariableName s = true) : Piece margin declared .any [.use s] s := by
  obtain ⟨ts, m, last, hspelled, hflush, htokens⟩ := spelled_name h
  refine ⟨ts, m, last, hspelled, hflush, trivial, ?_, ?_⟩
  · rw [htokens]
    exact balanced_single (by simp) (by simp)
  · rw [htokens]
    exact .mark rfl .nil

theorem text (s : String) : Piece margin declared .closed [.text s 0] (stringLiteral s) := by
  have hspelled : Spelled .plain (stringLiteral s).toList [.text s] .plain := by
    simpa [stringLiteral] using Spelled.text s.toList .nil
  exact of_spelled hspelled (balanced_single (by simp) (by simp)) (.mark rfl .nil)

theorem numeral (h : isNumeral s.toList = true) : Piece margin declared .any [] s := by
  obtain ⟨marked, hspelled⟩ := Spelled.numeral h
  exact ⟨[], _, [.number s], hspelled, by simp [flush], trivial,
    balanced_single (by simp) (by simp), .quiet rfl .nil⟩

-- ---------------------------------------------------------------------------
-- Templates
-- ---------------------------------------------------------------------------

/-- The reserved words that stand in programs. -/
def fixedWords : List String := [
  "else", "false", "float", "for", "if", "int", "true", "void", "while", "HIGH", "LOW", "INPUT",
  "OUTPUT", "INPUT_PULLUP", "LED_BUILTIN", "setup", "loop", "delay", "pinMode", "digitalWrite",
  "digitalRead", "analogRead", "analogWrite", "Serial", "HTS", "initHTS", "initIMU",
  "initMicrophone", "imuAcceleration", "sampleBuffer", "samplesRead"]

theorem fixedWords_sublist : fixedWords.Sublist reservedNames := by
  unfold fixedWords reservedNames
  repeat first | exact .slnil | apply List.Sublist.cons_cons | apply List.Sublist.cons

/-- A token that is the same in all programs and opens or closes no block. -/
def isFixed : Token → Bool
  | .word s => fixedWords.contains s
  | .text _ => false
  | .sign c => c != '\x7b' && c != '\x7d'
  | _ => true

def template? (cs : List Char) : Option Mode :=
  if cs.contains '"' then none
  else (scan .plain cs).bind fun read =>
    (flush read.2).bind fun last => if (read.1 ++ last).all isFixed then some read.2 else none

/-- Code of fixed tokens only. The characters are given apart, since they can be evaluated and those
of a string literal cannot. -/
def IsTemplate (code : String) : Prop :=
  ∃ cs, code = .ofList cs ∧ (template? cs).isSome = true

def IsClosedTemplate (code : String) : Prop :=
  ∃ cs, code = .ofList cs ∧ template? cs = some .plain

theorem balanced_fixed (h : ∀ t ∈ ts, isFixed t = true) : Balanced ts := by
  induction ts with
  | nil => exact .nil
  | cons t ts ih =>
    obtain ⟨ht, hts⟩ := List.forall_mem_cons.mp h
    have hsingle : Balanced [t] := by
      refine balanced_single ?_ ?_ <;> rintro rfl <;> cases ht
    exact hsingle.append (ih hts)

section
variable (hreserved : ∀ s ∈ fixedWords, declared s = false)
include hreserved

theorem tells_fixed (h : isFixed t = true) : tells declared t = false := by
  cases t with
  | word s => exact hreserved s (by simpa [isFixed] using h)
  | text s => cases h
  | _ => rfl

theorem of_template (h : template? code.toList = some m) (hending : ending.Holds m) :
    Piece margin declared ending [] code := by
  unfold template? at h
  split at h
  · cases h
  · rename_i hquote
    simp only [Option.bind_eq_some_iff] at h
    obtain ⟨⟨ts, m'⟩, hscan, last, hflush, h⟩ := h
    split at h
    · rename_i hfixed
      obtain rfl := Option.some.inj h
      rw [List.all_eq_true] at hfixed
      refine ⟨ts, m', last, .of_scan hscan rfl (by simpa using hquote), hflush, hending,
        balanced_fixed hfixed, .of_quiet fun t ht => ?_⟩
      exact tells_fixed hreserved (hfixed t ht)
    · cases h

theorem fixed (h : IsClosedTemplate code) : Piece margin declared .closed [] code := by
  obtain ⟨cs, rfl, h⟩ := h
  exact of_template hreserved (by rwa [String.toList_ofList]) rfl

theorem fixedAny (h : IsTemplate code) : Piece margin declared .any [] code := by
  obtain ⟨cs, rfl, h⟩ := h
  obtain ⟨m, hm⟩ := Option.isSome_iff_exists.mp h
  exact of_template hreserved (by rwa [String.toList_ofList]) trivial

theorem number (hfinite : n.isFinite = true) :
    Piece margin declared .any [] (numberLiteral (.number n)) := by
  have hcases := numeral_cases hfinite
  rw [numberLiteral_eq]
  split at hcases
  · rw [hcases.1]
    exact (fixed hreserved ⟨_, rfl, by decide +kernel⟩).append (numeral hcases.2)
  · exact numeral hcases

theorem parenthesized (h : Piece margin declared .any ms code) :
    Piece margin declared .closed ms ("(" ++ code ++ ")") := by
  have hopen : Piece margin declared .closed [] "(" := fixed hreserved ⟨_, rfl, by decide +kernel⟩
  have hclose : Piece margin declared .closed [] ")" := fixed hreserved ⟨_, rfl, by decide +kernel⟩
  simpa using (hopen.append h).follow hclose rfl

end

-- ---------------------------------------------------------------------------
-- Blocks
-- ---------------------------------------------------------------------------

theorem spelled_braces (h : Spelled .plain code.toList ts .plain) :
    Spelled .plain (Arduino.braces code).toList (.sign '\x7b' :: ts ++ [Token.sign '\x7d'])
      .plain := by
  have hopen : Spelled .plain "\x7b\n".toList [.sign '\x7b'] .plain := .of_scan rfl rfl (by decide)
  have hclose : Spelled .plain "\x7d".toList [.sign '\x7d'] .plain := .of_scan rfl rfl (by decide)
  rw [Arduino.braces, String.toList_append, String.toList_append]
  exact (hopen.append h).append hclose

theorem braces (h : Piece margin declared .closed ms code) :
    Piece margin declared .closed ms (Arduino.braces code) := by
  obtain ⟨ts, hspelled, hbalanced, htells⟩ := h.spelled
  have hend : Tells margin declared [] [.sign '\x7d'] := .quiet rfl .nil
  refine of_spelled (spelled_braces hspelled) hbalanced.enclosed (.quiet rfl ?_)
  simpa using htells.append hend

theorem indent {margin : String} (hmargin : ∀ c ∈ margin.toList, c = ' ')
    (h : Piece margin.toList declared .closed ms code) :
    Piece margin.toList declared .closed (ms.map Mark.deeper) (Text.indent margin code) := by
  obtain ⟨ts, hspelled, hbalanced, htells⟩ := h.spelled
  exact of_spelled (hspelled.indent hmargin) (hbalanced.shift _) htells.deeper

end

end Piece

end BlockSketch.Sketch
