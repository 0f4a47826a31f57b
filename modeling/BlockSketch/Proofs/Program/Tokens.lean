import BlockSketch.Proofs.Expression.Lexing

/-!
# Programs as tokens

A whole program is read by an automaton, one character after the other. String literals are read by
what they stand for, names after a point are told apart from other words, and operators are left as
single signs. Comments, directives over several lines and character literals are not read.

`Spelled` says how a piece of code takes the automaton from one mode to another. String literals
come as a whole in it, so that a piece can be changed inside its literals.
-/

namespace BlockSketch.Program

open Expression (escaped? extendsNumber isExponentMark isNumberTail isNumeral isWord)
open Sketch (escapeChar isNameChar isNameStart stringLiteralChars)

inductive Token where
  | word (s : String)
  | member (s : String)
  | number (s : String)
  | text (s : String)
  | sign (c : Char)
  deriving DecidableEq, Repr

/-- What the automaton is in the middle of, with the characters of an unfinished token. -/
inductive Mode where
  | plain
  | word (cs : List Char)
  /-- The flag tells whether an exponent mark came last. -/
  | number (marked : Bool) (cs : List Char)
  | point
  | member (cs : List Char)
  | slash
  | text (cs : List Char)
  | escape (cs : List Char)
  deriving DecidableEq, Repr

def signs : List Char := [
  '+', '-', '*', '%', '<', '>', '=', '!', '&', '|', '^', '~', '?', ':', ',', ';', '(', ')', '[', ']',
  '\x7b', '\x7d', '#']

def start (c : Char) : Option (List Token × Mode) :=
  if isNameStart c then some ([], .word [c])
  else if c.isDigit then some ([], .number false [c])
  else if c = '.' then some ([], .point)
  else if c = '/' then some ([], .slash)
  else if c = '"' then some ([], .text [])
  else if c = ' ' || c = '\n' then some ([], .plain)
  else if signs.contains c then some ([.sign c], .plain)
  else none

def finish (t : Token) (c : Char) : Option (List Token × Mode) :=
  (start c).map fun p => (t :: p.1, p.2)

def step : Mode → Char → Option (List Token × Mode)
  | .plain, c => start c
  | .word cs, c =>
    if isNameChar c then some ([], .word (cs ++ [c])) else finish (.word (.ofList cs)) c
  | .number marked cs, c =>
    if extendsNumber marked c then some ([], .number (isExponentMark c) (cs ++ [c]))
    else finish (.number (.ofList cs)) c
  | .point, c =>
    if c = ' ' || c = '\n' then some ([], .point)
    else if isNameStart c then some ([], .member [c])
    else none
  | .member cs, c =>
    if isNameChar c then some ([], .member (cs ++ [c])) else finish (.member (.ofList cs)) c
  | .slash, c => if c = '/' || c = '*' then none else finish (.sign '/') c
  | .text cs, c =>
    if c = '"' then some ([.text (.ofList cs)], .plain)
    else if c = '\\' then some ([], .escape cs)
    else if c = '\n' then none
    else some ([], .text (cs ++ [c]))
  | .escape cs, c => (escaped? c).map fun d => ([], .text (cs ++ [d]))

def scan : Mode → List Char → Option (List Token × Mode)
  | m, [] => some ([], m)
  | m, c :: cs => (step m c).bind fun first =>
    (scan first.2 cs).map fun rest => (first.1 ++ rest.1, rest.2)

/-- What is left to be told at the end of a program. -/
def flush : Mode → Option (List Token)
  | .plain => some []
  | .word cs => some [.word (.ofList cs)]
  | .number _ cs => some [.number (.ofList cs)]
  | .member cs => some [.member (.ofList cs)]
  | .slash => some [.sign '/']
  | .point | .text _ | .escape _ => none

def tokens (code : String) : Option (List Token) := do
  let read ← scan .plain code.toList
  let last ← flush read.2
  some (read.1 ++ last)

def Token.text? : Token → Option String
  | .text s => some s
  | _ => none

def Token.word? : Token → Option String
  | .word s => some s
  | _ => none

def literals (ts : List Token) : List String :=
  ts.filterMap Token.text?

/-- The identifiers in order, apart from the names of members. -/
def identifiers (ts : List Token) : List String :=
  ts.filterMap Token.word?

-- ---------------------------------------------------------------------------
-- Pieces of code
-- ---------------------------------------------------------------------------

def Mode.inText : Mode → Bool
  | .text _ | .escape _ => true
  | _ => false

/-- A piece of code takes the automaton from one mode to another and is read as some tokens. -/
inductive Spelled : Mode → List Char → List Token → Mode → Prop
  | nil : Spelled m [] [] m
  | char (hstep : step m c = some (us, m')) (hout : m'.inText = false)
      (h : Spelled m' cs ts m'') : Spelled m (c :: cs) (us ++ ts) m''
  | text (s : List Char) (h : Spelled .plain cs ts m) :
      Spelled .plain (stringLiteralChars s ++ cs) (.text (.ofList s) :: ts) m

theorem scan_append (m : Mode) (cs ds : List Char) :
    scan m (cs ++ ds) = (scan m cs).bind fun first =>
      (scan first.2 ds).map fun rest => (first.1 ++ rest.1, rest.2) := by
  induction cs generalizing m with
  | nil => simp [scan]
  | cons c cs ih =>
    simp only [List.cons_append, scan, ih]
    cases step m c with
    | none => rfl
    | some first =>
      simp only [Option.bind_some]
      cases scan first.2 cs <;> simp [Function.comp_def]

/-- Inside a literal, the code of a character stands for the character. -/
theorem scan_escapeChar (acc : List Char) (c : Char) :
    scan (.text acc) (escapeChar c) = some ([], .text (acc ++ [c])) := by
  unfold escapeChar
  split
  case h_6 hbackslash hquote hfeed _ _ =>
    simp [scan, step, if_neg hquote, if_neg hbackslash, if_neg hfeed]
  all_goals simp [scan, step, escaped?]

theorem scan_escaped (acc s : List Char) :
    scan (.text acc) (s.flatMap escapeChar) = some ([], .text (acc ++ s)) := by
  induction s generalizing acc with
  | nil => simp [scan]
  | cons c s ih => simp [scan_append, scan_escapeChar, ih]

theorem scan_stringLiteral (s : List Char) :
    scan .plain (stringLiteralChars s) = some ([.text (.ofList s)], .plain) := by
  have hopen : step .plain '"' = some ([], .text []) := rfl
  have hclose : step (.text s) '"' = some ([.text (.ofList s)], .plain) := rfl
  simp [stringLiteralChars, scan, hopen, scan_append, scan_escaped, hclose]

theorem Spelled.scan (h : Spelled m cs ts m') : scan m cs = some (ts, m') := by
  induction h with
  | nil => rfl
  | char hstep _ _ ih => simp [Program.scan, hstep, ih]
  | text s _ ih => simp [scan_append, scan_stringLiteral, ih]

theorem Spelled.append (h : Spelled m cs ts m') (h' : Spelled m' ds us m'') :
    Spelled m (cs ++ ds) (ts ++ us) m'' := by
  induction h with
  | nil => exact h'
  | char hstep hout _ ih =>
    rw [List.cons_append, List.append_assoc]
    exact .char hstep hout (ih h')
  | text s _ ih =>
    rw [List.append_assoc, List.cons_append]
    exact .text s (ih h')

theorem start_inText (h : start c = some (us, m)) (hc : c ≠ '"') : m.inText = false := by
  unfold start at h
  grind [Mode.inText]

theorem finish_inText (h : finish t c = some (us, m)) (hc : c ≠ '"') : m.inText = false := by
  obtain ⟨⟨vs, m'⟩, hstart, heq⟩ := Option.map_eq_some_iff.mp h
  cases heq
  exact start_inText hstart hc

theorem step_inText (h : step m c = some (us, m')) (hm : m.inText = false) (hc : c ≠ '"') :
    m'.inText = false := by
  cases m with
  | plain => exact start_inText h hc
  | text cs => cases hm
  | escape cs => cases hm
  | point =>
    simp only [step] at h
    grind [Mode.inText]
  | slash =>
    simp only [step] at h
    split at h
    · cases h
    · exact finish_inText h hc
  | word cs | number marked cs | member cs =>
    simp only [step] at h
    split at h
    · cases h
      rfl
    · exact finish_inText h hc

/-- Code without literals is read as the automaton goes. -/
theorem Spelled.of_scan (h : Program.scan m cs = some (ts, m')) (hm : m.inText = false)
    (hquote : '"' ∉ cs) : Spelled m cs ts m' := by
  induction cs generalizing m ts with
  | nil =>
    cases h
    exact .nil
  | cons c cs ih =>
    simp only [List.mem_cons, not_or] at hquote
    simp only [Program.scan, Option.bind_eq_some_iff, Option.map_eq_some_iff] at h
    obtain ⟨⟨us, m₁⟩, hstep, ⟨vs, m₂⟩, hrest, heq⟩ := h
    cases heq
    have hout := step_inText hstep hm (Ne.symm hquote.1)
    exact .char hstep hout (ih hrest hout hquote.2)

-- ---------------------------------------------------------------------------
-- Words and numbers
-- ---------------------------------------------------------------------------

theorem scan_word (h : ∀ c ∈ cs, isNameChar c = true) (acc : List Char) :
    scan (.word acc) cs = some ([], .word (acc ++ cs)) := by
  induction cs generalizing acc with
  | nil => simp [scan]
  | cons c cs ih =>
    obtain ⟨hc, hcs⟩ := List.forall_mem_cons.mp h
    simp [scan, step, hc, ih hcs]

theorem scan_number (h : isNumberTail marked cs = true) (acc : List Char) :
    ∃ marked', scan (.number marked acc) cs = some ([], .number marked' (acc ++ cs)) := by
  induction cs generalizing marked acc with
  | nil => exact ⟨marked, by simp [scan]⟩
  | cons c cs ih =>
    simp only [isNumberTail, Bool.and_eq_true] at h
    obtain ⟨marked', hrun⟩ := ih h.2 (acc ++ [c])
    exact ⟨marked', by simp [scan, step, h.1, hrun]⟩

theorem quote_not_mem_number (h : isNumberTail marked cs = true) : '"' ∉ cs := by
  induction cs generalizing marked with
  | nil => simp
  | cons c cs ih =>
    simp only [isNumberTail, Bool.and_eq_true] at h
    have hc : '"' ≠ c := by
      rintro rfl
      cases marked <;> cases h.1
    simp [hc, ih h.2]

theorem Spelled.word (h : isWord cs = true) : Spelled .plain cs [] (.word cs) := by
  cases cs with
  | nil => cases h
  | cons c cs =>
    simp only [isWord, Bool.and_eq_true, List.all_eq_true] at h
    refine .of_scan ?_ rfl fun hquote => ?_
    · simp [Program.scan, step, start, h.1, scan_word h.2]
    · rcases List.mem_cons.mp hquote with rfl | hquote
      · cases h.1
      · cases h.2 _ hquote

theorem Spelled.numeral (h : isNumeral cs = true) :
    ∃ marked, Spelled .plain cs [] (.number marked cs) := by
  cases cs with
  | nil => cases h
  | cons c cs =>
    simp only [isNumeral, Bool.and_eq_true] at h
    obtain ⟨marked, hrun⟩ := scan_number h.2 [c]
    refine ⟨marked, .of_scan ?_ rfl fun hquote => ?_⟩
    · simp [Program.scan, step, start, Expression.isNameStart_digit h.1, h.1, hrun]
    · rcases List.mem_cons.mp hquote with rfl | hquote
      · cases h.1
      · exact quote_not_mem_number h.2 hquote

-- ---------------------------------------------------------------------------
-- What follows a piece
-- ---------------------------------------------------------------------------

def isClosing (c : Char) : Bool :=
  [' ', ')', ';', ','].contains c

theorem isClosing_cases (h : isClosing c = true) : c = ' ' ∨ c = ')' ∨ c = ';' ∨ c = ',' := by
  simpa [isClosing] using h

theorem step_closing (hm : flush m = some last) (hc : isClosing c = true)
    (hstep : step .plain c = some (us, m')) : step m c = some (last ++ us, m') := by
  have hfinish : ∀ t, finish t c = some (t :: us, m') := fun t => by
    simp only [step] at hstep
    simp [finish, hstep]
  cases m with
  | plain =>
    cases hm
    exact hstep
  | number marked cs =>
    cases hm
    rcases isClosing_cases hc with rfl | rfl | rfl | rfl <;> cases marked <;> exact hfinish _
  | word cs | member cs | slash =>
    cases hm
    rcases isClosing_cases hc with rfl | rfl | rfl | rfl <;> exact hfinish _
  | point => cases hm
  | text cs => cases hm
  | escape cs => cases hm

theorem step_word (hc : isNameChar c = false) (hstep : step .plain c = some (us, m)) :
    step (.word cs) c = some (.word (.ofList cs) :: us, m) := by
  simp only [step] at hstep ⊢
  simp [hc, finish, hstep]

/-- A piece may follow another one if its first character ends what is open there. -/
theorem Spelled.follow (h : Spelled m cs ts m') (h' : Spelled .plain (d :: ds) us m'')
    (hd : d ≠ '"')
    (hstep : ∀ {vs m₁}, step .plain d = some (vs, m₁) → step m' d = some (last ++ vs, m₁)) :
    Spelled m (cs ++ d :: ds) (ts ++ last ++ us) m'' := by
  rw [List.append_assoc]
  refine h.append ?_
  generalize heq : d :: ds = code at h'
  cases h' with
  | nil => cases heq
  | char hfirst hout hrest =>
    cases heq
    rw [← List.append_assoc]
    exact .char (hstep hfirst) hout hrest
  | text s hrest => exact (hd (List.cons.inj heq).1).elim

theorem tokens_of_spelled {code : String} (h : Spelled .plain code.toList ts m)
    (hm : flush m = some last) : tokens code = some (ts ++ last) := by
  simp [tokens, h.scan, hm]

-- ---------------------------------------------------------------------------
-- Functions
-- ---------------------------------------------------------------------------

/-- The depth of braces behind a token, unless it closes one that was not opened. -/
def nest (depth : Nat) (t : Token) : Option Nat :=
  if t = .sign '\x7b' then some (depth + 1)
  else if t = .sign '\x7d' then
    match depth with
    | 0 => none
    | depth + 1 => some depth
  else some depth

def Balanced (ts : List Token) : Prop :=
  ∀ depth, ts.foldlM nest depth = some depth

theorem Balanced.nil : Balanced [] :=
  fun _ => rfl

theorem Balanced.append (h : Balanced ts) (h' : Balanced us) : Balanced (ts ++ us) := by
  intro depth
  simp [List.foldlM_append, h depth, h' depth]

theorem Balanced.enclosed (h : Balanced ts) :
    Balanced (.sign '\x7b' :: ts ++ [Token.sign '\x7d']) := by
  intro depth
  simp [nest, List.foldlM_append, h (depth + 1)]

def block : Nat → List Token → Option (List Token × List Token)
  | _, [] => none
  | depth, t :: ts =>
    match nest depth t with
    | none => some ([], ts)
    | some depth => (block depth ts).map fun p => (t :: p.1, p.2)

def header (name : String) : List Token :=
  [.word "void", .word name, .sign '(', .sign ')', .sign '\x7b']

def function? (name : String) : List Token → Option (List Token × List Token)
  | [] => none
  | t :: ts =>
    if (header name).isPrefixOf (t :: ts) then block 0 ((t :: ts).drop (header name).length)
    else function? name ts

def bodies? (code : String) : Option (List Token × List Token) := do
  let ts ← tokens code
  let setup ← function? "setup" ts
  let loop ← function? "loop" setup.2
  some (setup.1, loop.1)

theorem block_append (h : ts.foldlM nest depth = some depth') (rest : List Token) :
    block depth (ts ++ rest) = (block depth' rest).map fun p => (ts ++ p.1, p.2) := by
  induction ts generalizing depth with
  | nil =>
    cases h
    simp
  | cons t ts ih =>
    simp only [List.foldlM_cons, Option.bind_eq_bind, Option.bind_eq_some_iff] at h
    obtain ⟨inner, ht, hts⟩ := h
    simp [block, ht, ih hts, Function.comp_def]

theorem function?_header (h : Balanced ts) (rest : List Token) :
    function? name (header name ++ ts ++ .sign '\x7d' :: rest) = some (ts, rest) := by
  have hclose : block 0 (.sign '\x7d' :: rest) = some ([], rest) := rfl
  have hblock := block_append (h 0) (.sign '\x7d' :: rest)
  rw [hclose] at hblock
  simpa [header, function?] using hblock

/-- The word `setup` does not follow `void`, nor could it. -/
def Headless : List Token → Bool
  | [] => true
  | t :: ts => (t ≠ .word "void" || ts.head?.any (· ≠ .word "setup")) && Headless ts

theorem Headless.append (h : Headless ts = true) (h' : Headless us = true) :
    Headless (ts ++ us) = true := by
  induction ts with
  | nil => exact h'
  | cons t ts ih =>
    simp only [Headless, Bool.and_eq_true, Bool.or_eq_true, List.cons_append] at h ⊢
    refine ⟨h.1.imp_right fun hnext => ?_, ih h.2⟩
    cases ts with
    | nil => cases hnext
    | cons _ _ => exact hnext

theorem function?_headless (h : Headless ts = true) (rest : List Token) :
    function? "setup" (ts ++ rest) = function? "setup" rest := by
  induction ts with
  | nil => rfl
  | cons t ts ih =>
    simp only [Headless, Bool.and_eq_true, Bool.or_eq_true] at h
    have hno : (header "setup").isPrefixOf (t :: (ts ++ rest)) = false := by
      rcases h.1 with hvoid | hnext
      · have hne : t ≠ .word "void" := by simpa using hvoid
        simp [header, List.isPrefixOf, Ne.symm hne]
      · cases ts with
        | nil => cases hnext
        | cons u ts =>
          have hne : u ≠ .word "setup" := by simpa using hnext
          simp [header, List.isPrefixOf, Ne.symm hne]
    rw [List.cons_append, function?, hno]
    exact ih h.2

end BlockSketch.Program
