import BlockSketch.Proofs.Expression.Grammar
import BlockSketch.Proofs.Value
import BlockSketch.Sketch.Literal

/-!
# How pieces of code are split into tokens

`Spells cs ts` says that a piece of code is read as `ts` wherever a delimiter, or nothing, comes
after it. Words, numbers and string literals spell one token each; larger pieces are put together in
`Parsing`.
-/

namespace BlockSketch.Expression

open Sketch

def Lexes (cs : List Char) (ts : List Token) : Prop :=
  ∀ fuel, cs.length < fuel → tokens fuel cs = some ts

theorem Lexes.nil : Lexes [] [] := by
  intro fuel h
  obtain ⟨fuel, rfl⟩ := Nat.exists_eq_add_one_of_ne_zero (Nat.ne_of_gt h)
  rfl

theorem Lexes.blank (h : Lexes rest ts) : Lexes (' ' :: rest) ts := by
  intro fuel hfuel
  obtain ⟨fuel, rfl⟩ := Nat.exists_eq_add_one_of_ne_zero (Nat.ne_zero_of_lt hfuel)
  exact h fuel (by simpa using hfuel)

theorem Lexes.token (c : Char) (cs : List Char) (hc : c.isWhitespace = false)
    (hread : readToken (c :: (cs ++ rest)) = some (t, rest)) (h : Lexes rest ts) :
    Lexes (c :: (cs ++ rest)) (t :: ts) := by
  intro fuel hfuel
  obtain ⟨fuel, rfl⟩ := Nat.exists_eq_add_one_of_ne_zero (Nat.ne_zero_of_lt hfuel)
  have hrest : rest.length < fuel := by
    simp only [List.length_cons, List.length_append] at hfuel
    omega
  simp only [tokens, hc, hread]
  simp [h fuel hrest]

/-- The characters that end a word or a number in the code of a sketch. -/
def isDelimiter (c : Char) : Bool :=
  [' ', '(', ')', '[', ']'].contains c

def Delimited (cs : List Char) : Prop :=
  ∀ c ∈ cs.head?, isDelimiter c = true

theorem Delimited.nil : Delimited [] := by
  simp [Delimited]

theorem Delimited.cons (h : isDelimiter c = true) : Delimited (c :: rest) := by
  simpa [Delimited] using h

theorem isNameChar_delimiter (h : isDelimiter c = true) : isNameChar c = false := by
  simp only [isDelimiter, List.contains_iff_mem, List.mem_cons, List.not_mem_nil, or_false] at h
  rcases h with rfl | rfl | rfl | rfl | rfl <;> rfl

theorem extendsNumber_delimiter (h : isDelimiter c = true) (marked : Bool) :
    extendsNumber marked c = false := by
  simp only [isDelimiter, List.contains_iff_mem, List.mem_cons, List.not_mem_nil, or_false] at h
  rcases h with rfl | rfl | rfl | rfl | rfl <;> cases marked <;> rfl

/-- A piece of code is read as some tokens, whatever stands behind it. -/
def Spells (cs : List Char) (ts : List Token) : Prop :=
  ∀ rest others, Delimited rest → Lexes rest others → Lexes (cs ++ rest) (ts ++ others)

-- ---------------------------------------------------------------------------
-- Words
-- ---------------------------------------------------------------------------

def isWord : List Char → Bool
  | [] => false
  | c :: rest => isNameStart c && rest.all isNameChar

theorem isNameChar_start (h : isNameStart c = true) : isNameChar c = true := by
  simp only [isNameStart, isNameChar, Char.isAlphanum, Bool.or_eq_true] at h ⊢
  exact h.imp_left .inl

theorem isNameChar_digit (h : c.isDigit = true) : isNameChar c = true := by
  simp [isNameChar, Char.isAlphanum, h]

theorem isWhitespace_nameChar (h : isNameChar c = true) : c.isWhitespace = false := by
  rw [← Bool.not_eq_true]
  intro hblank
  simp only [Char.isWhitespace, Bool.or_eq_true, decide_eq_true_eq] at hblank
  rcases hblank with ((rfl | rfl) | rfl) | rfl <;> cases h

theorem Lexes.word (hword : isWord cs = true) (hrest : ∀ c ∈ rest.head?, isNameChar c = false)
    (h : Lexes rest ts) : Lexes (cs ++ rest) (wordToken (.ofList cs) :: ts) := by
  cases cs with
  | nil => cases hword
  | cons c cs =>
    simp only [isWord, Bool.and_eq_true, List.all_eq_true] at hword
    obtain ⟨hstart, hall⟩ := hword
    have htake : rest.takeWhile isNameChar = [] ∧ rest.dropWhile isNameChar = rest := by
      cases rest with
      | nil => simp
      | cons x rest => simp [hrest x rfl]
    have hread : readToken (c :: (cs ++ rest)) = some (wordToken (.ofList (c :: cs)), rest) := by
      simp only [readToken, hstart, List.takeWhile_append_of_pos hall,
        List.dropWhile_append_of_pos hall, htake]
      simp
    exact h.token c cs (isWhitespace_nameChar (isNameChar_start hstart)) hread

theorem Spells.word (h : isWord cs = true) : Spells cs [wordToken (.ofList cs)] := by
  intro rest others hrest hothers
  exact hothers.word h fun c hc => isNameChar_delimiter (hrest c hc)

theorem wordToken_name (h : reservedNames.contains s = false) : wordToken s = .name s := by
  have hsign : ∀ e ∈ signWords, reservedNames.contains e.1 = true := by decide
  have hnone : signWords.find? s = none := by
    cases hfind : signWords.find? s with
    | none => rfl
    | some sign =>
      have hreserved := hsign _ (Assoc.find?_mem hfind)
      rw [h] at hreserved
      cases hreserved
  have htrue : s ≠ "true" := by
    rintro rfl
    cases h
  have hfalse : s ≠ "false" := by
    rintro rfl
    cases h
  simp [wordToken, htrue, hfalse, hnone]

-- ---------------------------------------------------------------------------
-- Numbers
-- ---------------------------------------------------------------------------

def isNumberTail : Bool → List Char → Bool
  | _, [] => true
  | marked, c :: rest => extendsNumber marked c && isNumberTail (isExponentMark c) rest

def isNumeral : List Char → Bool
  | [] => false
  | c :: rest => c.isDigit && isNumberTail false rest

theorem numberTail_append (h : isNumberTail marked cs = true) (hrest : Delimited rest) :
    numberTail marked (cs ++ rest) = (cs, rest) := by
  induction cs generalizing marked with
  | nil =>
    cases rest with
    | nil => rfl
    | cons c rest => simp [numberTail, extendsNumber_delimiter (hrest c rfl)]
  | cons c cs ih =>
    simp only [isNumberTail, Bool.and_eq_true] at h
    simp [numberTail, h.1, ih h.2]

theorem isNameStart_digit (h : c.isDigit = true) : isNameStart c = false := by
  have hzero : '0'.val.toNat = 48 := rfl
  have hnine : '9'.val.toNat = 57 := rfl
  simp only [Char.isDigit, Bool.and_eq_true, decide_eq_true_eq, ge_iff_le, UInt32.le_iff_toNat_le,
    hzero, hnine] at h
  have hne : c ≠ '_' := by
    rintro rfl
    exact absurd h.2 (by decide)
  -- Letters stand above the digits, capitals first.
  have hupper : c.isUpper = false := by
    refine decide_eq_false fun hc => ?_
    have hle : 65 ≤ c.val.toNat := UInt32.le_iff_toNat_le.mp hc.1
    omega
  have hlower : c.isLower = false := by
    refine Bool.and_eq_false_iff.mpr (.inl (decide_eq_false fun hc => ?_))
    have hle : 97 ≤ c.val.toNat := UInt32.le_iff_toNat_le.mp hc
    omega
  have halpha : c.isAlpha = false := Bool.or_eq_false_iff.mpr ⟨hupper, hlower⟩
  simp [isNameStart, halpha, hne]

theorem Spells.number (h : isNumeral cs = true) : Spells cs [.number (.ofList cs)] := by
  intro rest others hrest hothers
  cases cs with
  | nil => cases h
  | cons c cs =>
    simp only [isNumeral, Bool.and_eq_true] at h
    obtain ⟨hdigit, htail⟩ := h
    have hread : readToken (c :: (cs ++ rest)) = some (.number (.ofList (c :: cs)), rest) := by
      simp [readToken, isNameStart_digit hdigit, hdigit, numberTail_append htail hrest]
    exact hothers.token c cs (isWhitespace_nameChar (isNameChar_digit hdigit)) hread

-- ---------------------------------------------------------------------------
-- String literals
-- ---------------------------------------------------------------------------

theorem textTail_escapeChar (c : Char) (h : textTail tail = some (cs, rest)) :
    textTail (escapeChar c ++ tail) = some (c :: cs, rest) := by
  unfold escapeChar
  split
  case h_6 hbackslash hquote hfeed _ _ =>
    rw [List.singleton_append, textTail]
    · simp [h]
    · exact hquote
    · exact hfeed
    · exact fun d rest hd => absurd hd hbackslash
  all_goals simp [textTail, escaped?, h]

theorem textTail_escaped (cs rest : List Char) :
    textTail (cs.flatMap escapeChar ++ '"' :: rest) = some (cs, rest) := by
  induction cs with
  | nil => rfl
  | cons c cs ih =>
    rw [List.flatMap_cons, List.append_assoc]
    exact textTail_escapeChar c ih

theorem Spells.text (s : String) : Spells (stringLiteral s).toList [.text s] := by
  intro rest others _ hothers
  have hread : readToken ('"' :: (s.toList.flatMap escapeChar ++ ['"'] ++ rest)) =
      some (.text s, rest) := by
    simp [readToken, textTail_escaped, isNameStart]
  rw [stringLiteral, stringLiteralChars, String.toList_ofList]
  exact hothers.token '"' (s.toList.flatMap escapeChar ++ ['"']) rfl hread

-- ---------------------------------------------------------------------------
-- Signs
-- ---------------------------------------------------------------------------

/-- A point before a word is a sign, since no digit follows. -/
theorem Lexes.point (hword : isWord cs = true) (h : Lexes (cs ++ rest) ts) :
    Lexes ('.' :: (cs ++ rest)) (.sign "." :: ts) := by
  cases cs with
  | nil => cases hword
  | cons c cs =>
    simp only [isWord, Bool.and_eq_true] at hword
    have hdigit : c.isDigit = false := by
      rw [← Bool.not_eq_true]
      intro hdigit
      rw [isNameStart_digit hdigit] at hword
      cases hword.1
    refine h.token '.' [] rfl ?_
    simp [readToken, isNameStart, hdigit, signs, List.isPrefixOf]

theorem Lexes.binary (op : Binary) (h : Lexes rest ts) :
    Lexes (' ' :: (op.sign.toList ++ ' ' :: rest)) (.sign op.sign :: ts) := by
  apply Lexes.blank
  cases op <;> exact (Lexes.blank h).token _ _ rfl rfl

/-- What an operand of a prefix operator starts with: no sign that the operator could grow by. -/
def isOpening (c : Char) : Bool :=
  isNameChar c || c = '(' || c = '"'

theorem Lexes.unary (op : Unary) (hc : isOpening c = true) (h : Lexes (c :: rest) ts) :
    Lexes (op.sign.toList ++ c :: rest) (.sign op.sign :: ts) := by
  have hne : ∀ x ∈ ['-', '=', '>', '+'], (x == c) = false := by
    intro x hx
    refine beq_false_of_ne ?_
    rintro rfl
    simp only [List.mem_cons, List.not_mem_nil, or_false] at hx
    rcases hx with rfl | rfl | rfl | rfl <;> cases hc
  simp only [List.forall_mem_cons] at hne
  cases op with
  | neg =>
    refine h.token '-' [] rfl ?_
    simp [readToken, signs, Unary.sign, isNameStart, List.isPrefixOf, hne]
  | plus =>
    refine h.token '+' [] rfl ?_
    simp [readToken, signs, Unary.sign, isNameStart, List.isPrefixOf, hne]
  | not =>
    refine h.token '!' [] rfl ?_
    simp [readToken, signs, Unary.sign, isNameStart, List.isPrefixOf, hne]
  | complement => exact h.token '~' [] rfl rfl

end BlockSketch.Expression
