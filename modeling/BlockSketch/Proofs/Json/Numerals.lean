import BlockSketch.Json.Reader
import BlockSketch.Json.Writer
import BlockSketch.Proofs.Number.Shortest

/-!
# Numbers in JSON text

A number is read back from the text it is written as. The text has a whole part, a fraction and a power
of ten, of which the last two can be missing; an integer is what has neither. A binary64 number is
written as its shortest decimal, and whichever way that is laid out it is worth the same.
-/

namespace BlockSketch

-- ---------------------------------------------------------------------------
-- Digits
-- ---------------------------------------------------------------------------

namespace Numeral

theorem isDigit_of_isDigit (h : c.isDigit = true) : isDigit c = true := by
  simpa [isDigit, Char.isDigit, Char.le_def] using h

theorem isDigit_toString (n : Nat) : ∀ c ∈ (toString n).toList, isDigit c = true := by
  intro c hc
  rw [Nat.toString_eq_repr, Nat.toList_repr] at hc
  exact isDigit_of_isDigit (Nat.isDigit_of_mem_toDigits (by decide) (by decide) hc)

theorem toString_lead {n : Nat} (hn : n ≠ 0) :
    ∃ c tail, (toString n).toList = c :: tail ∧ c ≠ '0' := by
  rw [Nat.toString_eq_repr, Nat.toList_repr]
  induction n using Nat.strongRecOn with
  | ind n ih =>
    by_cases hlt : n < 10
    · have hdigit : ∀ m < 10, m ≠ 0 → m.digitChar ≠ '0' := by decide
      exact ⟨n.digitChar, [], Nat.toDigits_of_lt_base hlt, hdigit n hlt hn⟩
    · obtain ⟨c, tail, heq, hne⟩ := ih (n / 10) (by omega) (by omega)
      refine ⟨c, tail ++ [(n % 10).digitChar], ?_, hne⟩
      rw [Nat.toDigits_of_base_le (by decide) (by omega), heq, List.cons_append]

theorem toList_toString_int (n : Int) : (toString n).toList =
    (Binary64.sign (decide (n < 0))).toList ++ (toString n.natAbs).toList := by
  rw [← String.toList_append]
  cases n with
  | ofNat n => rfl
  | negSucc n =>
    rw [decide_eq_true (Int.negSucc_lt_zero n)]
    rfl

theorem digitsValue_append (start : Nat) (a b : List Char) :
    digitsValue start (a ++ b) = digitsValue (digitsValue start a) b :=
  List.foldl_append

theorem digitsValue_eq (start : Nat) (ds : List Char) :
    digitsValue start ds = Nat.ofDigitChars 10 ds start :=
  (Nat.ofDigitChars_eq_foldl ..).symm

theorem digitsValue_toString (n : Nat) : digitsValue 0 (toString n).toList = n := by
  rw [digitsValue_eq, Nat.toString_eq_repr, Nat.toList_repr, Nat.ofDigitChars_ten_toDigits]

theorem digitsValue_zeros (start n : Nat) :
    digitsValue start (List.replicate n '0') = start * 10 ^ n := by
  induction n generalizing start with
  | zero => simp [digitsValue]
  | succ n ih =>
    rw [List.replicate_succ, digitsValue, List.foldl_cons, ← digitsValue, ih]
    simp [pow_succ]
    ring

end Numeral

namespace Json

open Numeral (isDigit digitsValue)

def NoDigit (rest : List Char) : Prop :=
  ∀ c ∈ rest.head?, isDigit c = false

def Stops (rest : List Char) : Prop :=
  ∀ c ∈ rest.head?, isDigit c = false ∧ c ≠ '.' ∧ c ≠ 'e' ∧ c ≠ 'E'

theorem Stops.noDigit (h : Stops rest) : NoDigit rest :=
  fun c hc => (h c hc).1

theorem takeWhile_digits (hds : ∀ c ∈ ds, isDigit c = true) (hrest : NoDigit rest) :
    (ds ++ rest).takeWhile isDigit = ds := by
  rw [List.takeWhile_append_of_pos hds]
  cases rest with
  | nil => simp
  | cons c rest => simp [hrest c rfl]

theorem dropWhile_digits (hds : ∀ c ∈ ds, isDigit c = true) (hrest : NoDigit rest) :
    (ds ++ rest).dropWhile isDigit = rest := by
  rw [List.dropWhile_append_of_pos hds]
  cases rest with
  | nil => simp
  | cons c rest => simp [hrest c rfl]

-- ---------------------------------------------------------------------------
-- The parts of a number
-- ---------------------------------------------------------------------------

structure Spelling where
  whole : List Char
  fraction : List Char
  power : Option Int

namespace Spelling

def pointText (s : Spelling) : List Char :=
  if s.fraction = [] then [] else '.' :: s.fraction

def powerText (s : Spelling) : List Char :=
  s.power.elim [] fun e => (DecimalStyle.exponentText e).toList

def text (s : Spelling) : List Char :=
  s.whole ++ (s.pointText ++ s.powerText)

def decimal (s : Spelling) : Decimal :=
  ⟨digitsValue 0 (s.whole ++ s.fraction), s.power.getD 0 - s.fraction.length⟩

/-- Only a whole part of one digit starts with zero. -/
structure Proper (s : Spelling) : Prop where
  whole : ∀ c ∈ s.whole, isDigit c = true
  lead : s.whole = ['0'] ∨ ∃ c tail, s.whole = c :: tail ∧ c ≠ '0'
  fraction : ∀ c ∈ s.fraction, isDigit c = true

variable {s : Spelling} {rest : List Char}

theorem Proper.whole_cons (hs : s.Proper) : ∃ c tail, s.whole = c :: tail := by
  rcases hs.lead with hzero | ⟨c, tail, heq, -⟩
  · exact ⟨_, _, hzero⟩
  · exact ⟨c, tail, heq⟩

theorem readWhole?_whole (hs : s.Proper) (hrest : NoDigit rest) :
    readWhole? (s.whole ++ rest) = some (s.whole, rest) := by
  have hdigits := hs.whole
  rcases hs.lead with hzero | ⟨c, tail, heq, hne⟩
  · simp [hzero, readWhole?]
  · rw [heq, List.forall_mem_cons] at hdigits
    rw [heq, List.cons_append, readWhole?, if_neg hne, if_pos hdigits.1,
      takeWhile_digits hdigits.2 hrest, dropWhile_digits hdigits.2 hrest]

theorem readFraction_pointText (hs : s.Proper) (hrest : NoDigit rest)
    (hpoint : rest.head? ≠ some '.') : readFraction (s.pointText ++ rest) = (s.fraction, rest) := by
  have hdigits := hs.fraction
  unfold pointText
  cases hfraction : s.fraction with
  | nil =>
    rw [if_pos rfl, List.nil_append]
    unfold readFraction
    split
    · simp at hpoint
    · rfl
  | cons c tail =>
    rw [hfraction, List.forall_mem_cons] at hdigits
    rw [if_neg (by simp), List.cons_append, List.cons_append, readFraction, if_pos hdigits.1,
      takeWhile_digits hdigits.2 hrest, dropWhile_digits hdigits.2 hrest]

theorem exponentText_eq (e : Int) : ∃ ds,
    (DecimalStyle.exponentText e).toList = 'e' :: (if e < 0 then '-' else '+') :: ds ∧ ds ≠ [] ∧
    (∀ c ∈ ds, isDigit c = true) ∧ digitsValue 0 ds = e.natAbs := by
  have hdigits := Numeral.isDigit_toString e.natAbs
  have hvalue := Numeral.digitsValue_toString e.natAbs
  have hpadded : ∃ ds, (if (toString e.natAbs).length < 2 then "0" ++ toString e.natAbs
      else toString e.natAbs).toList = ds ∧ ds ≠ [] ∧ (∀ c ∈ ds, isDigit c = true) ∧
      digitsValue 0 ds = e.natAbs := by
    refine ⟨_, rfl, ?_⟩
    split
    · rw [String.toList_append]
      refine ⟨by simp, ?_, ?_⟩
      · exact List.forall_mem_append.mpr ⟨List.forall_mem_singleton.mpr rfl, hdigits⟩
      · rw [Numeral.digitsValue_append]
        exact hvalue
    · refine ⟨?_, hdigits, hvalue⟩
      rw [Nat.toString_eq_repr, Nat.toList_repr]
      exact Nat.toDigits_ne_nil
  obtain ⟨ds, heq, hds⟩ := hpadded
  refine ⟨ds, ?_, hds⟩
  unfold DecimalStyle.exponentText
  dsimp only
  rw [String.toList_append, heq]
  split <;> rfl

theorem readSign_append (e : Int) (cs : List Char) :
    Numeral.readSign ((if e < 0 then '-' else '+') :: cs) = (decide (e < 0), cs) := by
  split <;> simp [Numeral.readSign, *]

theorem signed_natAbs (e : Int) : Binary64.signed (decide (e < 0)) e.natAbs = e := by
  unfold Binary64.signed
  by_cases hneg : e < 0
  · rw [if_pos (decide_eq_true hneg)]
    omega
  · rw [if_neg (by simpa using hneg)]
    omega

theorem readPower_powerText (hrest : Stops rest) :
    readPower (s.powerText ++ rest) = (s.power, rest) := by
  unfold powerText
  cases s.power with
  | none =>
    cases rest with
    | nil => rfl
    | cons c rest =>
      obtain ⟨-, -, he, hE⟩ := hrest c rfl
      simp [readPower, he, hE]
  | some e =>
    obtain ⟨ds, heq, hne, hdigits, hvalue⟩ := exponentText_eq e
    rw [Option.elim_some, heq, List.cons_append, List.cons_append, readPower, readSign_append]
    simp only [takeWhile_digits hdigits hrest.noDigit, dropWhile_digits hdigits hrest.noDigit, hvalue,
      signed_natAbs]
    simp [hne]

def number (negative : Bool) (s : Spelling) : Number :=
  if s.fraction = [] ∧ s.power = none then .int (Binary64.signed negative (digitsValue 0 s.whole))
  else .real (.ofDecimal negative s.decimal.digits s.decimal.power)

theorem head_powerText (hrest : Stops rest) :
    NoDigit (s.powerText ++ rest) ∧ (s.powerText ++ rest).head? ≠ some '.' := by
  unfold powerText
  cases s.power with
  | none => exact ⟨hrest.noDigit, fun hhead => (hrest '.' hhead).2.1 rfl⟩
  | some e =>
    obtain ⟨ds, heq, -⟩ := exponentText_eq e
    simp only [Option.elim_some, heq, NoDigit]
    exact ⟨by simp; decide, by simp⟩

theorem noDigit_pointText (h : NoDigit rest) : NoDigit (s.pointText ++ rest) := by
  unfold pointText
  split
  · exact h
  · simp [NoDigit]
    decide

theorem readMinus_text (negative : Bool) (hs : s.Proper) :
    readMinus ((Binary64.sign negative).toList ++ (s.text ++ rest)) = (negative, s.text ++ rest) := by
  cases negative with
  | true => rfl
  | false =>
    obtain ⟨c, tail, heq⟩ := hs.whole_cons
    have hdigit : isDigit c = true := hs.whole c (by simp [heq])
    have hminus : c ≠ '-' := by
      rintro rfl
      exact absurd hdigit (by decide)
    show readMinus (s.text ++ rest) = _
    rw [text, heq, List.cons_append, List.cons_append]
    simp [readMinus, hminus]

theorem readNumber_text (negative : Bool) (hs : s.Proper) (hrest : Stops rest) :
    readNumber ((Binary64.sign negative).toList ++ (s.text ++ rest)) =
      .ok (s.number negative, rest) := by
  obtain ⟨hnoDigit, hnoPoint⟩ := head_powerText (s := s) hrest
  unfold readNumber
  rw [readMinus_text negative hs]
  simp only [text, List.append_assoc, readWhole?_whole hs (noDigit_pointText hnoDigit),
    readFraction_pointText hs hnoDigit hnoPoint, readPower_powerText hrest]
  simp only [Bool.and_eq_true, List.isEmpty_iff, Option.isNone_iff_eq_none, number, decimal,
    Numeral.digitsValue_append]
  split <;> rfl

-- ---------------------------------------------------------------------------
-- Layouts of decimals
-- ---------------------------------------------------------------------------

/-- A text spells a decimal with parts that are read as a binary64 number. -/
def Spells (cs : List Char) (d : Decimal) : Prop :=
  ∃ s : Spelling, s.Proper ∧ (s.fraction ≠ [] ∨ s.power ≠ none) ∧ cs = s.text ∧ s.decimal.value = d.value

structure Digits (d : Decimal) (ds : List Char) : Prop where
  digits : ∀ c ∈ ds, isDigit c = true
  lead : ∃ c tail, ds = c :: tail ∧ c ≠ '0'
  value : digitsValue 0 ds = d.digits

theorem digits_toString {d : Decimal} (hd : d.digits ≠ 0) : Digits d (toString d.digits).toList :=
  ⟨Numeral.isDigit_toString _, Numeral.toString_lead hd, Numeral.digitsValue_toString _⟩

theorem toList_zeros (n : Nat) : (DecimalStyle.zeros n).toList = List.replicate n '0' :=
  String.toList_ofList

theorem isDigit_zeros (n : Nat) : ∀ c ∈ List.replicate n '0', isDigit c = true := by
  intro c hc
  rw [List.eq_of_mem_replicate hc]
  decide

theorem positional_spells {d : Decimal} {digits : String} (h : Digits d digits.toList) :
    Spells (DecimalStyle.positional digits (d.power + digits.length)).toList d := by
  obtain ⟨hdigits, ⟨c, tail, hcons, hlead⟩, hvalue⟩ := h
  have hlength : digits.toList.length = digits.length := String.length_toList
  generalize hplace : d.power + digits.length = place
  unfold DecimalStyle.positional
  split
  · refine ⟨⟨['0'], List.replicate (-place).toNat '0' ++ digits.toList, none⟩,
      ⟨isDigit_zeros 1, .inl rfl, List.forall_mem_append.mpr ⟨isDigit_zeros _, hdigits⟩⟩,
      .inl (by simp [hcons]), ?_, ?_⟩
    · simp [text, pointText, powerText, toList_zeros, hcons]
    · have hworth : digitsValue 0 ('0' :: (List.replicate (-place).toNat '0' ++ digits.toList)) =
          d.digits := by
        rw [← List.cons_append, ← List.replicate_succ, Numeral.digitsValue_append,
          Numeral.digitsValue_zeros, zero_mul, hvalue]
      have hpower : (0 : Int) - ((-place).toNat + digits.length : Nat) = d.power := by omega
      simp only [decimal, List.cons_append, List.nil_append, hworth, List.length_append,
        List.length_replicate, hlength, Option.getD_none, hpower]
  split
  · refine ⟨⟨digits.toList ++ List.replicate (place.toNat - digits.length) '0', ['0'], none⟩,
      ⟨List.forall_mem_append.mpr ⟨hdigits, isDigit_zeros _⟩,
        .inr ⟨c, _, by rw [hcons, List.cons_append], hlead⟩, isDigit_zeros 1⟩, .inl (by simp), ?_, ?_⟩
    · simp [text, pointText, powerText, toList_zeros]
    · have hworth : digitsValue 0 (digits.toList ++
          List.replicate (place.toNat - digits.length) '0' ++ ['0']) =
          d.digits * 10 ^ (place.toNat - digits.length) * 10 := by
        rw [Numeral.digitsValue_append, Numeral.digitsValue_append, hvalue,
          Numeral.digitsValue_zeros, ← List.replicate_one, Numeral.digitsValue_zeros, pow_one]
      have hpower : d.power = (place.toNat - digits.length : Nat) := by omega
      simp only [decimal, hworth, Decimal.value, hpower]
      push_cast
      rw [zpow_natCast]
      simp
  · refine ⟨⟨digits.toList.take place.toNat, digits.toList.drop place.toNat, none⟩,
      ⟨fun x hx => hdigits x (List.mem_of_mem_take hx), .inr ⟨c, tail.take (place.toNat - 1), ?_, hlead⟩,
        fun x hx => hdigits x (List.mem_of_mem_drop hx)⟩, .inl ?_, ?_, ?_⟩
    · obtain ⟨k, hk⟩ : ∃ k, place.toNat = k + 1 := ⟨place.toNat - 1, by omega⟩
      simp [hcons, hk]
    · simp only [ne_eq, List.drop_eq_nil_iff, hlength]
      omega
    · have hne : ¬digits.toList.length ≤ place.toNat := by omega
      simp [text, pointText, powerText, hne]
    · have hpower : (0 : Int) - (digits.length - place.toNat : Nat) = d.power := by omega
      simp only [decimal, List.take_append_drop, hvalue, List.length_drop, hlength,
        Option.getD_none, hpower]

theorem scientific_spells {d : Decimal} {digits : String} (h : Digits d digits.toList) :
    Spells (Number.style.scientific digits (d.power + digits.length - 1)).toList d := by
  obtain ⟨hdigits, ⟨c, tail, hcons, hlead⟩, hvalue⟩ := h
  have hlength : digits.length = tail.length + 1 := by
    rw [← String.length_toList, hcons, List.length_cons]
  rw [hcons] at hdigits hvalue
  rw [List.forall_mem_cons] at hdigits
  have hwhole : ∀ x ∈ [c], isDigit x = true := by simpa using hdigits.1
  refine ⟨⟨[c], tail, some (d.power + digits.length - 1)⟩, ⟨hwhole, .inr ⟨c, [], rfl, hlead⟩, hdigits.2⟩,
    .inr (by simp), ?_, ?_⟩
  · unfold DecimalStyle.scientific
    cases tail with
    | nil => simp [hcons, text, pointText, powerText, Number.style]
    | cons x tail => simp [hcons, text, pointText, powerText]
  · have hpower : d.power + (tail.length + 1 : Nat) - 1 - tail.length = d.power := by omega
    simp only [decimal, List.cons_append, List.nil_append, hvalue, Option.getD_some, hlength, hpower]

theorem write_spells (d : Decimal) : Spells (Number.style.write d).toList d := by
  unfold DecimalStyle.write
  dsimp only
  split
  · rename_i hzero
    refine ⟨⟨['0'], ['0'], none⟩, ⟨isDigit_zeros 1, .inl rfl, isDigit_zeros 1⟩, .inl (by simp), ?_, ?_⟩
    · rfl
    · simp [decimal, Decimal.value, hzero, digitsValue]
  split
  · exact positional_spells (digits_toString ‹_›)
  · exact scientific_spells (digits_toString ‹_›)

end Spelling

-- ---------------------------------------------------------------------------
-- Numbers
-- ---------------------------------------------------------------------------

/-- A text that is read as a number and starts with no word. -/
structure NumberText (cs : List Char) (n : Number) : Prop where
  reads : ∀ rest, Stops rest → readNumber (cs ++ rest) = .ok (n, rest)
  head : ∃ c tail, isDigit c = true ∧ (cs = c :: tail ∨ cs = '-' :: c :: tail)

theorem Spelling.numberText (negative : Bool) {s : Spelling} (hs : s.Proper) :
    NumberText ((Binary64.sign negative).toList ++ s.text) (s.number negative) := by
  refine ⟨fun rest hrest => ?_, ?_⟩
  · rw [List.append_assoc, readNumber_text negative hs hrest]
  · obtain ⟨c, tail, heq⟩ := hs.whole_cons
    refine ⟨c, tail ++ (s.pointText ++ s.powerText), hs.whole c (by simp [heq]), ?_⟩
    rw [text, heq, List.cons_append]
    cases negative with
    | true => exact .inr rfl
    | false => exact .inl rfl

theorem numberText_finite (negative : Bool) (hcan : Binary64.Canonical m e) :
    NumberText (Binary64.text (.finite negative m e)).toList (.real (.finite negative m e)) := by
  obtain ⟨s, hproper, hreal, htext, hvalue⟩ := Spelling.write_spells (Binary64.shortest m e)
  have hnumber : s.number negative = .real (.finite negative m e) := by
    rw [Spelling.number, if_neg (by tauto), Binary64.ofDecimal_of_value negative hcan hvalue]
  rw [Binary64.text, String.toList_append, htext, ← hnumber]
  exact s.numberText negative hproper

theorem numberText_int (n : Int) : NumberText (toString n).toList (.int n) := by
  have hproper : Spelling.Proper ⟨(toString n.natAbs).toList, [], none⟩ := by
    refine ⟨Numeral.isDigit_toString _, ?_, by simp⟩
    by_cases hzero : n.natAbs = 0
    · exact .inl (by rw [hzero]; rfl)
    · exact .inr (Numeral.toString_lead hzero)
  have hnumber : Spelling.number (decide (n < 0)) ⟨(toString n.natAbs).toList, [], none⟩ = .int n := by
    rw [Spelling.number, if_pos ⟨rfl, rfl⟩, Numeral.digitsValue_toString, Spelling.signed_natAbs]
  have htext : (toString n).toList = (Binary64.sign (decide (n < 0))).toList ++
      Spelling.text ⟨(toString n.natAbs).toList, [], none⟩ := by
    rw [Spelling.text, Spelling.pointText, if_pos rfl, Spelling.powerText, Option.elim_none,
      List.append_nil, List.append_nil, Numeral.toList_toString_int]
  rw [htext, ← hnumber]
  exact Spelling.numberText _ hproper

end Json

end BlockSketch
