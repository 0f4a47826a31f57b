import BlockSketch.Proofs.Expression.Parsing
import BlockSketch.Proofs.Json.Numerals

/-!
# Numbers in the code

A number that is not negative is written as one token, which is read as a number of the same worth.
A negative one is written as the negation of its opposite.
-/

namespace BlockSketch

open Expression Sketch

def Number.opposite : Number → Number
  | .int n => .int (-n)
  | .real (.finite negative m e) => .real (.finite (!negative) m e)
  | .real (.infinite negative) => .real (.infinite (!negative))
  | .real (.nan label) => .real (.nan label)

namespace Expression

-- ---------------------------------------------------------------------------
-- Numerals
-- ---------------------------------------------------------------------------

/-- An integer is spelled by its digits, whatever it is stored as, and any other number by the
shortest decimal that is read as it. -/
def numeral : Number → String
  | .int n => toString n
  | .real x => x.toInt?.elim x.text toString

theorem numberLiteral_eq (n : Number) : numberLiteral (.number n) = numeral n := by
  cases n with
  | int n => rfl
  | real x =>
    cases h : x.toInt? <;>
      simp [numberLiteral, numeral, h, Value.plain, Value.quoted, Number.text]

theorem same_of_toInt? {x : Binary64} (h : x.toInt? = some n) :
    (Number.int n).same (.real x) = true := by
  cases x with
  | finite negative m e =>
    simp only [Number.same, Number.magnitude, Number.Magnitude.align, beq_iff_eq]
    simp only [Binary64.toInt?] at h
    split at h
    · obtain rfl := Option.some.inj h
      have hmin : min (0 : Int) e = 0 := by omega
      cases negative <;> simp [Binary64.signed, hmin]
    · split at h
      · rename_i hdvd
        obtain rfl := Option.some.inj h
        have hmin : min (0 : Int) e = e := by omega
        have hexact := Nat.div_mul_cancel (Nat.dvd_of_mod_eq_zero hdvd)
        simp only [Nat.pow_eq] at hexact
        have hcast : (m : Int) / 2 ^ (-e).toNat * 2 ^ (-e).toNat = m := by exact_mod_cast hexact
        cases negative <;> simp [Binary64.signed, hmin, hcast]
      · cases h
  | infinite _ => cases h
  | nan _ => cases h

/-- A numeral is read as a number of the worth of the one that it spells. -/
theorem numeral_read {n : Number} (hfinite : n.isFinite = true)
    (hreal : ∀ x, n = .real x → x.IsCanonical) :
    ∃ m, Json.readNumber (numeral n).toList = .ok (m, []) ∧ m.same n = true := by
  have hread : ∀ {cs m}, Json.NumberText cs m → Json.readNumber cs = .ok (m, []) := by
    intro cs m h
    have hstops : Json.Stops [] := by simp [Json.Stops]
    simpa using h.reads [] hstops
  cases n with
  | int n => exact ⟨_, hread (Json.numberText_int n), by simp [Number.same_int]⟩
  | real x =>
    simp only [numeral]
    cases hint : x.toInt? with
    | some k => exact ⟨_, hread (Json.numberText_int k), same_of_toInt? hint⟩
    | none =>
      cases x with
      | finite negative m e =>
        exact ⟨_, hread (Json.numberText_finite negative (hreal _ rfl)), Number.same_self rfl⟩
      | infinite _ => cases hfinite
      | nan _ => cases hfinite

-- ---------------------------------------------------------------------------
-- Texts of decimals
-- ---------------------------------------------------------------------------

def isMantissa (c : Char) : Bool :=
  c.isDigit || c = '.'

theorem extendsNumber_mantissa (h : isMantissa c = true) (marked : Bool) :
    extendsNumber marked c = true := by
  simp only [isMantissa, Bool.or_eq_true] at h
  rcases h with h | h
  · simp [extendsNumber, isNameChar_digit h]
  · simp only [extendsNumber, h, Bool.or_true, Bool.true_or]

theorem isNumberTail_mono (h : isNumberTail false cs = true) (marked : Bool) :
    isNumberTail marked cs = true := by
  cases cs with
  | nil => rfl
  | cons c cs =>
    simp only [isNumberTail, extendsNumber, Bool.false_and, Bool.or_false, Bool.and_eq_true] at h ⊢
    exact ⟨by simp [h.1], h.2⟩

theorem isNumberTail_append (ha : ∀ c ∈ a, isMantissa c = true)
    (hb : isNumberTail false b = true) : isNumberTail marked (a ++ b) = true := by
  induction a generalizing marked with
  | nil => exact isNumberTail_mono hb marked
  | cons c a ih =>
    simp only [List.forall_mem_cons] at ha
    simp [isNumberTail, extendsNumber_mantissa ha.1, ih ha.2]

theorem isNumeral_cons (hc : c.isDigit = true) (ha : ∀ c ∈ a, isMantissa c = true)
    (hb : isNumberTail false b = true) : isNumeral (c :: (a ++ b)) = true := by
  simp [isNumeral, hc, isNumberTail_append ha hb]

theorem isMantissa_digit (h : c.isDigit = true) : isMantissa c = true := by
  simp [isMantissa, h]

theorem isDigit_toString {n : Nat} : ∀ c ∈ (toString n).toList, c.isDigit = true := by
  intro c hc
  rw [Nat.toString_eq_repr, Nat.toList_repr] at hc
  exact Nat.isDigit_of_mem_toDigits (by decide) (by decide) hc

theorem toString_cons (n : Nat) : ∃ c rest, (toString n).toList = c :: rest := by
  cases h : (toString n).toList with
  | nil =>
    rw [Nat.toString_eq_repr, Nat.toList_repr] at h
    exact absurd h Nat.toDigits_ne_nil
  | cons c rest => exact ⟨c, rest, rfl⟩

theorem isNumeral_toString (n : Nat) : isNumeral (toString n).toList = true := by
  obtain ⟨c, rest, h⟩ := toString_cons n
  have hdigits := isDigit_toString (n := n)
  rw [h, List.forall_mem_cons] at hdigits
  rw [h, ← List.append_nil rest]
  exact isNumeral_cons hdigits.1 (fun x hx => isMantissa_digit (hdigits.2 x hx)) rfl

theorem isNumberTail_digits (h : ∀ c ∈ a, c.isDigit = true) : isNumberTail false a = true := by
  rw [← List.append_nil a]
  exact isNumberTail_append (fun c hc => isMantissa_digit (h c hc)) rfl

theorem isNumberTail_exponent (e : Int) :
    isNumberTail false (DecimalStyle.exponentText e).toList = true := by
  have hdigits := isDigit_toString (n := e.natAbs)
  simp only [DecimalStyle.exponentText]
  generalize toString e.natAbs = digits at hdigits
  -- The exponent has a zero before it if it is a single digit.
  have hpadded : isNumberTail false (if digits.length < 2 then "0" ++ digits else digits).toList =
      true := by
    refine isNumberTail_digits ?_
    split
    · simpa using hdigits
    · exact hdigits
  generalize (if digits.length < 2 then "0" ++ digits else digits) = padded at hpadded
  rw [String.toList_append]
  split <;> simpa [isNumberTail, extendsNumber, isExponentMark, isNameChar] using hpadded

theorem isMantissa_zeros (n : Nat) : ∀ c ∈ (DecimalStyle.zeros n).toList, isMantissa c = true := by
  intro c hc
  rw [DecimalStyle.zeros, String.toList_ofList] at hc
  obtain rfl := List.eq_of_mem_replicate hc
  rfl

theorem isMantissa_pointZero : ∀ c ∈ ['.', '0'], isMantissa c = true :=
  List.forall_mem_cons.mpr ⟨rfl, List.forall_mem_singleton.mpr rfl⟩

theorem isNumeral_positional {digits : String} (hcons : digits.toList = d :: rest)
    (h : ∀ c ∈ digits.toList, c.isDigit = true) (place : Int) :
    isNumeral (DecimalStyle.positional digits place).toList = true := by
  have hmantissa : ∀ c ∈ digits.toList, isMantissa c = true := fun c hc => isMantissa_digit (h c hc)
  have hzeros := isMantissa_zeros
  unfold DecimalStyle.positional
  split
  · have hall : ∀ c ∈ '.' :: ((DecimalStyle.zeros (-place).toNat).toList ++ digits.toList),
        isMantissa c = true := by
      simp only [List.forall_mem_cons, List.forall_mem_append]
      exact ⟨rfl, hzeros _, hmantissa⟩
    simpa using isNumeral_cons (c := '0') rfl hall (b := []) rfl
  · rw [hcons, List.forall_mem_cons] at h hmantissa
    split
    · have hall : ∀ c ∈ rest ++ (DecimalStyle.zeros (place.toNat - digits.length)).toList ++
          ['.', '0'], isMantissa c = true := by
        simp only [List.forall_mem_append]
        exact ⟨⟨hmantissa.2, hzeros _⟩, isMantissa_pointZero⟩
      simpa [hcons] using isNumeral_cons h.1 hall (b := []) rfl
    · obtain ⟨k, hk⟩ : ∃ k, place.toNat = k + 1 := ⟨place.toNat - 1, by omega⟩
      have hall : ∀ c ∈ rest.take k ++ '.' :: rest.drop k, isMantissa c = true := by
        simp only [List.forall_mem_append, List.forall_mem_cons]
        exact ⟨fun c hc => hmantissa.2 c (List.mem_of_mem_take hc), rfl,
          fun c hc => hmantissa.2 c (List.mem_of_mem_drop hc)⟩
      simpa [hcons, hk] using isNumeral_cons h.1 hall (b := []) rfl

theorem isNumeral_scientific {digits : String} (hcons : digits.toList = d :: rest)
    (h : ∀ c ∈ digits.toList, c.isDigit = true) (style : DecimalStyle) (e : Int) :
    isNumeral (style.scientific digits e).toList = true := by
  have hexponent := isNumberTail_exponent e
  rw [hcons, List.forall_mem_cons] at h
  unfold DecimalStyle.scientific
  rw [hcons]
  cases rest with
  | nil =>
    cases style.pointBeforeExponent with
    | true => simpa using isNumeral_cons h.1 isMantissa_pointZero hexponent
    | false => simpa using isNumeral_cons h.1 (a := []) (by simp) hexponent
  | cons c rest =>
    have hall : ∀ x ∈ '.' :: c :: rest, isMantissa x = true := by
      rw [List.forall_mem_cons]
      exact ⟨rfl, fun x hx => isMantissa_digit (h.2 x hx)⟩
    simpa using isNumeral_cons h.1 hall hexponent

theorem isNumeral_write (style : DecimalStyle) (d : Decimal) :
    isNumeral (style.write d).toList = true := by
  obtain ⟨c, rest, hcons⟩ := toString_cons d.digits
  simp only [DecimalStyle.write]
  split
  · decide
  · split
    · exact isNumeral_positional hcons isDigit_toString _
    · exact isNumeral_scientific hcons isDigit_toString _ _

-- ---------------------------------------------------------------------------
-- Number literals
-- ---------------------------------------------------------------------------

theorem isNumeral_int {n : Int} (h : 0 ≤ n) : isNumeral (toString n).toList = true := by
  rw [Int.toString_eq_repr, Int.repr_eq_if, if_pos h]
  exact isNumeral_toString n.toNat

theorem toString_neg {n : Int} (h : n < 0) : toString n = "-" ++ toString (-n) := by
  rw [Int.toString_eq_repr, Int.repr_eq_if, if_neg (by omega), Int.toString_eq_repr,
    Int.repr_eq_if, if_pos (by omega)]

theorem less_zero_finite : (Number.real (.finite negative m e)).less (.int 0) =
    (negative && decide (m ≠ 0)) := by
  have hpow : 0 < Int.pow 2 (e - min e 0).toNat := Int.pow_pos (by decide)
  simp only [Number.less, Number.magnitude, Number.Magnitude.align, Int.zero_mul]
  generalize Int.pow 2 (e - min e 0).toNat = p at hpow
  cases negative with
  | false =>
    have hle : 0 ≤ (m : Int) * p := Int.mul_nonneg (by omega) (by omega)
    simp [Binary64.signed, hle]
  | true =>
    by_cases hm : m = 0
    · simp [Binary64.signed, hm]
    · have hneg : Binary64.signed true m < 0 := by
        simp only [Binary64.signed, if_true]
        omega
      have hlt := Int.mul_neg_of_neg_of_pos hneg hpow
      simp only [hlt, decide_true, Bool.true_and, ne_eq, hm, not_false_iff]

theorem toInt?_finite (m : Nat) (e : Int) :
    (∃ k : Nat, (k = 0 ↔ m = 0) ∧
      ∀ negative, Binary64.toInt? (.finite negative m e) = some (Binary64.signed negative k)) ∨
    (m ≠ 0 ∧ ∀ negative, Binary64.toInt? (.finite negative m e) = none) := by
  by_cases he : 0 ≤ e
  · refine .inl ⟨m * Nat.pow 2 e.toNat, ?_, fun negative => by simp [Binary64.toInt?, he]⟩
    rw [Nat.mul_eq_zero]
    exact or_iff_left (Nat.ne_of_gt (Nat.two_pow_pos _))
  · by_cases hm : m % Nat.pow 2 (-e).toNat = 0
    · refine .inl ⟨m / Nat.pow 2 (-e).toNat, ?_,
        fun negative => by simp [Binary64.toInt?, he, hm, -Nat.pow_eq]⟩
      have hmul := Nat.div_mul_cancel (Nat.dvd_of_mod_eq_zero hm)
      constructor
      · intro hzero
        rw [← hmul, hzero, Nat.zero_mul]
      · rintro rfl
        exact Nat.zero_div _
    · refine .inr ⟨?_, fun negative => by simp [Binary64.toInt?, he, hm, -Nat.pow_eq]⟩
      rintro rfl
      exact hm (Nat.zero_mod _)

/-- A finite number is written as its sign, unless it is zero, and its absolute value. -/
theorem numeral_finite (negative : Bool) (m : Nat) (e : Int) :
    numeral (.real (.finite negative m e)) =
      (if negative && decide (m ≠ 0) then "-" else "") ++ numeral (.real (.finite false m e)) := by
  simp only [numeral]
  rcases toInt?_finite m e with ⟨k, hzero, hint⟩ | ⟨hm, hint⟩
  · rw [hint, hint]
    cases negative with
    | false => simp
    | true =>
      by_cases hm : m = 0
      · simp [hm, hzero.mpr hm, Binary64.signed]
      · have hk : k ≠ 0 := fun hk => hm (hzero.mp hk)
        simp [Binary64.signed, hm, toString_neg (n := -(k : Int)) (by omega)]
  · rw [hint, hint]
    cases negative <;> simp [Binary64.text, Binary64.sign, hm]

theorem isNumeral_finite (m : Nat) (e : Int) :
    isNumeral (numeral (.real (.finite false m e))).toList = true := by
  simp only [numeral]
  rcases toInt?_finite m e with ⟨k, -, hint⟩ | ⟨-, hint⟩
  · rw [hint]
    exact isNumeral_int (Int.natCast_nonneg k)
  · rw [hint]
    simpa [Binary64.text, Binary64.sign] using isNumeral_write Number.style (Binary64.shortest m e)

/-- A number below zero is written as the negation of its opposite, any other as one token. -/
theorem numeral_cases {n : Number} (hfinite : n.isFinite = true) :
    if n.less (.int 0) then
      numeral n = "-" ++ numeral n.opposite ∧ isNumeral (numeral n.opposite).toList = true
    else isNumeral (numeral n).toList = true := by
  cases n with
  | int n =>
    by_cases hn : n < 0
    · simp only [Number.less_int, hn, decide_true, if_true, Number.opposite, numeral]
      exact ⟨toString_neg hn, isNumeral_int (by omega)⟩
    · simp only [Number.less_int, hn, decide_false, numeral]
      exact isNumeral_int (by omega)
  | real x =>
    cases x with
    | finite negative m e =>
      rw [less_zero_finite, numeral_finite]
      cases hneg : negative && decide (m ≠ 0) with
      | true =>
        simp only [Bool.and_eq_true] at hneg
        simp [Number.opposite, hneg.1, isNumeral_finite]
      | false => simpa using isNumeral_finite m e
    | infinite _ => cases hfinite
    | nan _ => cases hfinite

end Expression
end BlockSketch
