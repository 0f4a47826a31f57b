import BlockSketch.Proofs.Number.Shortest

/-!
# Integers as binary64 numbers

The integers that are binary64 numbers are exact: at most 53 binary digits and zeros behind them. Every
integer is rounded to an exact one that none is nearer to, or to infinity if it lies beyond them all.
-/

namespace BlockSketch.Binary64

-- ---------------------------------------------------------------------------
-- Numbers that are integers
-- ---------------------------------------------------------------------------

/-- A natural that is a binary64 number. -/
def IsExact (n : Nat) : Prop :=
  ∃ m k, m < 2 ^ 53 ∧ k ≤ 971 ∧ n = m * 2 ^ k

theorem isExact_of_lt (h : n < 2 ^ 53) : IsExact n :=
  ⟨n, 0, h, by decide, by simp⟩

theorem toInt?_of_value (negative : Bool) {n m : Nat} (h : (n : ℚ) = m * 2 ^ e) :
    toInt? (.finite negative m e) = some (signed negative n) := by
  by_cases he : 0 ≤ e
  · obtain ⟨k, rfl⟩ := Int.eq_ofNat_of_zero_le he
    rw [zpow_natCast] at h
    have h : n = m * 2 ^ k := by exact_mod_cast h
    simp [toInt?, h]
  · obtain ⟨k, hk⟩ := Int.eq_ofNat_of_zero_le (a := -e) (by omega)
    obtain rfl : e = -k := by omega
    rw [zpow_neg, zpow_natCast, ← div_eq_mul_inv, eq_div_iff (by positivity)] at h
    have h : n * 2 ^ k = m := by exact_mod_cast h
    have hpos : 0 < 2 ^ k := by positivity
    simp only [toInt?, if_neg he, neg_neg, Int.toNat_natCast, Nat.pow_eq, ← h,
      Nat.mul_mod_left, if_true, Nat.mul_div_cancel n hpos]

theorem natAbs_signed (negative : Bool) (n : Nat) : (signed negative n).natAbs = n := by
  cases negative <;> simp [signed]

theorem isExact_of_value {n : Nat} (hcan : Canonical m e) (h : (n : ℚ) = m * 2 ^ e) :
    IsExact n := by
  by_cases he : 0 ≤ e
  · obtain ⟨k, rfl⟩ := Int.eq_ofNat_of_zero_le he
    have hhigh := hcan.high
    simp only [maxExponent] at hhigh
    rw [zpow_natCast] at h
    exact ⟨m, k, hcan.mantissa, by omega, by exact_mod_cast h⟩
  · have hscale : (2 : ℚ) ^ e ≤ 1 := zpow_le_one_of_nonpos₀ (by norm_num) (by omega)
    have hle : (n : ℚ) ≤ m := by
      rw [h]
      exact mul_le_of_le_one_right (by positivity) hscale
    have hle : n ≤ m := by exact_mod_cast hle
    exact isExact_of_lt (hle.trans_lt hcan.mantissa)

theorem IsExact.canonical {n : Nat} (hn : n ≠ 0) (h : IsExact n) :
    ∃ m e, Canonical m e ∧ (n : ℚ) = m * 2 ^ e := by
  obtain ⟨m, k, hm, hk, hvalue⟩ := h
  have hpos : m ≠ 0 := by
    rintro rfl
    simp [hvalue] at hn
  have hlog : m.log2 ≤ 52 := by
    have := (Nat.log2_lt hpos).mpr hm
    omega
  -- The digits are moved up until the first one is in the highest place.
  have hfull : 2 ^ 52 ≤ m * 2 ^ (52 - m.log2) :=
    calc 2 ^ 52 = 2 ^ m.log2 * 2 ^ (52 - m.log2) := by rw [← pow_add]; congr 1; omega
      _ ≤ m * 2 ^ (52 - m.log2) := Nat.mul_le_mul_right _ (Nat.log2_self_le hpos)
  have hmantissa : m * 2 ^ (52 - m.log2) < 2 ^ 53 :=
    calc m * 2 ^ (52 - m.log2) < 2 ^ (m.log2 + 1) * 2 ^ (52 - m.log2) :=
          Nat.mul_lt_mul_of_pos_right Nat.lt_log2_self (by positivity)
      _ = 2 ^ 53 := by rw [← pow_add]; congr 1; omega
  have hexact : (n : ℚ) = (m * 2 ^ (52 - m.log2) : Nat) * 2 ^ ((k : Int) - (52 - m.log2 : Nat)) := by
    rw [hvalue, zpow_sub₀ two_ne_zero, zpow_natCast, zpow_natCast]
    push_cast
    field_simp
  refine ⟨_, _, ⟨hmantissa, ?_, ?_, .inl hfull⟩, hexact⟩
  · simp only [minExponent]
    omega
  · simp only [maxExponent]
    omega

-- ---------------------------------------------------------------------------
-- Rounding integers
-- ---------------------------------------------------------------------------

theorem roundsTo_self (m : Nat) (e : Int) : RoundsTo (m * 2 ^ e) m e := by
  have hgap : 0 < gap m e := by
    unfold gap
    split <;> norm_num
  have hscale : (0 : ℚ) < 2 ^ e := by positivity
  refine ⟨by nlinarith, by nlinarith, fun _ => ⟨?_, ?_⟩⟩
  · exact (mul_lt_mul_of_pos_right (by linarith) hscale).ne
  · exact (mul_lt_mul_of_pos_right (by linarith) hscale).ne

theorem ofQuotient_of_value (negative : Bool) {n m : Nat} (hn : n ≠ 0) (hcan : Canonical m e)
    (h : (n : ℚ) = m * 2 ^ e) : ofQuotient negative n 1 = .finite negative m e := by
  refine ofQuotient_of_rounds negative hn one_ne_zero hcan ?_
  rw [Nat.cast_one, div_one, h]
  exact roundsTo_self m e

theorem roundDiv_near {a b : Nat} (hb : 0 < b) : |(a : ℚ) / b - roundDiv a b| ≤ 1 / 2 := by
  have hbq : (0 : ℚ) < b := by exact_mod_cast hb
  have hdiv := Nat.div_add_mod a b
  have hmod := Nat.mod_lt a hb
  have hnat : 2 * (b * roundDiv a b) ≤ 2 * a + b ∧ 2 * a ≤ 2 * (b * roundDiv a b) + b := by
    simp only [roundDiv, Bool.or_eq_true, decide_eq_true_eq, Bool.and_eq_true, beq_iff_eq]
    split
    · rw [Nat.mul_add]
      omega
    · omega
  have hlow : 2 * ((b : ℚ) * roundDiv a b) ≤ 2 * a + b := by exact_mod_cast hnat.1
  have hhigh : 2 * (a : ℚ) ≤ 2 * (b * roundDiv a b) + b := by exact_mod_cast hnat.2
  rw [abs_le, le_sub_iff_add_le, sub_le_iff_le_add, le_div_iff₀ hbq, div_le_iff₀ hbq]
  constructor <;> linarith

theorem roundDiv_nearest {a b : Nat} (hb : 0 < b) (j : Nat) :
    |(a : ℚ) / b - roundDiv a b| ≤ |(a : ℚ) / b - j| := by
  by_cases heq : j = roundDiv a b
  · rw [heq]
  · have hnear := roundDiv_near (a := a) hb
    have hapart : (1 : ℚ) ≤ |(roundDiv a b : ℚ) - j| := by
      have : (1 : Int) ≤ |(roundDiv a b : Int) - j| := Int.one_le_abs (by omega)
      exact_mod_cast this
    have htriangle := abs_sub_le (roundDiv a b : ℚ) (a / b) j
    rw [abs_sub_comm (roundDiv a b : ℚ) (a / b)] at htriangle
    linarith

/-- What is not exact is rounded in units of a power of two, and is at least `2 ^ 52` units. -/
theorem ofQuotient_inexact (negative : Bool) {n : Nat} (h : ¬IsExact n) :
    ∃ r k : Nat, 2 ^ 52 * 2 ^ k ≤ (n : ℚ) ∧ |(n : ℚ) / 2 ^ k - r| ≤ 1 / 2 ∧
      (∀ j : Nat, |(n : ℚ) / 2 ^ k - r| ≤ |(n : ℚ) / 2 ^ k - j|) ∧
      ofQuotient negative n 1 = carry negative r k := by
  have hlarge : 2 ^ 53 ≤ n := Nat.le_of_not_lt fun hlt => h (isExact_of_lt hlt)
  have hn : n ≠ 0 := by omega
  have hfits := quotientExponent_fits hn one_ne_zero
  obtain ⟨a, b, hb, hunits, heq⟩ := ofQuotient_eq negative hn one_ne_zero hfits
  obtain ⟨-, habove, hbelow⟩ := hfits
  rw [Nat.cast_one, div_one] at habove hbelow hunits
  obtain ⟨k, hk⟩ : ∃ k : Nat, quotientExponent n 1 = k := by
    refine Int.eq_ofNat_of_zero_le ?_
    by_contra hneg
    have hscale : (2 : ℚ) ^ quotientExponent n 1 ≤ 1 :=
      zpow_le_one_of_nonpos₀ (by norm_num) (by omega)
    have hlarge : (2 : ℚ) ^ 53 ≤ n := by exact_mod_cast hlarge
    linarith
  rw [hk, zpow_natCast] at hunits hbelow
  rw [hk] at heq
  refine ⟨roundDiv a b, k, hbelow.resolve_left ?_, ?_, fun j => ?_, heq⟩
  · simp only [minExponent]
    omega
  · rw [← hunits]
    exact roundDiv_near hb
  · rw [← hunits]
    exact roundDiv_nearest hb j

theorem bounded_cases (negative : Bool) (m k : Nat) :
    bounded negative m k = .infinite negative ∧ 971 < k ∨
      bounded negative m k = .finite negative m k := by
  by_cases hk : maxExponent < k
  · refine .inl ⟨if_pos hk, ?_⟩
    simp only [maxExponent] at hk
    omega
  · exact .inr (if_neg hk)

theorem carry_cases (negative : Bool) (r k : Nat) :
    carry negative r k = .infinite negative ∧ (971 < k ∨ r = 2 ^ 53 ∧ k = 971) ∨
      ∃ m e : Nat, carry negative r k = .finite negative m e ∧ m * 2 ^ e = r * 2 ^ k := by
  by_cases hr : r = 2 ^ 53
  · have hcarry : carry negative r k = bounded negative (2 ^ 52) (k + 1 : Nat) := if_pos hr
    rw [hcarry]
    refine (bounded_cases negative (2 ^ 52) (k + 1)).imp (.imp_right ?_) fun hfinite => ?_
    · omega
    · refine ⟨2 ^ 52, k + 1, hfinite, ?_⟩
      rw [hr, pow_succ 2 k]
      omega
  · have hcarry : carry negative r k = bounded negative r k := if_neg hr
    rw [hcarry]
    exact (bounded_cases negative r k).imp (.imp_right .inl) fun hfinite => ⟨r, k, hfinite, rfl⟩

/-- `k` is exact, and no exact integer is nearer to `n`. -/
def IsNearest (n k : Int) : Prop :=
  IsExact k.natAbs ∧ ∀ j : Int, IsExact j.natAbs → (n - k).natAbs ≤ (n - j).natAbs

theorem IsNearest.eq_iff (h : IsNearest n k) : k = n ↔ IsExact n.natAbs := by
  constructor
  · rintro rfl
    exact h.1
  · intro hn
    have := h.2 n hn
    omega

/-- The unit is the last place of what has 53 binary digits, so nothing exact lies between. -/
theorem nearest_of_units {n r k : Nat} (hlarge : 2 ^ 52 * 2 ^ k ≤ (n : ℚ))
    (hnear : ∀ j : Nat, |(n : ℚ) / 2 ^ k - r| ≤ |(n : ℚ) / 2 ^ k - j|) (hj : IsExact j) :
    |(n : ℚ) - r * 2 ^ k| ≤ |(n : ℚ) - j| := by
  have hunit : (0 : ℚ) < 2 ^ k := by positivity
  have hscaled : ∀ i : Nat, |(n : ℚ) - r * 2 ^ k| ≤ |(n : ℚ) - i * 2 ^ k| := by
    intro i
    have hmul : ∀ x : ℚ, (n : ℚ) - x * 2 ^ k = (n / 2 ^ k - x) * 2 ^ k := by
      intro x
      field_simp
    rw [hmul, hmul, abs_mul, abs_mul]
    exact mul_le_mul_of_nonneg_right (hnear i) (abs_nonneg _)
  obtain ⟨m, e, hm, -, rfl⟩ := hj
  by_cases hle : k ≤ e
  · obtain ⟨d, rfl⟩ := Nat.exists_eq_add_of_le hle
    have := hscaled (m * 2 ^ d)
    push_cast at this ⊢
    rwa [pow_add, mul_comm (2 ^ k : ℚ), ← mul_assoc]
  · -- Smaller units reach at most as far as the least number with all its digits.
    have hlow : ((m * 2 ^ e : Nat) : ℚ) ≤ 2 ^ 52 * 2 ^ k := by
      have : m * 2 ^ e ≤ 2 ^ 52 * 2 ^ k :=
        calc m * 2 ^ e ≤ 2 ^ 53 * 2 ^ e := Nat.mul_le_mul_right _ hm.le
          _ = 2 ^ 52 * 2 ^ (e + 1) := by rw [pow_succ 2 e]; omega
          _ ≤ 2 ^ 52 * 2 ^ k := Nat.mul_le_mul_left _ (Nat.pow_le_pow_right (by decide) (by omega))
      exact_mod_cast this
    have hpower := hscaled (2 ^ 52)
    rw [Nat.cast_pow, Nat.cast_ofNat] at hpower
    rw [abs_of_nonneg (a := (n : ℚ) - 2 ^ 52 * 2 ^ k) (by linarith)] at hpower
    rw [abs_of_nonneg (a := (n : ℚ) - (m * 2 ^ e : Nat)) (by linarith)]
    linarith

/-- With `top` the greatest exponent, what is rounded to infinity lies beyond all exact integers. -/
theorem lt_of_units {n r k top : Nat} (hlarge : 2 ^ 52 * 2 ^ k ≤ (n : ℚ))
    (hnear : |(n : ℚ) / 2 ^ k - r| ≤ 1 / 2) (hbig : top < k ∨ r = 2 ^ 53 ∧ k = top)
    (hm : m < 2 ^ 53) (he : e ≤ top) : m * 2 ^ e < n := by
  have hle : m * 2 ^ e ≤ (2 ^ 53 - 1) * 2 ^ top :=
    Nat.mul_le_mul (by omega) (Nat.pow_le_pow_right (by decide) he)
  have hunit : (0 : ℚ) < 2 ^ top := by positivity
  suffices hlt : (((2 ^ 53 - 1) * 2 ^ top : Nat) : ℚ) < n from hle.trans_lt (Nat.cast_lt.mp hlt)
  push_cast
  rcases hbig with hk | ⟨rfl, rfl⟩
  · have hpow : (2 : ℚ) ^ (top + 1) ≤ 2 ^ k := pow_le_pow_right₀ (by norm_num) hk
    rw [pow_succ] at hpow
    linarith
  · rw [abs_le, le_sub_iff_add_le, le_div_iff₀ hunit] at hnear
    have hlow := hnear.1
    push_cast at hlow
    linarith

/-- An integer is rounded to the nearest exact one, or to infinity beyond all exact ones. -/
theorem ofQuotient_integer (negative : Bool) (n : Nat) :
    ofQuotient negative n 1 = .infinite negative ∧ (∀ j, IsExact j → j < n) ∨
      ∃ k, (ofQuotient negative n 1).toInt? = some (signed negative k) ∧ IsExact k ∧
        ∀ j, IsExact j → |(n : ℚ) - k| ≤ |(n : ℚ) - j| := by
  by_cases h : IsExact n
  · refine .inr ⟨n, ?_, h, fun j _ => by simp⟩
    by_cases hn : n = 0
    · rw [ofQuotient, if_pos hn, zero, hn]
      exact toInt?_of_value negative (by simp)
    · obtain ⟨m, e, hcan, hvalue⟩ := h.canonical hn
      rw [ofQuotient_of_value negative hn hcan hvalue]
      exact toInt?_of_value negative hvalue
  · obtain ⟨r, k, hlarge, hnear, hnearest, heq⟩ := ofQuotient_inexact negative h
    rcases carry_cases negative r k with ⟨hinfinite, hbig⟩ | ⟨m, e, hfinite, hvalue⟩
    · refine .inl ⟨heq.trans hinfinite, ?_⟩
      rintro j ⟨m, e, hm, he, rfl⟩
      exact lt_of_units hlarge hnear hbig hm he
    · have hcan := ofQuotient_canonical negative n one_ne_zero
      rw [heq, hfinite] at hcan ⊢
      have hworth : ((r * 2 ^ k : Nat) : ℚ) = m * 2 ^ (e : Int) := by
        rw [← hvalue, zpow_natCast]
        push_cast
        rfl
      refine .inr ⟨r * 2 ^ k, toInt?_of_value negative hworth, isExact_of_value hcan hworth, ?_⟩
      intro j hj
      push_cast
      exact nearest_of_units hlarge hnearest hj

/-- The integer that the binary64 number nearest to `n` is; none if that one is infinite. -/
def nearestInt? (n : Int) : Option Int :=
  (ofInt n).toInt?

theorem isNearest_of_nearestInt? (h : nearestInt? n = some k) : IsNearest n k := by
  unfold nearestInt? ofInt at h
  rcases ofQuotient_integer (decide (n < 0)) n.natAbs with ⟨hinfinite, -⟩ | ⟨m, hint, hexact, hnear⟩
  · rw [hinfinite] at h
    cases h
  · obtain rfl : signed (decide (n < 0)) m = k := Option.some.inj (hint.symm.trans h)
    refine ⟨by rwa [natAbs_signed], fun j hj => ?_⟩
    have hcast : ∀ a b : Nat, |(a : ℚ) - b| = ((a : Int) - b).natAbs := by
      intro a b
      rw [Nat.cast_natAbs]
      push_cast
      rfl
    have hle := hnear j.natAbs hj
    rw [hcast, hcast, Nat.cast_le] at hle
    by_cases hneg : n < 0
    · rw [signed, if_pos (decide_eq_true hneg)]
      omega
    · rw [signed, if_neg (by simpa using hneg)]
      omega

theorem nearestInt?_eq_none (h : nearestInt? n = none) :
    ofInt n = .infinite (decide (n < 0)) ∧ ∀ j, IsExact j → j < n.natAbs := by
  rcases ofQuotient_integer (decide (n < 0)) n.natAbs with hinfinite | ⟨m, hint, -⟩
  · exact hinfinite
  · cases h.symm.trans hint

theorem ofQuotient_overflow (negative : Bool) {n : Nat} (h : (2 : ℚ) ^ 1075 ≤ n) :
    ofQuotient negative n 1 = .infinite negative := by
  have hn : n ≠ 0 := by
    rintro rfl
    exact absurd h (not_le_of_gt (Nat.cast_zero (R := ℚ) ▸ pow_pos two_pos 1075))
  have hfits := quotientExponent_fits hn one_ne_zero
  obtain ⟨a, b, -, -, heq⟩ := ofQuotient_eq negative hn one_ne_zero hfits
  have hexponent : maxExponent < quotientExponent n 1 := by
    by_contra hle
    simp only [maxExponent, not_lt] at hle
    have habove := hfits.above
    rw [Nat.cast_one, div_one, ← zpow_natCast, ← zpow_add₀ two_ne_zero] at habove
    have hpow : (2 : ℚ) ^ ((53 : Nat) + quotientExponent n 1) ≤ 2 ^ (1075 : Nat) := by
      rw [← zpow_natCast 2 1075]
      exact zpow_le_zpow_right₀ (by norm_num) (by omega)
    exact absurd (habove.trans_le hpow) (not_lt_of_ge h)
  have hnext : maxExponent < quotientExponent n 1 + 1 := by omega
  rw [heq, carry, bounded, bounded, if_pos hnext, if_pos hexponent, ite_self]

/-- The early answer for long numerals is what rounding gives. -/
theorem ofDecimal_integer (negative : Bool) (n : Nat) :
    ofDecimal negative n 0 = ofQuotient negative n 1 := by
  by_cases hn : n = 0
  · simp [ofDecimal, ofQuotient, hn]
  · have hsize : (0 : Int) + (Nat.toDigits 10 n).length = (Decimal.digitCount n : Nat) := by
      rw [Int.zero_add]
      rfl
    simp only [ofDecimal, hsize]
    rw [if_neg (by simp [hn])]
    split
    · rename_i hlong
      refine (ofQuotient_overflow negative (two_pow_le.trans ?_)).symm
      have hpow : (10 : ℚ) ^ 400 ≤ 10 ^ (Decimal.digitCount n - 1) :=
        pow_le_pow_right₀ (by norm_num) (by omega)
      refine hpow.trans ?_
      exact_mod_cast Decimal.pow_digitCount_le (Nat.pos_of_ne_zero hn)
    · simp

end BlockSketch.Binary64
