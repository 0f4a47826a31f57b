import BlockSketch.Number.Shortest
import BlockSketch.Proofs.Number.Rounding
import Mathlib.Data.Nat.Cast.Order.Field
import Mathlib.Data.Nat.Digits.Defs

/-!
# Shortest decimals read back

The shortest decimal of a number lies in the interval of what rounds to the number, so that it is read
as the number again. It is found with seventeen digits at the latest: the decimals of that many digits
lie closer together than the interval is wide.
-/

namespace BlockSketch

-- ---------------------------------------------------------------------------
-- Values of decimals
-- ---------------------------------------------------------------------------

namespace Decimal

def value (d : Decimal) : ℚ :=
  d.digits * 10 ^ d.power

theorem dropZeros_value (fuel : Nat) (d : Decimal) : (dropZeros fuel d).value = d.value := by
  induction fuel generalizing d with
  | zero => rfl
  | succ fuel ih =>
    rw [dropZeros]
    split
    · rename_i h
      simp only [Bool.and_eq_true, beq_iff_eq] at h
      obtain ⟨k, hk⟩ := Nat.dvd_of_mod_eq_zero h.2
      rw [ih]
      simp only [value, hk, Nat.mul_div_cancel_left k (by decide : 0 < 10)]
      rw [zpow_add_one₀ (by norm_num)]
      push_cast
      ring
    · rfl

theorem lt_pow_digitCount (n : Nat) : n < 10 ^ digitCount n :=
  (Nat.length_toDigits_le_iff (by decide) Nat.length_toDigits_pos).mp (le_refl _)

theorem pow_digitCount_le {n : Nat} (hn : 0 < n) : 10 ^ (digitCount n - 1) ≤ n := by
  by_cases hone : digitCount n = 1
  · rw [hone]
    exact hn
  · by_contra hlt
    have hpos : 0 < digitCount n := Nat.length_toDigits_pos
    have hle := (Nat.length_toDigits_le_iff (b := 10) (n := n) (k := digitCount n - 1) (by decide)
      (by omega)).mpr (by omega)
    have heq : (Nat.toDigits 10 n).length = digitCount n := rfl
    omega

theorem value_lt (d : Decimal) : d.value < 10 ^ (d.power + digitCount d.digits) := by
  rw [value, zpow_add₀ (by norm_num), mul_comm, zpow_natCast]
  refine mul_lt_mul_of_pos_left ?_ (by positivity)
  exact_mod_cast lt_pow_digitCount d.digits

theorem le_value {d : Decimal} (hd : d.digits ≠ 0) :
    10 ^ (d.power + digitCount d.digits - 1) ≤ d.value := by
  have hcount : 0 < digitCount d.digits := Nat.length_toDigits_pos
  rw [value, add_sub_assoc, ← Nat.cast_one, ← Nat.cast_sub hcount, zpow_add₀ (by norm_num), mul_comm,
    zpow_natCast]
  refine mul_le_mul_of_nonneg_right ?_ (by positivity)
  exact_mod_cast pow_digitCount_le (Nat.pos_of_ne_zero hd)

end Decimal

namespace Binary64

-- ---------------------------------------------------------------------------
-- Sizes and units
-- ---------------------------------------------------------------------------

theorem decimalSize_le {n d : Nat} (hn : 0 < n) (hd : 0 < d) :
    (10 : ℚ) ^ (decimalSize n d - 1) ≤ n / d := by
  have hdq : (0 : ℚ) < d := by exact_mod_cast hd
  unfold decimalSize
  simp only [Nat.pow_eq]
  split
  · rename_i hle
    have hq : 0 < n / d := Nat.div_pos hle hd
    have hcount : 0 < Decimal.digitCount (n / d) := Nat.length_toDigits_pos
    have hpow : (10 : ℚ) ^ (Decimal.digitCount (n / d) - 1) ≤ (n / d : Nat) := by
      exact_mod_cast Decimal.pow_digitCount_le hq
    rw [← Nat.cast_one, ← Nat.cast_sub hcount, zpow_natCast]
    exact hpow.trans Nat.cast_div_le
  · have hcount : 0 < Decimal.digitCount (d / n) := Nat.length_toDigits_pos
    have hlt : d < n * 10 ^ Decimal.digitCount (d / n) := by
      rw [mul_comm, ← Nat.div_lt_iff_lt_mul hn]
      exact Decimal.lt_pow_digitCount _
    generalize Decimal.digitCount (d / n) = k at *
    -- Either way the size is `1 - j` for a power `10^j` that lifts the number to one.
    have hlift : ∀ j : Nat, d ≤ n * 10 ^ j → (10 : ℚ) ^ (-(j : Int)) ≤ n / d := by
      intro j hj
      rw [zpow_neg, zpow_natCast, inv_le_iff_one_le_mul₀ (by positivity), div_mul_eq_mul_div,
        le_div_iff₀ hdq, one_mul]
      exact_mod_cast hj
    split
    · rename_i hle
      have hsize : 2 - (k : Int) - 1 = -((k - 1 : Nat) : Int) := by omega
      rw [hsize]
      exact hlift _ hle
    · have hsize : 1 - (k : Int) - 1 = -(k : Int) := by omega
      rw [hsize]
      exact hlift k hlt.le

theorem zpow_toNat {t : ℚ} (ht : t ≠ 0) (p : Int) : t ^ p * t ^ (-p).toNat = t ^ p.toNat := by
  rcases le_total 0 p with hp | hp
  · obtain ⟨k, rfl⟩ := Int.eq_ofNat_of_zero_le hp
    simp
  · obtain ⟨k, hk⟩ := Int.eq_ofNat_of_zero_le (a := -p) (by omega)
    obtain rfl : p = -k := by omega
    simp [ht]

/-- The multipliers are the two units, enlarged by one factor. -/
theorem commonUnit_eq (p x : Int) : ∃ c : ℚ, 0 < c ∧ ((commonUnit p x).1 : ℚ) = 10 ^ p * c ∧
    ((commonUnit p x).2 : ℚ) = 2 ^ x * c := by
  have hten := zpow_toNat (t := 10) (by norm_num) p
  have htwo := zpow_toNat (t := 2) (by norm_num) x
  refine ⟨10 ^ (-p).toNat * 2 ^ (-x).toNat, by positivity, ?_, ?_⟩
  · simp only [commonUnit, Nat.pow_eq]
    push_cast
    rw [← hten]
    ring
  · simp only [commonUnit, Nat.pow_eq]
    push_cast
    rw [← htwo]
    ring

-- ---------------------------------------------------------------------------
-- The interval of a number
-- ---------------------------------------------------------------------------

/-- A decimal of a grid is in the interval of what rounds to the number. -/
structure Neighbourhood.Within (v : Neighbourhood) (x : ℚ) : Prop where
  below : v.low * 2 ^ v.exponent ≤ x
  above : x ≤ v.high * 2 ^ v.exponent
  tie : v.closed = false → v.low * 2 ^ v.exponent ≠ x ∧ x ≠ v.high * 2 ^ v.exponent

namespace Neighbourhood

variable {v : Neighbourhood} {p : Int}

theorem contains_iff {g : Nat} : v.contains (commonUnit p v.exponent).1 (commonUnit p v.exponent).2 g ↔
    v.Within (g * 10 ^ p) := by
  obtain ⟨c, hc, hten, htwo⟩ := commonUnit_eq p v.exponent
  have hle : ∀ k : Nat, (k * (commonUnit p v.exponent).2 ≤ g * (commonUnit p v.exponent).1 ↔
      (k : ℚ) * 2 ^ v.exponent ≤ g * 10 ^ p) := by
    intro k
    rw [← Nat.cast_le (α := ℚ), Nat.cast_mul, Nat.cast_mul, hten, htwo, ← mul_assoc, ← mul_assoc,
      mul_le_mul_iff_left₀ hc]
  have hge : ∀ k : Nat, (g * (commonUnit p v.exponent).1 ≤ k * (commonUnit p v.exponent).2 ↔
      (g : ℚ) * 10 ^ p ≤ k * 2 ^ v.exponent) := by
    intro k
    rw [← Nat.cast_le (α := ℚ), Nat.cast_mul, Nat.cast_mul, hten, htwo, ← mul_assoc, ← mul_assoc,
      mul_le_mul_iff_left₀ hc]
  unfold contains
  split
  · rename_i hclosed
    simp only [Bool.and_eq_true, decide_eq_true_eq, hle, hge]
    refine ⟨fun h => ⟨h.1, h.2, ?_⟩, fun h => ⟨h.below, h.above⟩⟩
    simp [hclosed]
  · rename_i hopen
    simp only [Bool.and_eq_true, decide_eq_true_eq, ← not_le, hle, hge]
    simp only [not_le]
    refine ⟨fun h => ⟨h.1.le, h.2.le, fun _ => ⟨h.1.ne, h.2.ne⟩⟩, fun h => ?_⟩
    obtain ⟨hlow, hhigh⟩ := h.tie (by simpa using hopen)
    exact ⟨lt_of_le_of_ne h.below hlow, lt_of_le_of_ne h.above hhigh⟩

theorem onGrid?_within {g : Nat} (h : v.onGrid? p = some g) : v.Within (g * 10 ^ p) := by
  rw [← contains_iff]
  unfold onGrid? at h
  dsimp only at h
  split at h <;> rename_i hbelow habove
  · rw [Option.some.injEq] at h
    split at h <;> subst h <;> assumption
  · rwa [← Option.some.inj h]
  · rwa [← Option.some.inj h]
  · simp at h

theorem grid_encloses (v : Neighbourhood) (p : Int) :
    ∃ g : Nat, g = v.value * (commonUnit p v.exponent).2 / (commonUnit p v.exponent).1 ∧
      (g : ℚ) * 10 ^ p ≤ v.value * 2 ^ v.exponent ∧
      (v.value : ℚ) * 2 ^ v.exponent < (g + 1) * 10 ^ p := by
  obtain ⟨c, hc, hten, htwo⟩ := commonUnit_eq p v.exponent
  have hpos : (0 : ℚ) < (commonUnit p v.exponent).1 := by
    rw [hten]
    positivity
  refine ⟨_, rfl, ?_, ?_⟩
  · have hfloor := Nat.div_mul_le_self (v.value * (commonUnit p v.exponent).2)
      (commonUnit p v.exponent).1
    rw [← Nat.cast_le (α := ℚ), Nat.cast_mul, Nat.cast_mul v.value, hten, htwo, ← mul_assoc,
      ← mul_assoc, mul_le_mul_iff_left₀ hc] at hfloor
    exact hfloor
  · have hceil := Nat.lt_mul_div_succ (v.value * (commonUnit p v.exponent).2) (by exact_mod_cast hpos)
    rw [mul_comm (commonUnit p v.exponent).1, ← Nat.cast_lt (α := ℚ), Nat.cast_mul,
      Nat.cast_mul (_ + 1), hten, htwo, ← mul_assoc, ← mul_assoc, mul_lt_mul_iff_left₀ hc] at hceil
    exact_mod_cast hceil

/-- A grid that is finer than the interval is wide has a decimal in it. -/
theorem onGrid?_isSome (hlow : v.low < v.value) (hhigh : v.value < v.high)
    (hfine : (10 : ℚ) ^ p < (v.high - v.low) * 2 ^ v.exponent) : (v.onGrid? p).isSome := by
  have hunit : (0 : ℚ) < 2 ^ v.exponent := by positivity
  have hlow : (v.low : ℚ) * 2 ^ v.exponent < v.value * 2 ^ v.exponent :=
    mul_lt_mul_of_pos_right (by exact_mod_cast hlow) hunit
  have hhigh : (v.value : ℚ) * 2 ^ v.exponent < v.high * 2 ^ v.exponent :=
    mul_lt_mul_of_pos_right (by exact_mod_cast hhigh) hunit
  obtain ⟨g, hg, hfloor, hceil⟩ := grid_encloses v p
  have hinside : v.Within (g * 10 ^ p) ∨ v.Within ((g + 1 : Nat) * 10 ^ p) := by
    push_cast
    by_cases hin : (v.low : ℚ) * 2 ^ v.exponent < g * 10 ^ p
    · have hup := hfloor.trans_lt hhigh
      exact .inl ⟨hin.le, hup.le, fun _ => ⟨hin.ne, hup.ne⟩⟩
    · have hup : ((g : ℚ) + 1) * 10 ^ p < v.high * 2 ^ v.exponent := by linarith
      have hin := hlow.trans hceil
      exact .inr ⟨hin.le, hup.le, fun _ => ⟨hin.ne, hup.ne⟩⟩
  rw [← contains_iff, ← contains_iff, hg] at hinside
  unfold onGrid?
  dsimp only
  split <;> simp_all

theorem search_onGrid? {more count : Nat} (h : (v.onGrid? (v.size - (count + more : Nat))).isSome) :
    ∃ g p, v.search more count = ⟨g, p⟩ ∧ v.onGrid? p = some g := by
  induction more generalizing count with
  | zero =>
    obtain ⟨g, hg⟩ := Option.isSome_iff_exists.mp h
    rw [Nat.add_zero] at hg
    exact ⟨g, _, by rw [search, hg, Option.getD_some], hg⟩
  | succ more ih =>
    rw [search]
    split
    · rename_i g hg
      exact ⟨g, _, rfl, hg⟩
    · exact ih (by rwa [Nat.add_assoc, Nat.add_comm 1 more])

theorem size_le (hv : 0 < v.value) : (10 : ℚ) ^ (v.size - 1) ≤ v.value * 2 ^ v.exponent := by
  have hnum : 0 < (inUnits v.value 1 (-v.exponent)).1 := by
    unfold inUnits
    split
    · exact hv
    · exact Nat.mul_pos hv (Nat.pow_pos (by decide))
  have hle := decimalSize_le hnum (inUnits_pos (n := v.value) one_pos (-v.exponent))
  rw [inUnits_value, Nat.cast_one, div_one, zpow_neg, div_inv_eq_mul] at hle
  exact hle

end Neighbourhood

-- ---------------------------------------------------------------------------
-- The shortest decimal
-- ---------------------------------------------------------------------------

variable {m : Nat} {e : Int}

theorem neighbourhood_low (hm : 0 < m) :
    ((neighbourhood m e).low : ℚ) * 2 ^ (neighbourhood m e).exponent = (m - gap m e) * 2 ^ e := by
  have hquarter : (2 : ℚ) ^ (e - 2) = 2 ^ e / 4 := by
    rw [zpow_sub₀ two_ne_zero]
    norm_num
  simp only [neighbourhood, gap, Nat.pow_eq, Bool.and_eq_true, decide_eq_true_eq, hquarter]
  split
  · rw [Nat.cast_sub (by omega)]
    push_cast
    ring
  · rw [Nat.cast_sub (by omega)]
    push_cast
    ring

theorem neighbourhood_high :
    ((neighbourhood m e).high : ℚ) * 2 ^ (neighbourhood m e).exponent = (m + 1 / 2) * 2 ^ e := by
  have hquarter : (2 : ℚ) ^ (e - 2) = 2 ^ e / 4 := by
    rw [zpow_sub₀ two_ne_zero]
    norm_num
  simp only [neighbourhood, hquarter]
  push_cast
  ring

theorem Neighbourhood.Within.roundsTo {x : ℚ} (hm : 0 < m) (h : (neighbourhood m e).Within x) :
    RoundsTo x m e := by
  obtain ⟨hbelow, habove, htie⟩ := h
  rw [neighbourhood_low hm] at hbelow htie
  rw [neighbourhood_high] at habove htie
  refine ⟨hbelow, habove, fun hodd => htie ?_⟩
  simp [neighbourhood, hodd]

/-- Seventeen digits are a finer grid than the interval of any number is wide. -/
theorem neighbourhood_fine (hm : 0 < m) (hcan : Canonical m e) :
    (10 : ℚ) ^ ((neighbourhood m e).size - 17) <
      ((neighbourhood m e).high - (neighbourhood m e).low) * 2 ^ (neighbourhood m e).exponent := by
  have hsize := (neighbourhood m e).size_le (show 0 < 4 * m by omega)
  have hunit : (0 : ℚ) < 2 ^ (neighbourhood m e).exponent := by positivity
  have hstep : (10 : ℚ) ^ ((neighbourhood m e).size - 1) =
      10 ^ 16 * 10 ^ ((neighbourhood m e).size - 17) := by
    rw [← zpow_natCast, ← zpow_add₀ (by norm_num)]
    congr 1
    omega
  rw [hstep] at hsize
  generalize (10 : ℚ) ^ ((neighbourhood m e).size - 17) = grid at *
  generalize (2 : ℚ) ^ (neighbourhood m e).exponent = unit at *
  have hmantissa : (m : ℚ) < 2 ^ 53 := by exact_mod_cast hcan.mantissa
  simp only [neighbourhood, Nat.pow_eq, Bool.and_eq_true, decide_eq_true_eq] at hsize ⊢
  push_cast at hsize
  split
  · rename_i hpower
    have hmq : (m : ℚ) = 2 ^ 52 := by exact_mod_cast hpower.1
    rw [Nat.cast_sub (by omega)]
    push_cast
    rw [hmq] at hsize ⊢
    linarith
  · rw [Nat.cast_sub (by omega)]
    push_cast
    nlinarith

theorem shortest_rounds (hm : 0 < m) (hcan : Canonical m e) : RoundsTo (shortest m e).value m e := by
  have hsome : ((neighbourhood m e).onGrid? ((neighbourhood m e).size - (1 + 16 : Nat))).isSome := by
    refine Neighbourhood.onGrid?_isSome ?_ ?_ (neighbourhood_fine hm hcan)
    · simp only [neighbourhood]
      split <;> omega
    · simp [neighbourhood]
  obtain ⟨g, p, hsearch, hgrid⟩ := Neighbourhood.search_onGrid? hsome
  rw [shortest, if_neg hm.ne', hsearch, Decimal.dropZeros_value]
  exact (Neighbourhood.onGrid?_within hgrid).roundsTo hm

-- ---------------------------------------------------------------------------
-- Reading decimals
-- ---------------------------------------------------------------------------

theorem RoundsTo.pos {x : ℚ} (hm : 0 < m) (h : RoundsTo x m e) : 2 ^ (e - 1) ≤ x := by
  have hscale : (0 : ℚ) < 2 ^ e := by positivity
  have hgap := gap_le m e
  have hmq : (1 : ℚ) ≤ m := by exact_mod_cast hm
  have hbelow := h.below
  rw [zpow_sub_one₀ two_ne_zero]
  nlinarith

theorem RoundsTo.lt {x : ℚ} (hcan : Canonical m e) (h : RoundsTo x m e) : x < 2 ^ (e + 53) := by
  have hmq : (m : ℚ) + 1 ≤ 2 ^ 53 := by exact_mod_cast hcan.mantissa
  refine h.above.trans_lt ?_
  rw [zpow_add₀ two_ne_zero, mul_comm]
  refine mul_lt_mul_of_pos_left ?_ (by positivity)
  norm_num at hmq ⊢
  linarith

theorem two_pow_le : (2 : ℚ) ^ 1075 ≤ 10 ^ 400 := by
  calc (2 : ℚ) ^ 1075 = (2 ^ 25) ^ 43 := by rw [← pow_mul]
    _ ≤ (10 ^ 8) ^ 43 := pow_le_pow_left₀ (by norm_num) (by norm_num) 43
    _ = 10 ^ 344 := by rw [← pow_mul]
    _ ≤ 10 ^ 400 := pow_le_pow_right₀ (by norm_num) (by norm_num)

/-- The two early answers are never given for a decimal in the interval of a number. -/
theorem RoundsTo.size_bounds {d : Decimal} (hd : d.digits ≠ 0) (hm : 0 < m) (hcan : Canonical m e)
    (h : RoundsTo d.value m e) : -400 ≤ d.power + Decimal.digitCount d.digits ∧
      d.power + Decimal.digitCount d.digits ≤ 400 := by
  have hlow := hcan.low
  have hhigh := hcan.high
  simp only [minExponent, maxExponent] at hlow hhigh
  constructor
  · by_contra hsmall
    have hlt : (2 : ℚ) ^ (-(1075 : Nat) : Int) < 10 ^ (-(400 : Nat) : Int) :=
      calc (2 : ℚ) ^ (-(1075 : Nat) : Int) ≤ 2 ^ (e - 1) :=
            zpow_le_zpow_right₀ (by norm_num) (by omega)
        _ ≤ d.value := h.pos hm
        _ < 10 ^ (d.power + Decimal.digitCount d.digits) := d.value_lt
        _ ≤ 10 ^ (-(400 : Nat) : Int) := zpow_le_zpow_right₀ (by norm_num) (by omega)
    rw [zpow_neg, zpow_neg, zpow_natCast, zpow_natCast] at hlt
    exact hlt.not_ge (inv_anti₀ (by positivity) two_pow_le)
  · by_contra hlarge
    have hlt : (10 : ℚ) ^ ((400 : Nat) : Int) < 2 ^ ((1075 : Nat) : Int) :=
      calc (10 : ℚ) ^ ((400 : Nat) : Int) ≤ 10 ^ (d.power + Decimal.digitCount d.digits - 1) :=
            zpow_le_zpow_right₀ (by norm_num) (by omega)
        _ ≤ d.value := Decimal.le_value hd
        _ < 2 ^ (e + 53) := h.lt hcan
        _ ≤ 2 ^ ((1075 : Nat) : Int) := zpow_le_zpow_right₀ (by norm_num) (by omega)
    rw [zpow_natCast, zpow_natCast] at hlt
    exact hlt.not_ge two_pow_le

theorem ofDecimal_of_rounds (negative : Bool) {d : Decimal} (hm : 0 < m) (hcan : Canonical m e)
    (h : RoundsTo d.value m e) : ofDecimal negative d.digits d.power = .finite negative m e := by
  have hdigits : d.digits ≠ 0 := by
    intro hzero
    have hpos : (0 : ℚ) < 2 ^ (e - 1) := by positivity
    have hle := h.pos hm
    simp only [Decimal.value, hzero, Nat.cast_zero, zero_mul] at hle
    linarith
  obtain ⟨hsmall, hlarge⟩ := h.size_bounds hdigits hm hcan
  simp only [Decimal.digitCount] at hsmall hlarge
  unfold ofDecimal
  rw [if_neg (by simp [hdigits]; omega), if_neg (by omega), Nat.pow_eq, Nat.pow_eq]
  split <;> rename_i hpower
  · obtain ⟨k, hk⟩ := Int.eq_ofNat_of_zero_le hpower
    refine ofQuotient_of_rounds negative ?_ one_ne_zero hcan ?_
    · exact Nat.mul_ne_zero hdigits (by positivity)
    · rw [Decimal.value, hk] at h
      simpa [hk] using h
  · obtain ⟨k, hk⟩ := Int.eq_ofNat_of_zero_le (a := -d.power) (by omega)
    obtain hk : d.power = -k := by omega
    refine ofQuotient_of_rounds negative hdigits (by positivity) hcan ?_
    rw [Decimal.value, hk, zpow_neg, ← div_eq_mul_inv] at h
    simpa [hk] using h

/-- Every decimal that is worth what the shortest one is worth is read as the number. -/
theorem ofDecimal_of_value (negative : Bool) {d : Decimal} (hcan : Canonical m e)
    (h : d.value = (shortest m e).value) :
    ofDecimal negative d.digits d.power = .finite negative m e := by
  rcases Nat.eq_zero_or_pos m with rfl | hm
  · obtain rfl : e = minExponent := hcan.full.resolve_left (by norm_num)
    have hdigits : d.digits = 0 := by
      have hten : (10 : ℚ) ^ d.power ≠ 0 := by positivity
      simpa [shortest, Decimal.value, hten] using h
    rw [ofDecimal, hdigits]
    rfl
  · exact ofDecimal_of_rounds negative hm hcan (h ▸ shortest_rounds hm hcan)

theorem ofDecimal_canonical (negative : Bool) (digits : Nat) (power : Int) :
    (ofDecimal negative digits power).IsCanonical := by
  simp only [ofDecimal, Nat.pow_eq]
  split_ifs
  · exact zero_canonical negative
  · trivial
  · exact ofQuotient_canonical negative _ one_ne_zero
  · exact ofQuotient_canonical negative _ (by positivity)

end Binary64

end BlockSketch
